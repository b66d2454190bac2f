import Umka.Lib.Forest
import Umka.Lib.Text

/-!
# `umka_gen_devices_dat.c`

The program rebuilds the part of the ACPI namespace that PCI devices hang in. For each device
it reads the firmware's path, `\S1.S2...Sk`, and walks down the tree along it; a node that is
not there yet is made, and the value of its `_ADR` — and of its `_PRT`, unless it is the last
one of the path — is fetched from the firmware through `/proc/acpi/call` and attached to it.

The tree's own routines belong to the kernel. `kos_acpi_lookup_node` finds a child by its name
and `kos_aml_attach` adds one; going down one level is `Forest.enter`. What the firmware answers
is a function of the path asked for.
-/

set_option autoImplicit false

namespace Umka.Acpi

open Lib

/-- A name of four characters, as `*(uint32_t *)name` holds it. -/
structure Seg where
  chars : List Char
  size_eq : chars.length = 4
deriving DecidableEq

def adrName : Seg := ⟨"_ADR".toList, rfl⟩
def prtName : Seg := ⟨"_PRT".toList, rfl⟩

/-- How the program ends before its time: `exit(1)`, or undefined behaviour. -/
inductive Stop
  | exited
  | crashed
deriving DecidableEq, Repr

/-! ## Asking the firmware -/

/-- One element of a package: four integers. -/
structure Quad where
  v0 : Nat
  v1 : Nat
  v2 : Nat
  v3 : Nat
deriving DecidableEq, Repr

inductive AcpiValue
  | integer (value : Nat)
  | package (list : List Quad)
deriving DecidableEq, Repr

/-- The firmware's answer to a path; `none` when the file cannot be opened. -/
abbrev AcpiCall := List Char → Option (List Char)

/-- `ACPI_BUF_SIZE`. -/
def acpiBufSize : Nat := 0x1000

def acpiGetNextNumber (str : List Char) : Nat × List Char :=
  strtoull16 (str.dropWhile (· ∈ ['[', ']', ' ', ',']))

/-- The loop over the elements of a package. -/
def readQuads : Nat → List Char → List Quad
  | 0, _ => []
  | n + 1, str =>
    let r0 := acpiGetNextNumber str
    let r1 := acpiGetNextNumber r0.2
    let r2 := acpiGetNextNumber r1.2
    let r3 := acpiGetNextNumber r2.2
    ⟨r0.1, r1.1, r2.1, r3.1⟩ :: readQuads n r3.2

/-- The result is a null pointer, `none`, for a reply that is neither a number nor a package. -/
def acpiGet (call : AcpiCall) (path : List Char) : Except Stop (Option AcpiValue) :=
  match call path with
  | none => .error .exited
  | some reply =>
    let read := reply.take acpiBufSize
    -- `acpi_value[len-1]` with `len = 0`
    if read = [] then .error .crashed else
    let text := read.dropLast.takeWhile (· ≠ nul)
    match text with
    | '0' :: _ => .ok (some (.integer (strtoull16 text).1))
    | '[' :: _ =>
      if text.count '[' ≠ text.count ']' then .error .exited
      else .ok (some (.package (readQuads (text.count '[' - 1) text)))
    | _ => .ok none

/-- `PATH_MAX`. -/
def pathMax : Nat := 4096

/-- The path that `acpi_get_at` writes from its end: the name, then the names up the chain of
    parents, and a backslash over the first dot. -/
def rebuildPath (chain : List Seg) (name : Seg) : List Char :=
  '\\' :: (chain.foldl (fun path seg => '.' :: (seg.chars ++ path)) ('.' :: name.chars)).tail

/-- `chain` is the node's name and those of its ancestors, the root's children last. The path
    buffer has room for the name and `(PATH_MAX - 6) / 5` of them. -/
def acpiGetAt (call : AcpiCall) (chain : List Seg) (name : Seg) : Except Stop AcpiValue :=
  if pathMax - 6 < 5 * chain.length then .error .crashed else
  match acpiGet call (rebuildPath chain name) with
  | .error e => .error e
  -- `n->name = name` through a null pointer
  | .ok none => .error .crashed
  | .ok (some v) => .ok v

/-! ## The tree -/

inductive NodeKind
  | device
  | value (v : AcpiValue)
deriving DecidableEq, Repr

/-- The children of a node. -/
abbrev Nodes := Forest Seg NodeKind

/-- The children that a new device gets. -/
def newDevice (call : AcpiCall) (chain : List Seg) (more : Bool) :
    Except Stop (NodeKind × Nodes) := do
  let adr ← acpiGetAt call chain adrName
  if more then
    let prt ← acpiGetAt call chain prtName
    pure (.device, .node adrName (.value adr) .empty (.node prtName (.value prt) .empty .empty))
  else
    pure (.device, .node adrName (.value adr) .empty .empty)

/-- The loop of `acpi_process_dev`, over the names and whether
    `name < path + dir_name_len - 5` holds at them. -/
def descend (call : AcpiCall) : List Seg → List (Seg × Bool) → Nodes → Except Stop Nodes
  | _, [], f => .ok f
  | chain, (name, more) :: rest, f =>
    f.enter name (newDevice call (name :: chain) more) (descend call (name :: chain) rest)

/-- The names the loop visits, from the first one on: four characters, and over the character
    that follows them. A name of fewer characters, which no firmware path has, is not visited. -/
def namesOf : List Char → List (Seg × Bool)
  | [a, b, c, d] => [(⟨[a, b, c, d], rfl⟩, false)]
  | a :: b :: c :: d :: _ :: rest => (⟨[a, b, c, d], rfl⟩, decide (1 < rest.length)) :: namesOf rest
  | _ => []

/-- `acpi_process_dev`, on the children of `kos_acpi_root`. -/
def acpiProcessDev (call : AcpiCall) (path : List Char) (root : Nodes) : Except Stop Nodes :=
  descend call [] (namesOf path.tail) root

/-- The calls that `main` makes, one for each device that has a firmware path. -/
def processDevs (call : AcpiCall) : List (List Char) → Nodes → Except Stop Nodes
  | [], root => .ok root
  | path :: paths, root => do
    let root' ← acpiProcessDev call path root
    processDevs call paths root'

end Umka.Acpi
