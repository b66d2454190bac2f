import Umka.Acpi.DevicesDat

/-!
# `umka_gen_devices_dat.c`: the two path buffers

`main` reads a firmware path into `acpi_path`, and `acpi_process_dev` cuts it into names where it
stands: it puts a NUL over the dot behind each name, and goes on five characters further.
`acpi_get_at` does the opposite in a buffer of its own, which it fills from the end: the name it is
to ask for, then the names up the chain of parents, each with a dot before it, and at last a
backslash over the first dot.

Both are given here character by character. A write that leaves its buffer is `none`.
-/

set_option autoImplicit false

namespace Umka.Acpi

open Lib (CharBuf nul)

/-! ## Building a path -/

/-- The loop of `acpi_get_at`, up to the node without a parent. -/
def climb : List Seg → CharBuf → Nat → Option (CharBuf × Nat)
  | [], path, cur => some (path, cur)
  | node :: parents, path, cur =>
    -- `cur -= 5` leaves the buffer
    if cur < 5 then none else do
    let path ← path.write pathMax (cur - 5) ['.']
    let path ← path.write pathMax (cur - 5 + 1) node.chars
    climb parents path (cur - 5)

/-- What `acpi_get_at` writes before its loop; `stack` is what its array holds at first. -/
def startPath (stack : CharBuf) (name : Seg) : Option CharBuf := do
  let path ← stack.write pathMax (pathMax - 1) [nul]
  let path ← path.write pathMax (pathMax - 5) name.chars
  path.write pathMax (pathMax - 6) ['.']

/-- The string that `acpi_get_at` hands to `acpi_get`. -/
def acpiGetAtPath (stack : CharBuf) (chain : List Seg) (name : Seg) : Option (List Char) := do
  let path ← startPath stack name
  let (path, cur) ← climb chain path (pathMax - 6)
  let path ← path.write pathMax cur ['\\']
  some (path.cstr pathMax cur)

/-! ## Cutting a path -/

/-- `*(uint32_t *)name`. -/
def segAt (path : CharBuf) (name : Nat) : Seg :=
  ⟨[path name, path (name + 1), path (name + 2), path (name + 3)], rfl⟩

/-- One round of the loop of `acpi_process_dev`. -/
structure Visit where
  /-- the four characters that a new node is given as its name -/
  name : Seg
  /-- the string that `kos_acpi_lookup_node` is given -/
  text : List Char
  /-- the paths that are asked for if the node is not there yet -/
  asked : List (Option (List Char))
deriving DecidableEq

/-- The loop, at `name`. The parent of a node is the one of the round before, found or made, so
    `chain` is the names of the earlier rounds. -/
def visitFrom (stack : CharBuf) (dirNameLen : Nat) :
    Nat → CharBuf → List Seg → Nat → Option (List Visit)
  | 0, _, _, _ => some []
  | fuel + 1, path, chain, name =>
    if name < dirNameLen then do
      let path ← path.write pathMax (name + 4) [nul]
      let node := segAt path name
      let adr := acpiGetAtPath stack (node :: chain) adrName
      let prt := acpiGetAtPath stack (node :: chain) prtName
      let visit : Visit :=
        ⟨node, path.cstr pathMax name, if name + 5 < dirNameLen then [adr, prt] else [adr]⟩
      let visits ← visitFrom stack dirNameLen fuel path (node :: chain) (name + 5)
      some (visit :: visits)
    else some []

/-- The rounds of `acpi_process_dev`: at most one for each five characters. -/
def acpiProcessDevVisits (stack path : CharBuf) : Option (List Visit) :=
  let dirNameLen := (path.cstr pathMax 0).length - 1
  visitFrom stack dirNameLen dirNameLen path [] 1

/-- What `main` leaves in `acpi_path`: the file, with a NUL over its last character. -/
def readPath (acpiPath : CharBuf) (file : List Char) : Option CharBuf := do
  let read := file.take pathMax
  let path ← acpiPath.write pathMax 0 read
  -- `acpi_path[len-1]` with `len = 0`
  if read = [] then none else path.write pathMax (read.length - 1) [nul]

/-- The rounds for one device of `main`. -/
def deviceVisits (stack acpiPath : CharBuf) (file : List Char) : Option (List Visit) := do
  let path ← readPath acpiPath file
  acpiProcessDevVisits stack path

end Umka.Acpi
