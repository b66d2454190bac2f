import Mathlib.Data.List.Basic
import Mathlib.Tactic.Common
import Umka.Vdisk.Basic

/-!
# The kernel's file functions, as the programs around it see them

The shell and the FUSE program reach the kernel's file systems through `umka_sys_lfn`:
subfunction 1 lists a directory, subfunction 0 reads from a file, subfunction 5 returns an
entry's attributes. The kernel is not in the tree, so the calls are parameters of the programs,
and what the programs may count on is stated over a tree of files and folders, as the
assumptions `ListsDir` and `Lfn.Serves`: subfunction 1 returns as many of the entries from
`offset` on as there are, up to `size`, and says `END_OF_FILE` when that is fewer than `size`;
subfunction 0 does the same with bytes; a call that fails leaves the caller's buffer alone.
`listDir` and `KosFs.lfn` are calls that keep to it.
-/

set_option autoImplicit false

namespace Umka.Kos

open Vdisk

/-- `fs_enc_t`. -/
inductive FsEnc
  | default
  | cp866
  | utf16
  | utf8
  | invalid
deriving DecidableEq, Repr

/-- `bdfe_t`: a directory entry. Its name is the string at `name`, its times are the words that
    `kos_time_to_epoch` converts. -/
structure Bdfe where
  attr : UInt32
  ctime : UInt64
  atime : UInt64
  mtime : UInt64
  size : UInt64
  name : List Char
deriving DecidableEq, Repr

/-- `KF_FOLDER`. -/
def kfFolder : UInt32 := 0x10

/-- `BDFE_LEN_CP866`. -/
def bdfeLenCp866 : Nat := 304

/-- `BDFE_LEN_UNICODE`. -/
def bdfeLenUnicode : Nat := 560

/-- `f7080ret_t`. -/
structure F7080Ret where
  status : KosError
  count : Nat
deriving DecidableEq, Repr

/-! ## Listing a directory -/

/-- `f7080s1info_t`: the counts, and the entry that starts at each place of `bdfes`. -/
structure DirInfo where
  cnt : Nat
  totalCnt : Nat
  bdfes : Nat → Option Bdfe

/-- Subfunction 1 for one path: offset and size, and what it does to the buffer. -/
abbrev DirCall := Nat → Nat → DirInfo → F7080Ret × DirInfo

/-- The distance at which the kernel writes the entries. -/
def kernelBdfeLen : FsEnc → Nat
  | .default => bdfeLenCp866
  | .cp866 => bdfeLenCp866
  | .utf16 => bdfeLenUnicode
  | .utf8 => bdfeLenUnicode
  | .invalid => bdfeLenUnicode

/-- What is assumed of subfunction 1 for a directory of `entries`: of those from `offset` on it
    returns as many as there are, up to `size`; it says how many in both counts, and by its
    status whether that is `size`; and it writes them one after another. -/
structure ListsDir (call : DirCall) (entries : List Bdfe) (enc : FsEnc) : Prop where
  count (offset size : Nat) (info : DirInfo) :
    (call offset size info).1.count = ((entries.drop offset).take size).length
  cnt (offset size : Nat) (info : DirInfo) :
    (call offset size info).2.cnt = ((entries.drop offset).take size).length
  status (offset size : Nat) (info : DirInfo) :
    (call offset size info).1.status
      = if ((entries.drop offset).take size).length = size then .success else .endOfFile
  bdfe (offset size : Nat) (info : DirInfo) (i : Nat)
    (h : i < ((entries.drop offset).take size).length) :
    (call offset size info).2.bdfes (i * kernelBdfeLen enc) = ((entries.drop offset).take size)[i]?

/-- The same of the calls for all directories; `kernel entries` is the call for the one with these
    entries. -/
def ListsDirs (kernel : List Bdfe → DirCall) (enc : FsEnc) : Prop :=
  ∀ entries, ListsDir (kernel entries) entries enc

section ListsDir

variable {call : DirCall} {entries : List Bdfe} {enc : FsEnc}

/-- There are `size` entries to return when the directory does not end before that. -/
theorem ListsDir.status_eq (h : ListsDir call entries enc) (offset size : Nat) (info : DirInfo) :
    (call offset size info).1.status
      = if offset + size ≤ entries.length ∨ size = 0 then .success else .endOfFile := by
  have hlen : ((entries.drop offset).take size).length = size
      ↔ offset + size ≤ entries.length ∨ size = 0 := by
    rw [List.length_take, List.length_drop]
    omega
  rw [h.status]
  simp only [hlen]

/-- A walk of the buffer at the kernel's own distance meets the entries. -/
theorem ListsDir.walk (h : ListsDir call entries enc) (offset size : Nat) (info : DirInfo) :
    (List.range (call offset size info).2.cnt).map
        (fun i => (call offset size info).2.bdfes (i * kernelBdfeLen enc))
      = ((entries.drop offset).take size).map some := by
  apply List.ext_getElem?
  intro i
  rw [List.getElem?_map, List.getElem?_map, h.cnt]
  by_cases hi : i < ((entries.drop offset).take size).length
  · rw [List.getElem?_range hi, Option.map_some, h.bdfe offset size info i hi,
      List.getElem?_eq_getElem hi]
    rfl
  · have hle := Nat.not_lt.mp hi
    rw [List.getElem?_eq_none (by rwa [List.length_range]), List.getElem?_eq_none hle]
    rfl

end ListsDir

/-- A call that does so, and writes nothing else. -/
def listDir (entries : List Bdfe) (enc : FsEnc) : DirCall := fun offset size info =>
  let es := (entries.drop offset).take size
  (⟨if es.length = size then .success else .endOfFile, es.length⟩,
    { cnt := es.length
      totalCnt := entries.length
      bdfes := fun pos =>
        if pos % kernelBdfeLen enc = 0 ∧ pos / kernelBdfeLen enc < es.length
        then es[pos / kernelBdfeLen enc]? else info.bdfes pos })

theorem kernelBdfeLen_pos (enc : FsEnc) : 0 < kernelBdfeLen enc := by
  cases enc <;> decide

theorem listsDir_listDir (entries : List Bdfe) (enc : FsEnc) :
    ListsDir (listDir entries enc) entries enc where
  count _ _ _ := rfl
  cnt _ _ _ := rfl
  status _ _ _ := rfl
  bdfe offset size info i h := by
    have hdiv : i * kernelBdfeLen enc / kernelBdfeLen enc = i :=
      Nat.mul_div_cancel _ (kernelBdfeLen_pos enc)
    show (if _ ∧ _ then _ else _) = _
    rw [hdiv, if_pos ⟨Nat.mul_mod_left _ _, h⟩]

theorem listsDirs_listDir (enc : FsEnc) : ListsDirs (listDir · enc) enc :=
  fun entries => listsDir_listDir entries enc

/-! ## Files and folders -/

/-- What an entry says of a file or a folder besides its kind and its size. -/
structure NodeInfo where
  attr : UInt32
  ctime : UInt64
  atime : UInt64
  mtime : UInt64
deriving DecidableEq, Repr

/-- The contents of a file; its length fits into `bdfe_t.size`. -/
structure FileData where
  bytes : List UInt8
  length_lt : bytes.length < 2 ^ 64
deriving DecidableEq

inductive FsNode
  | file (info : NodeInfo) (data : FileData)
  | folder (info : NodeInfo) (entries : List (List Char × FsNode))

/-- The node at the end of a path. -/
def FsNode.find : FsNode → List (List Char) → Option FsNode
  | node, [] => some node
  | .file _ _, _ :: _ => none
  | .folder _ entries, name :: path => (entries.lookup name).bind fun node => node.find path

/-- The entry of a node: a folder has `KF_FOLDER` and no size. -/
def FsNode.bdfe (name : List Char) : FsNode → Bdfe
  | .file info data => {
      attr := info.attr &&& ~~~kfFolder
      ctime := info.ctime
      atime := info.atime
      mtime := info.mtime
      size := UInt64.ofNat data.bytes.length
      name := name }
  | .folder info _ => {
      attr := info.attr ||| kfFolder
      ctime := info.ctime
      atime := info.atime
      mtime := info.mtime
      size := 0
      name := name }

/-- A file system: its tree, and the folders whose contents cannot be read. -/
structure KosFs where
  root : FsNode
  damaged : List (List Char) → Bool

/-- The names in a path. -/
def pathNames (path : List Char) : List (List Char) := (path.splitOn '/').filter (· ≠ [])

def KosFs.node? (fs : KosFs) (path : List Char) : Option FsNode := fs.root.find (pathNames path)

/-- The entries of a folder that can be read. -/
def KosFs.entries? (fs : KosFs) (path : List Char) : Option (List Bdfe) :=
  match fs.node? path with
  | some (.folder _ entries) =>
    if fs.damaged (pathNames path) then none else some (entries.map fun e => e.2.bdfe e.1)
  | _ => none

/-- `umka_sys_lfn` as the FUSE program calls it: subfunction 5 for a path, subfunction 0 for a
    path, an offset and a count, and subfunction 1 for a path and an encoding, each with what it
    does to the caller's buffer. -/
structure Lfn where
  getInfo : List Char → Bdfe → F7080Ret × Bdfe
  readFile : List Char → Nat → Nat → (Nat → UInt8) → F7080Ret × (Nat → UInt8)
  readFolder : List Char → FsEnc → DirCall

/-- What is assumed of the calls over a file system. Subfunction 5 returns no name; subfunction 0
    puts up to `count` bytes from `offset` on at the start of the buffer; a call that fails says
    so and leaves the buffer alone. -/
structure Lfn.Serves (lfn : Lfn) (fs : KosFs) : Prop where
  getInfo {path : List Char} {node : FsNode} (h : fs.node? path = some node) (buf : Bdfe) :
    lfn.getInfo path buf = (⟨.success, 0⟩, node.bdfe buf.name)
  getInfo_none {path : List Char} (h : fs.node? path = none) (buf : Bdfe) :
    lfn.getInfo path buf = (⟨.fileNotFound, 0⟩, buf)
  readFile {path : List Char} {info : NodeInfo} {data : FileData}
    (h : fs.node? path = some (.file info data)) (offset count : Nat) (buf : Nat → UInt8) :
    lfn.readFile path offset count buf =
      (⟨if ((data.bytes.drop offset).take count).length = count then .success else .endOfFile,
          ((data.bytes.drop offset).take count).length⟩,
        fun i => ((data.bytes.drop offset).take count).getD i (buf i))
  readFolder {path : List Char} {entries : List Bdfe} (h : fs.entries? path = some entries)
    (enc : FsEnc) : ListsDir (lfn.readFolder path enc) entries enc
  readFolder_none {path : List Char} (h : fs.entries? path = none) (enc : FsEnc)
    (offset size : Nat) (info : DirInfo) :
    (lfn.readFolder path enc offset size info).1.status ≠ .success
      ∧ (lfn.readFolder path enc offset size info).2 = info

/-- Calls that do so. -/
def KosFs.lfn (fs : KosFs) : Lfn where
  getInfo path buf :=
    match fs.node? path with
    | some node => (⟨.success, 0⟩, node.bdfe buf.name)
    | none => (⟨.fileNotFound, 0⟩, buf)
  readFile path offset count buf :=
    match fs.node? path with
    | some (.file _ data) =>
      let bytes := (data.bytes.drop offset).take count
      (⟨if bytes.length = count then .success else .endOfFile, bytes.length⟩,
        fun i => bytes.getD i (buf i))
    | some (.folder _ _) => (⟨.accessDenied, 0⟩, buf)
    | none => (⟨.fileNotFound, 0⟩, buf)
  readFolder path enc :=
    match fs.entries? path with
    | some entries => listDir entries enc
    | none => fun _ _ info => (⟨.accessDenied, 0⟩, info)

theorem KosFs.serves_lfn (fs : KosFs) : fs.lfn.Serves fs where
  getInfo h buf := by simp only [KosFs.lfn, h]
  getInfo_none h buf := by simp only [KosFs.lfn, h]
  readFile h offset count buf := by simp only [KosFs.lfn, h]
  readFolder h enc := by
    simp only [KosFs.lfn, h]
    exact listsDir_listDir _ enc
  readFolder_none h enc offset size info := by
    simp only [KosFs.lfn, h]
    exact ⟨nofun, trivial⟩

end Umka.Kos
