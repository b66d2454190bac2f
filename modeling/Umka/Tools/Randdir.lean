import Umka.Lib.Stdio
import Umka.Lib.Text

/-!
# `tools/randdir.c`

Fills a folder with directories and files of random names. The numbers come from a hash, so two runs
make the same things. `path_append` looks for a name that is not there yet: it appends a name made
from the seed to the path, and when there is something of that name it goes back and tries again
with the hash of the seed. The source has no bound for that; here there is a number of rounds.

What is written to the files is left out, and a directory or a file can be made wherever there is
nothing.
-/

set_option autoImplicit false

namespace Umka.Randdir

open Umka.Lib

abbrev Text := List Char

-- what the tests for a path among others rest on
local instance lawfulBEq_text : LawfulBEq Text := List.instLawfulBEq

/-- `PRINTABLES`, with the NUL at its end: `printables_cnt` is the size of the array. -/
def printables : Text := "ABCDEFGHIJKLMNOPQRSTUVWXYZ".toList ++ [nul]

def printablesCnt : Nat := 27

def uintHash (x : UInt32) : UInt32 :=
  let x := ((x >>> 16) ^^^ x) * 0x45d9f3b
  let x := ((x >>> 16) ^^^ x) * 0x45d9f3b
  (x >>> 16) ^^^ x

/-- What there is below the root folder, under the paths by which it is found. -/
structure Disk where
  existing : List Text
  writable : List Text
  writable_subset : writable ⊆ existing

/-- `path_max` and `name_max`. -/
structure Limits where
  pathMax : UInt32
  nameMax : UInt32
  nameMax_pos : 0 < nameMax

/-! ## Paths -/

def pathGoBack (path : Text) : Text := (cutLast '/' path).getD path

def nameLen (limits : Limits) (seed : UInt32) : UInt32 :=
  let nameLen := seed % limits.nameMax
  if nameLen = 0 then 1 else nameLen

/-- The `i`-th character of a name. -/
def nameChar (seed i : UInt32) : Char :=
  let randIdx := seed ^^^ (139 * i)
  printables.getD (randIdx.toNat % printablesCnt) nul

/-- `name_buf`, as a string. -/
def nameBuf (limits : Limits) (seed : UInt32) : Text :=
  ((List.range (nameLen limits seed).toNat).map fun i => nameChar seed (UInt32.ofNat i)).takeWhile
    (· ≠ nul)

def pathAppendImpl (limits : Limits) (path : Text) (seed : UInt32) : Text :=
  if path.length + 1 + (nameLen limits seed).toNat ≥ limits.pathMax.toNat then path
  else path ++ "/".toList ++ nameBuf limits seed

/-- `file_exists`: it asks for something that may be written. -/
def fileExists (disk : Disk) (path : Text) : Bool := decide (path ∈ disk.writable)

/-- `path_append`; `none` when the rounds are used up. -/
def pathAppend (disk : Disk) (limits : Limits) : Nat → Text → UInt32 → Option Text
  | 0, _, _ => none
  | rounds + 1, path, seed =>
    let path := pathAppendImpl limits path seed
    if fileExists disk path then pathAppend disk limits rounds (pathGoBack path) (uintHash seed)
    else some path

/-! ## Making things -/

/-- What is said before the program ends with 1. -/
inductive Complaint
  | cantMkdir (path : Text)
  | cantOpen (path : Text)
deriving DecidableEq, Repr

def Disk.add (disk : Disk) (paths : List Text) : Disk where
  existing := paths ++ disk.existing
  writable := paths ++ disk.writable
  writable_subset := by
    intro p hp
    rcases List.mem_append.mp hp with hp | hp
    · exact List.mem_append_left _ hp
    · exact List.mem_append_right _ (disk.writable_subset hp)

/-- A directory is found with a slash behind its name, too. -/
def createDirectory (disk : Disk) (path : Text) : Except Complaint Disk :=
  if path ∈ disk.existing then .error (.cantMkdir path)
  else .ok (disk.add [path, path ++ "/".toList])

/-- `create_file`. What `path_append` did not find and is there cannot be opened for writing. -/
def createFile (disk : Disk) (path : Text) : Except Complaint Disk :=
  if path ∈ disk.existing then .error (.cantOpen path) else .ok (disk.add [path])

def inRange (v first last : UInt32) : Bool := decide (first ≤ v) && decide (v ≤ last)

/-- `path_buf`, and the disk. -/
structure State where
  path : Text
  disk : Disk

section

variable (limits : Limits) (rounds : Nat)

/-- The body of the loop in `main`. -/
def thing (i : UInt32) (s : State) : Option (Except Complaint State) :=
  let h := uintHash i
  if inRange (h % 100) 85 99 then
    (pathAppend s.disk limits rounds s.path h).map fun path =>
      (createDirectory s.disk path).map fun disk => ⟨path, disk⟩
  else
    let path := if inRange (h % 100) 0 14 then pathGoBack s.path else s.path
    (pathAppend s.disk limits rounds path h).map fun path =>
      (createFile s.disk path).map fun disk => ⟨pathGoBack path, disk⟩

def things : Nat → UInt32 → State → Option (Except Complaint State)
  | 0, _, s => some (.ok s)
  | todo + 1, i, s =>
    (thing limits rounds i s).bind fun
      | .error complaint => some (.error complaint)
      | .ok s' => things todo (i + 1) s'

/-- `main`, for a folder that could be opened. -/
def main (randomThingsCount : UInt32) (disk : Disk) : Option (Except Complaint State) :=
  things limits rounds randomThingsCount.toNat 0 ⟨".".toList, disk⟩

end

end Umka.Randdir
