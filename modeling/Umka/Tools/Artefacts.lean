import Umka.Lib.Stdio
import Umka.Lib.Text

/-!
# `runtests.c`: comparing artefacts

After a run, each file of the test's directory with `ref.` in its name is compared with the one that
has `out` in the place of the first such `ref`. The second name is made in an array, by writing
`out` over a copy of the first. The loops have a number of rounds here; the source has none.
-/

set_option autoImplicit false

namespace Umka.Tools

open Lib

def cmpfileBufLen : Nat := 0x100000

def pathMax : Nat := 0x1000

/-- A name in a directory; `d_name` has room for 255 bytes. -/
@[ext]
structure FileName where
  chars : List Char
  noNul : nul ∉ chars
  noSlash : '/' ∉ chars
  short : chars.length ≤ 255

instance : DecidableEq FileName := fun _ _ => decidable_of_iff _ FileName.ext_iff.symm

/-- The directory of a test: what `readdir` returns, in that order, and what the files have in
    them. -/
structure TestDir where
  name : FileName
  entries : List (FileName × List UInt8)
  nodup : (entries.map Prod.fst).Nodup

/-- What is in the file of that name, if there is one. -/
def TestDir.contents (t : TestDir) (n : List Char) : Option (List UInt8) :=
  (t.entries.find? fun e => decide (e.1.chars = n)).map Prod.snd

/-- `fopen(path, "rb")`, for paths into the directory. -/
def TestDir.fopen (t : TestDir) (path : List Char) : Option Stream :=
  if t.name.chars ++ ['/'] <+: path then
    (t.contents (path.drop (t.name.chars.length + 1))).map Stream.start
  else none

/-- What goes to `stderr`. -/
inductive Complaint
  | cantOpen (fname : List Char)
  | dontMatch (fnamea fnameb : List Char)
deriving DecidableEq, Repr

/-- The loop of `cmpfiles` over buffers of `n` bytes; `none` when the rounds are used up. -/
def cmpLoop (n : Nat) : Nat → Stream → Stream → Option Int
  | 0, _, _ => none
  | rounds + 1, a, b =>
    let (bufa, a') := a.fread n
    let (bufb, b') := b.fread n
    if bufa.length ≠ bufb.length ∨ bufa ≠ bufb then some (-1)
    else if a'.eof && b'.eof then some 0
    else cmpLoop n rounds a' b'

def cmpfiles (t : TestDir) (rounds : Nat) (fnamea fnameb : List Char) :
    Option (Int × List Complaint) :=
  match t.fopen fnamea with
  | none => some (-1, [.cantOpen fnamea])
  | some filea =>
    match t.fopen fnameb with
    | none => some (-1, [.cantOpen fnameb])
    | some fileb =>
      (cmpLoop cmpfileBufLen rounds filea fileb).map fun result =>
        (result, if result = 0 then [] else [.dontMatch fnamea fnameb])

/-- The two arrays for names. -/
structure NameBufs where
  reffname : CharBuf
  outfname : CharBuf

/-- The names that are compared for an entry with `ref.` at `refOff`; `none` when one does not fit
    in its array. -/
def companion (t : TestDir) (bufs : NameBufs) (dName : FileName) (refOff : Nat) :
    Option NameBufs := do
  let reffname ← bufs.reffname.write pathMax 0 (t.name.chars ++ '/' :: dName.chars ++ [nul])
  let outfname ← bufs.outfname.write pathMax 0 (reffname.cstr pathMax 0 ++ [nul])
  let outfname ← outfname.write pathMax (t.name.chars.length + 1 + refOff) "out".toList
  some ⟨reffname, outfname⟩

/-- The loop of `check_test_artefacts`. -/
def checkLoop (t : TestDir) (rounds : Nat) :
    List FileName → NameBufs → Option (Int × List Complaint)
  | [], _ => some (0, [])
  | dName :: rest, bufs =>
    match strstrAt "ref.".toList dName.chars with
    | none => checkLoop t rounds rest bufs
    | some refOff => do
      let bufs ← companion t bufs dName refOff
      let (result, said) ← cmpfiles t rounds (bufs.reffname.cstr pathMax 0)
        (bufs.outfname.cstr pathMax 0)
      if result ≠ 0 then some (-1, said) else checkLoop t rounds rest bufs

/-- `check_test_artefacts`, for a directory that can be opened. -/
def checkTestArtefacts (t : TestDir) (rounds : Nat) (bufs : NameBufs) :
    Option (Int × List Complaint) :=
  checkLoop t rounds (t.entries.map Prod.fst) bufs

end Umka.Tools
