import Umka.Tools.SameHash

/-!
# `tools/gensamehash.c`

Looks for names of ten digits and letters that have a given hash: it takes one name after the other,
for ever, and appends those that have the hash to a file. The names are counted up in the array,
from the right to the left as far as there is something to carry.

The hash is in `Umka/Tools/SameHash.lean`. The arguments are taken as read, and the file can be
opened.
-/

set_option autoImplicit false

namespace Umka.Tools

open Lib

def numLen : Nat := 10

/-- The loop of `increment`, with the places from `d` on behind it. -/
def incrementLoop : Nat → List Char → List Char
  | 0, num => num
  | d + 1, num =>
    match num.getD d nul with
    | '9' => num.set d 'A'
    | 'Z' => num.set d 'a'
    | 'z' => incrementLoop d (num.set d '0')
    | c => num.set d (Char.ofNat (c.toNat + 1))

def increment (num : List Char) : List Char := incrementLoop numLen num

/-- `name`, `hash_cnt` and the contents of the file. -/
structure Search where
  name : List Char
  hashCnt : UInt32
  file : List Char
deriving DecidableEq, Repr

/-- A line of the file, by `%7.7u %s\n`. -/
def lineText (hashCnt : UInt32) (name : List Char) : List Char :=
  (Nat.toDigits 10 hashCnt.toNat).leftpad 7 '0' ++ ' ' :: name ++ ['\n']

/-- The body of the loop in `main`. -/
def Search.round (hash : BitVec 32) (s : Search) : Search :=
  let h := xfsDaHashname (s.name.take numLen)
  if h = hash then
    ⟨increment s.name, s.hashCnt + 1, s.file ++ lineText s.hashCnt s.name⟩
  else { s with name := increment s.name }

/-- `main` after some rounds; the first name is written by `%10.10`. -/
def gensamehash (hash : BitVec 32) (hashCnt : UInt32) (startNum : UInt64) (rounds : Nat) : Search :=
  (Search.round hash)^[rounds] ⟨(Nat.toDigits 10 startNum.toNat).leftpad 10 '0', hashCnt, []⟩

end Umka.Tools
