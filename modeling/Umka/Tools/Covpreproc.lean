import Umka.Lib.Text
import Umka.Trace.Lbr

/-!
# The coverage listing: `tools/covpreproc.c`

`covpreproc` adds up coverage files and goes through the assembler's listing. A line that starts
with eight hexadecimal digits is an instruction, with its bytes in columns from the tenth on and,
if they do not fit, on lines below it; the source text starts at column 64. The tool keeps a
running number `cur` of how often control passes the current line: branches to the line come in,
branches from it go out. The tool is built for the host, where `size_t` and `unsigned long` have
64 bits as `uint64_t` has.
-/

set_option autoImplicit false

namespace Umka.Tools

open Lib Trace

/-- The length of `tmp`. -/
def tmpSize : Nat := 1024

/-- `coverage_begin`, here a position in the listing. -/
def listingBegin : Nat := 0x34

/-- `"0123456789ABCDEF"`. -/
def upperHex : List Char := "0123456789ABCDEF".toList

/-- The names `is_cond_jump` compares with, each with its own length. -/
def condPrefixes : List (List Char) :=
  ["jo", "jno", "js", "jns", "je", "jne", "jz", "jnz", "jb", "jnb", "jc", "jnc", "jae", "jnae",
    "jbe", "jna", "ja", "jnbe", "jl", "jnge", "jge", "jnl", "jle", "jng", "jg", "jnle", "jp",
    "jpe", "jnp", "jpo", "loop", "jcxz", "jecxz"].map String.toList

def isCondJump (s : List Char) : Bool :=
  condPrefixes.any fun m => m.isPrefixOf (s.dropWhile fun c => c = ' ' ∨ c = '\t')

/-- `total_to` and `total_from` after `i` rounds of the loop over an instruction's bytes. -/
def blockTotals (branches : CoverageTable) (pos : Nat) : Nat → UInt64 × UInt64
  | 0 => (0, 0)
  | i + 1 =>
    let total := blockTotals branches pos i
    let p := (pos + i) % 2 ^ 64
    if listingBegin ≤ p ∧ p < listingBegin + coverageTableSize then
      (total.1 + (branches (p - listingBegin)).toCnt,
        total.2 + (branches (p - listingBegin)).fromCnt)
    else total

/-- What is printed for one line: for an instruction, `taken` and `not_taken` if it is a
    conditional jump, and `cur`. -/
inductive Printed
  | inst (jump : Option (UInt64 × UInt64)) (cur : UInt64) (text : List Char)
  | plain (text : List Char)
deriving DecidableEq, Repr

/-- `%10" PRIu64 "`. -/
def padLeft (v : UInt64) : List Char := (toString v.toNat).toList.leftpad 10 ' '

def Printed.render : Printed → List Char
  | .inst jump cur text =>
    let mark (ok : Bool) : Char := if ok then ' ' else '-'
    let first := match jump with
      | some (taken, notTaken) => mark (taken ≠ 0 ∧ notTaken ≠ 0)
      | none => ' '
    let counts := match jump with
      | some (taken, notTaken) =>
        (padLeft taken ++ '/' :: (toString notTaken.toNat).toList).rightpad 19 ' '
      | none => List.replicate 19 ' '
    [first, mark (cur ≠ 0)] ++ counts ++ ' ' :: padLeft cur ++ " : ".toList ++ text
  | .plain text => List.replicate 32 ' ' ++ " : ".toList ++ text

end Umka.Tools
