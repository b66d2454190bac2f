import Umka.Lib.Numeral

/-!
# `runtests.c`: the timeout of a test

`get_test_timeout` reads up to 16 bytes of `timeout.txt` into an array of 16 that is not initialised
and has no room for a terminator, and gives it to `strtoul`, which tells the base by the first
digits. `long` has 32 bits.
-/

set_option autoImplicit false

namespace Umka.Tools

open Lib

def timeoutStrMaxLen : Nat := 16

/-- The array after `fread`: the bytes of the file, and behind them what was there. -/
def timeoutStr (file : List Char) (stale : CharBuf) : List Char :=
  file.take timeoutStrMaxLen ++ ((List.range timeoutStrMaxLen).drop file.length).map stale

/-- `strtoul` wants to see what is behind the text: a number goes up to its end, or the text ends
    where a hexadecimal number may start. -/
def readsPast (text : List Char) : Bool :=
  let number := (unsign (text.dropWhile isSpace)).2
  endptr text = [] ∨ number = ['0', 'x'] ∨ number = ['0', 'X']

/-- `strtoul(text, &end, 0)` for text that goes up to the end of the array: the number and `end`, or
    `none` if it reads past the array. -/
def strtoulIn (text : List Char) : Option (Nat × List Char) :=
  if readsPast text then none else some (strtoul 32 text, endptr text)

/-- `get_test_timeout`; `none` for a read outside of the array. There is no file if it cannot be
    opened. -/
def getTestTimeout (file : Option (List Char)) (stale : CharBuf) : Option Nat :=
  match file with
  | none => some 0
  | some bytes =>
    let str := timeoutStr bytes stale
    match strtoulIn str with
    | none => none
    | some (n, 's' :: _) => some n
    | some (n, 'm' :: rest) => (strtoulIn rest).map fun (sec, _) => (n * 60 + sec) % 2 ^ 32
    -- the message has the array as a string in it
    | some _ => if nul ∈ str then some 0 else none

end Umka.Tools
