import Umka.Lib.Numeral

/-!
# `shell.c`: numbers in and out

`parse_uint32` and `parse_uint64` read the numeric arguments of `read70`, `read80` and their kin
through `strtoumax`. `bytes_to_kmgtpe` abbreviates the sizes of disks and partitions with `lldiv`,
which divides signed numbers.
-/

set_option autoImplicit false

namespace Umka.Shell

open Lib

/-! ## Arguments -/

/-- `parse_uintmax`; `strtoumax` has 64 bits. -/
def parseUintmax (str : List Char) : Bool × UInt64 :=
  (endptr str ≠ str ∧ endptr str = [], UInt64.ofNat (strtoul 64 str))

def invalidNumber (str : List Char) : String := "invalid number: " ++ String.ofList str ++ "\n"

/-- `parse_uint32`: the number, or what is printed. -/
def parseUint32 (str : List Char) : Except String UInt32 :=
  let (ok, x) := parseUintmax str
  if ok ∧ x ≤ 0xffffffff then .ok x.toUInt32 else .error (invalidNumber str)

/-- `parse_uint64`. -/
def parseUint64 (str : List Char) : Except String UInt64 :=
  let (ok, x) := parseUintmax str
  if ok ∧ x ≤ 0xffffffffffffffff then .ok x else .error (invalidNumber str)

/-! ## Sizes -/

/-- `lldiv`: quotient and remainder, rounded towards zero. -/
def lldiv (numer denom : Int) : Int × Int := (numer.tdiv denom, numer.tmod denom)

/-- The divisions of `bytes_to_kmgtpe`: as long as one leaves no rest, the next unit is tried. -/
def divideOn : List String → UInt64 → String → UInt64 × String
  | [], bytes, kmg => (bytes, kmg)
  | unit :: units, bytes, kmg =>
    let d := lldiv bytes.toInt64.toInt 1024
    if d.2 ≠ 0 then (bytes, kmg) else divideOn units (Int64.ofInt d.1).toUInt64 unit

/-- `bytes_to_kmgtpe`. -/
def bytesToKmgtpe (bytes : UInt64) : UInt64 × String :=
  if bytes = 0 then (bytes, "B")
  else divideOn ["kiB", "MiB", "GiB", "TiB", "PiB", "EiB"] bytes "B"

end Umka.Shell
