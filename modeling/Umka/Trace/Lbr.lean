import Umka.Lib.Block
import Mathlib.Logic.Function.Basic

/-!
# Branch tracing: `trace_lbr.c`, and the file `umka_shell` leaves

After every taken branch the processor raises a trap, and `handle_sigtrap` counts the branch at
its two ends, each end that lies in the traced code. At exit the table goes to a file as it lies
in memory.
-/

set_option autoImplicit false

namespace Umka.Trace

open Lib

/-- `COVERAGE_TABLE_SIZE`. -/
def coverageTableSize : Nat := 512 * 1024

/-- `struct coverage_branch`. -/
structure CoverageBranch where
  toCnt : UInt64
  fromCnt : UInt64
deriving DecidableEq, Repr

/-- `coverage_table`, by index. -/
abbrev CoverageTable := Nat → CoverageBranch

/-- The labels `coverage_begin` and `coverage_end`; the table has room for what is between. -/
structure TracedCode where
  coverageBegin : Nat
  coverageEnd : Nat
  fits : coverageEnd ≤ coverageBegin + coverageTableSize

/-- `ip >= coverage_begin && ip < coverage_end`. -/
def TracedCode.Inside (code : TracedCode) (ip : Nat) : Prop :=
  code.coverageBegin ≤ ip ∧ ip < code.coverageEnd

instance (code : TracedCode) (ip : Nat) : Decidable (code.Inside ip) :=
  inferInstanceAs (Decidable (_ ∧ _))

/-- `MSR_IA32_LASTBRANCHFROMIP` and `MSR_IA32_LASTBRANCHTOIP` at a trap. -/
structure BranchRecord where
  fromIp : Nat
  toIp : Nat
deriving DecidableEq, Repr

end Umka.Trace
