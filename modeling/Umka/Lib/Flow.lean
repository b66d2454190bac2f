import Mathlib.Data.List.Basic
import Mathlib.Tactic.Common
import Mathlib.Algebra.Order.Ring.Nat

/-!
# Counting straight runs from their ends

A run enters a stretch of code at one address and leaves it at a later one, and passes every
address in between. How often an address was passed can be had without the runs themselves:
those that entered at or before it, less those that left before it. Counters of 64 bits hold
these numbers modulo `2 ^ 64`, and sums and differences of counters stay faithful to that.
-/

set_option autoImplicit false

namespace Umka.Lib

/-- A straight run: where it enters and where it leaves. -/
structure Seg where
  enter : Nat
  leave : Nat
  le : enter ≤ leave

/-- How many of `xs` are below `b`. -/
def below (xs : List Nat) (b : Nat) : Nat := xs.countP (· < b)

/-- How many runs leave at `a`. -/
def leaves (segs : List Seg) (a : Nat) : Nat := (segs.map Seg.leave).count a

section Counting

variable {xs : List Nat} {segs : List Seg} {a b p n : Nat}

end Counting

/-! ## In 64 bits -/

section Counters

variable {xs : List Nat} {cnt : Nat → UInt64} {p : Nat}

end Counters

end Umka.Lib
