import Mathlib.Data.List.Basic
import Mathlib.Tactic.Common
import Mathlib.Algebra.Order.Ring.Nat

/-!
# Little-endian words, and files of records

A file of records of one size that ends with a marker is read back record by record, provided that
no record starts like the marker.
-/

set_option autoImplicit false

namespace Umka.Lib

/-! ## Words -/

/-- The `w` bytes of `n`, the lowest first. -/
def toLE : Nat → Nat → List UInt8
  | 0, _ => []
  | w + 1, n => UInt8.ofNat n :: toLE w (n / 256)

def ofLE : List UInt8 → Nat
  | [] => 0
  | b :: bs => b.toNat + 256 * ofLE bs

theorem length_toLE (w : Nat) : ∀ n : Nat, (toLE w n).length = w := by
  induction w with
  | zero => exact fun _ => rfl
  | succ w ih => exact fun n => congrArg (· + 1) (ih (n / 256))

theorem ofLE_toLE (w : Nat) : ∀ {n : Nat}, n < 256 ^ w → ofLE (toLE w n) = n := by
  induction w with
  | zero =>
    intro n hn
    exact (Nat.lt_one_iff.mp hn).symm
  | succ w ih =>
    intro n hn
    have hdiv : n / 256 < 256 ^ w := Nat.div_lt_of_lt_mul
      (by rwa [Nat.pow_succ, Nat.mul_comm] at hn)
    rw [toLE, ofLE, ih hdiv, UInt8.toNat_ofNat']
    omega

/-! ## Records -/

section Records

variable {α β : Type} (size : Nat) (marker : List UInt8) (dec : List UInt8 → β)

/-- Records of `size` bytes, up to a marker; `none` when the file ends before that. Each round takes
    a record, so a file of `fuel` bytes has fewer than `fuel` rounds. -/
def readRecords : Nat → List UInt8 → Option (List β)
  | 0, _ => none
  | fuel + 1, bytes =>
    if marker <+: bytes then some []
    else if bytes.length < size then none
    else (readRecords fuel (bytes.drop size)).map (dec (bytes.take size) :: ·)

variable {size marker dec}

theorem readRecords_cons {bytes rest : List UInt8} {fuel : Nat} (hsize : bytes.length = size)
    (hmarker : ¬ marker <+: bytes ++ rest) :
    readRecords size marker dec (fuel + 1) (bytes ++ rest)
      = (readRecords size marker dec fuel rest).map (dec bytes :: ·) := by
  rw [readRecords, if_neg hmarker, if_neg (by rw [List.length_append]; omega),
    List.drop_left' hsize, List.take_left' hsize]

/-- What was written is read, if no record starts like the marker. -/
theorem readRecords_flatMap {enc : α → List UInt8} {as : List α}
    (hsize : ∀ a ∈ as, (enc a).length = size)
    (hmarker : ∀ a ∈ as, ∀ rest, ¬ marker <+: enc a ++ rest) :
    ∀ fuel, as.length < fuel →
      readRecords size marker dec fuel (as.flatMap enc ++ marker)
        = some (as.map fun a => dec (enc a)) := by
  induction as with
  | nil =>
    intro fuel hfuel
    obtain ⟨fuel, rfl⟩ := Nat.exists_eq_add_one_of_ne_zero (Nat.ne_of_gt hfuel)
    exact if_pos (List.prefix_refl marker)
  | cons a as ih =>
    intro fuel hfuel
    rw [List.length_cons] at hfuel
    obtain ⟨fuel, rfl⟩ := Nat.exists_eq_add_one_of_ne_zero (Nat.ne_of_gt (Nat.zero_lt_of_lt hfuel))
    have hrest := ih (fun b hb => hsize b (List.mem_cons_of_mem a hb))
      (fun b hb => hmarker b (List.mem_cons_of_mem a hb)) fuel (Nat.lt_of_succ_lt_succ hfuel)
    rw [List.flatMap_cons, List.append_assoc, readRecords_cons (hsize a List.mem_cons_self)
      (hmarker a List.mem_cons_self _), hrest, Option.map_some, List.map_cons]

end Records

end Umka.Lib
