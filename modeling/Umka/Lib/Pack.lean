import Mathlib.Data.Nat.ModEq
import Mathlib.Tactic.Common
import Mathlib.Algebra.Order.Ring.Nat

/-!
# Words that are added up from fields

A word is often put together by shifting each argument to its place and adding. As long as an
argument reaches no further than the next field, that is the same as cutting the word into fields;
an argument that is too wide is carried into the fields above. `Apart` is the exact condition: no
field gets a carry that it would show.
-/

set_option autoImplicit false

namespace Umka.Lib

/-- A field of `width` bits with `gap` unused bits above, and the argument put there. -/
structure BitField where
  width : Nat
  gap : Nat
  value : Nat
deriving DecidableEq, Repr

namespace BitField

/-- The distance to the next field. -/
def step (f : BitField) : Nat := f.width + f.gap

/-- The sum of all arguments, each at its place; the lowest field comes first. -/
def pack : List BitField → Nat
  | [] => 0
  | f :: fs => f.value + 2 ^ f.step * pack fs

/-- The bits that the fields take. -/
def bits : List BitField → Nat
  | [] => 0
  | f :: fs => f.step + bits fs

/-- The word that a program adds up: each argument, shifted to its place. -/
def word (place : Nat) : List BitField → UInt32
  | [] => 0
  | f :: fs => word (place + f.step) fs + (UInt32.ofNat f.value <<< UInt32.ofNat place)

/-- Each field of `r` is its own argument, cut to the field. -/
def ReadsBack (r : Nat) : List BitField → Prop
  | [] => True
  | f :: fs => r % 2 ^ f.width = f.value % 2 ^ f.width ∧ ReadsBack (r / 2 ^ f.step) fs

/-- With `c` carried into the first field, no field shows a carry. -/
def Apart (c : Nat) : List BitField → Prop
  | [] => True
  | f :: fs => c % 2 ^ f.width = 0 ∧ Apart ((f.value + c) / 2 ^ f.step) fs

instance decReadsBack : ∀ (fs : List BitField) (r : Nat), Decidable (ReadsBack r fs)
  | [], _ => isTrue trivial
  | f :: fs, r => @instDecidableAnd _ _ _ (decReadsBack fs (r / 2 ^ f.step))

instance decApart : ∀ (fs : List BitField) (c : Nat), Decidable (Apart c fs)
  | [], _ => isTrue trivial
  | f :: fs, c => @instDecidableAnd _ _ _ (decApart fs ((f.value + c) / 2 ^ f.step))

theorem pow_width_dvd_step (f : BitField) : 2 ^ f.width ∣ 2 ^ f.step :=
  Nat.pow_dvd_pow 2 (Nat.le_add_right _ _)

theorem toNat_ofNat_shiftLeft (v : Nat) {k : Nat} (hk : k < 32) :
    (UInt32.ofNat v <<< UInt32.ofNat k).toNat = 2 ^ k * v % 2 ^ 32 := by
  rw [UInt32.toNat_shiftLeft, UInt32.toNat_ofNat', UInt32.toNat_ofNat',
    Nat.mod_eq_of_lt (show k < 2 ^ 32 by omega), Nat.mod_eq_of_lt hk, Nat.shiftLeft_eq,
    Nat.mod_mul_mod, Nat.mul_comm]

/-- The word is the sum of the fields, in 32 bits. -/
theorem toNat_word (fs : List BitField) : ∀ place : Nat, place + bits fs ≤ 32 →
    (∀ f ∈ fs, 0 < f.width) → (word place fs).toNat = 2 ^ place * pack fs % 2 ^ 32 := by
  induction fs with
  | nil => exact fun _ _ _ => rfl
  | cons f fs ih =>
    intro place hbits hwidth
    -- a field of no bits could stand at place 32, where a shift does nothing
    have hstep : 0 < f.step := Nat.add_pos_left (hwidth f List.mem_cons_self) _
    rw [bits] at hbits
    have hrest := ih (place + f.step) (by omega) fun g hg => hwidth g (List.mem_cons_of_mem f hg)
    rw [word, UInt32.toNat_add, hrest, toNat_ofNat_shiftLeft f.value (by omega),
      ← Nat.add_mod, pack, Nat.mul_add, Nat.pow_add, Nat.mul_assoc, Nat.add_comm]

theorem add_mod_eq_iff (a c n : Nat) : (a + c) % n = a % n ↔ c % n = 0 := by
  constructor
  · intro h
    have hmod : a + c ≡ a + 0 [MOD n] := h
    exact Nat.ModEq.add_left_cancel' a hmod
  · intro h
    rw [Nat.add_mod, h, Nat.add_zero, Nat.mod_mod]

/-- The fields of the sum are the arguments exactly when no field shows a carry. -/
theorem readsBack_pack_iff (fs : List BitField) :
    ∀ c : Nat, ReadsBack (pack fs + c) fs ↔ Apart c fs := by
  induction fs with
  | nil => exact fun _ => Iff.rfl
  | cons f fs ih =>
    intro c
    have hsum : pack (f :: fs) + c = f.value + c + 2 ^ f.step * pack fs := by
      rw [pack, Nat.add_right_comm]
    have hlow : (pack (f :: fs) + c) % 2 ^ f.width = (f.value + c) % 2 ^ f.width := by
      rw [hsum, Nat.add_mod, Nat.mod_eq_zero_of_dvd
        (Nat.dvd_mul_right_of_dvd f.pow_width_dvd_step _), Nat.add_zero, Nat.mod_mod]
    have hhigh : (pack (f :: fs) + c) / 2 ^ f.step = pack fs + (f.value + c) / 2 ^ f.step := by
      rw [hsum, Nat.add_mul_div_left _ _ (Nat.two_pow_pos _), Nat.add_comm]
    rw [ReadsBack, Apart, hlow, hhigh, add_mod_eq_iff, ih]

/-- Only the bits that the fields take are read. -/
theorem readsBack_mod_iff (fs : List BitField) : ∀ {n : Nat} (r : Nat), bits fs ≤ n →
    (ReadsBack (r % 2 ^ n) fs ↔ ReadsBack r fs) := by
  induction fs with
  | nil => exact fun _ _ => Iff.rfl
  | cons f fs ih =>
    intro n r hn
    rw [bits] at hn
    obtain ⟨m, rfl⟩ := Nat.exists_eq_add_of_le (Nat.le_trans (Nat.le_add_right _ _) hn)
    have hlow : r % 2 ^ (f.step + m) % 2 ^ f.width = r % 2 ^ f.width :=
      Nat.mod_mod_of_dvd r
        (Nat.dvd_trans f.pow_width_dvd_step (Nat.pow_dvd_pow 2 (Nat.le_add_right _ _)))
    have hhigh : r % 2 ^ (f.step + m) / 2 ^ f.step = r / 2 ^ f.step % 2 ^ m := by
      rw [Nat.pow_add, Nat.mod_mul_right_div_self]
    rw [ReadsBack, ReadsBack, hlow, hhigh, ih _ (Nat.le_of_add_le_add_left hn)]

/-- The same for a word of `n` bits. -/
theorem readsBack_iff {fs : List BitField} {n r : Nat} (hn : bits fs ≤ n)
    (hr : r = pack fs % 2 ^ n) : ReadsBack r fs ↔ Apart 0 fs := by
  rw [hr, readsBack_mod_iff fs _ hn]
  exact readsBack_pack_iff fs 0

end BitField

end Umka.Lib
