import Mathlib.Data.List.Basic
import Mathlib.Tactic.Common
import Mathlib.Algebra.Order.Ring.Nat

/-!
# Bits, the lowest first

A list of bits is a number whose lowest bit is the first one. Taking bits off the front of a list is
division by a power of two, and the bits in front are the remainder.
-/

set_option autoImplicit false

namespace Umka.Lib

def ofBits : List Bool → Nat
  | [] => 0
  | b :: bs => b.toNat + 2 * ofBits bs

/-- The `w` lowest bits of `n`. -/
def toBits : Nat → Nat → List Bool
  | 0, _ => []
  | w + 1, n => decide (n % 2 = 1) :: toBits w (n / 2)

@[simp] theorem length_toBits (w : Nat) : ∀ n : Nat, (toBits w n).length = w := by
  induction w with
  | zero => exact fun _ => rfl
  | succ w ih => exact fun n => congrArg (· + 1) (ih (n / 2))

@[simp] theorem ofBits_nil : ofBits [] = 0 := rfl

@[simp] theorem ofBits_cons (b : Bool) (bs : List Bool) :
    ofBits (b :: bs) = b.toNat + 2 * ofBits bs := rfl

theorem toNat_mod_two (n : Nat) : (decide (n % 2 = 1)).toNat = n % 2 := by
  rcases Nat.mod_two_eq_zero_or_one n with h | h <;> simp [h]

theorem ofBits_toBits (w : Nat) : ∀ n : Nat, ofBits (toBits w n) = n % 2 ^ w := by
  induction w with
  | zero => exact fun n => (Nat.mod_one n).symm
  | succ w ih =>
    intro n
    rw [toBits, ofBits_cons, toNat_mod_two, ih, Nat.pow_succ', Nat.mod_mul]

theorem toBits_ofBits (bs : List Bool) : toBits bs.length (ofBits bs) = bs := by
  induction bs with
  | nil => rfl
  | cons b bs ih =>
    have hdiv : (b.toNat + 2 * ofBits bs) / 2 = ofBits bs := by
      have hb : b.toNat < 2 := b.toNat_lt
      omega
    have hmod : decide ((b.toNat + 2 * ofBits bs) % 2 = 1) = b := by cases b <;> simp
    rw [List.length_cons, toBits, ofBits_cons, hdiv, hmod, ih]

theorem ofBits_lt (bs : List Bool) : ofBits bs < 2 ^ bs.length := by
  induction bs with
  | nil => exact Nat.one_pos
  | cons b bs ih =>
    have hb : b.toNat < 2 := b.toNat_lt
    rw [ofBits_cons, List.length_cons, Nat.pow_succ]
    omega

theorem ofBits_inj {as bs : List Bool} (hlen : as.length = bs.length) (h : ofBits as = ofBits bs) :
    as = bs := by
  rw [← toBits_ofBits as, ← toBits_ofBits bs, hlen, h]

theorem ofBits_append (as bs : List Bool) :
    ofBits (as ++ bs) = ofBits as + 2 ^ as.length * ofBits bs := by
  induction as with
  | nil => simp
  | cons a as ih =>
    rw [List.cons_append, ofBits_cons, ofBits_cons, ih, List.length_cons, Nat.pow_succ',
      Nat.mul_add, Nat.mul_assoc, Nat.add_assoc]

@[simp] theorem ofBits_replicate_false (n : Nat) : ofBits (List.replicate n false) = 0 := by
  induction n with
  | zero => rfl
  | succ n ih => rw [List.replicate_succ, ofBits_cons, ih]; rfl

theorem ofBits_append_zeros (bs : List Bool) (n : Nat) :
    ofBits (bs ++ List.replicate n false) = ofBits bs := by
  rw [ofBits_append, ofBits_replicate_false, Nat.mul_zero, Nat.add_zero]

/-- The first bits are the remainder. -/
theorem ofBits_take (bs : List Bool) (n : Nat) : ofBits (bs.take n) = ofBits bs % 2 ^ n := by
  rcases Nat.le_total bs.length n with h | h
  · rw [List.take_of_length_le h, Nat.mod_eq_of_lt]
    exact Nat.lt_of_lt_of_le (ofBits_lt bs) (Nat.pow_le_pow_right (by decide) h)
  · have hlen : (bs.take n).length = n := List.length_take_of_le h
    have hlt := ofBits_lt (bs.take n)
    have hsplit := ofBits_append (bs.take n) (bs.drop n)
    rw [hlen] at hlt hsplit
    rw [List.take_append_drop] at hsplit
    rw [hsplit, Nat.add_mul_mod_self_left, Nat.mod_eq_of_lt hlt]

/-- And the others the quotient. -/
theorem ofBits_drop (bs : List Bool) (n : Nat) : ofBits (bs.drop n) = ofBits bs / 2 ^ n := by
  rcases Nat.le_total bs.length n with h | h
  · rw [List.drop_eq_nil_of_le h, Nat.div_eq_of_lt]
    · rfl
    · exact Nat.lt_of_lt_of_le (ofBits_lt bs) (Nat.pow_le_pow_right (by decide) h)
  · have hlen : (bs.take n).length = n := List.length_take_of_le h
    have hlt := ofBits_lt (bs.take n)
    have hsplit := ofBits_append (bs.take n) (bs.drop n)
    rw [hlen] at hlt hsplit
    rw [List.take_append_drop] at hsplit
    rw [hsplit, Nat.add_mul_div_left _ _ (Nat.two_pow_pos n), Nat.div_eq_of_lt hlt, Nat.zero_add]

theorem getElem?_toBits {w n i : Nat} (h : i < w) :
    (toBits w n)[i]? = some (decide (n / 2 ^ i % 2 = 1)) := by
  induction w generalizing n i with
  | zero => exact absurd h (Nat.not_lt_zero i)
  | succ w ih =>
    cases i with
    | zero => rw [toBits, List.getElem?_cons_zero, Nat.pow_zero, Nat.div_one]
    | succ i =>
      rw [toBits, List.getElem?_cons_succ, ih (Nat.lt_of_succ_lt_succ h), Nat.div_div_eq_div_mul,
        Nat.pow_succ']

/-- The lowest bits of a number are given by the remainder. -/
theorem isPrefix_toBits {bs : List Bool} {n x : Nat} (h : bs.length ≤ n) :
    bs <+: toBits n x ↔ x % 2 ^ bs.length = ofBits bs := by
  have hval : ofBits ((toBits n x).take bs.length) = x % 2 ^ bs.length := by
    rw [ofBits_take, ofBits_toBits, Nat.mod_mod_of_dvd _ (Nat.pow_dvd_pow 2 h)]
  rw [List.prefix_iff_eq_take, ← hval]
  constructor
  · exact fun heq => by rw [← heq]
  · exact fun heq => (ofBits_inj (by simp [h]) heq).symm

/-! ## Bytes -/

/-- The bits of some bytes, of each byte the lowest first. -/
def bitsOf (bytes : List UInt8) : List Bool := bytes.flatMap fun b => toBits 8 b.toNat

@[simp] theorem bitsOf_nil : bitsOf [] = [] := rfl

@[simp] theorem bitsOf_cons (b : UInt8) (bytes : List UInt8) :
    bitsOf (b :: bytes) = toBits 8 b.toNat ++ bitsOf bytes := rfl

@[simp] theorem bitsOf_append (as bs : List UInt8) : bitsOf (as ++ bs) = bitsOf as ++ bitsOf bs :=
  List.flatMap_append

@[simp] theorem length_bitsOf (bytes : List UInt8) : (bitsOf bytes).length = 8 * bytes.length := by
  induction bytes with
  | nil => rfl
  | cons b bytes ih =>
    rw [bitsOf_cons, List.length_append, length_toBits, ih, List.length_cons]; omega

theorem bitsOf_drop (bytes : List UInt8) (n : Nat) :
    bitsOf (bytes.drop n) = (bitsOf bytes).drop (8 * n) := by
  rcases Nat.le_total bytes.length n with h | h
  · rw [List.drop_eq_nil_of_le h, List.drop_eq_nil_of_le]
    · rfl
    · rw [length_bitsOf]; omega
  · have hlen : (bitsOf (bytes.take n)).length = 8 * n := by
      rw [length_bitsOf, List.length_take_of_le h]
    have hsplit : bitsOf bytes = bitsOf (bytes.take n) ++ bitsOf (bytes.drop n) := by
      rw [← bitsOf_append, List.take_append_drop]
    rw [hsplit, List.drop_left' hlen]

theorem bitsOf_take (bytes : List UInt8) (n : Nat) :
    bitsOf (bytes.take n) = (bitsOf bytes).take (8 * n) := by
  rcases Nat.le_total bytes.length n with h | h
  · rw [List.take_of_length_le h, List.take_of_length_le]
    rw [length_bitsOf]
    omega
  · have hlen : (bitsOf (bytes.take n)).length = 8 * n := by
      rw [length_bitsOf, List.length_take_of_le h]
    have hsplit : bitsOf bytes = bitsOf (bytes.take n) ++ bitsOf (bytes.drop n) := by
      rw [← bitsOf_append, List.take_append_drop]
    rw [hsplit, List.take_left' hlen]

theorem bitsOf_inj {as bs : List UInt8} (h : bitsOf as = bitsOf bs) : as = bs := by
  have hlen : as.length = bs.length := by
    have := congrArg List.length h
    rw [length_bitsOf, length_bitsOf] at this
    omega
  induction as generalizing bs with
  | nil => exact (List.length_eq_zero_iff.mp hlen.symm).symm
  | cons a as ih =>
    obtain ⟨b, bs, rfl⟩ := List.exists_cons_of_length_eq_add_one hlen.symm
    obtain ⟨hbyte, hothers⟩ := List.append_inj h (by simp)
    have hvalue := congrArg ofBits hbyte
    rw [ofBits_toBits, ofBits_toBits, Nat.mod_eq_of_lt a.toNat_lt,
      Nat.mod_eq_of_lt b.toNat_lt] at hvalue
    rw [UInt8.toNat_inj.mp hvalue, ih hothers (Nat.succ.inj hlen)]

end Umka.Lib
