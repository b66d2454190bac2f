import Mathlib.Data.List.Basic
import Mathlib.Logic.Function.Iterate
import Mathlib.Tactic.Common
import Mathlib.Tactic.Linarith
import Mathlib.Tactic.Ring
import Mathlib.Algebra.Order.Ring.Nat

/-!
# Adler-32 and cyclic redundancy checks

Adler-32 is two sums modulo a prime; the division can be put off (`adlerRaw_mod`) as long as the
sums do not get too large (`adlerRaw_le`).

A cyclic redundancy check takes one bit at a time. The step is linear, so the low byte of a number
can be dealt with by itself, in a table, and the rest is only shifted (`crcBits_add_eight`).
-/

set_option autoImplicit false

namespace Umka.Lib

/-- A checksum that can be continued, over data in pieces. -/
theorem foldl_pieces {α σ : Type} (sum : List α → σ) {update : σ → List α → σ}
    (h : ∀ as bs, update (sum as) bs = sum (as ++ bs)) :
    ∀ (pieces : List (List α)) (before : List α),
      pieces.foldl update (sum before) = sum (before ++ pieces.flatten)
  | [], before => by rw [List.foldl_nil, List.flatten_nil, List.append_nil]
  | piece :: pieces, before => by
    rw [List.foldl_cons, h, foldl_pieces sum h pieces, List.flatten_cons, List.append_assoc]

/-! ## Adler-32 -/

def adlerBase : Nat := 65521

def adlerStep (s : Nat × Nat) (byte : UInt8) : Nat × Nat :=
  let a := (s.1 + byte.toNat) % adlerBase
  (a, (s.2 + a) % adlerBase)

/-- The two sums of some bytes, from given ones on. -/
def adlerSums (s : Nat × Nat) (bytes : List UInt8) : Nat × Nat := bytes.foldl adlerStep s

/-- The checksum: the second sum in the upper half. -/
def adler32 (bytes : List UInt8) : Nat :=
  let s := adlerSums (1, 0) bytes
  s.2 * 2 ^ 16 + s.1

/-- The sums without a division. -/
def adlerRawStep (s : Nat × Nat) (byte : UInt8) : Nat × Nat :=
  (s.1 + byte.toNat, s.2 + (s.1 + byte.toNat))

def adlerRaw (s : Nat × Nat) (bytes : List UInt8) : Nat × Nat := bytes.foldl adlerRawStep s

theorem adlerSums_append (s : Nat × Nat) (as bs : List UInt8) :
    adlerSums s (as ++ bs) = adlerSums (adlerSums s as) bs := List.foldl_append

theorem adlerSums_lt {s : Nat × Nat} (h : s.1 < adlerBase ∧ s.2 < adlerBase) (bytes : List UInt8) :
    (adlerSums s bytes).1 < adlerBase ∧ (adlerSums s bytes).2 < adlerBase := by
  induction bytes generalizing s with
  | nil => exact h
  | cons b bytes ih => exact ih ⟨Nat.mod_lt _ (by decide), Nat.mod_lt _ (by decide)⟩

/-- The division can be made once, at the end. -/
theorem adlerRaw_mod (s : Nat × Nat) (bytes : List UInt8) :
    ((adlerRaw s bytes).1 % adlerBase, (adlerRaw s bytes).2 % adlerBase) =
      adlerSums (s.1 % adlerBase, s.2 % adlerBase) bytes := by
  induction bytes generalizing s with
  | nil => rfl
  | cons b bytes ih =>
    have hstep : adlerStep (s.1 % adlerBase, s.2 % adlerBase) b =
        ((adlerRawStep s b).1 % adlerBase, (adlerRawStep s b).2 % adlerBase) := by
      simp only [adlerStep, adlerRawStep, Nat.mod_add_mod, Nat.add_mod_mod]
    rw [adlerRaw, List.foldl_cons, adlerSums, List.foldl_cons, hstep]
    exact ih _

theorem adlerRaw_le (s : Nat × Nat) (bytes : List UInt8) :
    (adlerRaw s bytes).1 ≤ s.1 + 255 * bytes.length ∧
      2 * (adlerRaw s bytes).2 ≤
        2 * s.2 + 2 * bytes.length * s.1 + 255 * (bytes.length * (bytes.length + 1)) := by
  induction bytes generalizing s with
  | nil => exact ⟨Nat.le_refl _, by simp [adlerRaw]⟩
  | cons b bytes ih =>
    have hb : b.toNat ≤ 255 := Nat.le_of_lt_succ b.toNat_lt
    obtain ⟨h1, h2⟩ := ih (adlerRawStep s b)
    rw [adlerRaw, List.foldl_cons, List.length_cons]
    rw [adlerRawStep] at h1 h2
    refine ⟨Nat.le_trans h1 (by simp only; omega), Nat.le_trans h2 ?_⟩
    simp only
    nlinarith

/-! ## Cyclic redundancy checks -/

section Crc

variable {w : Nat} (poly : BitVec w)

/-- One bit, the lowest first. -/
def crcBit (c : BitVec w) : BitVec w := if c.getLsbD 0 then c >>> 1 ^^^ poly else c >>> 1

def crcBits (n : Nat) (c : BitVec w) : BitVec w := (crcBit poly)^[n] c

/-- A byte goes into the low bits. -/
def crcByte (c : BitVec w) (byte : UInt8) : BitVec w :=
  crcBits poly 8 (c ^^^ byte.toBitVec.setWidth w)

variable {poly}

theorem crcBit_xor (x y : BitVec w) : crcBit poly (x ^^^ y) = crcBit poly x ^^^ crcBit poly y := by
  unfold crcBit
  rw [BitVec.getLsbD_xor, BitVec.ushiftRight_xor_distrib]
  cases x.getLsbD 0 <;> cases y.getLsbD 0
  · rfl
  · simp [BitVec.xor_assoc]
  · simp [BitVec.xor_assoc, BitVec.xor_comm poly]
  · have hcancel : x >>> 1 ^^^ poly ^^^ (y >>> 1 ^^^ poly) = x >>> 1 ^^^ y >>> 1 := by
      rw [BitVec.xor_assoc, BitVec.xor_comm poly, BitVec.xor_assoc, BitVec.xor_self,
        BitVec.xor_zero]
    simp [hcancel]

theorem crcBits_add (m n : Nat) (x : BitVec w) :
    crcBits poly (m + n) x = crcBits poly m (crcBits poly n x) := Function.iterate_add_apply _ m n x

theorem crcBits_xor (n : Nat) (x y : BitVec w) :
    crcBits poly n (x ^^^ y) = crcBits poly n x ^^^ crcBits poly n y := by
  induction n with
  | zero => rfl
  | succ n ih => rw [Nat.add_comm, crcBits_add, ih, crcBits_add, crcBits_add]; exact crcBit_xor _ _

/-- Zeros at the low end are only shifted out. -/
theorem crcBits_of_low (n : Nat) (x : BitVec w) (h : ∀ i < n, x.getLsbD i = false) :
    crcBits poly n x = x >>> n := by
  induction n with
  | zero => simp [crcBits]
  | succ n ih =>
    have hlow : (x >>> n).getLsbD 0 = false := by
      rw [BitVec.getLsbD_ushiftRight, Nat.add_zero]
      exact h n (Nat.lt_succ_self n)
    rw [Nat.add_comm, crcBits_add, ih fun i hi => h i (Nat.lt_succ_of_lt hi), Nat.add_comm,
      BitVec.shiftRight_add]
    exact if_neg (by simp [hlow])

theorem crcBits_shiftLeft (n : Nat) (x : BitVec w) (h : ∀ i, w ≤ n + i → x.getLsbD i = false) :
    crcBits poly n (x <<< n) = x := by
  rw [crcBits_of_low n _ fun i hi => by simp [BitVec.getLsbD_shiftLeft, hi]]
  refine BitVec.eq_of_getLsbD_eq fun i hi => ?_
  rw [BitVec.getLsbD_ushiftRight, BitVec.getLsbD_shiftLeft]
  by_cases hin : n + i < w
  · simp [hin]
  · rw [h i (by omega)]
    simp [hin]

theorem low_byte_xor (x : BitVec w) : (x &&& BitVec.ofNat w 0xff) ^^^ (x >>> 8) <<< 8 = x := by
  have hmask : ∀ i, (BitVec.ofNat w 0xff).getLsbD i = decide (i < w ∧ i < 8) := fun i => by
    rw [BitVec.getLsbD_ofNat, show (0xff : Nat) = 2 ^ 8 - 1 from rfl, Nat.testBit_two_pow_sub_one,
      Bool.decide_and]
  refine BitVec.eq_of_getLsbD_eq fun i hi => ?_
  rw [BitVec.getLsbD_xor, BitVec.getLsbD_and, hmask, BitVec.getLsbD_shiftLeft,
    BitVec.getLsbD_ushiftRight]
  by_cases h8 : i < 8
  · simp [hi, h8]
  · simp [hi, h8, Nat.add_sub_of_le (Nat.le_of_not_lt h8)]

/-- **The low byte can be taken by itself.** -/
theorem crcBits_add_eight (poly : BitVec w) (n : Nat) (x : BitVec w) :
    crcBits poly (n + 8) x =
      crcBits poly (n + 8) (x &&& BitVec.ofNat w 0xff) ^^^ crcBits poly n (x >>> 8) := by
  have hrest : crcBits poly 8 ((x >>> 8) <<< 8) = x >>> 8 :=
    crcBits_shiftLeft 8 _ fun i hi => by
      rw [BitVec.getLsbD_ushiftRight]
      exact BitVec.getLsbD_of_ge x _ hi
  conv_lhs => rw [← low_byte_xor x, crcBits_xor, crcBits_add n 8 ((x >>> 8) <<< 8), hrest]

/-- A byte that comes after `n` bits could have been there from the beginning. -/
theorem crcByte_crcBits {n : Nat} (hn : n + 8 ≤ w) (c : BitVec w) (byte : UInt8) :
    crcByte poly (crcBits poly n c) byte =
      crcBits poly (8 + n) (c ^^^ byte.toBitVec.setWidth w <<< n) := by
  have hbyte : crcBits poly n (byte.toBitVec.setWidth w <<< n) = byte.toBitVec.setWidth w :=
    crcBits_shiftLeft n _ fun i hi => by
      rw [BitVec.getLsbD_setWidth, BitVec.getLsbD_of_ge _ _ (by omega), Bool.and_false]
  rw [crcByte, crcBits_add, crcBits_xor n, hbyte]

end Crc

/-- The polynomial of CRC-32, the highest coefficient in the lowest bit. -/
def crc32Poly : BitVec 32 := 0xedb88320

/-- CRC-32 before and after the bits are inverted. -/
def crc32Register (bytes : List UInt8) : BitVec 32 :=
  bytes.foldl (crcByte crc32Poly) (BitVec.allOnes 32)

def crc32 (bytes : List UInt8) : BitVec 32 := ~~~ crc32Register bytes

end Umka.Lib
