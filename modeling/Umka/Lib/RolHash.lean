import Mathlib.Data.List.Basic
import Mathlib.Tactic.Common
import Mathlib.Algebra.Order.Ring.Nat

/-!
# Hashes that rotate and add without carry

Each character is xored to the hash, rotated by seven bits. The rotation is linear, so a piece of a
text acts on the hash by its length and by its own hash only: pieces with the same two are alike
after any text and before any.
-/

set_option autoImplicit false

namespace Umka.Lib

/-! ## Rotations -/

/-- Rotation to the left, by less than 32 bits. -/
def rol32 (x : BitVec 32) (y : Nat) : BitVec 32 := (x <<< y) ||| (x >>> (32 - y))

section Rol

variable {x y : BitVec 32} {a b i : Nat}

/-- The bit that comes to the place `i`. -/
theorem getLsbD_rotateLeft (hi : i < 32) :
    (x.rotateLeft a).getLsbD i = x.getLsbD ((i + 32 - a % 32) % 32) := by
  have ha : a % 32 < 32 := Nat.mod_lt _ (by decide)
  rw [BitVec.getLsbD_rotateLeft, decide_eq_true hi, Bool.true_and]
  by_cases hlt : i < a % 32
  · rw [decide_eq_true hlt, cond_true]
    exact congrArg x.getLsbD (by omega)
  · rw [decide_eq_false hlt, cond_false]
    exact congrArg x.getLsbD (by omega)

theorem rotateLeft_xor : (x ^^^ y).rotateLeft a = x.rotateLeft a ^^^ y.rotateLeft a := by
  refine BitVec.eq_of_getLsbD_eq fun i hi => ?_
  rw [BitVec.getLsbD_xor, getLsbD_rotateLeft hi, getLsbD_rotateLeft hi, getLsbD_rotateLeft hi,
    BitVec.getLsbD_xor]

/-- Two rotations are one, also when they go round. -/
theorem rotateLeft_rotateLeft : (x.rotateLeft a).rotateLeft b = x.rotateLeft (a + b) := by
  refine BitVec.eq_of_getLsbD_eq fun i hi => ?_
  rw [getLsbD_rotateLeft hi, getLsbD_rotateLeft (Nat.mod_lt _ (by decide)), getLsbD_rotateLeft hi]
  exact congrArg x.getLsbD (by omega)

/-- What the shifts make is the rotation. -/
theorem rol32_eq_rotateLeft (ha : a < 32) : rol32 x a = x.rotateLeft a := by
  rw [BitVec.rotateLeft_def, Nat.mod_eq_of_lt ha, rol32]

theorem rol32_xor (ha : a < 32) : rol32 (x ^^^ y) a = rol32 x a ^^^ rol32 y a := by
  rw [rol32_eq_rotateLeft ha, rol32_eq_rotateLeft ha, rol32_eq_rotateLeft ha, rotateLeft_xor]

/-- Two rotations that do not go round are one. -/
theorem rol32_rol32 (hab : a + b < 32) : rol32 (rol32 x a) b = rol32 x (a + b) := by
  rw [rol32_eq_rotateLeft (by omega : a < 32), rol32_eq_rotateLeft (by omega : b < 32),
    rol32_eq_rotateLeft hab, rotateLeft_rotateLeft]

/-- A small number has nothing to carry round. -/
theorem rol32_small (hx : x.toNat < 128) (ha : a ≤ 25) : rol32 x a = x <<< a := by
  have hzero : x >>> (32 - a) = 0#32 := by
    refine BitVec.eq_of_toNat_eq ?_
    rw [BitVec.toNat_ushiftRight, Nat.shiftRight_eq_div_pow]
    have hpow : 2 ^ 7 ≤ 2 ^ (32 - a) := Nat.pow_le_pow_right (by decide : 2 > 0) (by omega)
    exact Nat.div_eq_of_lt (Nat.lt_of_lt_of_le hx hpow)
  rw [rol32, hzero, BitVec.or_zero]

theorem rol32_shiftLeft (hx : x.toNat < 128) (hab : a + b ≤ 25) :
    rol32 (x <<< a) b = x <<< (a + b) := by
  rw [← rol32_small hx (by omega), rol32_rol32 (by omega), rol32_small hx hab]

end Rol

/-! ## Texts -/

def rolStep (h c : BitVec 32) : BitVec 32 := rol32 h 7 ^^^ c

def rolHash (h : BitVec 32) (cs : List (BitVec 32)) : BitVec 32 := cs.foldl rolStep h

/-! ### Several characters at a time -/

theorem xor_swap (x y z : BitVec 32) : x ^^^ y ^^^ z = x ^^^ z ^^^ y := by
  rw [BitVec.xor_assoc, BitVec.xor_comm y, BitVec.xor_assoc]

section Steps

variable {h a b c d : BitVec 32} (ha : a.toNat < 128)

include ha

theorem rolStep_two : rolStep (rolStep h a) b = (a <<< 7) ^^^ b ^^^ rol32 h 14 := by
  rw [rolStep, rolStep, rol32_xor (by decide), rol32_rol32 (by decide), rol32_small ha (by decide),
    BitVec.xor_comm (rol32 h _), xor_swap]

theorem rolStep_three (hb : b.toNat < 128) : rolStep (rolStep (rolStep h a) b) c
    = (a <<< 14) ^^^ (b <<< 7) ^^^ c ^^^ rol32 h 21 := by
  rw [rolStep_two ha, rolStep, rol32_xor (by decide), rol32_xor (by decide),
    rol32_rol32 (by decide), rol32_shiftLeft ha (by decide), rol32_small hb (by decide), xor_swap]

theorem rolStep_four (hb : b.toNat < 128) (hc : c.toNat < 128) :
    rolStep (rolStep (rolStep (rolStep h a) b) c) d
      = (a <<< 21) ^^^ (b <<< 14) ^^^ (c <<< 7) ^^^ d ^^^ rol32 h 28 := by
  rw [rolStep_three ha hb, rolStep, rol32_xor (by decide), rol32_xor (by decide),
    rol32_xor (by decide), rol32_rol32 (by decide), rol32_shiftLeft ha (by decide),
    rol32_shiftLeft hb (by decide), rol32_small hc (by decide), xor_swap]

end Steps

/-! ### Pieces -/

section Hash

variable {cs ds : List (BitVec 32)}

theorem rolHash_append (h : BitVec 32) : rolHash h (cs ++ ds) = rolHash (rolHash h cs) ds :=
  List.foldl_append

/-- The hash so far only turns. -/
theorem rolHash_eq_xor (cs : List (BitVec 32)) : ∀ h : BitVec 32,
    rolHash h cs = h.rotateLeft (7 * cs.length) ^^^ rolHash 0#32 cs := by
  induction cs with
  | nil =>
    intro h
    have hturn : h.rotateLeft (7 * 0) = h := by
      refine BitVec.eq_of_getLsbD_eq fun i hi => ?_
      rw [getLsbD_rotateLeft hi]
      exact congrArg h.getLsbD (by omega)
    rw [List.length_nil, hturn]
    exact BitVec.xor_zero.symm
  | cons c cs ih =>
    intro h
    have hzero : rolStep 0#32 c = c := BitVec.zero_xor
    have hturn : (rolStep h c).rotateLeft (7 * cs.length) =
        h.rotateLeft (7 * (cs.length + 1)) ^^^ c.rotateLeft (7 * cs.length) := by
      rw [rolStep, rol32_eq_rotateLeft (by decide), rotateLeft_xor, rotateLeft_rotateLeft,
        Nat.mul_add, Nat.mul_one, Nat.add_comm 7]
    calc rolHash h (c :: cs) = (rolStep h c).rotateLeft (7 * cs.length) ^^^ rolHash 0#32 cs := ih _
      _ = h.rotateLeft (7 * (cs.length + 1)) ^^^
            (c.rotateLeft (7 * cs.length) ^^^ rolHash 0#32 cs) := by
        rw [hturn, BitVec.xor_assoc]
      _ = h.rotateLeft (7 * (cs.length + 1)) ^^^ rolHash (rolStep 0#32 c) cs := by
        rw [ih (rolStep 0#32 c), hzero]

/-- The step on numbers. -/
def rolNat (h c : Nat) : Nat := (h <<< 7 % 2 ^ 32 ||| h >>> 25) ^^^ c

/-- The hash on numbers, for evaluation. -/
theorem toNat_rolHash (cs : List (BitVec 32)) : ∀ h : BitVec 32,
    (rolHash h cs).toNat = (cs.map BitVec.toNat).foldl rolNat h.toNat := by
  induction cs with
  | nil => exact fun h => rfl
  | cons c cs ih =>
    intro h
    have hstep : (rolStep h c).toNat = rolNat h.toNat c.toNat := by
      rw [rolStep, rol32, BitVec.toNat_xor, BitVec.toNat_or, BitVec.toNat_shiftLeft,
        BitVec.toNat_ushiftRight, rolNat]
    rw [List.map_cons, List.foldl_cons, ← hstep]
    exact ih (rolStep h c)

/-- **Texts of one length and one hash are alike.** -/
theorem rolHash_congr (hlen : cs.length = ds.length) (hhash : rolHash 0#32 cs = rolHash 0#32 ds)
    (h : BitVec 32) : rolHash h cs = rolHash h ds := by
  rw [rolHash_eq_xor cs, rolHash_eq_xor ds, hlen, hhash]

end Hash

end Umka.Lib
