import Mathlib.Data.List.Basic
import Mathlib.Tactic.Common
import Mathlib.Algebra.Order.Ring.Nat

/-!
# Memory objects of a fixed size

A C object of `n` bytes — a `malloc`ed buffer, a local struct — is a `Block n`: the list of
its bytes together with the proof that there are `n` of them. Two accesses are all the
drivers in this development make:

* `overlay`, a transfer that fills a prefix and leaves the rest as it was;
* `slice?`, a copy out of the object, which answers `none` when it would leave the object.

`slice?` is where undefined behaviour becomes visible: a caller that copies past the end has
no value to go on with, and `Umka/Lib/Drv.lean` turns that `none` into a fault.
-/

set_option autoImplicit false

namespace Umka.Lib

/-- An object of `n` bytes. -/
@[ext]
structure Block (n : Nat) where
  bytes : List UInt8
  size_eq : bytes.length = n
deriving DecidableEq

namespace Block

variable {n : Nat}

/-- The object whose `i`-th byte is `g i`. -/
def ofFn (n : Nat) (g : Nat → UInt8) : Block n :=
  ⟨(List.range n).map g, by simp⟩

/-- `memset(b, 0, n)`. -/
def zero (n : Nat) : Block n := ⟨List.replicate n 0, by simp⟩

/-- The object after a transfer of `data` to its start. Bytes that do not fit are dropped,
    which no caller here lets happen. -/
def overlay (data : List UInt8) (b : Block n) : Block n :=
  ⟨(data ++ b.bytes.drop data.length).take n, by
    have := b.size_eq
    simp only [List.length_take, List.length_append, List.length_drop]
    omega⟩

/-- `memcpy` of `len` bytes out of the object, starting at `off`. -/
def slice? (b : Block n) (off len : Nat) : Option (Block len) :=
  if h : off + len ≤ n then
    some ⟨(b.bytes.drop off).take len, by
      have := b.size_eq
      simp only [List.length_take, List.length_drop]
      omega⟩
  else none

@[simp] theorem bytes_zero : (zero n).bytes = List.replicate n 0 := rfl

@[simp] theorem bytes_ofFn {g : Nat → UInt8} : (ofFn n g).bytes = (List.range n).map g := rfl

/-- A transfer of a whole object's worth of bytes replaces it. -/
theorem bytes_overlay_full {data : List UInt8} {b : Block n} (h : data.length = n) :
    (b.overlay data).bytes = data := by
  have hd : b.bytes.drop data.length = [] :=
    List.drop_eq_nil_iff.mpr (Nat.le_of_eq (b.size_eq.trans h.symm))
  simp [overlay, hd, List.take_of_length_le (Nat.le_of_eq h)]

/-- A transfer reaches the bytes it brings and no other. -/
theorem getElem?_overlay {data : List UInt8} {b : Block n} {i : Nat} (hi : i < n) :
    (b.overlay data).bytes[i]? = if i < data.length then data[i]? else b.bytes[i]? := by
  unfold overlay
  rw [List.getElem?_take, if_pos hi]
  split
  · rename_i hd
    rw [List.getElem?_append_left hd]
  · rename_i hd
    rw [List.getElem?_append_right (Nat.le_of_not_lt hd), List.getElem?_drop,
      Nat.add_sub_cancel' (Nat.le_of_not_lt hd)]

theorem getD_overlay {data : List UInt8} {b : Block n} {i : Nat} (hi : i < n) :
    (b.overlay data).bytes.getD i 0 =
      if i < data.length then data.getD i 0 else b.bytes.getD i 0 := by
  simp only [List.getD_eq_getElem?_getD, getElem?_overlay hi]
  split <;> rfl

/-- What a transfer brought survives the next one as far as that brings the same. -/
theorem take_overlay_overlay {data out : List UInt8} {b : Block n} (hn : data.length ≤ n) :
    ((b.overlay data).overlay out).bytes.take data.length = data ↔
      out.take data.length <+: data := by
  have hget : ∀ i < data.length, (((b.overlay data).overlay out).bytes.take data.length)[i]? =
      if i < out.length then out[i]? else data[i]? := by
    intro i hi
    have hin : i < n := Nat.lt_of_lt_of_le hi hn
    rw [List.getElem?_take, if_pos hi, getElem?_overlay hin, getElem?_overlay hin, if_pos hi]
  rw [List.prefix_iff_getElem?]
  constructor
  · intro h i hi
    rw [List.length_take] at hi
    have hi' := hget i (by omega)
    rw [h, if_pos (by omega)] at hi'
    rw [hi', List.getElem_take, List.getElem?_eq_getElem]
  · intro h
    apply List.ext_getElem?
    intro i
    by_cases hi : i < data.length
    · rw [hget i hi]
      split
      · rename_i ho
        have := h i (by rw [List.length_take]; omega)
        rw [this, List.getElem_take, List.getElem?_eq_getElem]
      · rfl
    · rw [List.getElem?_eq_none (by rw [List.length_take]; omega),
        List.getElem?_eq_none (Nat.le_of_not_lt hi)]

@[simp] theorem overlay_nil {b : Block n} : b.overlay [] = b := by
  ext1
  simp [overlay, ← b.size_eq]

theorem slice?_eq_some {b : Block n} {off len : Nat} (h : off + len ≤ n) :
    ∃ c : Block len, b.slice? off len = some c ∧ c.bytes = (b.bytes.drop off).take len := by
  refine ⟨_, dif_pos h, rfl⟩

theorem slice?_eq_none {b : Block n} {off len : Nat} (h : ¬ off + len ≤ n) :
    b.slice? off len = none :=
  dif_neg h

end Block

end Umka.Lib
