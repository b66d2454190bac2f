import Umka.Kos.SysCalls
import Umka.Lib.Pack

/-!
# Packed registers

What the kernel reads from a packed register is given by `layout`: fields at fixed places, each
with the argument that belongs there. The wrappers add the arguments up, so a field shows its
own argument exactly when the ones below are not carried into it. For a pair of coordinates that
means that the lower one has 16 bits: a negative one takes one off its neighbour.
-/

set_option autoImplicit false

namespace Umka.Proof.Kos

open Lib Lib.BitField Umka.Kos

/-! ## What belongs where -/

/-- Two 16-bit halves. -/
def pair (high low : UInt32) : List BitField := [⟨16, 0, low.toNat⟩, ⟨16, 0, high.toNat⟩]

/-- A colour with a flag in bit 24. -/
def inverted (color invert : UInt32) : List BitField := [⟨24, 0, color.toNat⟩, ⟨1, 0, invert.toNat⟩]

/-- A colour with a flag in bit 31. -/
def graded (color gradient : UInt32) : List BitField :=
  [⟨24, 7, color.toNat⟩, ⟨1, 0, gradient.toNat⟩]

/-- An id of 24 bits with flags in bits 29 and 30. -/
def buttonFields (buttonId noFrame noButton : UInt32) : List BitField :=
  [⟨24, 5, buttonId.toNat⟩, ⟨1, 0, noFrame.toNat⟩, ⟨1, 0, noButton.toNat⟩]

/-- A colour, the style, and four flags. -/
def windowFields (color style hasCaption clientRelative noFill gradient : UInt32) : List BitField :=
  [⟨24, 0, color.toNat⟩, ⟨4, 0, style.toNat⟩, ⟨1, 0, hasCaption.toNat⟩,
    ⟨1, 0, clientRelative.toNat⟩,
   ⟨1, 0, noFill.toNat⟩, ⟨1, 0, gradient.toNat⟩]

/-- A colour and how text is drawn with it. -/
def textFields (color scale toBuffer font fill : UInt32) : List BitField :=
  [⟨24, 0, color.toNat⟩, ⟨3, 0, scale.toNat⟩, ⟨1, 0, toBuffer.toNat⟩, ⟨2, 0, font.toNat⟩,
   ⟨1, 0, fill.toNat⟩]

/-- What kind of number, its base, how many digits, and two flags. -/
def numberFields (isPointer base digits isQword zeros : UInt32) : List BitField :=
  [⟨8, 0, isPointer.toNat⟩, ⟨8, 0, base.toNat⟩, ⟨14, 0, digits.toNat⟩, ⟨1, 0, isQword.toNat⟩,
   ⟨1, 0, zeros.toNat⟩]

/-- The packed registers of a call, with the fields of each. -/
def layout (c : DrawCall) : List (Option UInt32 × List BitField) :=
  match c with
  | .drawWindow x xsize y ysize color hasCaption clientRelative fillWorkarea gradientFill
      movable style _ =>
    [(c.regs.ebx, pair x xsize), (c.regs.ecx, pair y ysize),
     (c.regs.edx, windowFields color style hasCaption clientRelative
       (cNot fillWorkarea) gradientFill),
     (c.regs.esi, inverted 0 (cNot movable))]
  | .setPixel _ _ color invert => [(c.regs.edx, inverted color invert)]
  | .writeText x y color asciiz fillBackground fontAndEncoding drawToBuffer scaleFactor _ _ _ =>
    [(c.regs.ebx, pair x y),
     (c.regs.ecx, textFields color scaleFactor drawToBuffer fontAndEncoding fillBackground
       ++ [⟨1, 0, asciiz.toNat⟩])]
  | .putImage _ xsize ysize x y => [(c.regs.ecx, pair xsize ysize), (c.regs.edx, pair x y)]
  | .button x xsize y ysize buttonId drawButton drawFrame _ =>
    [(c.regs.ebx, pair x xsize), (c.regs.ecx, pair y ysize),
     (c.regs.edx, buttonFields buttonId (cNot drawFrame) (cNot drawButton))]
  | .drawRect x xsize y ysize color gradient =>
    [(c.regs.ebx, pair x xsize), (c.regs.ecx, pair y ysize), (c.regs.edx, graded color gradient)]
  | .drawLine x xend y yend color invert =>
    [(c.regs.ebx, pair x xend), (c.regs.ecx, pair y yend), (c.regs.edx, inverted color invert)]
  | .displayNumber isPointer base digitsToDisplay isQword showLeadingZeros _ x y color
      fillBackground font drawToBuffer scaleFactor _ =>
    [(c.regs.ebx, numberFields isPointer base digitsToDisplay isQword showLeadingZeros),
     (c.regs.edx, pair x y),
     (c.regs.esi, textFields color scaleFactor drawToBuffer font fillBackground)]

/-- Every field of every packed register is its own argument, cut to the field. -/
def FieldsKept (c : DrawCall) : Prop := ∀ p ∈ layout c, ∃ r ∈ p.1, ReadsBack r.toNat p.2

/-- What keeps them: the lower coordinate of a pair has 16 bits; the bits of a colour or an id where
    flags are, are clear; and where more fields follow, none of them gets a carry. -/
def Separate : DrawCall → Prop
  | .drawWindow _ xsize _ ysize color hasCaption clientRelative fillWorkarea gradientFill
      _ style _ =>
    xsize.toNat < 2 ^ 16 ∧ ysize.toNat < 2 ^ 16
      ∧ Apart 0 (windowFields color style hasCaption clientRelative
        (cNot fillWorkarea) gradientFill)
  | .setPixel _ _ color _ => color.toNat / 2 ^ 24 % 2 = 0
  | .writeText _ y color asciiz fillBackground fontAndEncoding drawToBuffer scaleFactor _ _ _ =>
    y.toNat < 2 ^ 16
      ∧ Apart 0 (textFields color scaleFactor drawToBuffer fontAndEncoding fillBackground
          ++ [⟨1, 0, asciiz.toNat⟩])
  | .putImage _ _ ysize _ y => ysize.toNat < 2 ^ 16 ∧ y.toNat < 2 ^ 16
  | .button _ xsize _ ysize buttonId _ _ _ =>
    xsize.toNat < 2 ^ 16 ∧ ysize.toNat < 2 ^ 16 ∧ buttonId.toNat / 2 ^ 29 % 4 = 0
  | .drawRect _ xsize _ ysize color _ =>
    xsize.toNat < 2 ^ 16 ∧ ysize.toNat < 2 ^ 16 ∧ color.toNat < 2 ^ 31
  | .drawLine _ xend _ yend color _ =>
    xend.toNat < 2 ^ 16 ∧ yend.toNat < 2 ^ 16 ∧ color.toNat / 2 ^ 24 % 2 = 0
  | .displayNumber isPointer base digitsToDisplay isQword showLeadingZeros _ _ y color
      fillBackground font drawToBuffer scaleFactor _ =>
    Apart 0 (numberFields isPointer base digitsToDisplay isQword showLeadingZeros)
      ∧ y.toNat < 2 ^ 16 ∧ Apart 0 (textFields color scaleFactor drawToBuffer font fillBackground)

/-! ## The registers as sums -/

/-- The register holds the sum of the fields, and they have room in it. -/
def IsSum (reg : Option UInt32) (fs : List BitField) : Prop :=
  ∃ r, reg = some r ∧ r.toNat = pack fs % 2 ^ 32 ∧ bits fs ≤ 32

theorem isSum_word {fs : List BitField} {r : UInt32} (hr : r = word 0 fs) (hbits : bits fs ≤ 32)
    (hwidth : ∀ f ∈ fs, 0 < f.width) : IsSum (some r) fs := by
  refine ⟨r, rfl, ?_, hbits⟩
  rw [hr, toNat_word fs 0 (by omega) hwidth, Nat.pow_zero, Nat.one_mul]

section Registers

variable (a b c d e f : UInt32)

theorem isSum_pair : IsSum (some ((a <<< 16) + b)) (pair a b) :=
  isSum_word (by simp [pair, word, step]) (by simp [pair, bits, step]) (by simp [pair])

theorem isSum_inverted : IsSum (some ((b <<< 24) + a)) (inverted a b) :=
  isSum_word (by simp [inverted, word, step]) (by simp [inverted, bits, step]) (by simp [inverted])

theorem isSum_flag : IsSum (some (a <<< 24)) (inverted 0 a) := by
  have h := isSum_inverted 0 a
  rwa [UInt32.add_zero] at h

theorem isSum_graded : IsSum (some ((b <<< 31) + a)) (graded a b) :=
  isSum_word (by simp [graded, word, step]) (by simp [graded, bits, step]) (by simp [graded])

theorem isSum_button : IsSum (some ((c <<< 30) + (b <<< 29) + a)) (buttonFields a b c) :=
  isSum_word (by simp [buttonFields, word, step]) (by simp [buttonFields, bits, step])
    (by simp [buttonFields])

theorem isSum_window :
    IsSum (some ((f <<< 31) + (e <<< 30) + (d <<< 29) + (c <<< 28) + (b <<< 24) + a))
      (windowFields a b c d e f) :=
  isSum_word (by simp [windowFields, word, step]) (by simp [windowFields, bits, step])
    (by simp [windowFields])

theorem isSum_text :
    IsSum (some ((f <<< 31) + (e <<< 30) + (d <<< 28) + (c <<< 27) + (b <<< 24) + a))
      (textFields a b c d e ++ [⟨1, 0, f.toNat⟩]) :=
  isSum_word (by simp [textFields, word, step]) (by simp [textFields, bits, step])
    (by simp [textFields])

-- two registers of `display_number` are added up in another order
theorem add_last (a b c d e : UInt32) : a + b + c + d + e = b + c + d + e + a := by ac_rfl

theorem add_reversed (a b c d e : UInt32) : a + b + c + d + e = e + d + c + b + a := by ac_rfl

theorem isSum_numberText : IsSum (some (a + (e <<< 30) + (d <<< 28) + (c <<< 27) + (b <<< 24)))
    (textFields a b c d e) := by
  refine isSum_word ?_ (by simp [textFields, bits, step]) (by simp [textFields])
  rw [add_last]
  simp [textFields, word, step]

theorem isSum_number : IsSum (some (a + (b <<< 8) + (c <<< 16) + (d <<< 30) + (e <<< 31)))
    (numberFields a b c d e) := by
  refine isSum_word ?_ (by simp [numberFields, bits, step]) (by simp [numberFields])
  rw [add_reversed]
  simp [numberFields, word, step]

theorem apart_pair : Apart 0 (pair a b) ↔ b.toNat < 2 ^ 16 := by
  have hb := b.toNat_lt
  simp only [pair, Apart, step, Nat.zero_mod, true_and, and_true, Nat.add_zero]
  omega

theorem apart_inverted : Apart 0 (inverted a b) ↔ a.toNat / 2 ^ 24 % 2 = 0 := by
  simp only [inverted, Apart, step, Nat.zero_mod, true_and, and_true, Nat.add_zero, Nat.pow_one]

theorem apart_graded : Apart 0 (graded a b) ↔ a.toNat < 2 ^ 31 := by
  have ha := a.toNat_lt
  simp only [graded, Apart, step, Nat.zero_mod, true_and, and_true, Nat.add_zero, Nat.pow_one]
  omega

/-- A flag on top of bit 29 leaves bit 30 alone as long as both were clear. -/
theorem apart_button (hb : b.toNat ≤ 1) :
    Apart 0 (buttonFields a b c) ↔ a.toNat / 2 ^ 29 % 4 = 0 := by
  have ha := a.toNat_lt
  simp only [buttonFields, Apart, step, Nat.zero_mod, true_and, and_true, Nat.add_zero, Nat.pow_one]
  omega

end Registers

theorem cNot_le (n : UInt32) : (cNot n).toNat ≤ 1 := by
  unfold cNot
  split <;> decide

/-- Every packed register is the sum of its fields. -/
theorem isSum_of_mem_layout (c : DrawCall) : ∀ p ∈ layout c, IsSum p.1 p.2 := by
  cases c <;> simp only [layout, List.forall_mem_cons, List.not_mem_nil, false_imp_iff,
    implies_true, and_true]
  case drawWindow =>
    exact ⟨isSum_pair _ _, isSum_pair _ _, isSum_window _ _ _ _ _ _, isSum_flag _⟩
  case setPixel => exact isSum_inverted _ _
  case writeText => exact ⟨isSum_pair _ _, isSum_text _ _ _ _ _ _⟩
  case putImage => exact ⟨isSum_pair _ _, isSum_pair _ _⟩
  case button => exact ⟨isSum_pair _ _, isSum_pair _ _, isSum_button _ _ _⟩
  case drawRect => exact ⟨isSum_pair _ _, isSum_pair _ _, isSum_graded _ _⟩
  case drawLine => exact ⟨isSum_pair _ _, isSum_pair _ _, isSum_inverted _ _⟩
  case displayNumber => exact ⟨isSum_number _ _ _ _ _, isSum_pair _ _, isSum_numberText _ _ _ _ _⟩

theorem separate_iff (c : DrawCall) : Separate c ↔ ∀ p ∈ layout c, Apart 0 p.2 := by
  cases c <;> simp only [Separate, layout, List.forall_mem_cons, List.not_mem_nil, false_imp_iff,
    implies_true, and_true, apart_pair, apart_inverted, apart_graded, apart_button, cNot_le]
  -- the register with one flag and nothing below it
  case drawWindow =>
    simp only [UInt32.reduceToNat, Nat.zero_div, Nat.zero_mod, and_true]

/-- **The fields of a packed register are kept apart exactly when no argument reaches into the next
    field.** -/
theorem fieldsKept_iff (c : DrawCall) : FieldsKept c ↔ Separate c := by
  rw [separate_iff]
  refine forall₂_congr fun p hp => ?_
  obtain ⟨r, hr, hsum, hbits⟩ := isSum_of_mem_layout c p hp
  rw [← readsBack_iff hbits hsum, hr]
  simp only [Option.mem_def, Option.some.injEq, exists_eq_left']

/-- A line from `x = 10` to `x = -1`: its left end is read as 9. -/
theorem negative_end_not_kept : ¬ FieldsKept (.drawLine 10 (-1) 0 0 0 0) := by
  intro h
  obtain ⟨r, hr, hread⟩ := h _ List.mem_cons_self
  cases hr
  exact absurd hread (by decide)

end Umka.Proof.Kos
