import Umka.Shell.Scrot
import Mathlib.Tactic.Ring

/-!
# Copying the framebuffer

A scanline of the framebuffer is `lfb_pitch` bytes long. The three loops of `copy_display_to_rgb888`
read it as if a line were as long as its pixels, and the one for 16 bits uses the pitch for the copy
instead. Where the two lengths agree, or there is one line only, the copy is right. Where they do
not, the last pixel of the last line is one whose last byte none of the loops ever reads.
-/

set_option autoImplicit false

namespace Umka.Proof.Shell

open Lib Umka.Shell

/-! ## Colours -/

structure Rgb where
  red : UInt8
  green : UInt8
  blue : UInt8
deriving DecidableEq, Repr

/-- `0xRRGGBB`. -/
def Rgb.word (c : Rgb) : UInt32 :=
  UInt32.ofNat (c.red.toNat * 65536 + c.green.toNat * 256 + c.blue.toNat)

/-- The colour of the pixel at byte `a`: fields of five, six and five bits, or a byte each. -/
def colour (bpp : UInt32) (lfb : ByteMem) (a : Nat) : Rgb :=
  if bpp = 16 then
    let p := (lfb a).toNat + 256 * (lfb (a + 1)).toNat
    ⟨UInt8.ofNat (p / 2 ^ 11 * 8), UInt8.ofNat (p / 2 ^ 5 % 2 ^ 6 * 4), UInt8.ofNat (p % 2 ^ 5 * 8)⟩
  else ⟨lfb (a + 2), lfb (a + 1), lfb a⟩

/-- The word that stands for the pixel; at 32 bits it is the pixel, with its unused byte. -/
def rgb888 (bpp : UInt32) (lfb : ByteMem) (a : Nat) : UInt32 :=
  if bpp = 32 then lfb.load32 a else (colour bpp lfb a).word

theorem toNat_word (c : Rgb) :
    c.word.toNat = c.red.toNat * 65536 + c.green.toNat * 256 + c.blue.toNat := by
  have hr := c.red.toNat_lt
  have hg := c.green.toNat_lt
  have hb := c.blue.toNat_lt
  rw [Rgb.word, UInt32.toNat_ofNat']
  exact Nat.mod_eq_of_lt (by omega)

theorem and_mask (x n k : Nat) : x &&& ((2 ^ k - 1) * 2 ^ n) = x / 2 ^ n % 2 ^ k * 2 ^ n := by
  refine Nat.eq_of_testBit_eq fun i => ?_
  simp only [Nat.testBit_and, Nat.testBit_mul_two_pow, Nat.testBit_mod_two_pow,
    Nat.testBit_div_two_pow, Nat.testBit_two_pow_sub_one]
  by_cases hi : n ≤ i
  · simp only [hi, decide_true, Bool.true_and, Nat.sub_add_cancel, Bool.and_comm]
  · simp only [hi, decide_false, Bool.false_and, Bool.and_false]

/-- The masks and shifts of the 16-bit loop. -/
theorem word_of_565 (lfb : ByteMem) (a : Nat) :
    ((lfb.load16 a &&& 0xf800) <<< 8) + ((lfb.load16 a &&& 0x7e0) <<< 5)
      + ((lfb.load16 a &&& 0x1f) <<< 3) = (colour 16 lfb a).word := by
  have hr : ∀ p : Nat, p &&& 0xf800 = p / 2 ^ 11 % 2 ^ 5 * 2 ^ 11 := fun p => and_mask p 11 5
  have hg : ∀ p : Nat, p &&& 0x7e0 = p / 2 ^ 5 % 2 ^ 6 * 2 ^ 5 := fun p => and_mask p 5 6
  have hb : ∀ p : Nat, p &&& 0x1f = p % 2 ^ 5 := fun p => Nat.and_two_pow_sub_one_eq_mod p 5
  have h₀ := (lfb a).toNat_lt
  have h₁ := (lfb (a + 1)).toNat_lt
  refine UInt32.toNat_inj.mp ?_
  rw [toNat_word]
  simp only [colour, if_true, UInt32.toNat_add, UInt32.toNat_shiftLeft, UInt32.toNat_and,
    toNat_load16, UInt32.reduceToNat, hr, hg, hb, Nat.shiftLeft_eq, Nat.reduceMod, Nat.reducePow,
    UInt8.toNat_ofNat']
  -- from here on only the three fields matter
  generalize hp : (lfb a).toNat + 256 * (lfb (a + 1)).toNat = p
  rw [show p / 2048 % 32 = p / 2048 from Nat.mod_eq_of_lt (by omega)]
  have hr' : p / 2048 < 32 := by omega
  have hg' : p / 32 % 64 < 64 := Nat.mod_lt _ (by decide)
  have hb' : p % 32 < 32 := Nat.mod_lt _ (by decide)
  generalize p / 2048 = r at *
  generalize p / 32 % 64 = g at *
  generalize p % 32 = b at *
  omega

theorem colour_of_bytes {bpp : UInt32} (h : bpp ≠ 16) (lfb : ByteMem) (a : Nat) :
    colour bpp lfb a = ⟨lfb (a + 2), lfb (a + 1), lfb a⟩ :=
  if_neg h

/-- The sum of the 24-bit loop. -/
theorem word_of_bytes (lfb : ByteMem) (a : Nat) :
    ((lfb a).toUInt32 <<< 0) + ((lfb (a + 1)).toUInt32 <<< 8) + ((lfb (a + 2)).toUInt32 <<< 16)
      = (colour 24 lfb a).word := by
  have h₀ := (lfb a).toNat_lt
  have h₁ := (lfb (a + 1)).toNat_lt
  have h₂ := (lfb (a + 2)).toNat_lt
  refine UInt32.toNat_inj.mp ?_
  rw [toNat_word, colour_of_bytes (by decide)]
  simp only [UInt32.toNat_add, UInt32.toNat_shiftLeft, UInt8.toNat_toUInt32,
    UInt32.reduceToNat, Nat.shiftLeft_eq, Nat.reduceMod, Nat.reducePow]
  omega

/-! ## The geometry of a screen -/

section Geometry

variable (d : Screen)

/-- The depths that `copy_display_to_rgb888` knows. -/
def Supported : Prop := d.bitsPerPixel = 16 ∨ d.bitsPerPixel = 24 ∨ d.bitsPerPixel = 32

/-- The bytes of the pixels of a line. -/
def lineBytes : Nat := d.width.toNat * d.bitsPerPixel.toNat / 8

def pixelOffset (x y : Nat) : Nat := y * d.lfbPitch.toNat + x * d.bitsPerPixel.toNat / 8

/-- The copy fits into the address space. -/
def Fits : Prop := 4 * d.width.toNat * d.height.toNat < 2 ^ 32

instance : Decidable (Fits d) := inferInstanceAs (Decidable (_ < _))

/-- There is no padding that matters: lines follow each other, or there is at most one. -/
def Unpadded : Prop :=
  d.height.toNat ≤ 1 ∨ d.width.toNat = 0 ∨ d.lfbPitch.toNat = lineBytes d

/-- `copy_display_to_rgb888` puts every pixel into its word, and writes nothing behind the buffer
    that `cmd_scrot` allocates. -/
def CaptureRight : Prop :=
  ∀ lfb dst : ByteMem,
    (∀ x y, x < d.width.toNat → y < d.height.toNat →
      (copyDisplayToRgb888 d lfb dst).load32 (4 * (y * d.width.toNat + x))
        = rgb888 d.bitsPerPixel lfb (pixelOffset d x y))
    ∧ ∀ a, scrotSize d ≤ a → copyDisplayToRgb888 d lfb dst a = dst a

end Geometry

section Copies

variable {d : Screen}

theorem sizeT_of_lt {n : Nat} (h : n < 2 ^ 32) : sizeT n = n := Nat.mod_eq_of_lt h

theorem sizeT_le (n : Nat) : sizeT n ≤ n := Nat.mod_le n _

theorem Fits.pixel_lt (hfit : Fits d) {x y : Nat} (hx : x < d.width.toNat)
    (hy : y < d.height.toNat) : 4 * (y * d.width.toNat + x) + 4 ≤ 4 * d.width.toNat * d.height.toNat
      ∧ 4 * (y * d.width.toNat + x) + 4 < 2 ^ 32 := by
  have hlt := Lib.pixel_lt hy hx
  rw [Fits, Nat.mul_assoc, Nat.mul_comm d.width.toNat] at hfit
  rw [Nat.mul_assoc, Nat.mul_comm d.width.toNat]
  omega

theorem Fits.scrotSize_eq (hfit : Fits d) : scrotSize d = 4 * (d.height.toNat * d.width.toNat) := by
  rw [scrotSize, sizeT_of_lt hfit, Nat.mul_assoc, Nat.mul_comm d.width.toNat]

theorem mul_bits_div (n k : Nat) : n * (8 * k) / 8 = k * n := by
  rw [show n * (8 * k) = k * n * 8 by ring]
  exact Nat.mul_div_cancel _ (by decide)

/-- Without padding the pixels follow each other. -/
theorem Unpadded.line_eq (hun : Unpadded d) {k x y : Nat} (hk : d.bitsPerPixel.toNat = 8 * k)
    (hx : x < d.width.toNat) (hy : y < d.height.toNat) :
    y * d.lfbPitch.toNat = k * (y * d.width.toNat) := by
  rcases hun with h | h | h
  · obtain rfl : y = 0 := by omega
    simp only [Nat.zero_mul, Nat.mul_zero]
  · omega
  · rw [h, lineBytes, hk, mul_bits_div, Nat.mul_left_comm]

theorem Unpadded.pixelOffset_eq (hun : Unpadded d) {k x y : Nat}
    (hk : d.bitsPerPixel.toNat = 8 * k) (hx : x < d.width.toNat) (hy : y < d.height.toNat) :
    pixelOffset d x y = k * (y * d.width.toNat + x) := by
  rw [pixelOffset, hun.line_eq hk hx hy, hk, mul_bits_div, Nat.mul_add]

/-! ## Without padding -/

theorem sizeT_mul_sizeT {k i : Nat} (hk : 0 < k) (h : k * i < 2 ^ 32) :
    sizeT (k * sizeT i) = k * i := by
  have hi : i < 2 ^ 32 := Nat.lt_of_le_of_lt (Nat.le_mul_of_pos_left i hk) h
  rw [sizeT_of_lt hi, sizeT_of_lt h]

/-- Where the word of a pixel is. -/
theorem Fits.wordAddr (hfit : Fits d) {x y : Nat} (hx : x < d.width.toNat)
    (hy : y < d.height.toNat) :
    sizeT (4 * sizeT (y * d.width.toNat + x)) = 4 * (y * d.width.toNat + x) := by
  have hat := hfit.pixel_lt hx hy
  exact sizeT_mul_sizeT (by decide) (by omega)

/-- And where the 16-bit loop puts it. -/
theorem Fits.wordAddr16 (hfit : Fits d) (hun : Unpadded d) (hbpp : d.bitsPerPixel = 16) {x y : Nat}
    (hx : x < d.width.toNat) (hy : y < d.height.toNat) :
    sizeT (4 * sizeT (sizeT (y * d.lfbPitch.toNat) / 2 + x)) = 4 * (y * d.width.toNat + x) := by
  have hat := hfit.pixel_lt hx hy
  have hline : y * d.lfbPitch.toNat = 2 * (y * d.width.toNat) :=
    hun.line_eq (by rw [hbpp]; rfl) hx hy
  have hhalf : sizeT (y * d.lfbPitch.toNat) / 2 = y * d.width.toNat := by
    rw [hline, sizeT_of_lt (by omega), Nat.mul_div_cancel_left _ (by decide)]
  rw [hhalf]
  exact hfit.wordAddr hx hy

theorem copy16_apply (hfit : Fits d) (hun : Unpadded d) (hbpp : d.bitsPerPixel = 16)
    (lfb dst : ByteMem) {x y j : Nat} (hx : x < d.width.toNat) (hy : y < d.height.toNat)
    (hj : j < 4) : copyDisplayBpp16ToRgb888 d lfb dst (4 * (y * d.width.toNat + x) + j)
      = byteOf (rgb888 d.bitsPerPixel lfb (pixelOffset d x y)) j := by
  have hk : d.bitsPerPixel.toNat = 8 * 2 := by rw [hbpp]; rfl
  have hat := hfit.pixel_lt hx hy
  refine (forPixels_store (fun y x hy hx => hfit.wordAddr16 hun hbpp hx hy)
    (fun _ _ _ _ _ _ _ => rfl) hy hx hj dst).trans ?_
  rw [sizeT_mul_sizeT (by decide) (by omega), word_of_565, hbpp, hun.pixelOffset_eq hk hx hy]
  rfl

theorem copy24_apply (hfit : Fits d) (hun : Unpadded d) (hbpp : d.bitsPerPixel = 24)
    (lfb dst : ByteMem) {x y j : Nat} (hx : x < d.width.toNat) (hy : y < d.height.toNat)
    (hj : j < 4) : copyDisplayBpp24ToRgb888 d lfb dst (4 * (y * d.width.toNat + x) + j)
      = byteOf (rgb888 d.bitsPerPixel lfb (pixelOffset d x y)) j := by
  have hk : d.bitsPerPixel.toNat = 8 * 3 := by rw [hbpp]; rfl
  have hat := hfit.pixel_lt hx hy
  have hbyte : ∀ k < 3, sizeT (y * d.width.toNat * 3 + x * 3 + k)
      = 3 * (y * d.width.toNat + x) + k := fun k hk => by
    rw [sizeT_of_lt (by omega)]
    omega
  refine (forPixels_store (fun y x hy hx => hfit.wordAddr hx hy) (fun _ _ _ _ _ _ _ => rfl)
    hy hx hj dst).trans ?_
  dsimp only
  rw [hbyte 0 (by decide), hbyte 1 (by decide), hbyte 2 (by decide), Nat.add_zero, word_of_bytes,
    hbpp, hun.pixelOffset_eq hk hx hy]
  rfl

theorem copy32_apply (hfit : Fits d) (hun : Unpadded d) (hbpp : d.bitsPerPixel = 32)
    (lfb dst : ByteMem) {x y j : Nat} (hx : x < d.width.toNat) (hy : y < d.height.toNat)
    (hj : j < 4) : copyDisplayBpp32ToRgb888 d lfb dst (4 * (y * d.width.toNat + x) + j)
      = byteOf (rgb888 d.bitsPerPixel lfb (pixelOffset d x y)) j := by
  have hk : d.bitsPerPixel.toNat = 8 * 4 := by rw [hbpp]; rfl
  have hat := hfit.pixel_lt hx hy
  have hsize : d.width.toNat * d.height.toNat * 4 = 4 * d.width.toNat * d.height.toNat := by ring
  rw [copyDisplayBpp32ToRgb888, ByteMem.memcpy, hsize, sizeT_of_lt hfit, if_pos (by omega), rgb888,
    if_pos hbpp, byteOf_load32 hj, hun.pixelOffset_eq hk hx hy]

theorem copyDisplay_16 (h : d.bitsPerPixel = 16) :
    copyDisplayToRgb888 d = copyDisplayBpp16ToRgb888 d := by
  funext lfb dst
  rw [copyDisplayToRgb888, if_pos h]

theorem copyDisplay_24 (h : d.bitsPerPixel = 24) :
    copyDisplayToRgb888 d = copyDisplayBpp24ToRgb888 d := by
  funext lfb dst
  rw [copyDisplayToRgb888, if_neg (by rw [h]; decide), if_pos h]

theorem copyDisplay_32 (h : d.bitsPerPixel = 32) :
    copyDisplayToRgb888 d = copyDisplayBpp32ToRgb888 d := by
  funext lfb dst
  rw [copyDisplayToRgb888, if_neg (by rw [h]; decide), if_neg (by rw [h]; decide), if_pos h]

/-- Each word of the copy, byte by byte. -/
theorem copy_apply (hd : Supported d) (hfit : Fits d) (hun : Unpadded d) (lfb dst : ByteMem)
    {x y j : Nat} (hx : x < d.width.toNat) (hy : y < d.height.toNat) (hj : j < 4) :
    copyDisplayToRgb888 d lfb dst (4 * (y * d.width.toNat + x) + j)
      = byteOf (rgb888 d.bitsPerPixel lfb (pixelOffset d x y)) j := by
  rcases hd with h | h | h
  · rw [copyDisplay_16 h]
    exact copy16_apply hfit hun h lfb dst hx hy hj
  · rw [copyDisplay_24 h]
    exact copy24_apply hfit hun h lfb dst hx hy hj
  · rw [copyDisplay_32 h]
    exact copy32_apply hfit hun h lfb dst hx hy hj

/-- Nothing is written behind the copy. -/
theorem copy_behind (hd : Supported d) (hfit : Fits d) (hun : Unpadded d) (lfb dst : ByteMem)
    {a : Nat} (ha : 4 * (d.height.toNat * d.width.toNat) ≤ a) :
    copyDisplayToRgb888 d lfb dst a = dst a := by
  rcases hd with h | h | h
  · rw [copyDisplay_16 h]
    exact forPixels_store_behind (fun y x hy hx => hfit.wordAddr16 hun h hx hy) ha dst
  · rw [copyDisplay_24 h]
    exact forPixels_store_behind (fun y x hy hx => hfit.wordAddr hx hy) ha dst
  · rw [copyDisplay_32 h]
    have hsize : d.width.toNat * d.height.toNat * 4 = 4 * (d.height.toNat * d.width.toNat) := by
      ring
    have hle := sizeT_le (d.width.toNat * d.height.toNat * 4)
    exact if_neg (by omega)

/-! ## With padding -/

/-- The loops look at the first `lineBytes * height` bytes of the framebuffer only. -/
theorem copy_congr (hd : Supported d) {lfb lfb' : ByteMem}
    (h : ∀ a < lineBytes d * d.height.toNat, lfb a = lfb' a) (dst : ByteMem) :
    copyDisplayToRgb888 d lfb dst = copyDisplayToRgb888 d lfb' dst := by
  have hbytes : ∀ k, d.bitsPerPixel.toNat = 8 * k → ∀ x y, x < d.width.toNat →
      y < d.height.toNat → ∀ a < k * (y * d.width.toNat + x) + k, lfb a = lfb' a := by
    intro k hk x y hx hy a ha
    refine h a (Nat.lt_of_lt_of_le ha ?_)
    rw [lineBytes, hk, mul_bits_div, Nat.mul_assoc, Nat.mul_comm d.width.toNat, ← Nat.mul_succ]
    exact Nat.mul_le_mul_left k (pixel_lt hy hx)
  rcases hd with hbpp | hbpp | hbpp
  · rw [copyDisplay_16 hbpp]
    refine forPixels_congr (fun y x m hy hx => ?_) dst
    have hall := hbytes 2 (by rw [hbpp]; rfl) x y hx hy
    have hle : sizeT (2 * sizeT (y * d.width.toNat + x)) ≤ 2 * (y * d.width.toNat + x) :=
      Nat.le_trans (sizeT_le _) (Nat.mul_le_mul_left 2 (sizeT_le _))
    simp only [ByteMem.load16]
    rw [hall _ (by omega), hall _ (by omega)]
  · rw [copyDisplay_24 hbpp]
    refine forPixels_congr (fun y x m hy hx => ?_) dst
    have hall := hbytes 3 (by rw [hbpp]; rfl) x y hx hy
    have hbyte : ∀ k < 3, lfb (sizeT (y * d.width.toNat * 3 + x * 3 + k))
        = lfb' (sizeT (y * d.width.toNat * 3 + x * 3 + k)) := fun k hk => by
      have hle := sizeT_le (y * d.width.toNat * 3 + x * 3 + k)
      exact hall _ (by omega)
    simp only [hbyte 0 (by decide), hbyte 1 (by decide), hbyte 2 (by decide)]
  · rw [copyDisplay_32 hbpp]
    funext a
    simp only [copyDisplayBpp32ToRgb888, ByteMem.memcpy]
    split
    · next ha =>
      refine h a (Nat.lt_of_lt_of_le ha (Nat.le_trans (sizeT_le _) (le_of_eq ?_)))
      rw [lineBytes, show d.bitsPerPixel.toNat = 8 * 4 by rw [hbpp]; rfl, mul_bits_div]
      ring
    · rfl

/-- With padding the last byte of the last pixel is not among them. -/
theorem last_byte_ge {k : Nat} (hk : d.bitsPerPixel.toNat = 8 * k) (hk0 : 0 < k)
    (hw : 0 < d.width.toNat) (hh : 1 < d.height.toNat) (hpad : lineBytes d < d.lfbPitch.toNat) :
    lineBytes d * d.height.toNat
      ≤ pixelOffset d (d.width.toNat - 1) (d.height.toNat - 1) + (k - 1) := by
  obtain ⟨w, hw⟩ := Nat.exists_eq_add_one_of_ne_zero (Nat.ne_of_gt hw)
  obtain ⟨h, hh⟩ := Nat.exists_eq_add_of_lt hh
  have hline : lineBytes d = k * w + k := by rw [lineBytes, hk, mul_bits_div, hw, Nat.mul_succ]
  have hrows : (h + 1) * (lineBytes d + 1) ≤ (h + 1) * d.lfbPitch.toNat :=
    Nat.mul_le_mul_left _ hpad
  rw [pixelOffset, hk, mul_bits_div, hw, hh, Nat.add_sub_cancel, Nat.add_sub_cancel,
    Nat.add_comm 1 h, Nat.mul_succ, Nat.mul_comm (lineBytes d)]
  rw [Nat.mul_succ] at hrows
  omega

/-- The word of a pixel depends on its last byte. -/
theorem rgb888_last {bpp : UInt32} {k : Nat} (hbpp : bpp = 16 ∧ k = 2 ∨ bpp = 24 ∧ k = 3
      ∨ bpp = 32 ∧ k = 4) (a : Nat) :
    rgb888 bpp (fun _ => 0) a ≠ rgb888 bpp (fun i => if i = a + (k - 1) then 255 else 0) a := by
  rcases hbpp with ⟨rfl, rfl⟩ | ⟨rfl, rfl⟩ | ⟨rfl, rfl⟩
  · simp [rgb888, colour, Rgb.word]
  · simp [rgb888, colour, Rgb.word]
  · -- the unused byte is part of the word too
    intro h
    have hbyte := congrArg (byteOf · 3) h
    simp only [rgb888, if_true, byteOf_load32 (show 3 < 4 by decide)] at hbyte
    exact absurd hbyte (by decide)

/-- A screen without pixels fits. -/
theorem nonempty_of_not_fits (h : ¬ Fits d) : d.width.toNat ≠ 0 ∧ d.height.toNat ≠ 0 :=
  ⟨fun h0 => h (by simp [Fits, h0]), fun h0 => h (by simp [Fits, h0])⟩

/-- The end of the last pixel is the end of the copy. -/
theorem last_pixel (hw : d.width.toNat ≠ 0) (hh : d.height.toNat ≠ 0) :
    4 * ((d.height.toNat - 1) * d.width.toNat + (d.width.toNat - 1)) + 4
      = 4 * d.width.toNat * d.height.toNat := by
  obtain ⟨w, hw⟩ := Nat.exists_eq_add_one_of_ne_zero hw
  obtain ⟨h, hh⟩ := Nat.exists_eq_add_one_of_ne_zero hh
  rw [hw, hh, Nat.add_sub_cancel, Nat.add_sub_cancel]
  ring

/-- Behind the buffer nothing is written, so all words are in it. -/
theorem CaptureRight.fits (h : CaptureRight d) : Fits d := by
  by_contra hfit
  obtain ⟨hw, hh⟩ := nonempty_of_not_fits hfit
  have hlast := last_pixel hw hh
  have hroom : scrotSize d ≤ 4 * ((d.height.toNat - 1) * d.width.toNat + (d.width.toNat - 1)) := by
    rw [Fits] at hfit
    rw [scrotSize, sizeT]
    omega
  -- the last word stays what it was, whatever that was
  have hkeep : ∀ dst : ByteMem,
      dst.load32 (4 * ((d.height.toNat - 1) * d.width.toNat + (d.width.toNat - 1)))
        = rgb888 d.bitsPerPixel (fun _ => 0)
            (pixelOffset d (d.width.toNat - 1) (d.height.toNat - 1)) := by
    intro dst
    obtain ⟨hval, hbehind⟩ := h (fun _ => 0) dst
    rw [← hval _ _ (Nat.sub_one_lt hw) (Nat.sub_one_lt hh)]
    exact load32_congr fun j _ => (hbehind _ (Nat.le_add_right_of_le hroom)).symm
  have hsame := (hkeep fun _ => 0).trans (hkeep fun _ => 1).symm
  exact absurd hsame (by simp only [ByteMem.load32]; decide)

/-- Two framebuffers that differ in the last byte have the same copy. -/
theorem CaptureRight.unpadded (hd : Supported d) (hpitch : lineBytes d ≤ d.lfbPitch.toNat)
    (h : CaptureRight d) : Unpadded d := by
  by_contra hun
  simp only [Unpadded, not_or, Nat.not_le] at hun
  obtain ⟨hh, hw, hpad⟩ := hun
  obtain ⟨k, hk, hk0, hbpp⟩ : ∃ k, d.bitsPerPixel.toNat = 8 * k ∧ 0 < k
      ∧ (d.bitsPerPixel = 16 ∧ k = 2 ∨ d.bitsPerPixel = 24 ∧ k = 3
        ∨ d.bitsPerPixel = 32 ∧ k = 4) := by
    rcases hd with hb | hb | hb
    · exact ⟨2, by rw [hb]; rfl, by decide, .inl ⟨hb, rfl⟩⟩
    · exact ⟨3, by rw [hb]; rfl, by decide, .inr (.inl ⟨hb, rfl⟩)⟩
    · exact ⟨4, by rw [hb]; rfl, by decide, .inr (.inr ⟨hb, rfl⟩)⟩
  have hlast := last_byte_ge hk hk0 (Nat.pos_of_ne_zero hw) hh (by omega)
  have hx : d.width.toNat - 1 < d.width.toNat := by omega
  have hy : d.height.toNat - 1 < d.height.toNat := by omega
  refine rgb888_last hbpp (pixelOffset d (d.width.toNat - 1) (d.height.toNat - 1)) ?_
  rw [← (h (fun _ => 0) fun _ => 0).1 _ _ hx hy, ← (h _ fun _ => 0).1 _ _ hx hy]
  refine congrArg (ByteMem.load32 · _) (copy_congr hd (fun a ha => ?_) _)
  exact (if_neg (by omega)).symm

end Copies

/-- **A capture is right exactly when the screen is not padded**, and its copy fits into the
    address space. -/
theorem capture_iff (d : Screen) (hd : Supported d) (hpitch : lineBytes d ≤ d.lfbPitch.toNat) :
    CaptureRight d ↔ Fits d ∧ Unpadded d := by
  constructor
  · intro h
    exact ⟨h.fits, h.unpadded hd hpitch⟩
  · rintro ⟨hfit, hun⟩ lfb dst
    refine ⟨fun x y hx hy => ?_, fun a ha => ?_⟩
    · rw [← load32_store32 (m := dst) (a := 4 * (y * d.width.toNat + x))
        (v := rgb888 d.bitsPerPixel lfb (pixelOffset d x y))]
      refine load32_congr fun j hj => ?_
      rw [store32_apply hj]
      exact copy_apply hd hfit hun lfb dst hx hy hj
    · rw [hfit.scrotSize_eq] at ha
      exact copy_behind hd hfit hun lfb dst ha

/-- A screen of 640 by 480 with 24 bits per pixel and no padding. -/
theorem capture_iff_vga : CaptureRight ⟨640, 480, 24, 1920⟩ :=
  (capture_iff _ (.inr (.inl rfl)) (by decide)).mpr ⟨by decide, .inr (.inr (by decide))⟩

/-- Two lines of one pixel, padded to eight bytes each. -/
theorem padded_capture_not_right : ¬ CaptureRight ⟨1, 2, 32, 8⟩ := by
  intro h
  have hword := (h (fun a => if a = 8 then 1 else 0) fun _ => 0).1 0 1 (by decide) (by decide)
  exact absurd hword (by decide)

end Umka.Proof.Shell
