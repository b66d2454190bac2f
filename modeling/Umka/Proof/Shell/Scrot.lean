import Umka.Proof.Shell.Capture

/-!
# Screenshots

`cmd_scrot` exchanges the channels in the buffer that it has just filled: it reads three bytes of
a pixel and stores a word over the same pixel. No other pixel is read or written meanwhile, so the
loop sees each pixel as the copy left it, and what the encoder gets are the bytes red, green, blue
and 255. What the framebuffer's depth was no longer shows.
-/

set_option autoImplicit false

namespace Umka.Proof.Shell

open Lib Umka.Shell

/-- Lines follow each other. -/
def Tight (d : Screen) : Prop := d.lfbPitch.toNat = lineBytes d

/-- The buffer has a place for each pixel, and there its colour. -/
def ScrotRight (d : Screen) : Prop :=
  ∀ (lfb junk : ByteMem) (x y : Nat), x < d.width.toNat → y < d.height.toNat →
    4 * (y * d.width.toNat + x) + 4 ≤ scrotSize d
    ∧ scrotBuffer d lfb junk (4 * (y * d.width.toNat + x))
        = (colour d.bitsPerPixel lfb (pixelOffset d x y)).red
    ∧ scrotBuffer d lfb junk (4 * (y * d.width.toNat + x) + 1)
        = (colour d.bitsPerPixel lfb (pixelOffset d x y)).green
    ∧ scrotBuffer d lfb junk (4 * (y * d.width.toNat + x) + 2)
        = (colour d.bitsPerPixel lfb (pixelOffset d x y)).blue
    ∧ scrotBuffer d lfb junk (4 * (y * d.width.toNat + x) + 3) = 255

/-- Framebuffers with the same colours give the same screenshot. -/
def SameScrots (d d' : Screen) : Prop :=
  ∀ lfb lfb' junk junk' : ByteMem,
    (∀ x y, x < d.width.toNat → y < d.height.toNat →
      colour d.bitsPerPixel lfb (pixelOffset d x y)
        = colour d'.bitsPerPixel lfb' (pixelOffset d' x y)) →
    ∀ a < scrotSize d, scrotBuffer d lfb junk a = scrotBuffer d' lfb' junk' a

/-! ## The bytes of a word -/

theorem byteOf_rgb888 (bpp : UInt32) (lfb : ByteMem) (a : Nat) :
    byteOf (rgb888 bpp lfb a) 0 = (colour bpp lfb a).blue
    ∧ byteOf (rgb888 bpp lfb a) 1 = (colour bpp lfb a).green
    ∧ byteOf (rgb888 bpp lfb a) 2 = (colour bpp lfb a).red := by
  unfold rgb888
  split
  · next h =>
    rw [h, colour_of_bytes (by decide), byteOf_load32 (by decide), byteOf_load32 (by decide),
      byteOf_load32 (by decide)]
    exact ⟨rfl, rfl, rfl⟩
  · generalize colour bpp lfb a = c
    have hr := c.red.toNat_lt
    have hg := c.green.toNat_lt
    have hb := c.blue.toNat_lt
    refine ⟨UInt8.toNat_inj.mp ?_, UInt8.toNat_inj.mp ?_, UInt8.toNat_inj.mp ?_⟩
    all_goals
      rw [byteOf, UInt8.toNat_ofNat', toNat_word]
      simp only [Nat.reducePow]
      omega

/-- The word that the loop of `cmd_scrot` makes of three bytes. -/
theorem byteOf_swapped (b₀ b₁ b₂ : UInt8) :
    let p := (b₀.toUInt32 <<< 16) + (b₁.toUInt32 <<< 8) + (b₂.toUInt32 <<< 0) + 0xff000000
    byteOf p 0 = b₂ ∧ byteOf p 1 = b₁ ∧ byteOf p 2 = b₀ ∧ byteOf p 3 = 255 := by
  intro p
  have h₀ := b₀.toNat_lt
  have h₁ := b₁.toNat_lt
  have h₂ := b₂.toNat_lt
  have hp : p.toNat = b₀.toNat * 65536 + b₁.toNat * 256 + b₂.toNat + 0xff000000 := by
    simp only [p, UInt32.toNat_add, UInt32.toNat_shiftLeft, UInt8.toNat_toUInt32,
      UInt32.reduceToNat, Nat.shiftLeft_eq, Nat.reduceMod, Nat.reducePow]
    omega
  refine ⟨UInt8.toNat_inj.mp ?_, UInt8.toNat_inj.mp ?_, UInt8.toNat_inj.mp ?_,
    UInt8.toNat_inj.mp ?_⟩
  all_goals
    rw [byteOf, UInt8.toNat_ofNat', hp]
    simp only [Nat.reducePow, UInt8.reduceToNat]
    omega

/-! ## The loop in place -/

section Scrot

variable {d : Screen}

/-- After the loop a pixel has its bytes exchanged, as they were before the loop. -/
theorem swapChannels_apply (hfit : Fits d) (buf : ByteMem) {x y : Nat} (hx : x < d.width.toNat)
    (hy : y < d.height.toNat) :
    swapChannels d buf (4 * (y * d.width.toNat + x)) = buf (4 * (y * d.width.toNat + x) + 2)
    ∧ swapChannels d buf (4 * (y * d.width.toNat + x) + 1) = buf (4 * (y * d.width.toNat + x) + 1)
    ∧ swapChannels d buf (4 * (y * d.width.toNat + x) + 2) = buf (4 * (y * d.width.toNat + x))
    ∧ swapChannels d buf (4 * (y * d.width.toNat + x) + 3) = 255 := by
  have hbyte : ∀ y x, y < d.height.toNat → x < d.width.toNat → ∀ k < 4,
      sizeT (y * d.width.toNat * 4 + x * 4 + k) = 4 * (y * d.width.toNat + x) + k := by
    intro y x hy hx k hk
    have hat := hfit.pixel_lt hx hy
    rw [sizeT_of_lt (by omega)]
    omega
  have hstore : ∀ j < 4, swapChannels d buf (4 * (y * d.width.toNat + x) + j) = byteOf
      (((buf (4 * (y * d.width.toNat + x))).toUInt32 <<< 16)
        + ((buf (4 * (y * d.width.toNat + x) + 1)).toUInt32 <<< 8)
        + ((buf (4 * (y * d.width.toNat + x) + 2)).toUInt32 <<< 0) + 0xff000000) j := by
    intro j hj
    refine (forPixels_store (fun y x hy hx => hfit.wordAddr hx hy) (fun y x hy hx m m' hm => ?_)
      hy hx hj buf).trans ?_
    · simp only [hbyte y x hy hx 0 (by decide), hbyte y x hy hx 1 (by decide),
        hbyte y x hy hx 2 (by decide), hm 0 (by decide), hm 1 (by decide), hm 2 (by decide)]
    · have h₀ : sizeT (y * d.width.toNat * 4 + x * 4) = 4 * (y * d.width.toNat + x) :=
        hbyte y x hy hx 0 (by decide)
      simp only [Nat.add_zero, h₀, hbyte y x hy hx 1 (by decide), hbyte y x hy hx 2 (by decide)]
  obtain ⟨h₀, h₁, h₂, h₃⟩ := byteOf_swapped (buf (4 * (y * d.width.toNat + x)))
    (buf (4 * (y * d.width.toNat + x) + 1)) (buf (4 * (y * d.width.toNat + x) + 2))
  exact ⟨(hstore 0 (by decide)).trans h₀, (hstore 1 (by decide)).trans h₁,
    (hstore 2 (by decide)).trans h₂, (hstore 3 (by decide)).trans h₃⟩

theorem scrotRight_of_fits (hd : Supported d) (ht : Tight d) (hfit : Fits d) : ScrotRight d := by
  intro lfb junk x y hx hy
  have hun : Unpadded d := .inr (.inr ht)
  have hcopy := fun {j : Nat} (hj : j < 4) => copy_apply hd hfit hun lfb junk hx hy hj
  obtain ⟨h₀, h₁, h₂, h₃⟩ := swapChannels_apply hfit (copyDisplayToRgb888 d lfb junk) hx hy
  obtain ⟨hblue, hgreen, hred⟩ := byteOf_rgb888 d.bitsPerPixel lfb (pixelOffset d x y)
  refine ⟨?_, h₀.trans ((hcopy (by decide)).trans hred),
    h₁.trans ((hcopy (by decide)).trans hgreen),
    h₂.trans ((hcopy (j := 0) (by decide)).trans hblue), h₃⟩
  rw [hfit.scrotSize_eq]
  have hlt := pixel_lt hy hx
  omega

/-- If the last pixel has a place in the buffer, the size of the buffer is right. -/
theorem ScrotRight.fits (h : ScrotRight d) : Fits d := by
  by_contra hfit
  obtain ⟨hw, hh⟩ := nonempty_of_not_fits hfit
  have hplace := (h (fun _ => 0) (fun _ => 0) _ _ (Nat.sub_one_lt hw) (Nat.sub_one_lt hh)).1
  rw [last_pixel hw hh, scrotSize, sizeT] at hplace
  rw [Fits] at hfit
  omega

theorem sameScrots_of_right {d' : Screen} (hw : d'.width = d.width) (hh : d'.height = d.height)
    (hfit : Fits d) (h : ScrotRight d) (h' : ScrotRight d') : SameScrots d d' := by
  intro lfb lfb' junk junk' hsame a ha
  rw [hfit.scrotSize_eq] at ha
  have hw0 : 0 < d.width.toNat := Nat.pos_of_ne_zero fun h0 => by simp [h0] at ha
  have hx : a / 4 % d.width.toNat < d.width.toNat := Nat.mod_lt _ hw0
  have hy : a / 4 / d.width.toNat < d.height.toNat := Nat.div_lt_of_lt_mul (by
    rw [Nat.mul_comm]
    omega)
  have hi : a / 4 / d.width.toNat * d.width.toNat + a / 4 % d.width.toNat = a / 4 := by
    rw [Nat.mul_comm]
    exact Nat.div_add_mod _ _
  obtain ⟨-, hr, hg, hb, hf⟩ := h lfb junk _ _ hx hy
  obtain ⟨-, hr', hg', hb', hf'⟩ := h' lfb' junk' (a / 4 % d.width.toNat) (a / 4 / d.width.toNat)
    (by rwa [hw]) (by rwa [hh])
  rw [← hsame _ _ hx hy] at hr' hg' hb'
  rw [hw, hi] at hr' hg' hb' hf'
  rw [hi] at hr hg hb hf
  obtain hj | hj | hj | hj : a = 4 * (a / 4) ∨ a = 4 * (a / 4) + 1 ∨ a = 4 * (a / 4) + 2
      ∨ a = 4 * (a / 4) + 3 := by omega
  · rw [hj, hr, hr']
  · rw [hj, hg, hg']
  · rw [hj, hb, hb']
  · rw [hj, hf, hf']

end Scrot

/-- Screenshots are right exactly as long as the buffer's size is a `size_t`. -/
theorem scrots_iff {d : Screen} (hd : Supported d) (ht : Tight d) :
    (ScrotRight d ∧ ∀ d' : Screen, d'.width = d.width → d'.height = d.height → Supported d' →
      Tight d' → SameScrots d d') ↔ Fits d := by
  refine ⟨fun h => h.1.fits, fun hfit => ⟨scrotRight_of_fits hd ht hfit, ?_⟩⟩
  intro d' hw hh hd' ht'
  have hfit' : Fits d' := by rwa [Fits, hw, hh]
  exact sameScrots_of_right hw hh hfit (scrotRight_of_fits hd ht hfit)
    (scrotRight_of_fits hd' ht' hfit')

/-- **Screenshots carry the right channels at every depth**, and screens with the same colours
    give the same screenshot, for every picture that a `size_t` can measure. -/
theorem scrots_right (d : Screen) (hd : Supported d) (ht : Tight d) (hfit : Fits d) :
    ScrotRight d ∧ ∀ d' : Screen, d'.width = d.width → d'.height = d.height → Supported d' →
      Tight d' → SameScrots d d' :=
  (scrots_iff hd ht).mpr hfit

/-- A screen of 640 by 480 at 16 bits per pixel, and the same screen at 24 and 32. -/
theorem scrots_right_vga : ScrotRight ⟨640, 480, 16, 1280⟩
    ∧ SameScrots ⟨640, 480, 16, 1280⟩ ⟨640, 480, 24, 1920⟩
    ∧ SameScrots ⟨640, 480, 16, 1280⟩ ⟨640, 480, 32, 2560⟩ := by
  obtain ⟨hright, hsame⟩ := scrots_right ⟨640, 480, 16, 1280⟩ (.inl rfl)
    (by unfold Tight; decide) (by decide)
  exact ⟨hright, hsame _ rfl rfl (.inr (.inl rfl)) (by unfold Tight; decide),
    hsame _ rfl rfl (.inr (.inr rfl)) (by unfold Tight; decide)⟩

end Umka.Proof.Shell
