import Mathlib.Data.List.Nodup
import Mathlib.Data.List.ProdSigma
import Mathlib.Tactic.Common
import Mathlib.Algebra.Order.Ring.Nat

/-!
# Loops over a picture, and byte memory

A nested loop over rows and columns is a loop over pairs. If each pair has a home cell of its own,
and the body at that pair changes no other cell and looks at no other cell, then the loop may as
well have run the body once, at that pair, on what was there before: `foldl_home`. That covers a
loop that fills a buffer and one that rewrites a buffer in place.

Memory is a function from byte offsets; words are little-endian.
-/

set_option autoImplicit false

namespace Umka.Lib

/-! ## Sweeps -/

section Sweep

variable {κ ι α γ : Type} {step : κ → (ι → α) → ι → α} {cell : ι → γ} {home : κ → γ}

/-- At `k` the body changes its home cell only, and looks at no other cell for it. -/
structure StaysHome (step : κ → (ι → α) → ι → α) (cell : ι → γ) (home : κ → γ) (k : κ) : Prop where
  frame : ∀ m i, cell i ≠ home k → step k m i = m i
  looks : ∀ m m' i, (∀ j, cell j = home k → m j = m' j) → cell i = home k → step k m i = step k m' i

/-- A cell that is nobody's home keeps what it holds. -/
theorem foldl_away {ks : List κ} (hs : ∀ k ∈ ks, StaysHome step cell home k) {i : ι}
    (hi : ∀ k ∈ ks, cell i ≠ home k) (m : ι → α) : ks.foldl (fun m k => step k m) m i = m i := by
  induction ks generalizing m with
  | nil => rfl
  | cons k ks ih =>
    rw [List.foldl_cons, ih (fun k' h => hs k' (List.mem_cons_of_mem _ h))
      (fun k' h => hi k' (List.mem_cons_of_mem _ h))]
    exact (hs k List.mem_cons_self).frame m i (hi k List.mem_cons_self)

/-- The home of `k` holds what the body at `k` makes of what was there at first. -/
theorem foldl_home {ks : List κ} (hs : ∀ k ∈ ks, StaysHome step cell home k)
    (hhome : (ks.map home).Nodup) {k : κ} (hk : k ∈ ks) {i : ι} (hi : cell i = home k)
    (m : ι → α) : ks.foldl (fun m k => step k m) m i = step k m i := by
  induction ks generalizing m with
  | nil => cases hk
  | cons k₀ ks ih =>
    have htail : ∀ k ∈ ks, StaysHome step cell home k :=
      fun k' h => hs k' (List.mem_cons_of_mem _ h)
    rw [List.map_cons, List.nodup_cons] at hhome
    rw [List.foldl_cons]
    rcases List.mem_cons.mp hk with rfl | hmem
    · -- the cells of the later ones are others, so this one is final
      refine foldl_away htail (fun k' h heq => hhome.1 ?_) _
      exact List.mem_map.mpr ⟨k', h, heq.symm.trans hi⟩
    · -- the first one was at another cell, so this body sees what was there at first
      rw [ih htail hhome.2 hmem]
      refine (htail k hmem).looks _ _ i (fun j hj => ?_) hi
      refine (hs k₀ List.mem_cons_self).frame m j fun heq => hhome.1 ?_
      exact List.mem_map.mpr ⟨k, hmem, hj.symm.trans heq⟩

end Sweep

/-! ## Rows and columns -/

/-- `for (y = 0; y < height; y++) for (x = 0; x < width; x++) body`. -/
def forPixels {σ : Type} (width height : Nat) (body : Nat → Nat → σ → σ) (s : σ) : σ :=
  (List.range height).foldl (fun s y => (List.range width).foldl (fun s x => body y x s) s) s

section Pixels

variable {σ : Type} {w h : Nat}

def pixels (w h : Nat) : List (Nat × Nat) := List.range h ×ˢ List.range w

theorem mem_pixels {p : Nat × Nat} : p ∈ pixels w h ↔ p.1 < h ∧ p.2 < w := by
  rw [pixels, List.mem_product, List.mem_range, List.mem_range]

theorem forPixels_eq (body : Nat → Nat → σ → σ) (s : σ) :
    forPixels w h body s = (pixels w h).foldl (fun s p => body p.1 p.2 s) s := by
  simp only [pixels, SProd.sprod, List.product, List.foldl_flatMap, List.foldl_map]
  rfl

theorem forPixels_congr {body body' : Nat → Nat → σ → σ}
    (hb : ∀ y x s, y < h → x < w → body y x s = body' y x s) (s : σ) :
    forPixels w h body s = forPixels w h body' s := by
  rw [forPixels_eq, forPixels_eq]
  refine List.foldl_ext _ _ s fun s p hp => ?_
  obtain ⟨hy, hx⟩ := mem_pixels.mp hp
  exact hb p.1 p.2 s hy hx

theorem pixel_inj {x y x' y' : Nat} (hx : x < w) (hx' : x' < w) (h : y * w + x = y' * w + x') :
    y = y' ∧ x = x' := by
  have hw : 0 < w := Nat.zero_lt_of_lt hx
  have hy := congrArg (· / w) h
  have hmod := congrArg (· % w) h
  simp only [Nat.mul_comm _ w, Nat.mul_add_div hw, Nat.div_eq_of_lt hx, Nat.div_eq_of_lt hx',
    Nat.mul_add_mod, Nat.mod_eq_of_lt hx, Nat.mod_eq_of_lt hx'] at hy hmod
  exact ⟨by omega, hmod⟩

theorem pixel_lt {x y : Nat} (hy : y < h) (hx : x < w) : y * w + x < h * w :=
  calc y * w + x < y * w + w := Nat.add_lt_add_left hx _
    _ = (y + 1) * w := (Nat.succ_mul y w).symm
    _ ≤ h * w := Nat.mul_le_mul_right w hy

theorem nodup_pixels : ((pixels w h).map fun p => p.1 * w + p.2).Nodup := by
  refine List.Nodup.map_on (fun p hp q hq heq => ?_) (List.nodup_range.product List.nodup_range)
  obtain ⟨hy, hx⟩ := pixel_inj (mem_pixels.mp hp).2 (mem_pixels.mp hq).2 heq
  exact Prod.ext hy hx

end Pixels

/-! ## Byte memory -/

abbrev ByteMem := Nat → UInt8

/-- A `uint16_t`, as the `uint32_t` it is promoted to. -/
def ByteMem.load16 (m : ByteMem) (a : Nat) : UInt32 :=
  (m a).toUInt32 + ((m (a + 1)).toUInt32 <<< 8)

def ByteMem.load32 (m : ByteMem) (a : Nat) : UInt32 :=
  (m a).toUInt32 + ((m (a + 1)).toUInt32 <<< 8) + ((m (a + 2)).toUInt32 <<< 16)
    + ((m (a + 3)).toUInt32 <<< 24)

/-- Byte `j` of a word. -/
def byteOf (v : UInt32) (j : Nat) : UInt8 := UInt8.ofNat (v.toNat / 256 ^ j)

def ByteMem.store32 (m : ByteMem) (a : Nat) (v : UInt32) : ByteMem := fun i =>
  if a ≤ i ∧ i < a + 4 then byteOf v (i - a) else m i

def ByteMem.memcpy (dst src : ByteMem) (n : Nat) : ByteMem :=
  fun i => if i < n then src i else dst i

section Bytes

variable {m m' : ByteMem} {a : Nat}

theorem toNat_load16 : (m.load16 a).toNat = (m a).toNat + 256 * (m (a + 1)).toNat := by
  have h₀ := (m a).toNat_lt
  have h₁ := (m (a + 1)).toNat_lt
  simp only [ByteMem.load16, UInt32.toNat_add, UInt32.toNat_shiftLeft, UInt8.toNat_toUInt32,
    UInt32.reduceToNat, Nat.shiftLeft_eq, Nat.reduceMod, Nat.reducePow]
  omega

theorem toNat_load32 : (m.load32 a).toNat = (m a).toNat + 256 * (m (a + 1)).toNat
    + 65536 * (m (a + 2)).toNat + 16777216 * (m (a + 3)).toNat := by
  have h₀ := (m a).toNat_lt
  have h₁ := (m (a + 1)).toNat_lt
  have h₂ := (m (a + 2)).toNat_lt
  have h₃ := (m (a + 3)).toNat_lt
  simp only [ByteMem.load32, UInt32.toNat_add, UInt32.toNat_shiftLeft, UInt8.toNat_toUInt32,
    UInt32.reduceToNat, Nat.shiftLeft_eq, Nat.reduceMod, Nat.reducePow]
  omega

theorem byteOf_load32 {j : Nat} (hj : j < 4) : byteOf (m.load32 a) j = m (a + j) := by
  have h₀ := (m a).toNat_lt
  have h₁ := (m (a + 1)).toNat_lt
  have h₂ := (m (a + 2)).toNat_lt
  have h₃ := (m (a + 3)).toNat_lt
  refine UInt8.toNat_inj.mp ?_
  rw [byteOf, UInt8.toNat_ofNat', toNat_load32]
  obtain rfl | rfl | rfl | rfl : j = 0 ∨ j = 1 ∨ j = 2 ∨ j = 3 := by omega
  all_goals simp only [Nat.add_zero, Nat.reducePow]
  all_goals omega

theorem store32_apply {v : UInt32} {j : Nat} (hj : j < 4) :
    m.store32 a v (a + j) = byteOf v j := by
  rw [ByteMem.store32, if_pos ⟨Nat.le_add_right a j, Nat.add_lt_add_left hj a⟩,
    Nat.add_sub_cancel_left]

theorem load32_store32 {v : UInt32} : (m.store32 a v).load32 a = v := by
  have hv := v.toNat_lt
  have h₀ : m.store32 a v a = byteOf v 0 := store32_apply (j := 0) (by decide)
  refine UInt32.toNat_inj.mp ?_
  rw [toNat_load32, h₀, store32_apply (j := 1) (by decide), store32_apply (j := 2) (by decide),
    store32_apply (j := 3) (by decide)]
  simp only [byteOf, UInt8.toNat_ofNat', Nat.reducePow]
  omega

theorem load32_congr (h : ∀ j < 4, m (a + j) = m' (a + j)) : m.load32 a = m'.load32 a := by
  simp only [ByteMem.load32, h 1 (by decide), h 2 (by decide), h 3 (by decide)]
  rw [show m a = m' a from h 0 (by decide)]

end Bytes

/-! ## A word for each pixel -/

section Words

variable {w h : Nat} {addr : Nat → Nat → Nat} {val : Nat → Nat → ByteMem → UInt32}

/-- The body that stores one word, at the place of its pixel, and looks at nothing else in
    memory. -/
theorem staysHome_store {p : Nat × Nat} (haddr : addr p.1 p.2 = 4 * (p.1 * w + p.2))
    (hval : ∀ m m' : ByteMem, (∀ j < 4, m (4 * (p.1 * w + p.2) + j) = m' (4 * (p.1 * w + p.2) + j))
      → val p.1 p.2 m = val p.1 p.2 m') :
    StaysHome (fun (p : Nat × Nat) (m : ByteMem) => m.store32 (addr p.1 p.2) (val p.1 p.2 m))
      (fun i => i / 4) (fun p => p.1 * w + p.2) p := by
  constructor
  · intro m i hi
    simp only [ByteMem.store32, haddr]
    exact if_neg (by omega)
  · intro m m' i hm hi
    have hsame : val p.1 p.2 m = val p.1 p.2 m' := hval m m' fun j hj => hm _ (by omega)
    simp only [ByteMem.store32, haddr, hsame]
    rw [if_pos (by omega), if_pos (by omega)]

/-- After the loop the word of a pixel is the one computed from the memory before it. -/
theorem forPixels_store (haddr : ∀ y x, y < h → x < w → addr y x = 4 * (y * w + x))
    (hval : ∀ y x, y < h → x < w → ∀ m m' : ByteMem,
      (∀ j < 4, m (4 * (y * w + x) + j) = m' (4 * (y * w + x) + j)) → val y x m = val y x m')
    {y x j : Nat} (hy : y < h) (hx : x < w) (hj : j < 4) (m : ByteMem) :
    forPixels w h (fun y x m => m.store32 (addr y x) (val y x m)) m (4 * (y * w + x) + j)
      = byteOf (val y x m) j := by
  have hs : ∀ p ∈ pixels w h,
      StaysHome (fun (p : Nat × Nat) (m : ByteMem) => m.store32 (addr p.1 p.2) (val p.1 p.2 m))
        (fun i => i / 4) (fun p => p.1 * w + p.2) p := by
    intro p hp
    obtain ⟨hy, hx⟩ := mem_pixels.mp hp
    exact staysHome_store (haddr _ _ hy hx) (hval _ _ hy hx)
  have hmem : (y, x) ∈ pixels w h := mem_pixels.mpr ⟨hy, hx⟩
  have hcell : (4 * (y * w + x) + j) / 4 = y * w + x := by omega
  rw [forPixels_eq, foldl_home hs nodup_pixels hmem hcell m]
  simp only [haddr y x hy hx]
  exact store32_apply hj

/-- And behind the last pixel nothing is written. -/
theorem forPixels_store_behind (haddr : ∀ y x, y < h → x < w → addr y x = 4 * (y * w + x))
    {i : Nat} (hi : 4 * (h * w) ≤ i) (m : ByteMem) :
    forPixels w h (fun y x m => m.store32 (addr y x) (val y x m)) m i = m i := by
  rw [forPixels_eq]
  refine List.foldlRecOn (motive := fun m' : ByteMem => m' i = m i) (pixels w h) _ rfl
    fun m' hm' p hp => ?_
  obtain ⟨hy, hx⟩ := mem_pixels.mp hp
  have hlt := pixel_lt hy hx
  rw [← hm', ByteMem.store32, haddr _ _ hy hx]
  exact if_neg (by omega)

end Words

end Umka.Lib
