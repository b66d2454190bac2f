import Mathlib.Data.Nat.Bitwise
import Umka.Vdisk.Qcow2

/-!
# Where a sector lies

`qcow2_read_guest_sector` turns a sector number into three indices by division, remainder and
mask. Everything the later files need from that arithmetic is here: on the sectors a disk
has, no product wraps, the cache tag `~0` is nobody's cluster index, and the three indices
together address exactly byte `sector * sect_size`.

One hypothesis runs through it, `sector * sectSize < 2 ^ 64`. It is what `sector < sect_cnt`
gives, since `sect_cnt` is a 64-bit size divided by the sector size (`sector_lt_of_sectCnt`).
-/

set_option autoImplicit false

namespace Umka.Vdisk.Geometry

variable {g : Geometry} {s : Nat}

/-! ## The two sizes are powers of two -/

theorem sectSize_pow (g : Geometry) :
    ∃ k, g.sectSize = 2 ^ k ∧ (k = 9 ∨ k = 11 ∨ k = 12) := by
  rcases g.sect_mem with h | h | h
  · exact ⟨9, h, Or.inl rfl⟩
  · exact ⟨11, h, Or.inr (Or.inl rfl)⟩
  · exact ⟨12, h, Or.inr (Or.inr rfl)⟩

theorem sectSize_pos (g : Geometry) : 0 < g.sectSize := by
  rcases g.sect_mem with h | h | h <;> omega

theorem clusterSize_pos (g : Geometry) : 0 < g.clusterSize := Nat.two_pow_pos _

theorem clusterSize_ge (g : Geometry) : 512 ≤ g.clusterSize :=
  Nat.pow_le_pow_right (by decide : 0 < 2) g.bits_ge

theorem clusterSize_le (g : Geometry) : g.clusterSize ≤ 2 ^ 21 :=
  Nat.pow_le_pow_right (by decide : 0 < 2) g.bits_le

/-- A cluster is a whole number of L2 entries. -/
theorem l2Entries_mul (g : Geometry) : g.l2Entries * 8 = g.clusterSize := by
  have h8 : 8 ∣ g.clusterSize := Nat.pow_dvd_pow 2 (show 3 ≤ g.clusterBits from
    Nat.le_trans (by decide) g.bits_ge)
  exact Nat.div_mul_cancel h8

theorem l2Entries_pos (g : Geometry) : 0 < g.l2Entries := by
  have := g.l2Entries_mul
  have := g.clusterSize_ge
  omega

/-! ## Cluster indices -/

theorem clusterIndex_eq (h : s * g.sectSize < 2 ^ 64) :
    g.clusterIndex s = s * g.sectSize / g.clusterSize := by
  unfold clusterIndex
  rw [Nat.mod_eq_of_lt h]

/-- No cluster has the index that marks an empty cache. -/
theorem clusterIndex_ne_tag (s : Nat) : g.clusterIndex s ≠ 2 ^ 64 - 1 := by
  have hlt : s * g.sectSize % 2 ^ 64 < 2 ^ 64 := Nat.mod_lt _ (by decide)
  have hge := g.clusterSize_ge
  have hle : g.clusterIndex s ≤ s * g.sectSize % 2 ^ 64 / 512 :=
    Nat.div_le_div_left hge (by decide)
  intro h
  omega

/-- The L1 and L2 indices are the quotient and the remainder of the cluster index. -/
theorem l1Index_l2Index (g : Geometry) (s : Nat) :
    g.l1Index s * g.l2Entries + g.l2Index s = g.clusterIndex s := by
  unfold l1Index l2Index
  exact Nat.div_add_mod' _ _

/-- The L1 index of a sector is in a table of `n` entries exactly when the table reaches past
    the sector's first byte. -/
theorem l1Index_lt_iff (h : s * g.sectSize < 2 ^ 64) (n : Nat) :
    g.l1Index s < n ↔ s * g.sectSize < n * (g.l2Entries * g.clusterSize) := by
  unfold l1Index
  rw [clusterIndex_eq h, Nat.div_div_eq_div_mul, Nat.mul_comm g.clusterSize,
    Nat.div_lt_iff_lt_mul (Nat.mul_pos g.l2Entries_pos g.clusterSize_pos)]

/-! ## The place of a sector in the cluster buffer -/

/-- A cluster that is not smaller than a sector is a whole number of sectors. -/
theorem sectSize_dvd (hc : g.sectSize ≤ g.clusterSize) : g.sectSize ∣ g.clusterSize := by
  obtain ⟨k, hk, _⟩ := g.sectSize_pow
  unfold clusterSize at *
  rw [hk] at hc ⊢
  exact Nat.pow_dvd_pow 2 ((Nat.pow_le_pow_iff_right (by decide)).mp hc)

/-- The mask keeps the low bits that number the sectors of a cluster. -/
theorem sectorIdxMask_eq (hc : g.sectSize ≤ g.clusterSize) :
    ∃ j, g.clusterSize = 2 ^ j * g.sectSize ∧ g.sectorIdxMask = 2 ^ j - 1 := by
  obtain ⟨k, hk, _⟩ := g.sectSize_pow
  have hkb : k ≤ g.clusterBits := by
    unfold clusterSize at hc
    rw [hk] at hc
    exact (Nat.pow_le_pow_iff_right (by decide)).mp hc
  have hsplit : g.clusterSize = 2 ^ (g.clusterBits - k) * g.sectSize := by
    rw [hk, ← Nat.pow_add, Nat.sub_add_cancel hkb]
    rfl
  refine ⟨g.clusterBits - k, hsplit, ?_⟩
  have hdiv : g.clusterSize / g.sectSize = 2 ^ (g.clusterBits - k) := by
    rw [hsplit, Nat.mul_div_cancel _ g.sectSize_pos]
  have hpos : 0 < 2 ^ (g.clusterBits - k) := Nat.two_pow_pos _
  have hle : 2 ^ (g.clusterBits - k) ≤ 2 ^ 21 :=
    Nat.pow_le_pow_right (by decide) (Nat.le_trans (Nat.sub_le _ _) g.bits_le)
  unfold sectorIdxMask
  rw [hdiv]
  omega

/-- `(sector & sector_idx_mask) * sect_size` is the sector's byte address modulo the cluster. -/
theorem sectorOffset_eq (hc : g.sectSize ≤ g.clusterSize) (s : Nat) :
    g.sectorOffset s = s * g.sectSize % g.clusterSize := by
  obtain ⟨j, hsplit, hmask⟩ := sectorIdxMask_eq hc
  have hlt : s % 2 ^ j * g.sectSize < 2 ^ 64 := by
    have h1 : s % 2 ^ j < 2 ^ j := Nat.mod_lt _ (Nat.two_pow_pos _)
    have h2 : s % 2 ^ j * g.sectSize < 2 ^ j * g.sectSize :=
      (Nat.mul_lt_mul_right g.sectSize_pos).mpr h1
    have h3 := g.clusterSize_le
    omega
  unfold sectorOffset
  rw [hmask, Nat.and_two_pow_sub_one_eq_mod, Nat.mod_eq_of_lt hlt, hsplit, Nat.mul_mod_mul_right]

/-- A sector lies inside the cluster buffer when sectors are not larger than clusters. -/
theorem sectorOffset_add_le (hc : g.sectSize ≤ g.clusterSize) (s : Nat) :
    g.sectorOffset s + g.sectSize ≤ g.clusterSize := by
  obtain ⟨q, hq⟩ := sectSize_dvd hc
  rw [sectorOffset_eq hc, hq, Nat.mul_comm s, Nat.mul_mod_mul_left, ← Nat.mul_succ]
  have hqpos : 0 < q := by
    rcases Nat.eq_zero_or_pos q with h0 | h0
    · rw [h0] at hq
      have := g.clusterSize_pos
      omega
    · exact h0
  exact Nat.mul_le_mul_left _ (Nat.mod_lt _ hqpos)

/-- … and never when they are: the copy is longer than the buffer. -/
theorem sectorOffset_add_le_iff (s : Nat) :
    g.sectorOffset s + g.sectSize ≤ g.clusterSize ↔ g.sectSize ≤ g.clusterSize :=
  ⟨fun h => Nat.le_trans (Nat.le_add_left _ _) h, fun h => sectorOffset_add_le h s⟩

/-- **The three indices address exactly byte `sector * sect_size`.** -/
theorem address_eq (hc : g.sectSize ≤ g.clusterSize) (h : s * g.sectSize < 2 ^ 64) :
    (g.l1Index s * g.l2Entries + g.l2Index s) * g.clusterSize + g.sectorOffset s
      = s * g.sectSize := by
  rw [l1Index_l2Index, clusterIndex_eq h, sectorOffset_eq hc]
  exact Nat.div_add_mod' _ _

/-! ## The sectors of a disk -/

/-- A sector below `size / sect_size` has its whole self below `size`. -/
theorem sector_add_le {size : Nat} (h : s < size / g.sectSize) :
    s * g.sectSize + g.sectSize ≤ size := by
  have h1 : (s + 1) * g.sectSize ≤ size / g.sectSize * g.sectSize :=
    Nat.mul_le_mul_right _ h
  have h2 := Nat.div_mul_le_self size g.sectSize
  rw [Nat.add_mul, Nat.one_mul] at h1
  exact Nat.le_trans h1 h2

theorem sector_lt_of_sectCnt {size : Nat} (hsize : size < 2 ^ 64) (h : s < size / g.sectSize) :
    s * g.sectSize < 2 ^ 64 := by
  have h1 := sector_add_le h
  have h2 := g.sectSize_pos
  omega

end Umka.Vdisk.Geometry
