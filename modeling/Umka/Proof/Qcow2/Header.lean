import Umka.Proof.Qcow2.Flat

/-!
# Which accepted headers are safe to read

`vdisk_init_qcow2` refuses a header whose encryption or feature bits it cannot honour, but what
the reader later relies on — that the L1 table reaches to the end of the disk, that the
allocation made for it holds it, that a sector fits into a cluster, that there is no backing
file to consult — is never compared with anything. `SafeToRead` is that list, and it is worth
the name: a disk with the property is read without a fault whatever the host does
(`SafeToRead.noFault`). `accepted_safe_iff` says which accepted headers have it.
-/

set_option autoImplicit false

namespace Umka.Proof.Qcow2

open Lib Vdisk

/-- What reading relies on, of the header `h` and the disk made from it. -/
structure SafeToRead (h : Qcow2Header) (d : VdiskQcow2) : Prop where
  l1_index : ∀ s < d.sectCnt, d.geom.l1Index s < d.l1Size
  l1_alloc : d.l1Size ≤ d.l1.length
  slice : ∀ s < d.sectCnt, d.geom.sectorOffset s + d.geom.sectSize ≤ d.geom.clusterSize
  no_backing : h.backFileOffset = 0

/-! ## Safe is safe -/

section NoFault

variable {emInflate : List UInt8 → Nat → List UInt8} {io : UmkaIo}

theorem noFault_ioRead {σ : Type} (count : Nat) : Drv.NoFault (ioRead io count : Drv σ _) := by
  rw [ioRead_eq]
  exact Drv.NoFault.readBytes count

theorem noFault_ioReadInto {σ : Type} (count : Nat) (store : List UInt8 → σ → σ) :
    Drv.NoFault (ioReadInto io count store) := by
  rw [ioReadInto_eq]
  exact Drv.NoFault.readInto count store

theorem noFault_loadStandard {g : Geometry} (l2Entry : Nat) :
    Drv.NoFault (loadStandard io g l2Entry) := by
  refine .ite (.pure _) ?_
  refine .bind (.seekTo _) fun _ => .bind (noFault_ioReadInto _ _) fun _ => ?_
  exact .ite (.pure _) (.pure _)

theorem noFault_loadCompressed {g : Geometry} (l2Entry : Nat) :
    Drv.NoFault (loadCompressed emInflate io g l2Entry) := by
  refine .bind (.seekTo _) fun _ => .bind (noFault_ioReadInto _ _) fun _ => .ite (.pure _) ?_
  exact .bind .getState fun _ => .bind (.setState _) fun _ => .pure _

/-- The table walk touches no array, so it has nothing to fault on. -/
theorem noFault_loadCluster {g : Geometry} (l1Entry l2Index : Nat) :
    Drv.NoFault (loadCluster emInflate io g l1Entry l2Index) := by
  refine .ite (.pure _) ?_
  refine .bind (.seekTo _) fun _ => .bind (.uninitialised _) fun _ => ?_
  refine .bind (noFault_ioRead _) fun _ => .ite (.pure _) ?_
  exact .ite (noFault_loadStandard _) (noFault_loadCompressed _)

theorem noFault_readSector {d : VdiskQcow2} {s : Nat} {buf : Block d.geom.sectSize}
    (hl : d.geom.l1Index s < d.l1.length)
    (hs : d.geom.sectorOffset s + d.geom.sectSize ≤ d.geom.clusterSize) :
    Drv.NoFault (qcow2ReadGuestSector emInflate io d s buf) := by
  have hcopy : ∀ c : ClusterCache d.geom, Drv.NoFault
      (Drv.ofOption (c.cluster.slice? (d.geom.sectorOffset s) d.geom.sectSize)
        : Drv (ClusterCache d.geom) _) := by
    intro c
    obtain ⟨b, hb, -⟩ := Block.slice?_eq_some (b := c.cluster) hs
    exact .ofOption (by rw [hb]; simp)
  refine .bind (.ofOption (by simpa using hl)) fun l1Entry => .bind .getState fun c => ?_
  refine .ite (hcopy c) (.bind (.setState _) fun _ => .bind (noFault_loadCluster _ _) fun l => ?_)
  cases l with
  | zeroed => exact .pure _
  | failed => exact .pure _
  | loaded => exact .bind .getState hcopy

/-- **A safe disk is read without a fault**, whatever the host answers and whatever the cache
    holds. -/
theorem SafeToRead.noFault {h : Qcow2Header} {d : VdiskQcow2} (hsafe : SafeToRead h d)
    (hcnt : d.sectCnt ≤ 2 ^ 64) : ∀ (bufs : List (Block d.geom.sectSize)) (start : Nat),
      start + bufs.length ≤ d.sectCnt → Drv.NoFault (readSectors emInflate io d start bufs) := by
  intro bufs
  induction bufs with
  | nil => intro start _; exact .pure _
  | cons buf bufs ih =>
    intro start hlen
    rw [List.length_cons] at hlen
    have hs : start < d.sectCnt := by omega
    have hmod : start % 2 ^ 64 = start := Nat.mod_eq_of_lt (by omega)
    unfold readSectors
    rw [hmod]
    refine .bind (noFault_readSector ?_ (hsafe.slice start hs)) fun _ => ?_
    · exact Nat.lt_of_lt_of_le (hsafe.l1_index start hs) hsafe.l1_alloc
    · exact .bind (ih (start + 1) (by omega)) fun _ => .pure _

end NoFault

/-! ## Which headers -/

/-- The checks that are missing: no backing file, an L1 table whose size does not wrap, and, if
    the disk has sectors at all, sectors no larger than clusters and an L1 table that covers
    them. -/
def HeaderInBounds (h : Qcow2Header) (g : Geometry) : Prop :=
  h.backFileOffset = 0 ∧ h.l1Size < 2 ^ 29 ∧
    (0 < h.size / g.sectSize → g.sectSize ≤ g.clusterSize ∧ L1Covers h g h.l1Size)

section Accepted

variable {io : UmkaIo} {fname : List Char} {env : Env} {w w' : World} {o : OpenQcow2}

/-- The disk's numbers are the header's, and the table has the entries that were allocated. -/
theorem init_disk (hr : (vdiskInitQcow2 io fname).run env () w = some (some o, (), w')) :
    o.disk.sectCnt = (headerRead env w).size / o.disk.geom.sectSize ∧
      o.disk.l1Size = (headerRead env w).l1Size ∧
      o.disk.l1.length = (headerRead env w).l1Size % 2 ^ 29 := by
  obtain ⟨g, -, hload⟩ := init_inv hr
  obtain ⟨rfl, -⟩ := loadTables_inv hload
  refine ⟨rfl, rfl, ?_⟩
  simp only [l1OfBytes, List.length_map, List.length_range, Block.size_eq]
  rw [l1AllocBytes_eq, Nat.mul_div_cancel_left _ (by decide)]

/-- **An accepted header is safe to read exactly when it passes the missing checks.** -/
theorem accepted_safe_iff
    (hr : (vdiskInitQcow2 io fname).run env () w = some (some o, (), w')) :
    SafeToRead (headerRead env w) o.disk ↔ HeaderInBounds (headerRead env w) o.disk.geom := by
  obtain ⟨hcnt, hsize, hlen⟩ := init_disk hr
  have h64 : (headerRead env w).size < 2 ^ 64 := ofBlock_size_lt _
  constructor
  · intro hsafe
    have halloc := hsafe.l1_alloc
    rw [hsize, hlen] at halloc
    refine ⟨hsafe.no_backing, ?_, fun hpos => ?_⟩
    · have := Nat.mod_lt (headerRead env w).l1Size (Nat.two_pow_pos 29)
      omega
    · have hc := (Geometry.sectorOffset_add_le_iff 0).mp (hsafe.slice 0 (by rw [hcnt]; exact hpos))
      refine ⟨hc, (l1Covers_iff h64 hc).mpr fun s hs => ?_⟩
      rw [← hsize]
      exact hsafe.l1_index s (by rw [hcnt]; exact hs)
  · rintro ⟨hback, hl1, hfit⟩
    refine ⟨fun s hs => ?_, ?_, fun s hs => ?_, hback⟩
    · rw [hcnt] at hs
      obtain ⟨hc, hcov⟩ := hfit (Nat.lt_of_le_of_lt (Nat.zero_le s) hs)
      rw [hsize]
      exact (l1Covers_iff h64 hc).mp hcov s hs
    · rw [hsize, hlen, Nat.mod_eq_of_lt hl1]
    · rw [hcnt] at hs
      obtain ⟨hc, -⟩ := hfit (Nat.lt_of_le_of_lt (Nat.zero_le s) hs)
      exact Geometry.sectorOffset_add_le hc s

end Accepted

/-- The flat image with both its L1 entries is safe to read. -/
theorem accepted_safe_iff_two : ∃ env w w' o,
    (vdiskInitQcow2 ⟨.never⟩ []).run env () w = some (some o, (), w') ∧
    headerRead env w = flatHeader 2 ∧ SafeToRead (flatHeader 2) o.disk := by
  obtain ⟨o, ⟨env, w, w', hfull, hw, hpos, hr⟩, hg⟩ :=
    exists_freshDisk_flatImage (n := 2) (by decide) (by decide)
  have hhdr : headerRead env w = flatHeader 2 := by
    rw [headerRead_eq hfull hpos (by rw [hw]; decide), hw]
    exact headerOf_flatImage (by decide)
  refine ⟨env, w, w', o, hr, hhdr, ?_⟩
  have hiff := accepted_safe_iff hr
  rw [hhdr, hg] at hiff
  refine hiff.mpr ⟨rfl, by decide, fun _ => ⟨by decide, ?_⟩⟩
  unfold L1Covers
  decide

/-- The same image with `l1_size = 1` is accepted, is not safe, and reading its sector 64 leaves
    the L1 table. -/
theorem accepted_not_safe : ∃ env w w' o,
    (vdiskInitQcow2 ⟨.never⟩ []).run env () w = some (some o, (), w') ∧
    headerRead env w = flatHeader 1 ∧ ¬ SafeToRead (flatHeader 1) o.disk ∧
    64 < o.disk.sectCnt ∧
    ∀ buf, (vdiskQcow2Read (fun _ _ => []) ⟨.never⟩ o.disk 64 [buf]).run env o.cache w' = none := by
  obtain ⟨o, ⟨env, w, w', hfull, hw, hpos, hr⟩, hg⟩ :=
    exists_freshDisk_flatImage (n := 1) (by decide) (by decide)
  have hhdr : headerRead env w = flatHeader 1 := by
    rw [headerRead_eq hfull hpos (by rw [hw]; decide), hw]
    exact headerOf_flatImage (by decide)
  obtain ⟨hcnt, hsize, hlen⟩ := init_disk hr
  rw [hhdr] at hcnt hsize hlen
  have h64 : 64 < o.disk.sectCnt := by
    rw [hcnt, hg]
    decide
  refine ⟨env, w, w', o, hr, hhdr, fun hsafe => ?_, h64, fun buf => ?_⟩
  · have hidx := hsafe.l1_index 64 h64
    rw [hsize, hg] at hidx
    exact absurd hidx (by decide)
  · have hnone : o.disk.l1[o.disk.geom.l1Index 64]? = none := by
      rw [List.getElem?_eq_none_iff, hlen, hg]
      decide
    have hsector : (64 : Nat) % 2 ^ 64 = 64 := Nat.mod_eq_of_lt (by decide)
    unfold vdiskQcow2Read readSectors
    rw [hsector, Drv.run_bind, Drv.run_bind, run_readSector_fault hnone]
    rfl

end Umka.Proof.Qcow2
