import Umka.Proof.Qcow2.Flat

/-!
# What the tables mean, and what a first read returns

`referenceSector` is the meaning the qcow2 format gives to a sector: zeros without an L2 table,
zeros under the zero flag, zeros for a standard entry whose offset is 0 (the cluster was never
allocated), else the bytes of the cluster, inflated if it is compressed.

The reader knows all of these cases except the third. It tests the L1 entry's offset for zero
and the L2 entry's flag, but a standard L2 entry with offset 0 is followed like any other, and
the guest is handed the image's own first cluster, header included. `coldRead_iff` is the exact
border, for a sector read first on a freshly opened disk.
-/

set_option autoImplicit false

namespace Umka.Proof.Qcow2

open Lib Vdisk

/-- Where a compressed cluster's data starts. -/
def cmpOffset (g : Geometry) (l2Entry : Nat) : Nat := g.l2EntryCmpOffsetMask &&& l2Entry

/-- How long a compressed cluster's data is: to the end of its first host sector, and the
    additional sectors. -/
def cmpSize (g : Geometry) (l2Entry : Nat) : Nat :=
  512 - (cmpOffset g l2Entry &&& 511) +
    ((l2Entry &&& g.l2EntryCmpSectCntMask) >>> g.l2EntryCmpX) * 512

/-- The contents the format gives to a sector. -/
def referenceSector (emInflate : List UInt8 → Nat → List UInt8) (f : HostFile) (h : Qcow2Header)
    (g : Geometry) (s : Nat) : Block g.sectSize :=
  match entryAt f h g s with
  | .noTable => Block.zero _
  | .zeroed => Block.zero _
  | .standard off =>
    if off = 0 then Block.zero _
    else ⟨f.span (off + s * g.sectSize % g.clusterSize) g.sectSize, HostFile.length_span⟩
  | .compressed l2Entry =>
    let data := emInflate (f.span (cmpOffset g l2Entry) (cmpSize g l2Entry)) g.clusterSize
    Block.ofFn _ fun i => data.getD (s * g.sectSize % g.clusterSize + i) 0

section Reference

variable {emInflate : List UInt8 → Nat → List UInt8} {f : HostFile} {h : Qcow2Header}
variable {g : Geometry} {s : Nat}

theorem referenceSector_hole (hh : (entryAt f h g s).hole = true) :
    referenceSector emInflate f h g s = Block.zero _ := by
  unfold referenceSector
  cases he : entryAt f h g s with
  | noTable => rfl
  | zeroed => rfl
  | standard off => rw [he] at hh; cases hh
  | compressed l2Entry => rw [he] at hh; cases hh

theorem referenceSector_standard {off : Nat} (he : entryAt f h g s = .standard off) :
    referenceSector emInflate f h g s =
      if off = 0 then Block.zero _
      else ⟨f.span (off + s * g.sectSize % g.clusterSize) g.sectSize, HostFile.length_span⟩ := by
  unfold referenceSector
  rw [he]

/-- Following a standard entry is right unless the entry is the unallocated one, and then it is
    right by luck: if the file's own bytes there are zeros. -/
theorem span_eq_reference_iff {off : Nat} (he : entryAt f h g s = .standard off) :
    (⟨f.span (off + s * g.sectSize % g.clusterSize) g.sectSize, HostFile.length_span⟩
        : Block g.sectSize) = referenceSector emInflate f h g s ↔
      (off = 0 → f.span (s * g.sectSize % g.clusterSize) g.sectSize
        = List.replicate g.sectSize 0) := by
  rw [referenceSector_standard he]
  by_cases h0 : off = 0
  · rw [if_pos h0, h0, Nat.zero_add, Block.ext_iff, Block.bytes_zero]
    exact ⟨fun heq _ => heq, fun himp => himp rfl⟩
  · rw [if_neg h0]
    exact ⟨fun _ h0' => absurd h0' h0, fun _ => rfl⟩

end Reference

/-! ## A first read -/

/-- Read first on the freshly opened disk, the sector arrives with its reference contents. -/
def ColdReadCorrect (emInflate : List UInt8 → Nat → List UInt8) (f : HostFile) (o : OpenQcow2)
    (s : Nat) : Prop :=
  ∀ (env : Env) (w : World) (io : UmkaIo) (buf : Block o.disk.geom.sectSize),
    env.AllFull → w.file = f → ∃ c' w',
      (vdiskQcow2Read emInflate io o.disk s [buf]).run env o.cache w
        = some ((.success, [referenceSector emInflate f (headerOf f) o.disk.geom s]), c', w')

/-- The L1 entry is in the allocated table; and if the cluster is a standard one, a sector fits
    into it and either it is allocated or the image starts with zeros at that place. -/
def ColdReadable (f : HostFile) (h : Qcow2Header) (g : Geometry) (s : Nat) : Prop :=
  g.l1Index s < h.l1Size % 2 ^ 29 ∧ ∀ off, entryAt f h g s = .standard off →
    g.sectSize ≤ g.clusterSize ∧
      (off = 0 → f.span (s * g.sectSize % g.clusterSize) g.sectSize = List.replicate g.sectSize 0)

section Cold

variable {emInflate : List UInt8 → Nat → List UInt8} {io : UmkaIo} {f : HostFile}
variable {fname : List Char} {o : OpenQcow2} {s : Nat} {env : Env} {w : World}

theorem FreshDisk.tag_ne (ho : FreshDisk io f fname o) (ht : TablesInFile f) (s : Nat) :
    o.disk.geom.clusterIndex s ≠ o.cache.prevClusterIndex := by
  obtain ⟨-, -, -, -, htag⟩ := ho.spec ht
  rw [htag]
  exact Geometry.clusterIndex_ne_tag s

/-- A call for one sector is that sector's read. -/
theorem run_vdiskQcow2Read_one {d : VdiskQcow2} {c : ClusterCache d.geom}
    {buf : Block d.geom.sectSize} (hs : s < 2 ^ 64) :
    (vdiskQcow2Read emInflate io d s [buf]).run env c w
      = ((qcow2ReadGuestSector emInflate io d s buf).run env c w).map
          fun r => ((.success, [r.1]), r.2) := by
  simp only [vdiskQcow2Read, readSectors, Nat.mod_eq_of_lt hs, Drv.run_bind]
  cases (qcow2ReadGuestSector emInflate io d s buf).run env c w <;> rfl

theorem coldRead_noEntry (ho : FreshDisk io f fname o) (ht : TablesInFile f) {io' : UmkaIo}
    {buf : Block o.disk.geom.sectSize}
    (hl : ¬ o.disk.geom.l1Index s < (headerOf f).l1Size % 2 ^ 29) :
    (qcow2ReadGuestSector emInflate io' o.disk s buf).run env o.cache w = none := by
  obtain ⟨-, -, -, hl1, -⟩ := ho.spec ht
  exact run_readSector_fault (by rw [hl1, if_neg hl])

theorem coldRead_hole (emInflate : List UInt8 → Nat → List UInt8)
    (ho : FreshDisk io f fname o) (ht : TablesInFile f)
    (io' : UmkaIo) (buf : Block o.disk.geom.sectSize)
    (hl : o.disk.geom.l1Index s < (headerOf f).l1Size % 2 ^ 29)
    (hin : SectorInFile f (headerOf f) o.disk.geom s)
    (hh : (entryAt f (headerOf f) o.disk.geom s).hole = true)
    (hfull : env.AllFull) (hw : w.file = f) :
    ∃ w', w'.file = f ∧ (qcow2ReadGuestSector emInflate io' o.disk s buf).run env o.cache w
      = some (Block.zero _,
          { o.cache with prevClusterIndex := o.disk.geom.clusterIndex s }, w') := by
  have hww := ho.walkWhole ht hfull hw hl hin
  subst hw
  have he := ho.diskEntry_eq ht s
  rw [if_pos hl] at he
  obtain ⟨w', hf', -, hrun⟩ := readSector_hole_miss he hh (ho.tag_ne ht s) hww
  exact ⟨w', hf', hrun⟩

/-- The standard entry is followed, and the copy is whatever the buffer has room for. -/
theorem coldRead_standard {off : Nat} (emInflate : List UInt8 → Nat → List UInt8)
    (ho : FreshDisk io f fname o) (ht : TablesInFile f)
    (io' : UmkaIo) (buf : Block o.disk.geom.sectSize)
    (hl : o.disk.geom.l1Index s < (headerOf f).l1Size % 2 ^ 29)
    (hin : SectorInFile f (headerOf f) o.disk.geom s)
    (he : entryAt f (headerOf f) o.disk.geom s = .standard off)
    (hfull : env.AllFull) (hw : w.file = f) :
    ∃ (c' : ClusterCache o.disk.geom) (w' : World),
      c'.cluster.bytes = f.span off o.disk.geom.clusterSize ∧
      (qcow2ReadGuestSector emInflate io' o.disk s buf).run env o.cache w
        = (c'.cluster.slice? (o.disk.geom.sectorOffset s) o.disk.geom.sectSize).map
            fun b => (b, c', w') := by
  have hww := ho.walkWhole ht hfull hw hl hin
  subst hw
  have hde := ho.diskEntry_eq ht s
  rw [if_pos hl, he] at hde
  obtain ⟨-, -, -, -, htag⟩ := ho.spec ht
  obtain ⟨c', w', -, -, -, -, hbytes, hrun⟩ :=
    readSector_standard hde (cacheInv_empty htag) (fun _ => hww)
  exact ⟨c', w', hbytes, hrun⟩

/-- From the left: a correct first read of a standard sector. -/
theorem coldReadCorrect_standard {off : Nat} (ho : FreshDisk io f fname o) (ht : TablesInFile f)
    (hs : s < 2 ^ 64) (hl : o.disk.geom.l1Index s < (headerOf f).l1Size % 2 ^ 29)
    (hin : SectorInFile f (headerOf f) o.disk.geom s)
    (he : entryAt f (headerOf f) o.disk.geom s = .standard off) :
    ColdReadCorrect emInflate f o s ↔ o.disk.geom.sectSize ≤ o.disk.geom.clusterSize ∧
      (off = 0 → f.span (s * o.disk.geom.sectSize % o.disk.geom.clusterSize) o.disk.geom.sectSize
        = List.replicate o.disk.geom.sectSize 0) := by
  rw [← span_eq_reference_iff he]
  constructor
  · intro hcold
    obtain ⟨env, hfull⟩ : ∃ env : Env, env.AllFull := ⟨.willing, Env.allFull_willing⟩
    obtain ⟨w, hw⟩ : ∃ w : World, w.file = f := ⟨⟨f, .rdonly, 0, 0, []⟩, rfl⟩
    obtain ⟨c₁, w₁, hrun⟩ := hcold env w io (Block.zero _) hfull hw
    rw [run_vdiskQcow2Read_one hs] at hrun
    obtain ⟨c', w', hbytes, hread⟩ :=
      coldRead_standard emInflate ho ht io (Block.zero _) hl hin he hfull hw
    rw [hread] at hrun
    by_cases hc : o.disk.geom.sectSize ≤ o.disk.geom.clusterSize
    · refine ⟨hc, ?_⟩
      rw [slice_span hc hbytes] at hrun
      simp only [Option.map_some, Option.some.injEq, Prod.mk.injEq, List.cons.injEq, and_true,
        true_and] at hrun
      exact hrun.1
    · -- The copy would leave the buffer.
      rw [Block.slice?_eq_none (mt (Geometry.sectorOffset_add_le_iff s).mp hc)] at hrun
      cases hrun
  · rintro ⟨hc, href⟩ env w io₁ buf hfull hw
    rw [run_vdiskQcow2Read_one hs]
    obtain ⟨c', w', hbytes, hread⟩ := coldRead_standard emInflate ho ht io₁ buf hl hin he hfull hw
    refine ⟨c', w', ?_⟩
    rw [hread, slice_span hc hbytes, href]
    rfl

/-- A hole is always read right the first time. -/
theorem coldReadCorrect_hole (ho : FreshDisk io f fname o) (ht : TablesInFile f)
    (hs : s < 2 ^ 64) (hl : o.disk.geom.l1Index s < (headerOf f).l1Size % 2 ^ 29)
    (hin : SectorInFile f (headerOf f) o.disk.geom s)
    (hh : (entryAt f (headerOf f) o.disk.geom s).hole = true) :
    ColdReadCorrect emInflate f o s := by
  intro env w io₁ buf hfull hw
  obtain ⟨w', -, hread⟩ := coldRead_hole emInflate ho ht io₁ buf hl hin hh hfull hw
  refine ⟨{ o.cache with prevClusterIndex := o.disk.geom.clusterIndex s }, w', ?_⟩
  rw [run_vdiskQcow2Read_one hs, hread, referenceSector_hole hh]
  rfl

theorem coldReadable_hole {h : Qcow2Header} {g : Geometry} (hl : g.l1Index s < h.l1Size % 2 ^ 29)
    (hh : (entryAt f h g s).hole = true) : ColdReadable f h g s := by
  refine ⟨hl, fun off he => ?_⟩
  rw [he] at hh
  cases hh

/-- **The first read of a sector is right exactly when the sector is `ColdReadable`.** -/
theorem coldRead_iff (ho : FreshDisk io f fname o) (ht : TablesInFile f)
    (hs : s < o.disk.sectCnt)
    (hin : o.disk.geom.l1Index s < (headerOf f).l1Size % 2 ^ 29 →
      SectorInFile f (headerOf f) o.disk.geom s)
    (hnc : ∀ e, entryAt f (headerOf f) o.disk.geom s ≠ .compressed e) :
    ColdReadCorrect emInflate f o s ↔ ColdReadable f (headerOf f) o.disk.geom s := by
  have hs64 : s < 2 ^ 64 := Nat.lt_of_lt_of_le hs (ho.sectCnt_le ht)
  by_cases hl : o.disk.geom.l1Index s < (headerOf f).l1Size % 2 ^ 29
  · cases he : entryAt f (headerOf f) o.disk.geom s with
    | standard off =>
      rw [coldReadCorrect_standard ho ht hs64 hl (hin hl) he]
      constructor
      · intro hgood
        refine ⟨hl, fun off' he' => ?_⟩
        rw [he, Entry.standard.injEq] at he'
        exact he' ▸ hgood
      · intro hgood
        exact hgood.2 off he
    | compressed e => exact absurd he (hnc e)
    | noTable =>
      have hh : (entryAt f (headerOf f) o.disk.geom s).hole = true := by rw [he]; rfl
      exact iff_of_true (coldReadCorrect_hole ho ht hs64 hl (hin hl) hh) (coldReadable_hole hl hh)
    | zeroed =>
      have hh : (entryAt f (headerOf f) o.disk.geom s).hole = true := by rw [he]; rfl
      exact iff_of_true (coldReadCorrect_hole ho ht hs64 hl (hin hl) hh) (coldReadable_hole hl hh)
  · constructor
    · intro hcold
      obtain ⟨c', w', hrun⟩ := hcold .willing ⟨f, .rdonly, 0, 0, []⟩ io (Block.zero _)
        Env.allFull_willing rfl
      rw [run_vdiskQcow2Read_one hs64, coldRead_noEntry ho ht hl] at hrun
      cases hrun
    · intro hgood
      exact absurd hgood.1 hl

end Cold

section SmallImage

variable {l2Entry : Nat}

theorem FreshDisk.sectCnt_smallImage {io : UmkaIo} {l1Entry : Nat} {o : OpenQcow2}
    (ho : FreshDisk io (smallImage l1Entry l2Entry) [] o) (hg : o.disk.geom = smallGeometry) :
    o.disk.sectCnt = 1 := by
  obtain ⟨-, hcnt, -⟩ := ho.spec tablesInFile_smallImage
  rw [hcnt, headerOf_smallImage, hg]
  rfl

/-- A standard entry of the one-sector image that stays inside its 4096 bytes. -/
theorem sectorInFile_smallImage {off : Nat} (h : l2Entry < 2 ^ 64)
    (hd : decodeL2 l2Entry = .standard off) (hoff : off + 512 ≤ 4096) :
    SectorInFile (smallImage 1024 l2Entry) smallHeader smallGeometry 0 := by
  constructor
  · intro _
    rw [show smallGeometry.l1Index 0 = 0 from rfl, l1EntryAt_smallImage (by decide),
      size_smallImage]
    decide
  · intro off' he
    rw [entryAt_smallImage h, hd, Entry.standard.injEq] at he
    subst he
    exact hoff

end SmallImage

/-- With the sector's cluster at 2048, the sector is read right. -/
theorem coldRead_iff_allocated : ∃ o, FreshDisk ⟨.never⟩ (smallImage 1024 2048) [] o ∧
    o.disk.sectCnt = 1 ∧ ColdReadCorrect (fun _ _ => []) (smallImage 1024 2048) o 0 := by
  obtain ⟨o, ho, hg, -⟩ := exists_freshDisk_smallImage 1024 2048 0
  have hcnt := ho.sectCnt_smallImage hg
  have hent : entryAt (smallImage 1024 2048) smallHeader smallGeometry 0 = .standard 2048 :=
    entryAt_smallImage (by decide)
  refine ⟨o, ho, hcnt, (coldRead_iff ho tablesInFile_smallImage ?_ ?_ ?_).mpr ?_⟩
  · rw [hcnt]
    decide
  · intro _
    rw [headerOf_smallImage, hg]
    exact sectorInFile_smallImage (by decide) rfl (by decide)
  · intro e
    rw [headerOf_smallImage, hg, hent]
    simp
  · rw [headerOf_smallImage, hg]
    refine ⟨by decide, fun off he => ⟨by decide, fun h0 => ?_⟩⟩
    rw [hent, Entry.standard.injEq] at he
    omega

/-- With the L2 entry all zeros, the sector is not allocated and arrives as the image's first
    512 bytes. -/
theorem coldRead_unallocated_wrong : ∃ o, FreshDisk ⟨.never⟩ (smallImage 1024 0) [] o ∧
    o.disk.sectCnt = 1 ∧ TablesInFile (smallImage 1024 0) ∧
    SectorInFile (smallImage 1024 0) (headerOf (smallImage 1024 0)) o.disk.geom 0 ∧
    entryAt (smallImage 1024 0) (headerOf (smallImage 1024 0)) o.disk.geom 0 = .standard 0 ∧
    ¬ ColdReadCorrect (fun _ _ => []) (smallImage 1024 0) o 0 := by
  obtain ⟨o, ho, hg, -⟩ := exists_freshDisk_smallImage 1024 0 0
  have hent : entryAt (smallImage 1024 0) (headerOf (smallImage 1024 0)) o.disk.geom 0
      = .standard 0 := by
    rw [headerOf_smallImage, hg]
    exact entryAt_smallImage (by decide)
  have hin : SectorInFile (smallImage 1024 0) (headerOf (smallImage 1024 0)) o.disk.geom 0 := by
    rw [headerOf_smallImage, hg]
    exact sectorInFile_smallImage (by decide) rfl (by decide)
  refine ⟨o, ho, ho.sectCnt_smallImage hg, tablesInFile_smallImage, hin, hent, fun hcold => ?_⟩
  have hl : o.disk.geom.l1Index 0 < (headerOf (smallImage 1024 0)).l1Size % 2 ^ 29 := by
    rw [headerOf_smallImage, hg]
    decide
  have hzero := ((coldReadCorrect_standard ho tablesInFile_smallImage (by decide) hl hin hent).mp
    hcold).2 rfl
  rw [hg] at hzero
  -- The first byte of the file is the `Q` of the magic.
  have hfirst : (smallImage 1024 0).byteAt 0 = 0 :=
    HostFile.byteAt_of_span (i := 0) hzero (by decide)
  exact absurd hfirst (by decide)

end Umka.Proof.Qcow2
