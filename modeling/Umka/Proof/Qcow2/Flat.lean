import Mathlib.Tactic.Ring
import Umka.Proof.Qcow2.Cache
import Umka.Proof.Qcow2.Encode

/-!
# Reading an allocated image is reading a flat disk

On an image whose every guest cluster is a standard, allocated cluster inside the file, the
reader should be indistinguishable from one that has no cache: sector `s` is always the
`sect_size` host bytes at the cluster's offset plus `s * sect_size mod cluster_size`, whatever
was read before.

It is, up to one thing. The L1 table is allocated as `l1_size * sizeof(uint64_t)` in 32-bit
`size_t`, so only `l1_size mod 2^29` entries are there to be indexed (`L1_MAX_ENTRIES` is
defined at the top of `qcow2.c` and never compared with anything). `qcow2_reads_flat_iff`
says that this is exactly the difference: an image whose L1 table covers the disk reads flat
if and only if the entries that survive the wrap still cover it.
-/

set_option autoImplicit false

namespace Umka.Proof.Qcow2

open Lib Vdisk

/-- The host offset a standard entry points at. -/
def Entry.offset : Entry → Nat
  | .standard off => off
  | _ => 0

/-- The flat disk: the host bytes of a sector. -/
def flatSector (f : HostFile) (h : Qcow2Header) (g : Geometry) (s : Nat) : Block g.sectSize :=
  ⟨f.span ((entryAt f h g s).offset + s * g.sectSize % g.clusterSize) g.sectSize,
    HostFile.length_span⟩

theorem flatSector_standard {f : HostFile} {h : Qcow2Header} {g : Geometry} {s off : Nat}
    (he : entryAt f h g s = .standard off) :
    flatSector f h g s = ⟨f.span (off + s * g.sectSize % g.clusterSize) g.sectSize,
      HostFile.length_span⟩ := by
  ext1
  simp only [flatSector, he, Entry.offset]

/-- Every guest cluster has a nonzero L1 offset, an L2 entry in the file, and through it a
    standard entry with a nonzero, cluster-aligned offset whose cluster lies in the file. -/
def Allocated (f : HostFile) (h : Qcow2Header) (g : Geometry) : Prop :=
  ∀ s < h.size / g.sectSize, ∃ off, entryAt f h g s = .standard off ∧ off ≠ 0 ∧
    off % g.clusterSize = 0 ∧ off + g.clusterSize ≤ f.size ∧
    l2EntryPos (l1EntryAt f h (g.l1Index s)) (g.l2Index s) + 8 ≤ f.size

/-- `n` L1 entries reach to the end of the disk. -/
def L1Covers (h : Qcow2Header) (g : Geometry) (n : Nat) : Prop :=
  h.size / g.sectSize * g.sectSize ≤ n * (g.l2Entries * g.clusterSize)

/-- Every run of in-range calls, on a host whose transfers move all they can, answers each
    sector with the flat disk's bytes. -/
def ReadsFlat (emInflate : List UInt8 → Nat → List UInt8) (f : HostFile) (o : OpenQcow2) : Prop :=
  ∀ (env : Env) (w : World) (ks : List (Call o.disk.geom)), env.AllFull → w.file = f →
    (∀ k ∈ ks, k.InRange o.disk.sectCnt) → ∃ c' w',
      runCalls emInflate env o.disk ks o.cache w
        = some (ks.map fun k => (.success, k.sectors.map (flatSector f (headerOf f) o.disk.geom)),
            c', w')

/-! ## Covering, sector by sector -/

theorem l1Covers_iff {h : Qcow2Header} {g : Geometry} {n : Nat} (hsize : h.size < 2 ^ 64)
    (hc : g.sectSize ≤ g.clusterSize) :
    L1Covers h g n ↔ ∀ s < h.size / g.sectSize, g.l1Index s < n := by
  have hpos := g.sectSize_pos
  constructor
  · intro hcov s hs
    rw [Geometry.l1Index_lt_iff (Geometry.sector_lt_of_sectCnt hsize hs)]
    unfold L1Covers at hcov
    exact Nat.lt_of_lt_of_le ((Nat.mul_lt_mul_right hpos).mpr hs) hcov
  · intro hall
    unfold L1Covers
    rcases Nat.eq_zero_or_pos (h.size / g.sectSize) with h0 | h0
    · rw [h0, Nat.zero_mul]
      exact Nat.zero_le _
    · -- The last sector is below the table's reach, and both ends are whole sectors.
      have hlast := hall (h.size / g.sectSize - 1) (by omega)
      rw [Geometry.l1Index_lt_iff (Geometry.sector_lt_of_sectCnt hsize (by omega))] at hlast
      obtain ⟨q, hq⟩ := Geometry.sectSize_dvd hc
      have hr : n * (g.l2Entries * g.clusterSize) = (n * g.l2Entries * q) * g.sectSize := by
        rw [hq]
        ring
      rw [hr] at hlast ⊢
      have hlt := Nat.lt_of_mul_lt_mul_right hlast
      exact Nat.mul_le_mul_right _ (by omega)

/-- The walk for a sector is whole when its ranges are in the file and the host is willing. -/
theorem walkWhole_of_full {env : Env} {g : Geometry} {w : World} {l1Entry l2Index : Nat}
    (hfull : env.AllFull)
    (hl2 : l1Entry &&& l1EntryOffsetMask ≠ 0 → l2EntryPos l1Entry l2Index + 8 ≤ w.file.size)
    (hcl : ∀ off, entryOf w.file l1Entry l2Index = .standard off →
      off + g.clusterSize ≤ w.file.size) : WalkWhole env g w l1Entry l2Index := by
  intro h0
  refine ⟨World.whole_of_full (hfull _) (by simpa using hl2 h0), fun off hoff => ?_⟩
  exact World.whole_of_full (hfull _) (by simpa using hcl off hoff)

/-- What the walk for a sector reads lies in the file. -/
structure SectorInFile (f : HostFile) (h : Qcow2Header) (g : Geometry) (s : Nat) : Prop where
  l2 : l1EntryAt f h (g.l1Index s) &&& l1EntryOffsetMask ≠ 0 →
    l2EntryPos (l1EntryAt f h (g.l1Index s)) (g.l2Index s) + 8 ≤ f.size
  cluster : ∀ off, entryAt f h g s = .standard off → off + g.clusterSize ≤ f.size

/-- A sector with an L1 entry in the allocated table and a standard cluster in the file. -/
def StandardSector (f : HostFile) (h : Qcow2Header) (g : Geometry) (s : Nat) : Prop :=
  g.l1Index s < h.l1Size % 2 ^ 29 ∧ (∃ off, entryAt f h g s = .standard off) ∧ SectorInFile f h g s

theorem Allocated.standardSector {f : HostFile} {h : Qcow2Header} {g : Geometry} {s : Nat}
    (ha : Allocated f h g) (hs : s < h.size / g.sectSize) (hl : g.l1Index s < h.l1Size % 2 ^ 29) :
    StandardSector f h g s := by
  obtain ⟨off, hent, -, -, hin, hl2⟩ := ha s hs
  refine ⟨hl, ⟨off, hent⟩, fun _ => hl2, fun off' hoff' => ?_⟩
  rw [hent, Entry.standard.injEq] at hoff'
  exact hoff' ▸ hin

section Fresh

variable {io : UmkaIo} {f : HostFile} {fname : List Char} {o : OpenQcow2}

theorem FreshDisk.diskEntry_eq (ho : FreshDisk io f fname o) (ht : TablesInFile f) (s : Nat) :
    diskEntry f o.disk s = if o.disk.geom.l1Index s < (headerOf f).l1Size % 2 ^ 29
      then some (entryAt f (headerOf f) o.disk.geom s) else none := by
  obtain ⟨-, -, -, hl1, -⟩ := ho.spec ht
  unfold diskEntry entryAt
  rw [hl1]
  split <;> rfl

theorem FreshDisk.sectCnt_le (ho : FreshDisk io f fname o) (ht : TablesInFile f) :
    o.disk.sectCnt ≤ 2 ^ 64 := by
  obtain ⟨-, hcnt, -, -, -⟩ := ho.spec ht
  rw [hcnt]
  have h1 : (headerOf f).size < 2 ^ 64 := ofBlock_size_lt _
  exact Nat.le_of_lt (Nat.lt_of_le_of_lt (Nat.div_le_self _ _) h1)

theorem FreshDisk.walkWhole (ho : FreshDisk io f fname o) (ht : TablesInFile f) {env : Env}
    (hfull : env.AllFull) {w : World} (hw : w.file = f) {s : Nat}
    (hl : o.disk.geom.l1Index s < (headerOf f).l1Size % 2 ^ 29)
    (hin : SectorInFile f (headerOf f) o.disk.geom s) :
    ∀ e, o.disk.l1[o.disk.geom.l1Index s]? = some e →
      WalkWhole env o.disk.geom w e (o.disk.geom.l2Index s) := by
  intro e he
  subst hw
  obtain ⟨-, -, -, hl1, -⟩ := ho.spec ht
  rw [hl1, if_pos hl] at he
  simp only [Option.some.injEq] at he
  subst he
  exact walkWhole_of_full hfull hin.l2 hin.cluster

end Fresh

/-! ## The theorem -/

section Reads

variable {emInflate : List UInt8 → Nat → List UInt8} {io : UmkaIo} {f : HostFile}
variable {fname : List Char} {o : OpenQcow2}

/-- One standard sector, from any state the reads before it can leave. -/
theorem readSector_flat (ho : FreshDisk io f fname o) (ht : TablesInFile f)
    (hc : o.disk.geom.sectSize ≤ o.disk.geom.clusterSize)
    (hstd : ∀ s < o.disk.sectCnt, StandardSector f (headerOf f) o.disk.geom s)
    {env : Env} (hfull : env.AllFull) (io' : UmkaIo) (s : Nat) (buf : Block o.disk.geom.sectSize)
    (c : ClusterCache o.disk.geom) (w : World) (hs : s < o.disk.sectCnt)
    (hI : w.file = f ∧ CacheInv f o.disk c) :
    ∃ c' w', (qcow2ReadGuestSector emInflate io' o.disk s buf).run env c w
        = some (flatSector f (headerOf f) o.disk.geom s, c', w') ∧
      w'.file = f ∧ CacheInv f o.disk c' := by
  obtain ⟨rfl, hinv⟩ := hI
  obtain ⟨hl, ⟨off, hent⟩, hin⟩ := hstd s hs
  have he : diskEntry w.file o.disk s = some (.standard off) := by
    rw [ho.diskEntry_eq ht, if_pos hl, hent]
  obtain ⟨c', w', hf', -, hinv', -, hbytes, hrun⟩ :=
    readSector_standard he hinv (fun _ => ho.walkWhole ht hfull rfl hl hin)
  refine ⟨c', w', ?_, hf', hinv'⟩
  rw [hrun, slice_span hc hbytes, flatSector_standard hent]
  rfl

/-- Every run over standard sectors answers with the flat disk, and leaves the cache right. -/
theorem runCalls_flat (ho : FreshDisk io f fname o) (ht : TablesInFile f)
    (hc : o.disk.geom.sectSize ≤ o.disk.geom.clusterSize)
    (hstd : ∀ s < o.disk.sectCnt, StandardSector f (headerOf f) o.disk.geom s)
    {env : Env} (hfull : env.AllFull) {w : World} (hw : w.file = f) (ks : List (Call o.disk.geom))
    (hks : ∀ k ∈ ks, k.InRange o.disk.sectCnt) :
    ∃ c' w', runCalls emInflate env o.disk ks o.cache w
        = some (ks.map fun k => (.success, k.sectors.map (flatSector f (headerOf f) o.disk.geom)),
            c', w') ∧ w'.file = f ∧ CacheInv f o.disk c' := by
  obtain ⟨-, -, -, -, htag⟩ := ho.spec ht
  exact runCalls_of_step (I := fun c w => w.file = f ∧ CacheInv f o.disk c) (ho.sectCnt_le ht)
    (readSector_flat ho ht hc hstd hfull) ks o.cache w hks ⟨hw, cacheInv_empty htag⟩

/-- Reading flat is the same as finding every L1 entry in the allocated table. -/
theorem readsFlat_iff (ho : FreshDisk io f fname o) (ht : TablesInFile f)
    (hc : o.disk.geom.sectSize ≤ o.disk.geom.clusterSize)
    (ha : Allocated f (headerOf f) o.disk.geom) :
    ReadsFlat emInflate f o ↔
      L1Covers (headerOf f) o.disk.geom ((headerOf f).l1Size % 2 ^ 29) := by
  obtain ⟨-, hcnt, -, hl1, -⟩ := ho.spec ht
  have hsize : (headerOf f).size < 2 ^ 64 := ofBlock_size_lt _
  rw [l1Covers_iff hsize hc, ← hcnt]
  constructor
  · intro hflat s hs
    -- A sector beyond the table faults as the only read of a run.
    by_contra hno
    obtain ⟨c', w', hrun⟩ := hflat .willing ⟨f, .rdonly, 0, 0, []⟩ [⟨io, s, [Block.zero _]⟩]
      Env.allFull_willing rfl (by simp [Call.InRange]; omega)
    have hnone : o.disk.l1[o.disk.geom.l1Index s]? = none := by
      rw [hl1, if_neg hno]
    rw [runCalls_singleton (Nat.lt_of_lt_of_le hs (ho.sectCnt_le ht)),
      run_readSector_fault hnone] at hrun
    cases hrun
  · intro hl env w ks hfull hf hks
    have hstd : ∀ s < o.disk.sectCnt, StandardSector f (headerOf f) o.disk.geom s :=
      fun s hs => ha.standardSector (hcnt ▸ hs) (hl s hs)
    obtain ⟨c', w', hrun, -⟩ := runCalls_flat ho ht hc hstd hfull hf ks hks
    exact ⟨c', w', hrun⟩

/-- **The caching reader refines the flat disk exactly when the allocated L1 table covers it.**
    The first part is the address arithmetic and holds for every accepted image whose sectors
    are no larger than its clusters. -/
theorem qcow2_reads_flat_iff (ho : FreshDisk io f fname o) (ht : TablesInFile f)
    (hc : o.disk.geom.sectSize ≤ o.disk.geom.clusterSize)
    (ha : Allocated f (headerOf f) o.disk.geom) :
    (∀ s < o.disk.sectCnt,
      (o.disk.geom.l1Index s * o.disk.geom.l2Entries + o.disk.geom.l2Index s)
          * o.disk.geom.clusterSize + o.disk.geom.sectorOffset s = s * o.disk.geom.sectSize) ∧
    (ReadsFlat emInflate f o ↔
      L1Covers (headerOf f) o.disk.geom ((headerOf f).l1Size % 2 ^ 29)) := by
  obtain ⟨-, hcnt, -, -, -⟩ := ho.spec ht
  refine ⟨fun s hs => ?_, readsFlat_iff ho ht hc ha⟩
  rw [hcnt] at hs
  exact Geometry.address_eq hc (Geometry.sector_lt_of_sectCnt (ofBlock_size_lt _) hs)

end Reads

/-! ## Two images

A disk of 128 sectors behind two L1 entries, every guest cluster at host offset 2048. The
first image says `l1_size = 2`; the second says `2^29 + 1`, has the whole 4 GiB table to back
it, and gets one entry of it. -/

def flatHeader (l1Size : Nat) : Qcow2Header where
  magic := qcow2Magic
  version := 3
  backFileOffset := 0
  clusterBits := 9
  size := 65536
  cryptMethod := 0
  l1Size := l1Size
  l1TableOffset := 65536
  incompatibleFeatures := 0
  refcountOrder := 4

/-- The L1 table from 65536 on points at the L2 table at 1024, and that at 2048. -/
def flatWords (k : Nat) : Nat := if 8192 ≤ k then 1024 else if 128 ≤ k ∧ k < 192 then 2048 else 0

def flatImage (l1Size : Nat) : HostFile := image (flatHeader l1Size) flatWords (2 ^ 33) (by decide)

section FlatImage

variable {n : Nat} {o : OpenQcow2}

theorem headerOf_flatImage (hn : n < 2 ^ 32) : headerOf (flatImage n) = flatHeader n := by
  refine headerOf_image ⟨rfl, ?_, ?_, ?_, ?_, ?_, hn, ?_, ?_, ?_⟩ (by decide) <;>
    simp only [flatHeader] <;> decide

theorem size_flatImage : (flatImage n).size = 2 ^ 33 := rfl

theorem tablesInFile_flatImage (hn : n ≤ 2 ^ 29 + 1) : TablesInFile (flatImage n) := by
  refine ⟨by rw [size_flatImage]; decide, ?_⟩
  rw [headerOf_flatImage (by omega), size_flatImage]
  show 65536 + l1AllocBytes n ≤ 2 ^ 33
  rw [l1AllocBytes_eq]
  omega

theorem checkHeader_flatHeader : checkHeader (flatHeader n) [] = some smallGeometry := rfl

theorem l1Index_smallGeometry {s : Nat} (hs : s < 128) : smallGeometry.l1Index s < 2 := by
  rw [Geometry.l1Index_lt_iff (by show s * 512 < 2 ^ 64; omega)]
  show s * 512 < 2 * (2 ^ 9 / 8 * 2 ^ 9)
  omega

theorem l2Index_smallGeometry (s : Nat) : smallGeometry.l2Index s < 64 := Nat.mod_lt _ (by decide)

theorem l1EntryAt_flatImage {i : Nat} (hi : i < 2) :
    l1EntryAt (flatImage n) (flatHeader n) i = 1024 := by
  have hw : flatWords (8192 + i) = 1024 := if_pos (by omega)
  unfold l1EntryAt flatImage
  rw [show (flatHeader n).l1TableOffset + 8 * i = 8 * (8192 + i) by simp only [flatHeader]; ring,
    be64_span_image (by unfold headerSize; omega) (by omega) (by rw [hw]; decide), hw]

theorem l2EntryPos_flatImage (j : Nat) : l2EntryPos 1024 j = 8 * (128 + j) := by
  have hpos : l2EntryPos 1024 j = 1024 + j * 8 := rfl
  rw [hpos]
  ring

/-- Every sector of the disk is in the host cluster at 2048. -/
theorem entryAt_flatImage {s : Nat} (hs : s < 128) :
    entryAt (flatImage n) (flatHeader n) smallGeometry s = .standard 2048 := by
  have hl2 := l2Index_smallGeometry s
  have hw : flatWords (128 + smallGeometry.l2Index s) = 2048 := by
    unfold flatWords
    rw [if_neg (by omega), if_pos (by omega)]
  unfold entryAt entryOf
  rw [l1EntryAt_flatImage (l1Index_smallGeometry hs), if_neg (by decide), l2EntryPos_flatImage]
  unfold flatImage
  rw [be64_span_image (by unfold headerSize; omega) (by omega) (by rw [hw]; decide), hw]
  rfl

theorem allocated_flatImage : Allocated (flatImage n) (flatHeader n) smallGeometry := by
  intro s hs
  have hs' : s < 65536 / 512 := hs
  rw [show 65536 / 512 = 128 from rfl] at hs'
  have hl2 := l2Index_smallGeometry s
  refine ⟨2048, entryAt_flatImage hs', by decide, by decide, ?_, ?_⟩
  · show 2048 + 2 ^ 9 ≤ 2 ^ 33
    decide
  · rw [l1EntryAt_flatImage (l1Index_smallGeometry hs'), l2EntryPos_flatImage, size_flatImage]
    omega

/-- The reader accepts the image if the wrapped allocation is not empty. -/
theorem exists_freshDisk_flatImage (hn : n ≤ 2 ^ 29 + 1) (hw : n % 2 ^ 29 ≠ 0) :
    ∃ o, FreshDisk ⟨.never⟩ (flatImage n) [] o ∧ o.disk.geom = smallGeometry := by
  have hhdr := headerOf_flatImage (n := n) (by omega)
  have ht := tablesInFile_flatImage hn
  obtain ⟨o, ho, -⟩ := exists_freshDisk ⟨.never⟩ ht
    (by rw [hhdr]; exact checkHeader_flatHeader) (by rw [hhdr]; exact hw) 0
  obtain ⟨hg, -⟩ := ho.spec ht
  rw [hhdr, checkHeader_flatHeader, Option.some.injEq] at hg
  exact ⟨o, ho, hg.symm⟩

end FlatImage

/-- The image with `l1_size = 2` reads flat. -/
theorem qcow2_reads_flat_iff_two : ∃ o, FreshDisk ⟨.never⟩ (flatImage 2) [] o ∧
    o.disk.geom = smallGeometry ∧ ReadsFlat (fun _ _ => []) (flatImage 2) o := by
  obtain ⟨o, ho, hg⟩ := exists_freshDisk_flatImage (n := 2) (by decide) (by decide)
  have hhdr := headerOf_flatImage (n := 2) (by decide)
  refine ⟨o, ho, hg, (qcow2_reads_flat_iff ho (tablesInFile_flatImage (by decide)) ?_ ?_).2.mpr ?_⟩
  · rw [hg]
    decide
  · rw [hg, hhdr]
    exact allocated_flatImage
  · rw [hg, hhdr]
    unfold L1Covers
    decide

/-- With `l1_size = 2^29 + 1` everything asked of the image holds, and it does not read flat. -/
theorem flatImage_wrapped_not_flat : ∃ o, FreshDisk ⟨.never⟩ (flatImage (2 ^ 29 + 1)) [] o ∧
    TablesInFile (flatImage (2 ^ 29 + 1)) ∧
    o.disk.geom.sectSize ≤ o.disk.geom.clusterSize ∧
    L1Covers (flatHeader (2 ^ 29 + 1)) o.disk.geom (2 ^ 29 + 1) ∧
    headerOf (flatImage (2 ^ 29 + 1)) = flatHeader (2 ^ 29 + 1) ∧
    Allocated (flatImage (2 ^ 29 + 1)) (flatHeader (2 ^ 29 + 1)) o.disk.geom ∧
    ¬ ReadsFlat (fun _ _ => []) (flatImage (2 ^ 29 + 1)) o := by
  obtain ⟨o, ho, hg⟩ := exists_freshDisk_flatImage (n := 2 ^ 29 + 1) (by decide) (by decide)
  have hhdr := headerOf_flatImage (n := 2 ^ 29 + 1) (by decide)
  have ht := tablesInFile_flatImage (n := 2 ^ 29 + 1) (by decide)
  have hc : o.disk.geom.sectSize ≤ o.disk.geom.clusterSize := by
    rw [hg]
    decide
  refine ⟨o, ho, ht, hc, ?_, hhdr, ?_, fun hflat => ?_⟩
  · rw [hg]
    unfold L1Covers
    decide
  · rw [hg]
    exact allocated_flatImage
  · have hcov := (readsFlat_iff ho ht hc (by rw [hg, hhdr]; exact allocated_flatImage)).mp hflat
    rw [hg, hhdr] at hcov
    exact absurd hcov (by unfold L1Covers; decide)

end Umka.Proof.Qcow2
