import Umka.Proof.Qcow2.Contents

/-!
# Does the guest see what was read before?

A disk should answer with the image and nothing else. Over two histories of reads the qcow2
reader does so exactly when the disk has no holes, and the reason is one assignment: the cache
tag is moved to the requested cluster before the walk, and the two branches that answer zeros
return without filling the buffer. The second read of a hole hits the cache, and copies out
whatever the buffer was left with: an older cluster, or what `malloc` returned.

`History` is what two runs may differ in: the disk as opened (its buffers are uninitialised),
the host, and the calls made. `historyIndependent_iff` compares any two.
-/

set_option autoImplicit false

namespace Umka.Proof.Qcow2

open Lib Vdisk

/-- An image opened and then read from, every transfer moving all it can. -/
structure History (io : UmkaIo) (f : HostFile) (fname : List Char) where
  o : OpenQcow2
  env : Env
  world : World
  calls : List (Call o.disk.geom)
  fresh : FreshDisk io f fname o
  full : env.AllFull
  file_eq : world.file = f
  inRange : ∀ k ∈ calls, k.InRange o.disk.sectCnt

/-- The bytes a call for sector `s` returns after the calls `ks`. -/
def readAfter (emInflate : List UInt8 → Nat → List UInt8) (env : Env) (w : World) (o : OpenQcow2)
    (ks : List (Call o.disk.geom)) (io' : UmkaIo) (s : Nat) (buf : Block o.disk.geom.sectSize) :
    Option (List (List UInt8)) :=
  (runCalls emInflate env o.disk ks o.cache w).bind fun r =>
    ((vdiskQcow2Read emInflate io' o.disk s [buf]).run env r.2.1 r.2.2).map
      fun q => q.1.2.map Block.bytes

def History.read (emInflate : List UInt8 → Nat → List UInt8) {io : UmkaIo} {f : HostFile}
    {fname : List Char} (H : History io f fname) (io' : UmkaIo) (s : Nat)
    (buf : Block H.o.disk.geom.sectSize) : Option (List (List UInt8)) :=
  readAfter emInflate H.env H.world H.o H.calls io' s buf

/-- After any two histories a sector reads the same. -/
def HistoryIndependent (emInflate : List UInt8 → Nat → List UInt8) (io : UmkaIo) (f : HostFile)
    (fname : List Char) : Prop :=
  ∀ (H₁ H₂ : History io f fname) (io' : UmkaIo) (s : Nat) (buf₁ : Block H₁.o.disk.geom.sectSize)
    (buf₂ : Block H₂.o.disk.geom.sectSize), s < H₁.o.disk.sectCnt →
      ∃ bytes, H₁.read emInflate io' s buf₁ = some bytes ∧
        H₂.read emInflate io' s buf₂ = some bytes

/-- Everything the walks for the disk's sectors read lies in the file. -/
def Complete (f : HostFile) (h : Qcow2Header) (g : Geometry) : Prop :=
  ∀ s < h.size / g.sectSize, g.l1Index s < h.l1Size % 2 ^ 29 → SectorInFile f h g s

def Uncompressed (f : HostFile) (h : Qcow2Header) (g : Geometry) : Prop :=
  ∀ s < h.size / g.sectSize, ∀ e, entryAt f h g s ≠ .compressed e

/-- Every sector has its L1 entry in the allocated table and a cluster, allocated or not, that
    the reader loads before it answers. -/
def NoHoles (f : HostFile) (h : Qcow2Header) (g : Geometry) : Prop :=
  ∀ s < h.size / g.sectSize, g.l1Index s < h.l1Size % 2 ^ 29 ∧
    (entryAt f h g s).hole = false ∧ g.sectSize ≤ g.clusterSize

section Independence

variable {emInflate : List UInt8 → Nat → List UInt8} {io : UmkaIo} {f : HostFile}
variable {fname : List Char} {o : OpenQcow2} {s : Nat}

theorem NoHoles.standardSector {h : Qcow2Header} {g : Geometry} (hn : NoHoles f h g)
    (hcomp : Complete f h g) (hnc : Uncompressed f h g) (hs : s < h.size / g.sectSize) :
    StandardSector f h g s := by
  obtain ⟨hl, hh, -⟩ := hn s hs
  refine ⟨hl, ?_, hcomp s hs hl⟩
  cases he : entryAt f h g s with
  | noTable => rw [he] at hh; cases hh
  | zeroed => rw [he] at hh; cases hh
  | standard off => exact ⟨off, rfl⟩
  | compressed e => exact absurd he (hnc s hs e)

/-- Without holes every history is followed by the flat disk's sector. -/
theorem History.read_flat (H : History io f fname) (ht : TablesInFile f)
    (hn : NoHoles f (headerOf f) H.o.disk.geom) (hcomp : Complete f (headerOf f) H.o.disk.geom)
    (hnc : Uncompressed f (headerOf f) H.o.disk.geom) (io' : UmkaIo)
    (buf : Block H.o.disk.geom.sectSize) (hs : s < H.o.disk.sectCnt) :
    H.read emInflate io' s buf = some [(flatSector f (headerOf f) H.o.disk.geom s).bytes] := by
  obtain ⟨-, hcnt, -, -, -⟩ := H.fresh.spec ht
  have hc : H.o.disk.geom.sectSize ≤ H.o.disk.geom.clusterSize := (hn s (hcnt ▸ hs)).2.2
  have hstd : ∀ t < H.o.disk.sectCnt, StandardSector f (headerOf f) H.o.disk.geom t :=
    fun t ht' => hn.standardSector hcomp hnc (hcnt ▸ ht')
  obtain ⟨c, w, hrun, hI⟩ :=
    runCalls_flat H.fresh ht hc hstd H.full H.file_eq H.calls H.inRange
  obtain ⟨c', w', hread, -⟩ := readSector_flat H.fresh ht hc hstd H.full io' s buf c w hs hI
  have hs64 : s < 2 ^ 64 := Nat.lt_of_lt_of_le hs (H.fresh.sectCnt_le ht)
  unfold History.read readAfter
  rw [hrun, Option.bind_some, run_vdiskQcow2Read_one hs64, hread]
  rfl

theorem readAfter_nil {env : Env} {w : World} {io' : UmkaIo} {buf : Block o.disk.geom.sectSize}
    (hs : s < 2 ^ 64) :
    readAfter emInflate env w o [] io' s buf
      = ((qcow2ReadGuestSector emInflate io' o.disk s buf).run env o.cache w).map
          fun r => [r.1.bytes] := by
  unfold readAfter
  rw [runCalls, Option.bind_some, run_vdiskQcow2Read_one hs, Option.map_map]
  rfl

/-- **The second read of a hole** copies from a buffer nobody filled. -/
theorem readAfter_hole {env : Env} {w : World} {io' : UmkaIo}
    {buf buf' : Block o.disk.geom.sectSize} (ho : FreshDisk io f fname o) (ht : TablesInFile f)
    (hs : s < 2 ^ 64) (hl : o.disk.geom.l1Index s < (headerOf f).l1Size % 2 ^ 29)
    (hin : SectorInFile f (headerOf f) o.disk.geom s)
    (hh : (entryAt f (headerOf f) o.disk.geom s).hole = true)
    (hfull : env.AllFull) (hw : w.file = f) :
    readAfter emInflate env w o [⟨io', s, [buf']⟩] io' s buf
      = (o.cache.cluster.slice? (o.disk.geom.sectorOffset s) o.disk.geom.sectSize).map
          fun b => [b.bytes] := by
  obtain ⟨-, -, -, hl1, -⟩ := ho.spec ht
  have hentry := hl1 (o.disk.geom.l1Index s)
  rw [if_pos hl] at hentry
  obtain ⟨w', -, hfirst⟩ := coldRead_hole emInflate ho ht io' buf' hl hin hh hfull hw
  unfold readAfter
  rw [runCalls_singleton hs, hfirst, Option.map_some, Option.bind_some, run_vdiskQcow2Read_one hs,
    run_readSector_cached hentry rfl, Option.map_map, Option.map_map]
  rfl

/-- If the buffer came with ones in it, a hole is not read twice alike. -/
theorem hole_read_twice {env : Env} {w : World} {io' : UmkaIo}
    {buf buf' : Block o.disk.geom.sectSize} (ho : FreshDisk io f fname o) (ht : TablesInFile f)
    (hone : o.cache.cluster.bytes = List.replicate o.disk.geom.clusterSize 1) (hs : s < 2 ^ 64)
    (hl : o.disk.geom.l1Index s < (headerOf f).l1Size % 2 ^ 29)
    (hin : SectorInFile f (headerOf f) o.disk.geom s)
    (hh : (entryAt f (headerOf f) o.disk.geom s).hole = true)
    (hfull : env.AllFull) (hw : w.file = f) {bytes : List (List UInt8)}
    (hfst : readAfter emInflate env w o [] io' s buf = some bytes) :
    readAfter emInflate env w o [⟨io', s, [buf']⟩] io' s buf ≠ some bytes := by
  obtain ⟨w', -, hread⟩ := coldRead_hole emInflate ho ht io' buf hl hin hh hfull hw
  rw [readAfter_nil hs, hread, Option.map_some, Option.some.injEq, Block.bytes_zero] at hfst
  subst hfst
  rw [readAfter_hole ho ht hs hl hin hh hfull hw]
  by_cases hc : o.disk.geom.sectSize ≤ o.disk.geom.clusterSize
  · have hle := Geometry.sectorOffset_add_le hc s
    obtain ⟨b, hb, hbytes⟩ := Block.slice?_eq_some (b := o.cache.cluster) hle
    rw [hone, List.drop_replicate, List.take_replicate, Nat.min_eq_left (by omega)] at hbytes
    rw [hb, Option.map_some, hbytes]
    intro heq
    simp only [Option.some.injEq, List.cons.injEq, and_true] at heq
    have hpos := o.disk.geom.sectSize_pos
    rw [List.replicate_inj] at heq
    rcases heq.2 with h0 | h01
    · omega
    · exact absurd h01 (by decide)
  · rw [Block.slice?_eq_none (mt (Geometry.sectorOffset_add_le_iff s).mp hc)]
    simp

/-- Independence at a disk whose buffer does not happen to hold zeros leaves no room for
    holes. -/
theorem noHoles_of_independent (ho : FreshDisk io f fname o) (ht : TablesInFile f)
    (hone : o.cache.cluster.bytes = List.replicate o.disk.geom.clusterSize 1)
    (hcomp : Complete f (headerOf f) o.disk.geom) (hnc : Uncompressed f (headerOf f) o.disk.geom)
    (hind : HistoryIndependent emInflate io f fname) : NoHoles f (headerOf f) o.disk.geom := by
  intro s hs
  obtain ⟨-, hcnt, -, -, -⟩ := ho.spec ht
  have hs' : s < o.disk.sectCnt := by rw [hcnt]; exact hs
  have hs64 : s < 2 ^ 64 := Nat.lt_of_lt_of_le hs' (ho.sectCnt_le ht)
  obtain ⟨env, hfull⟩ : ∃ env : Env, env.AllFull := ⟨.willing, Env.allFull_willing⟩
  obtain ⟨w, hw⟩ : ∃ w : World, w.file = f := ⟨⟨f, .rdonly, 0, 0, []⟩, rfl⟩
  let k : Call o.disk.geom := ⟨io, s, [Block.zero _]⟩
  -- One history reads nothing, the other the sector itself.
  obtain ⟨bytes, hfst, hsnd⟩ : ∃ bytes,
      readAfter emInflate env w o [] io s (Block.zero _) = some bytes ∧
      readAfter emInflate env w o [k] io s (Block.zero _) = some bytes :=
    hind ⟨o, env, w, [], ho, hfull, hw, by simp⟩
      ⟨o, env, w, [k], ho, hfull, hw, by simpa [k, Call.InRange, Nat.succ_le_iff] using hs'⟩
      io s (Block.zero _) (Block.zero _) hs'
  have hcold := hfst
  rw [readAfter_nil hs64] at hcold
  have hl : o.disk.geom.l1Index s < (headerOf f).l1Size % 2 ^ 29 := by
    by_contra hno
    rw [coldRead_noEntry ho ht hno] at hcold
    cases hcold
  have hin := hcomp s hs hl
  cases he : entryAt f (headerOf f) o.disk.geom s with
  | compressed e => exact absurd he (hnc s hs e)
  | standard off =>
    obtain ⟨c', w', -, hread⟩ := coldRead_standard emInflate ho ht io (Block.zero _) hl hin he
      hfull hw
    refine ⟨hl, rfl, ?_⟩
    by_contra hc
    rw [hread, Block.slice?_eq_none (mt (Geometry.sectorOffset_add_le_iff s).mp hc)] at hcold
    cases hcold
  | noTable =>
    have hh : (entryAt f (headerOf f) o.disk.geom s).hole = true := by rw [he]; rfl
    exact absurd hsnd (hole_read_twice ho ht hone hs64 hl hin hh hfull hw hfst)
  | zeroed =>
    have hh : (entryAt f (headerOf f) o.disk.geom s).hole = true := by rw [he]; rfl
    exact absurd hsnd (hole_read_twice ho ht hone hs64 hl hin hh hfull hw hfst)

/-- **A guest sees the history of reads exactly when the disk has a hole** (or a sector that
    cannot be read at all). -/
theorem historyIndependent_iff (ho : FreshDisk io f fname o) (ht : TablesInFile f)
    (hcomp : Complete f (headerOf f) o.disk.geom) (hnc : Uncompressed f (headerOf f) o.disk.geom) :
    HistoryIndependent emInflate io f fname ↔ NoHoles f (headerOf f) o.disk.geom := by
  obtain ⟨hg, -⟩ := ho.spec ht
  constructor
  · intro hind
    obtain ⟨o', ho', hone⟩ := exists_freshDisk io ht hg (ho.l1Size_ne_zero ht) 1
    obtain ⟨hg', -⟩ := ho'.spec ht
    rw [hg, Option.some.injEq] at hg'
    rw [hg'] at hcomp hnc ⊢
    exact noHoles_of_independent ho' ht hone hcomp hnc hind
  · intro hn H₁ H₂ io' s buf₁ buf₂ hs
    obtain ⟨hg₁, hc₁, -⟩ := H₁.fresh.spec ht
    obtain ⟨hg₂, hc₂, -⟩ := H₂.fresh.spec ht
    rw [hg, Option.some.injEq] at hg₁ hg₂
    have hs₂ : s < H₂.o.disk.sectCnt := by rwa [hc₂, ← hg₂, hg₁, ← hc₁]
    refine ⟨[(flatSector f (headerOf f) o.disk.geom s).bytes], ?_, ?_⟩
    · rw [hg₁] at hn hcomp hnc ⊢
      exact H₁.read_flat ht hn hcomp hnc io' buf₁ hs
    · rw [hg₂] at hn hcomp hnc ⊢
      exact H₂.read_flat ht hn hcomp hnc io' buf₂ hs₂

end Independence

/-- The one-sector disk has one sector. -/
theorem eq_zero_of_lt_smallHeader {s : Nat}
    (hs : s < smallHeader.size / smallGeometry.sectSize) : s = 0 :=
  Nat.lt_one_iff.mp hs

/-- With its cluster at 2048, the one-sector disk reads alike after every history. -/
theorem historyIndependent_iff_allocated : ∃ o, FreshDisk ⟨.never⟩ (smallImage 1024 2048) [] o ∧
    o.disk.sectCnt = 1 ∧
    HistoryIndependent (fun _ _ => []) ⟨.never⟩ (smallImage 1024 2048) [] := by
  obtain ⟨o, ho, hg, -⟩ := exists_freshDisk_smallImage 1024 2048 0
  have hent : entryAt (smallImage 1024 2048) smallHeader smallGeometry 0 = .standard 2048 :=
    entryAt_smallImage (by decide)
  refine ⟨o, ho, ho.sectCnt_smallImage hg,
    (historyIndependent_iff ho tablesInFile_smallImage ?_ ?_).mpr ?_⟩
  · rw [headerOf_smallImage, hg]
    intro s hs _
    rw [eq_zero_of_lt_smallHeader hs]
    exact sectorInFile_smallImage (by decide) rfl (by decide)
  · rw [headerOf_smallImage, hg]
    intro s hs e
    rw [eq_zero_of_lt_smallHeader hs, hent]
    simp
  · rw [headerOf_smallImage, hg]
    intro s hs
    rw [eq_zero_of_lt_smallHeader hs, hent]
    exact ⟨by decide, rfl, by decide⟩

/-- Without an L2 table it does not: the sector is zeros the first time, and what `malloc` left
    in the buffer the second time. -/
theorem hole_history_dependent : ∃ o, FreshDisk ⟨.never⟩ (smallImage 0 0) [] o ∧
    o.disk.sectCnt = 1 ∧ TablesInFile (smallImage 0 0) ∧
    Complete (smallImage 0 0) (headerOf (smallImage 0 0)) o.disk.geom ∧
    Uncompressed (smallImage 0 0) (headerOf (smallImage 0 0)) o.disk.geom ∧
    ¬ HistoryIndependent (fun _ _ => []) ⟨.never⟩ (smallImage 0 0) [] := by
  obtain ⟨o, ho, hg, hone⟩ := exists_freshDisk_smallImage 0 0 1
  have hent : entryAt (smallImage 0 0) smallHeader smallGeometry 0 = .noTable :=
    entryAt_smallImage_noTable
  have hcomp : Complete (smallImage 0 0) (headerOf (smallImage 0 0)) o.disk.geom := by
    rw [headerOf_smallImage, hg]
    intro s hs _
    rw [eq_zero_of_lt_smallHeader hs]
    refine ⟨fun hne => absurd ?_ hne, fun off he => ?_⟩
    · rw [show smallGeometry.l1Index 0 = 0 from rfl, l1EntryAt_smallImage (by decide)]
      rfl
    · rw [hent] at he
      cases he
  have hnc : Uncompressed (smallImage 0 0) (headerOf (smallImage 0 0)) o.disk.geom := by
    rw [headerOf_smallImage, hg]
    intro s hs e
    rw [eq_zero_of_lt_smallHeader hs, hent]
    simp
  refine ⟨o, ho, ho.sectCnt_smallImage hg, tablesInFile_smallImage, hcomp, hnc, fun hind => ?_⟩
  have hno := noHoles_of_independent ho tablesInFile_smallImage hone hcomp hnc hind
  rw [headerOf_smallImage, hg] at hno
  obtain ⟨-, hh, -⟩ := hno 0 (by decide)
  rw [hent] at hh
  cases hh

end Umka.Proof.Qcow2
