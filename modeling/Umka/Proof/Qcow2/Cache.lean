import Umka.Proof.Qcow2.Init

/-!
# The one-cluster cache, over runs

`prev_cluster_index` and `cluster` are one cache entry in two fields. The invariant that ties
them, `CacheInv`, speaks of standard clusters only: if the tag names a cluster whose entry is
standard, the buffer holds that cluster's host bytes. It says nothing about a tag that names
a hole, because the code says nothing there either — the tag is set and the buffer is left
alone. Everything that is right and everything that is wrong with the cache follows from
where that silence is reached.

A sequence of calls is lifted from one sector by `runCalls_of_step`: whatever holds of every
sector read from a good state, and leaves a good state behind, holds of every run.
-/

set_option autoImplicit false

namespace Umka.Proof.Qcow2

open Lib Vdisk

/-! ## Entries through the loaded table -/

/-- The entry of a sector as the reader finds it: through the loaded L1 table, which may end
    before the sector's index. -/
def diskEntry (f : HostFile) (d : VdiskQcow2) (s : Nat) : Option Entry :=
  (d.l1[d.geom.l1Index s]?).map fun e => entryOf f e (d.geom.l2Index s)

theorem diskEntry_congr {f : HostFile} {d : VdiskQcow2} {s t : Nat}
    (h : d.geom.clusterIndex s = d.geom.clusterIndex t) : diskEntry f d s = diskEntry f d t := by
  unfold diskEntry Geometry.l1Index Geometry.l2Index
  rw [h]

theorem diskEntry_eq_some {f : HostFile} {d : VdiskQcow2} {s : Nat} {e : Entry}
    (h : diskEntry f d s = some e) :
    ∃ l1Entry, d.l1[d.geom.l1Index s]? = some l1Entry ∧ entryOf f l1Entry (d.geom.l2Index s) = e :=
  Option.map_eq_some_iff.mp h

/-- The transfers the walk for an entry makes are whole. -/
def WalkWhole (env : Env) (g : Geometry) (w : World) (l1Entry l2Index : Nat) : Prop :=
  l1Entry &&& l1EntryOffsetMask ≠ 0 → (atL2 w l1Entry l2Index).Whole env 8 ∧
    ∀ off, entryOf w.file l1Entry l2Index = .standard off →
      (atCluster w env l1Entry l2Index off).Whole env g.clusterSize

/-! ## The invariant -/

def CacheInv (f : HostFile) (d : VdiskQcow2) (c : ClusterCache d.geom) : Prop :=
  ∀ s off, d.geom.clusterIndex s = c.prevClusterIndex → diskEntry f d s = some (.standard off) →
    c.cluster.bytes = f.span off d.geom.clusterSize

theorem cacheInv_empty {f : HostFile} {d : VdiskQcow2} {c : ClusterCache d.geom}
    (h : c.prevClusterIndex = 2 ^ 64 - 1) : CacheInv f d c := by
  intro s off hs _
  exact absurd (hs.trans h) (Geometry.clusterIndex_ne_tag s)

section Step

variable {emInflate : List UInt8 → Nat → List UInt8} {io : UmkaIo} {d : VdiskQcow2} {env : Env}
variable {c : ClusterCache d.geom} {w : World} {s : Nat} {buf : Block d.geom.sectSize}

/-- **A standard sector, hit or miss.** Afterwards the buffer holds its cluster and the answer
    is copied from there. -/
theorem readSector_standard {off : Nat} (he : diskEntry w.file d s = some (.standard off))
    (hinv : CacheInv w.file d c)
    (hww : d.geom.clusterIndex s ≠ c.prevClusterIndex → ∀ e, d.l1[d.geom.l1Index s]? = some e →
      WalkWhole env d.geom w e (d.geom.l2Index s)) :
    ∃ c' w', w'.file = w.file ∧ w.Quiet w' ∧ CacheInv w.file d c' ∧
      c'.prevClusterIndex = d.geom.clusterIndex s ∧
      c'.cluster.bytes = w.file.span off d.geom.clusterSize ∧
      (qcow2ReadGuestSector emInflate io d s buf).run env c w
        = (c'.cluster.slice? (d.geom.sectorOffset s) d.geom.sectSize).map fun b => (b, c', w') := by
  obtain ⟨l1Entry, hl, hent⟩ := diskEntry_eq_some he
  by_cases hc : d.geom.clusterIndex s = c.prevClusterIndex
  · exact ⟨c, w, rfl, .refl w, hinv, hc.symm, hinv s off hc he, run_readSector_cached hl hc⟩
  · obtain ⟨hw2, hwc⟩ := hww hc l1Entry hl (table_of_entryOf hent (by simp)).1
    have hwalk : (loadCluster emInflate io d.geom l1Entry (d.geom.l2Index s)).run env
        { c with prevClusterIndex := d.geom.clusterIndex s } w = _ :=
      run_loadCluster_standard hent hw2 (hwc off hent)
    have hbytes : (c.cluster.overlay (w.file.span off d.geom.clusterSize)).bytes
        = w.file.span off d.geom.clusterSize := Block.bytes_overlay_full (by simp)
    refine ⟨_, _, ?_, quiet_cluster hw2 (hwc off hent), ?_, ?_, ?_,
      run_readSector_miss hl hc hwalk⟩
    · simp
    · -- Every sector under the new tag has the entry that was just loaded.
      intro t off' ht het
      rw [diskEntry_congr ht, he] at het
      simp only [Option.some.injEq, Entry.standard.injEq] at het
      subst het
      exact hbytes
    · rfl
    · exact hbytes

/-- A hole read on a miss: zeros, and the tag moves away from what the buffer holds. -/
theorem readSector_hole_miss {e : Entry} (he : diskEntry w.file d s = some e) (hh : e.hole = true)
    (hc : d.geom.clusterIndex s ≠ c.prevClusterIndex)
    (hww : ∀ e, d.l1[d.geom.l1Index s]? = some e → WalkWhole env d.geom w e (d.geom.l2Index s)) :
    ∃ w', w'.file = w.file ∧ w.Quiet w' ∧
      (qcow2ReadGuestSector emInflate io d s buf).run env c w
        = some (Block.zero d.geom.sectSize,
            { c with prevClusterIndex := d.geom.clusterIndex s }, w') := by
  obtain ⟨l1Entry, hl, hent⟩ := diskEntry_eq_some he
  cases e with
  | noTable =>
    exact ⟨w, rfl, .refl w,
      run_readSector_miss hl hc (run_loadCluster_noTable (noTable_of_entryOf hent))⟩
  | zeroed =>
    obtain ⟨hw2, -⟩ := hww l1Entry hl (table_of_entryOf hent (by simp)).1
    exact ⟨_, by simp, quiet_l2 hw2,
      run_readSector_miss hl hc (run_loadCluster_zeroed hent hw2)⟩
  | standard off => simp [Entry.hole] at hh
  | compressed l2Entry => simp [Entry.hole] at hh

theorem cacheInv_hole {f : HostFile} {e : Entry} (he : diskEntry f d s = some e)
    (hh : e.hole = true) : CacheInv f d { c with prevClusterIndex := d.geom.clusterIndex s } := by
  intro t off ht het
  rw [diskEntry_congr ht, he] at het
  simp only [Option.some.injEq] at het
  subst het
  simp [Entry.hole] at hh

/-- The copy out of a buffer that holds host bytes is those bytes at the sector's place. -/
theorem slice_span {f : HostFile} {off : Nat} (hc : d.geom.sectSize ≤ d.geom.clusterSize)
    (hb : c.cluster.bytes = f.span off d.geom.clusterSize) :
    c.cluster.slice? (d.geom.sectorOffset s) d.geom.sectSize
      = some ⟨f.span (off + s * d.geom.sectSize % d.geom.clusterSize) d.geom.sectSize,
          HostFile.length_span⟩ := by
  have hle := Geometry.sectorOffset_add_le hc s
  obtain ⟨b, hb', hbytes⟩ := Block.slice?_eq_some (b := c.cluster) hle
  rw [hb']
  congr 1
  ext1
  rw [hbytes, hb, HostFile.take_drop_span hle, Geometry.sectorOffset_eq hc]

end Step

/-! ## Runs -/

/-- One `vdisk_qcow2_read` call: the I/O mode it finds, its first sector, and the sectors of
    the buffer it is given. -/
structure Call (g : Geometry) where
  io : UmkaIo
  start : Nat
  bufs : List (Block g.sectSize)

/-- Every sector of the call is on the disk. -/
def Call.InRange {g : Geometry} (k : Call g) (sectCnt : Nat) : Prop :=
  k.start + k.bufs.length ≤ sectCnt

/-- The sectors a call asks for. -/
def Call.sectors {g : Geometry} (k : Call g) : List Nat := List.range' k.start k.bufs.length

section Runs

variable (emInflate : List UInt8 → Nat → List UInt8) (env : Env) (d : VdiskQcow2)

/-- Calls one after the other, each with its status and the buffer it leaves. -/
def runCalls : List (Call d.geom) → ClusterCache d.geom → World →
    Option (List (KosError × List (Block d.geom.sectSize)) × ClusterCache d.geom × World)
  | [], c, w => some ([], c, w)
  | k :: ks, c, w =>
    ((vdiskQcow2Read emInflate k.io d k.start k.bufs).run env c w).bind fun r =>
      (runCalls ks r.2.1 r.2.2).map fun rs => (r.1 :: rs.1, rs.2)

variable {emInflate env d}
variable {I : ClusterCache d.geom → World → Prop} {R : Nat → Block d.geom.sectSize}
variable {sectCnt : Nat}

/-- One sector at a time: if a read from a good state answers `R` and leaves a good state, so
    does the loop. -/
theorem readSectors_of_step {io : UmkaIo} (hcnt : sectCnt ≤ 2 ^ 64)
    (hstep : ∀ s buf c w, s < sectCnt → I c w → ∃ c' w',
      (qcow2ReadGuestSector emInflate io d s buf).run env c w = some (R s, c', w') ∧ I c' w') :
    ∀ (bufs : List (Block d.geom.sectSize)) (start : Nat) (c : ClusterCache d.geom) (w : World),
      start + bufs.length ≤ sectCnt → I c w → ∃ c' w',
        (readSectors emInflate io d start bufs).run env c w
          = some ((List.range' start bufs.length).map R, c', w') ∧ I c' w' := by
  intro bufs
  induction bufs with
  | nil => intro start c w _ hI; exact ⟨c, w, rfl, hI⟩
  | cons buf bufs ih =>
    intro start c w hlen hI
    rw [List.length_cons] at hlen
    have hs : start % 2 ^ 64 = start := Nat.mod_eq_of_lt (by omega)
    obtain ⟨c₁, w₁, hrun, hI₁⟩ := hstep start buf c w (by omega) hI
    obtain ⟨c₂, w₂, hrest, hI₂⟩ := ih (start + 1) c₁ w₁ (by omega) hI₁
    refine ⟨c₂, w₂, ?_, hI₂⟩
    simp only [readSectors, hs, Drv.run_bind, hrun, hrest, Option.bind_some, Drv.run_pure,
      List.length_cons, List.range'_succ, List.map_cons]

/-- **From one sector to every run.** -/
theorem runCalls_of_step (hcnt : sectCnt ≤ 2 ^ 64)
    (hstep : ∀ io s buf c w, s < sectCnt → I c w → ∃ c' w',
      (qcow2ReadGuestSector emInflate io d s buf).run env c w = some (R s, c', w') ∧ I c' w') :
    ∀ (ks : List (Call d.geom)) (c : ClusterCache d.geom) (w : World),
      (∀ k ∈ ks, k.InRange sectCnt) → I c w → ∃ c' w',
        runCalls emInflate env d ks c w
          = some (ks.map fun k => (.success, k.sectors.map R), c', w') ∧ I c' w' := by
  intro ks
  induction ks with
  | nil => intro c w _ hI; exact ⟨c, w, rfl, hI⟩
  | cons k ks ih =>
    intro c w hks hI
    obtain ⟨c₁, w₁, hrun, hI₁⟩ := readSectors_of_step hcnt (hstep k.io) k.bufs k.start c w
      (hks k List.mem_cons_self) hI
    obtain ⟨c₂, w₂, hrest, hI₂⟩ := ih c₁ w₁ (fun k' hk' => hks k' (List.mem_cons_of_mem _ hk')) hI₁
    refine ⟨c₂, w₂, ?_, hI₂⟩
    simp only [runCalls, vdiskQcow2Read, Drv.run_bind, hrun, Option.bind_some, Drv.run_pure, hrest,
      Option.map_some, List.map_cons, Call.sectors]

/-- A run that is not a fault has no faulting read in front of it. -/
theorem runCalls_singleton {io : UmkaIo} {s : Nat} (hs : s < 2 ^ 64) {buf : Block d.geom.sectSize}
    {c : ClusterCache d.geom} {w : World} :
    runCalls emInflate env d [⟨io, s, [buf]⟩] c w
      = ((qcow2ReadGuestSector emInflate io d s buf).run env c w).map
          fun r => ([(KosError.success, [r.1])], r.2.1, r.2.2) := by
  simp only [runCalls, vdiskQcow2Read, readSectors, Nat.mod_eq_of_lt hs, Drv.run_bind]
  cases (qcow2ReadGuestSector emInflate io d s buf).run env c w <;> rfl

end Runs

end Umka.Proof.Qcow2
