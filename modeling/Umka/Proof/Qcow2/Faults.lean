import Umka.Proof.Qcow2.Contents

/-!
# Host reads that fail

`vdisk_qcow2_read` returns `KOS_ERROR_SUCCESS` on every path. Behind it, `qcow2_read_guest_sector`
notices one kind of trouble, a transfer of no bytes, and answers it by leaving the caller's
buffer alone; an error (`-1`) or a short count goes on with whatever the destination held. By
then the cache tag has moved, so that the next read of the cluster trusts the buffer.

`CallsRight` is what a driver owes its caller when transfers may fail. `callsRight_of_good`
finds it in every run all of whose sector reads are `GoodStep`s: the transfers they make are
whole, and the cluster is of a kind the reader gets right.
-/

set_option autoImplicit false

namespace Umka.Proof.Qcow2

open Lib Vdisk

section Statement

variable (emInflate : List UInt8 → Nat → List UInt8) (f : HostFile) (env : Env) (d : VdiskQcow2)

/-- What a call that began in `w` and ended with `r` owes its caller. -/
structure CallRight (k : Call d.geom) (w : World)
    (r : (KosError × List (Block d.geom.sectSize)) × ClusterCache d.geom × World) : Prop where
  contents : r.1.1 = .success →
    r.1.2 = k.sectors.map (referenceSector emInflate f (headerOf f) d.geom)
  failed : w.FailedSince r.2.2 → r.1.1 ≠ .success
  retry : w.FailedSince r.2.2 → ∀ (env' : Env) (io : UmkaIo) (s : Nat)
    (buf : Block d.geom.sectSize), env'.AllFull → s < d.sectCnt → ∃ c' w',
      (vdiskQcow2Read emInflate io d s [buf]).run env' r.2.1 r.2.2
        = some ((.success, [referenceSector emInflate f (headerOf f) d.geom s]), c', w')

/-- Every call of the sequence comes back, and is right. -/
def CallsRight : List (Call d.geom) → ClusterCache d.geom → World → Prop
  | [], _, _ => True
  | k :: ks, c, w => ∃ r, (vdiskQcow2Read emInflate k.io d k.start k.bufs).run env c w = some r ∧
      CallRight emInflate f d k w r ∧ CallsRight ks r.2.1 r.2.2

/-- One sector read, before it is made: the L1 entry is in the table; if the walk is made, its
    transfers are whole; a hole is not the cluster the cache is tagged with; a standard cluster
    is allocated and holds a sector; and the cluster is not compressed. -/
structure GoodStep (c : ClusterCache d.geom) (w : World) (s : Nat) : Prop where
  inTable : d.geom.l1Index s < d.l1.length
  whole : d.geom.clusterIndex s ≠ c.prevClusterIndex → ∀ e, d.l1[d.geom.l1Index s]? = some e →
    WalkWhole env d.geom w e (d.geom.l2Index s)
  hole : ∀ e, diskEntry w.file d s = some e → e.hole = true →
    d.geom.clusterIndex s ≠ c.prevClusterIndex
  standard : ∀ off, diskEntry w.file d s = some (.standard off) →
    off ≠ 0 ∧ d.geom.sectSize ≤ d.geom.clusterSize
  uncompressed : ∀ l2Entry, diskEntry w.file d s ≠ some (.compressed l2Entry)

/-- Every sector read of a call is good when its turn comes. -/
def GoodSectors (io : UmkaIo) :
    Nat → List (Block d.geom.sectSize) → ClusterCache d.geom → World → Prop
  | _, [], _, _ => True
  | s, buf :: bufs, c, w => GoodStep env d c w s ∧ ∀ r,
      (qcow2ReadGuestSector emInflate io d s buf).run env c w = some r →
        GoodSectors io (s + 1) bufs r.2.1 r.2.2

/-- Every sector read of a sequence of calls is good when its turn comes. -/
def GoodCalls : List (Call d.geom) → ClusterCache d.geom → World → Prop
  | [], _, _ => True
  | k :: ks, c, w => GoodSectors emInflate env d k.io k.start k.bufs c w ∧ ∀ r,
      (vdiskQcow2Read emInflate k.io d k.start k.bufs).run env c w = some r →
        GoodCalls ks r.2.1 r.2.2

end Statement

section Good

variable {emInflate : List UInt8 → Nat → List UInt8} {io : UmkaIo} {f : HostFile}
variable {fname : List Char} {o : OpenQcow2} {env : Env}

/-- **One good step**: the reference contents, a cache still in order, and no failure on
    record. -/
theorem readSector_good {s : Nat} {buf : Block o.disk.geom.sectSize} {io' : UmkaIo}
    {c : ClusterCache o.disk.geom} {w : World} (ho : FreshDisk io f fname o) (ht : TablesInFile f)
    (hw : w.file = f) (hinv : CacheInv f o.disk c) (hgood : GoodStep env o.disk c w s) :
    ∃ c' w', (qcow2ReadGuestSector emInflate io' o.disk s buf).run env c w
        = some (referenceSector emInflate f (headerOf f) o.disk.geom s, c', w') ∧
      w'.file = f ∧ CacheInv f o.disk c' ∧ w.Quiet w' := by
  subst hw
  have hl : o.disk.geom.l1Index s < (headerOf w.file).l1Size % 2 ^ 29 := by
    obtain ⟨-, -, -, hl1, -⟩ := ho.spec ht
    by_contra hno
    have hnone := hl1 (o.disk.geom.l1Index s)
    rw [if_neg hno, List.getElem?_eq_none_iff] at hnone
    exact absurd hgood.inTable (Nat.not_lt.mpr hnone)
  have hde := ho.diskEntry_eq ht s
  rw [if_pos hl] at hde
  -- The two kinds of hole are read alike.
  have hhole : (entryAt w.file (headerOf w.file) o.disk.geom s).hole = true → ∃ c' w',
      (qcow2ReadGuestSector emInflate io' o.disk s buf).run env c w
        = some (referenceSector emInflate w.file (headerOf w.file) o.disk.geom s, c', w') ∧
      w'.file = w.file ∧ CacheInv w.file o.disk c' ∧ w.Quiet w' := by
    intro hh
    have hmiss := hgood.hole _ hde hh
    obtain ⟨w', hf', hq, hrun⟩ := readSector_hole_miss hde hh hmiss (hgood.whole hmiss)
    rw [referenceSector_hole hh]
    exact ⟨_, w', hrun, hf', cacheInv_hole hde hh, hq⟩
  cases he : entryAt w.file (headerOf w.file) o.disk.geom s with
  | noTable => exact hhole (by rw [he]; rfl)
  | zeroed => exact hhole (by rw [he]; rfl)
  | compressed e => exact absurd (he ▸ hde) (hgood.uncompressed e)
  | standard off =>
    rw [he] at hde
    obtain ⟨h0, hc⟩ := hgood.standard off hde
    obtain ⟨c', w', hf', hq, hinv', -, hbytes, hrun⟩ := readSector_standard hde hinv hgood.whole
    refine ⟨c', w', ?_, hf', hinv', hq⟩
    rw [hrun, slice_span hc hbytes, referenceSector_standard he, if_neg h0]
    rfl

/-- A call of good steps. -/
theorem readSectors_good {io' : UmkaIo} (ho : FreshDisk io f fname o) (ht : TablesInFile f) :
    ∀ (bufs : List (Block o.disk.geom.sectSize)) (start : Nat) (c : ClusterCache o.disk.geom)
      (w : World), start + bufs.length ≤ o.disk.sectCnt → w.file = f → CacheInv f o.disk c →
      GoodSectors emInflate env o.disk io' start bufs c w → ∃ c' w',
        (readSectors emInflate io' o.disk start bufs).run env c w
          = some ((List.range' start bufs.length).map
              (referenceSector emInflate f (headerOf f) o.disk.geom), c', w') ∧
        w'.file = f ∧ CacheInv f o.disk c' ∧ w.Quiet w' := by
  intro bufs
  induction bufs with
  | nil => intro start c w _ hw hinv _; exact ⟨c, w, rfl, hw, hinv, .refl w⟩
  | cons buf bufs ih =>
    intro start c w hlen hw hinv hgood
    rw [List.length_cons] at hlen
    have hcnt := ho.sectCnt_le ht
    have hs : start % 2 ^ 64 = start := Nat.mod_eq_of_lt (by omega)
    obtain ⟨c₁, w₁, hrun, hw₁, hinv₁, hq₁⟩ := readSector_good ho ht hw hinv hgood.1
    obtain ⟨c₂, w₂, hrest, hw₂, hinv₂, hq₂⟩ :=
      ih (start + 1) c₁ w₁ (by omega) hw₁ hinv₁ (hgood.2 _ hrun)
    refine ⟨c₂, w₂, ?_, hw₂, hinv₂, hq₁.trans hq₂⟩
    simp only [readSectors, hs, Drv.run_bind, hrun, hrest, Option.bind_some, Drv.run_pure,
      List.length_cons, List.range'_succ, List.map_cons]

/-- If the sectors are read well in every state, so is every call. -/
theorem goodSectors_of_forall {io' : UmkaIo} (ho : FreshDisk io f fname o) (ht : TablesInFile f)
    (hstep : ∀ c w s, w.file = f → s < o.disk.sectCnt → GoodStep env o.disk c w s) :
    ∀ (bufs : List (Block o.disk.geom.sectSize)) (start : Nat) (c : ClusterCache o.disk.geom)
      (w : World), start + bufs.length ≤ o.disk.sectCnt → w.file = f → CacheInv f o.disk c →
      GoodSectors emInflate env o.disk io' start bufs c w := by
  intro bufs
  induction bufs with
  | nil => intro _ _ _ _ _ _; trivial
  | cons buf bufs ih =>
    intro start c w hlen hw hinv
    rw [List.length_cons] at hlen
    have hgood := hstep c w start hw (by omega)
    refine ⟨hgood, fun r hr => ?_⟩
    obtain ⟨c₁, w₁, hrun, hw₁, hinv₁, -⟩ := readSector_good ho ht hw hinv hgood
    cases hr.symm.trans hrun
    exact ih (start + 1) c₁ w₁ (by omega) hw₁ hinv₁

theorem goodCalls_of_forall (ho : FreshDisk io f fname o) (ht : TablesInFile f)
    (hstep : ∀ c w s, w.file = f → s < o.disk.sectCnt → GoodStep env o.disk c w s) :
    ∀ (ks : List (Call o.disk.geom)) (c : ClusterCache o.disk.geom) (w : World),
      (∀ k ∈ ks, k.InRange o.disk.sectCnt) → w.file = f → CacheInv f o.disk c →
      GoodCalls emInflate env o.disk ks c w := by
  intro ks
  induction ks with
  | nil => intro _ _ _ _ _; trivial
  | cons k ks ih =>
    intro c w hks hw hinv
    have hrange := hks k List.mem_cons_self
    have hgood : GoodSectors emInflate env o.disk k.io k.start k.bufs c w :=
      goodSectors_of_forall ho ht hstep k.bufs k.start c w hrange hw hinv
    refine ⟨hgood, fun r hr => ?_⟩
    obtain ⟨c₁, w₁, hrun, hw₁, hinv₁, -⟩ :=
      readSectors_good ho ht k.bufs k.start c w hrange hw hinv hgood
    simp only [vdiskQcow2Read, Drv.run_bind, hrun, Option.bind_some, Drv.run_pure,
      Option.some.injEq] at hr
    subst hr
    exact ih c₁ w₁ (fun k' hk' => hks k' (List.mem_cons_of_mem _ hk')) hw₁ hinv₁

/-- **Every run of good steps is right**: each call returns, each sector has its reference
    contents, and no host read failed behind the caller's back. -/
theorem callsRight_of_good (ho : FreshDisk io f fname o) (ht : TablesInFile f) :
    ∀ (ks : List (Call o.disk.geom)) (c : ClusterCache o.disk.geom) (w : World),
      (∀ k ∈ ks, k.InRange o.disk.sectCnt) → w.file = f → CacheInv f o.disk c →
      GoodCalls emInflate env o.disk ks c w → CallsRight emInflate f env o.disk ks c w := by
  intro ks
  induction ks with
  | nil => intro c w _ _ _ _; trivial
  | cons k ks ih =>
    intro c w hks hw hinv hgood
    obtain ⟨c₁, w₁, hrun, hw₁, hinv₁, hq⟩ := readSectors_good ho ht k.bufs k.start c w
      (hks k List.mem_cons_self) hw hinv hgood.1
    have hcall : (vdiskQcow2Read emInflate k.io o.disk k.start k.bufs).run env c w
        = some ((.success, k.sectors.map (referenceSector emInflate f (headerOf f) o.disk.geom)),
            c₁, w₁) := by
      simp only [vdiskQcow2Read, Drv.run_bind, hrun, Option.bind_some, Drv.run_pure, Call.sectors]
    refine ⟨_, hcall, ⟨fun _ => rfl, fun hfail => absurd hfail hq.not_failedSince,
      fun hfail => absurd hfail hq.not_failedSince⟩, ?_⟩
    exact ih c₁ w₁ (fun k' hk' => hks k' (List.mem_cons_of_mem _ hk')) hw₁ hinv₁ (hgood.2 _ hcall)

/-- Every status is `KOS_ERROR_SUCCESS`. -/
theorem vdiskQcow2Read_success {d : VdiskQcow2} {k : Call d.geom} {c : ClusterCache d.geom}
    {w : World} {r : (KosError × List (Block d.geom.sectSize)) × ClusterCache d.geom × World}
    (hr : (vdiskQcow2Read emInflate k.io d k.start k.bufs).run env c w = some r) :
    r.1.1 = .success := by
  unfold vdiskQcow2Read at hr
  rw [Drv.run_bind] at hr
  obtain ⟨q, -, hq⟩ := Option.bind_eq_some_iff.mp hr
  cases hq
  rfl

/-- So a run is right only if no transfer in it failed. -/
theorem CallsRight.quiet {d : VdiskQcow2} :
    ∀ {ks : List (Call d.geom)} {c : ClusterCache d.geom} {w : World},
      CallsRight emInflate f env d ks c w →
        ∃ r, runCalls emInflate env d ks c w = some r ∧ w.Quiet r.2.2 := by
  intro ks
  induction ks with
  | nil => intro c w _; exact ⟨_, rfl, .refl w⟩
  | cons k ks ih =>
    rintro c w ⟨r, hr, hright, hrest⟩
    obtain ⟨q, hq, hquiet⟩ := ih hrest
    have hcall : w.Quiet r.2.2 := World.quiet_of_not_failedSince (Drv.log_run hr)
      fun hfail => hright.failed hfail (vdiskQcow2Read_success hr)
    refine ⟨(r.1 :: q.1, q.2), ?_, hcall.trans hquiet⟩
    rw [runCalls, hr, Option.bind_some, hq]
    rfl

/-- **Failed host reads and the guest's data.** On a freshly opened disk every run of good steps
    is right, and no run is right in which a transfer failed. -/
theorem fresh_callsRight (ho : FreshDisk io f fname o) (ht : TablesInFile f) (w : World)
    (hw : w.file = f) (ks : List (Call o.disk.geom))
    (hks : ∀ k ∈ ks, k.InRange o.disk.sectCnt) :
    (GoodCalls emInflate env o.disk ks o.cache w →
      CallsRight emInflate f env o.disk ks o.cache w) ∧
    (CallsRight emInflate f env o.disk ks o.cache w →
      ∃ r, runCalls emInflate env o.disk ks o.cache w = some r ∧ ¬ w.FailedSince r.2.2) := by
  obtain ⟨-, -, -, -, htag⟩ := ho.spec ht
  constructor
  · intro hgood
    exact callsRight_of_good ho ht ks o.cache w hks hw (cacheInv_empty htag) hgood
  · intro hright
    obtain ⟨r, hr, hquiet⟩ := hright.quiet
    exact ⟨r, hr, hquiet.not_failedSince⟩

end Good

/-! ## The one-sector disk, with and without failures -/

/-- A host that delivers nothing. -/
def emptyEnv : Env := ⟨fun _ => .atMost 0, fun _ => true, fun _ _ => 0⟩

/-- The sector of the small disk is read well in every state. -/
theorem goodStep_smallImage {o : OpenQcow2} (ho : FreshDisk ⟨.never⟩ (smallImage 1024 2048) [] o)
    (hg : o.disk.geom = smallGeometry) (c : ClusterCache o.disk.geom) {w : World}
    (hw : w.file = smallImage 1024 2048) : GoodStep .willing o.disk c w 0 := by
  have ht : TablesInFile (smallImage 1024 2048) := tablesInFile_smallImage
  have hl : o.disk.geom.l1Index 0 < (headerOf (smallImage 1024 2048)).l1Size % 2 ^ 29 := by
    rw [headerOf_smallImage, hg]
    decide
  have hin : SectorInFile (smallImage 1024 2048) (headerOf (smallImage 1024 2048))
      o.disk.geom 0 := by
    rw [headerOf_smallImage, hg]
    exact sectorInFile_smallImage (by decide) rfl (by decide)
  have hde : diskEntry w.file o.disk 0 = some (.standard 2048) := by
    rw [hw, ho.diskEntry_eq ht, if_pos hl, headerOf_smallImage, hg, entryAt_smallImage (by decide)]
    rfl
  refine ⟨?_, fun _ => ho.walkWhole ht (fun _ => rfl) hw hl hin, ?_, ?_, ?_⟩
  · obtain ⟨-, -, -, hl1, -⟩ := ho.spec ht
    have hget := hl1 (o.disk.geom.l1Index 0)
    rw [if_pos hl] at hget
    exact (List.getElem?_eq_some_iff.mp hget).1
  · intro e he hh
    rw [hde, Option.some.injEq] at he
    rw [← he] at hh
    cases hh
  · intro off he
    rw [hde, Option.some.injEq, Entry.standard.injEq] at he
    rw [← he, hg]
    decide
  · intro e
    rw [hde]
    simp

/-- Two calls, the first of which loads the cluster and the second of which finds it. -/
theorem fresh_callsRight_two : ∃ o, FreshDisk ⟨.never⟩ (smallImage 1024 2048) [] o ∧
    CallsRight (fun _ _ => []) (smallImage 1024 2048) .willing o.disk
      [⟨⟨.never⟩, 0, [Block.zero _]⟩, ⟨⟨.never⟩, 0, [Block.zero _]⟩] o.cache
      ⟨smallImage 1024 2048, .rdonly, 0, 0, []⟩ := by
  obtain ⟨o, ho, hg, -⟩ := exists_freshDisk_smallImage 1024 2048 0
  have ht : TablesInFile (smallImage 1024 2048) := tablesInFile_smallImage
  have hcnt := ho.sectCnt_smallImage hg
  refine ⟨o, ho, (fresh_callsRight ho ht _ rfl _ ?_).1 ?_⟩
  · intro k hk
    simp only [List.mem_cons, List.not_mem_nil, or_false, or_self] at hk
    rw [hk]
    exact Nat.le_of_eq hcnt.symm
  · have hstep : ∀ (c : ClusterCache o.disk.geom) (w : World) (s : Nat), w.file = _ →
        s < o.disk.sectCnt → GoodStep .willing o.disk c w s := fun c w s hw hs => by
      obtain rfl : s = 0 := by omega
      exact goodStep_smallImage ho hg c hw
    obtain ⟨-, -, -, -, htag⟩ := ho.spec ht
    exact goodCalls_of_forall ho ht hstep _ _ _ (by simp [Call.InRange, hcnt]) rfl
      (cacheInv_empty htag)

/-- A host read that delivers nothing: the call leaves the buffer as it was and reports
    success. -/
theorem failed_read_reported_success : ∃ o, FreshDisk ⟨.never⟩ (smallImage 1024 2048) [] o ∧
    o.disk.sectCnt = 1 ∧
    ¬ CallsRight (fun _ _ => []) (smallImage 1024 2048) emptyEnv o.disk
      [⟨⟨.never⟩, 0, [Block.zero _]⟩] o.cache ⟨smallImage 1024 2048, .rdonly, 0, 0, []⟩ := by
  obtain ⟨o, ho, hg, -⟩ := exists_freshDisk_smallImage 1024 2048 0
  have ht : TablesInFile (smallImage 1024 2048) := tablesInFile_smallImage
  have hentry : o.disk.l1[o.disk.geom.l1Index 0]? = some 1024 := by
    obtain ⟨-, -, -, hl1, -⟩ := ho.spec ht
    rw [hl1, headerOf_smallImage, hg, if_pos (by decide)]
    exact congrArg some (l1EntryAt_smallImage (by decide))
  refine ⟨o, ho, ho.sectCnt_smallImage hg, fun hright => ?_⟩
  obtain ⟨r, hr, hquiet⟩ := hright.quiet
  rw [runCalls_singleton (by decide), run_readSector_miss hentry (ho.tag_ne ht 0)
    (run_loadCluster_empty (by decide) rfl), Option.map_some, Option.some.injEq] at hr
  subst hr
  refine hquiet.not_failedSince ⟨[⟨8, 3072, some 0⟩], ⟨8, 3072, some 0⟩, ?_, by simp, ?_⟩
  · show ((atL2 _ 1024 (o.disk.geom.l2Index 0)).afterRead emptyEnv 8).log = _
    rw [hg]
    rfl
  · unfold Transfer.Failed
    decide

end Umka.Proof.Qcow2
