import Umka.Proof.Qcow2.Geometry

/-!
# What one `qcow2_read_guest_sector` does

The table walk has four ends, and `Entry` names them: no L2 table, an L2 entry with the zero
flag, a standard entry with an offset, a compressed entry. `entryAt` reads the entry of a
sector off the image file, and for each end one lemma says what the walk does to the cache
and what it answers, provided the transfers it makes are whole. The callers below
(`run_readSector_cached`, `run_readSector_miss`) add the cache in front.

Nothing after this file unfolds the reader again.
-/

set_option autoImplicit false

namespace Umka.Proof.Qcow2

open Lib Vdisk

/-- What the tables say about a sector's cluster. -/
inductive Entry
  | noTable
  | zeroed
  | standard (offset : Nat)
  | compressed (l2Entry : Nat)
deriving DecidableEq, Repr

/-- The bytes of the L2 entry that an L1 entry and an index lead to start here. -/
def l2EntryPos (l1Entry l2Index : Nat) : Nat := (l1Entry &&& l1EntryOffsetMask) + l2Index * 8

/-- An L2 entry, decoded. -/
def decodeL2 (l2Entry : Nat) : Entry :=
  if l2Entry &&& l2EntryFormat = 0 then
    if l2Entry &&& l2EntryStdZeroed ≠ 0 then .zeroed else .standard (l2Entry &&& l2EntryStdOffset)
  else .compressed l2Entry

def entryOf (f : HostFile) (l1Entry l2Index : Nat) : Entry :=
  if l1Entry &&& l1EntryOffsetMask = 0 then .noTable
  else decodeL2 (be64 (f.span (l2EntryPos l1Entry l2Index) 8))

/-- The guest reads zeros without the cluster buffer being touched. -/
def Entry.hole : Entry → Bool
  | .noTable => true
  | .zeroed => true
  | .standard _ => false
  | .compressed _ => false

/-! What an entry says of its bits. -/

section Bits

variable {f : HostFile} {l1Entry l2Index l2Entry off : Nat} {e : Entry}

theorem decodeL2_ne_noTable : decodeL2 l2Entry ≠ .noTable := by
  unfold decodeL2
  split
  · split <;> simp
  · simp

theorem bits_of_zeroed (h : decodeL2 l2Entry = .zeroed) :
    l2Entry &&& l2EntryFormat = 0 ∧ l2Entry &&& l2EntryStdZeroed ≠ 0 := by
  unfold decodeL2 at h
  split at h
  · rename_i hf
    split at h
    · rename_i hz
      exact ⟨hf, hz⟩
    · cases h
  · cases h

theorem bits_of_standard (h : decodeL2 l2Entry = .standard off) :
    l2Entry &&& l2EntryFormat = 0 ∧ l2Entry &&& l2EntryStdZeroed = 0
      ∧ l2Entry &&& l2EntryStdOffset = off := by
  unfold decodeL2 at h
  split at h
  · rename_i hf
    split at h
    · cases h
    · rename_i hz
      exact ⟨hf, not_not.mp hz, Entry.standard.inj h⟩
  · cases h

theorem bits_of_compressed {x : Nat} (h : decodeL2 l2Entry = .compressed x) :
    l2Entry &&& l2EntryFormat ≠ 0 ∧ l2Entry = x := by
  unfold decodeL2 at h
  split at h
  · split at h <;> cases h
  · rename_i hf
    exact ⟨hf, Entry.compressed.inj h⟩

theorem noTable_of_entryOf (h : entryOf f l1Entry l2Index = .noTable) :
    l1Entry &&& l1EntryOffsetMask = 0 := by
  by_contra hne
  rw [entryOf, if_neg hne] at h
  exact decodeL2_ne_noTable h

theorem table_of_entryOf (h : entryOf f l1Entry l2Index = e) (hne : e ≠ .noTable) :
    l1Entry &&& l1EntryOffsetMask ≠ 0
      ∧ decodeL2 (be64 (f.span (l2EntryPos l1Entry l2Index) 8)) = e := by
  unfold entryOf at h
  split at h
  · exact absurd h.symm hne
  · rename_i ht
    exact ⟨ht, h⟩

end Bits

section Walk

variable {emInflate : List UInt8 → Nat → List UInt8} {io : UmkaIo} {g : Geometry} {env : Env}
variable {c : ClusterCache g} {w : World} {l1Entry l2Index : Nat}

/-- The world in which the L2 entry is read: sought to, and the local variable set up. -/
def atL2 (w : World) (l1Entry l2Index : Nat) : World :=
  (w.lseek (l2EntryPos l1Entry l2Index : Nat)).next

/-- The world in which the data cluster is read. -/
def atCluster (w : World) (env : Env) (l1Entry l2Index off : Nat) : World :=
  ((atL2 w l1Entry l2Index).afterRead env 8).lseek (off : Nat)

@[simp] theorem file_atL2 : (atL2 w l1Entry l2Index).file = w.file := by
  simp [atL2]

@[simp] theorem pos_atL2 : (atL2 w l1Entry l2Index).pos = l2EntryPos l1Entry l2Index := by
  simp [atL2]

@[simp] theorem file_atCluster {off : Nat} :
    (atCluster w env l1Entry l2Index off).file = w.file := by
  simp [atCluster]

@[simp] theorem pos_atCluster {off : Nat} :
    (atCluster w env l1Entry l2Index off).pos = off := by
  simp [atCluster]

@[simp] theorem log_atL2 : (atL2 w l1Entry l2Index).log = w.log := by
  simp [atL2]

@[simp] theorem log_atCluster {off : Nat} :
    (atCluster w env l1Entry l2Index off).log
      = ((atL2 w l1Entry l2Index).afterRead env 8).log := by
  simp [atCluster]

/-- A whole transfer of the L2 entry leaves no failure on record, -/
theorem quiet_l2 (hw : (atL2 w l1Entry l2Index).Whole env 8) :
    w.Quiet ((atL2 w l1Entry l2Index).afterRead env 8) :=
  ((World.Quiet.refl w).of_log_eq log_atL2).trans (hw.quiet (by decide))

/-- and one of the cluster after it none either. -/
theorem quiet_cluster {off : Nat} (hw : (atL2 w l1Entry l2Index).Whole env 8)
    (hwc : (atCluster w env l1Entry l2Index off).Whole env g.clusterSize) :
    w.Quiet ((atCluster w env l1Entry l2Index off).afterRead env g.clusterSize) :=
  ((quiet_l2 hw).of_log_eq log_atCluster).trans (hwc.quiet g.clusterSize_pos)

theorem run_loadCluster_noTable (h : l1Entry &&& l1EntryOffsetMask = 0) :
    (loadCluster emInflate io g l1Entry l2Index).run env c w = some (.zeroed, c, w) := by
  simp [loadCluster, h]

/-- The L2 entry as the walk sees it after a whole transfer. -/
theorem l2Entry_whole (hw : (atL2 w l1Entry l2Index).Whole env 8) (b : Block 8) :
    be64 (b.overlay ((atL2 w l1Entry l2Index).readData env 8)).bytes
      = be64 (w.file.span (l2EntryPos l1Entry l2Index) 8) := by
  rw [hw.readData, Block.bytes_overlay_full (by simp)]
  simp

/-- With a table, the walk is the branch its L2 entry selects. -/
theorem run_loadCluster_table (h : l1Entry &&& l1EntryOffsetMask ≠ 0)
    (hw : (atL2 w l1Entry l2Index).Whole env 8) :
    (loadCluster emInflate io g l1Entry l2Index).run env c w
      = ((if be64 (w.file.span (l2EntryPos l1Entry l2Index) 8) &&& l2EntryFormat = 0
          then loadStandard io g (be64 (w.file.span (l2EntryPos l1Entry l2Index) 8))
          else loadCompressed emInflate io g (be64 (w.file.span (l2EntryPos l1Entry l2Index) 8))) :
          Drv (ClusterCache g) Load).run env c ((atL2 w l1Entry l2Index).afterRead env 8) := by
  have hret : ¬ ((atL2 w l1Entry l2Index).readRet env 8 = 0) := by
    rw [hw.readRet]
    decide
  have hfold : (w.lseek ((l1Entry &&& l1EntryOffsetMask) + l2Index * 8 : Nat)).next
      = atL2 w l1Entry l2Index := rfl
  unfold loadCluster
  simp only [if_neg h, ioRead_eq, Drv.run_bind, Drv.run_seekTo, Drv.run_uninitialised,
    Drv.run_readBytes, Option.bind_some]
  rw [hfold, if_neg hret, l2Entry_whole hw]

/-- An L2 read that moves nothing is the failure the code knows. -/
theorem run_loadCluster_empty (h : l1Entry &&& l1EntryOffsetMask ≠ 0)
    (hret : (atL2 w l1Entry l2Index).readRet env 8 = 0) :
    (loadCluster emInflate io g l1Entry l2Index).run env c w
      = some (.failed, c, (atL2 w l1Entry l2Index).afterRead env 8) := by
  have hfold : (w.lseek ((l1Entry &&& l1EntryOffsetMask) + l2Index * 8 : Nat)).next
      = atL2 w l1Entry l2Index := rfl
  unfold loadCluster
  simp only [if_neg h, ioRead_eq, Drv.run_bind, Drv.run_seekTo, Drv.run_uninitialised,
    Drv.run_readBytes, Option.bind_some]
  rw [hfold, if_pos hret]
  rfl

theorem run_loadCluster_zeroed (he : entryOf w.file l1Entry l2Index = .zeroed)
    (hw : (atL2 w l1Entry l2Index).Whole env 8) :
    (loadCluster emInflate io g l1Entry l2Index).run env c w
      = some (.zeroed, c, (atL2 w l1Entry l2Index).afterRead env 8) := by
  obtain ⟨ht, hd⟩ := table_of_entryOf he (by simp)
  obtain ⟨hf, hz⟩ := bits_of_zeroed hd
  rw [run_loadCluster_table ht hw, if_pos hf]
  simp [loadStandard, hz]

/-- **The standard cluster.** Two whole transfers, and the buffer holds the host cluster. -/
theorem run_loadCluster_standard {off : Nat} (he : entryOf w.file l1Entry l2Index = .standard off)
    (hw : (atL2 w l1Entry l2Index).Whole env 8)
    (hwc : (atCluster w env l1Entry l2Index off).Whole env g.clusterSize) :
    (loadCluster emInflate io g l1Entry l2Index).run env c w
      = some (.loaded,
          { c with cluster := c.cluster.overlay (w.file.span off g.clusterSize) },
          (atCluster w env l1Entry l2Index off).afterRead env g.clusterSize) := by
  obtain ⟨ht, hd⟩ := table_of_entryOf he (by simp)
  obtain ⟨hf, hz, hoff⟩ := bits_of_standard hd
  have hret : ¬ ((atCluster w env l1Entry l2Index off).readRet env g.clusterSize = 0) := by
    have := g.clusterSize_pos
    rw [hwc.readRet]
    omega
  have hdata := hwc.readData
  rw [file_atCluster, pos_atCluster] at hdata
  have hfold : ((atL2 w l1Entry l2Index).afterRead env 8).lseek (off : Nat)
      = atCluster w env l1Entry l2Index off := rfl
  rw [run_loadCluster_table ht hw, if_pos hf]
  unfold loadStandard
  simp only [if_neg (not_not.mpr hz), ioReadInto_eq, Drv.run_bind, Drv.run_seekTo, Drv.run_readInto,
    Option.bind_some, hoff]
  rw [hfold, if_neg hret, hdata]
  rfl

end Walk

/-! ## One sector -/

section Sector

variable {emInflate : List UInt8 → Nat → List UInt8} {io : UmkaIo} {d : VdiskQcow2} {env : Env}
variable {c : ClusterCache d.geom} {w : World} {s : Nat} {buf : Block d.geom.sectSize}
variable {l1Entry : Nat}

/-- Past the end of the loaded table there is nothing to read. -/
theorem run_readSector_fault (h : d.l1[d.geom.l1Index s]? = none) :
    (qcow2ReadGuestSector emInflate io d s buf).run env c w = none := by
  simp [qcow2ReadGuestSector, h]

theorem run_readSector_cached (h : d.l1[d.geom.l1Index s]? = some l1Entry)
    (hc : d.geom.clusterIndex s = c.prevClusterIndex) :
    (qcow2ReadGuestSector emInflate io d s buf).run env c w
      = (c.cluster.slice? (d.geom.sectorOffset s) d.geom.sectSize).map fun b => (b, c, w) := by
  simp only [qcow2ReadGuestSector, h, Drv.run_bind, Drv.run_ofOption_some, Option.bind_some,
    Drv.run_getState, if_pos hc]
  cases c.cluster.slice? (d.geom.sectorOffset s) d.geom.sectSize <;> rfl

/-- A miss: the tag moves first, then the walk decides. -/
theorem run_readSector_miss (h : d.l1[d.geom.l1Index s]? = some l1Entry)
    (hc : d.geom.clusterIndex s ≠ c.prevClusterIndex) {l : Load} {c' : ClusterCache d.geom}
    {w' : World}
    (hwalk : (loadCluster emInflate io d.geom l1Entry (d.geom.l2Index s)).run env
      { c with prevClusterIndex := d.geom.clusterIndex s } w = some (l, c', w')) :
    (qcow2ReadGuestSector emInflate io d s buf).run env c w
      = match l with
        | .zeroed => some (Block.zero d.geom.sectSize, c', w')
        | .failed => some (buf, c', w')
        | .loaded => (c'.cluster.slice? (d.geom.sectorOffset s) d.geom.sectSize).map
            fun b => (b, c', w') := by
  simp only [qcow2ReadGuestSector, h, Drv.run_bind, Drv.run_ofOption_some, Option.bind_some,
    Drv.run_getState, if_neg hc, Drv.run_setState, hwalk]
  cases l with
  | zeroed => rfl
  | failed => rfl
  | loaded =>
    simp only [Drv.run_bind, Drv.run_getState, Option.bind_some]
    cases c'.cluster.slice? (d.geom.sectorOffset s) d.geom.sectSize <;> rfl

end Sector

end Umka.Proof.Qcow2
