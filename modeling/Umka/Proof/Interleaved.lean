import Umka.Proof.Raw.Interleaved
import Umka.Proof.Qcow2.Interleaved

/-!
# Disk reads that interleave

With the OS running, `io_read` hands the transfer to another thread and lets others run. A disk
has one descriptor, and a qcow2 disk one cluster buffer and one tag, so what a thread set up
before it yielded may be gone when it goes on: the position its `lseek` chose, the cluster its
`read` loaded, the cluster its tag announced.

Calls return what they would return one after the other as long as these three are respected:
on a raw disk the position (`RawCond`), on a qcow2 disk all three (`Qcow2Cond`). That is for
images with a cluster for every sector. With holes the reader's answers depend on what was read
before, also one after the other; there, and on a host whose transfers fail, the calls have to
take turns (`InTurn`), and a call may begin before another's end only when that one has nothing
left to do but to copy its last sector out of the cluster buffer.
-/

set_option autoImplicit false

namespace Umka.Proof

open Lib Vdisk Raw Qcow2

/-- **Interleaved reads on a raw or a qcow2 disk** return what they would return one after the
    other, as long as nobody takes from another thread the position, the tag or the cluster
    buffer it relies on. -/
theorem interleaved_reads_sequential {ι : Type} [DecidableEq ι] (env : Env) :
    (env.AllFull → ∀ (fname : List Char) (f : HostFile)
      (acts : List (PoolAct ι (RawCall (vdiskInitRaw fname f.size))))
      (P : Pool ι Unit (KosError × List UInt8) (RawCall (vdiskInitRaw fname f.size))),
      MeetsAll (poolStep env rawProg) RawCond (Pool.init () (rawWorld f)) acts →
      runActs (poolStep env rawProg) (Pool.init () (rawWorld f)) acts = some P →
      Sequential env rawProg () (rawWorld f) P.log) ∧
    (env.AllFull → ∀ (emInflate : List UInt8 → Nat → List UInt8) (io : UmkaIo) (f : HostFile)
      (fname : List Char) (o : OpenQcow2) (w : World) (acts : List (PoolAct ι (Call o.disk.geom)))
      (P : Pool ι (ClusterCache o.disk.geom) (KosError × List (Block o.disk.geom.sectSize))
        (Call o.disk.geom)),
      StandardDisk io f fname o → w.file = f →
      MeetsAll (poolStep env (qcow2Prog emInflate o.disk)) Qcow2Cond (Pool.init o.cache w) acts →
      runActs (poolStep env (qcow2Prog emInflate o.disk)) (Pool.init o.cache w) acts = some P →
      Sequential env (qcow2Prog emInflate o.disk) o.cache w P.log) ∧
    (∀ (emInflate : List UInt8 → Nat → List UInt8) (o : OpenQcow2) (w : World)
      (acts : List (PoolAct ι (Call o.disk.geom)))
      (P : Pool ι (ClusterCache o.disk.geom) (KosError × List (Block o.disk.geom.sectSize))
        (Call o.disk.geom)),
      MeetsAll (poolStep env (qcow2Prog emInflate o.disk))
        (InTurn env (qcow2Prog emInflate o.disk) ClusterCache.cluster)
        (Pool.init o.cache w) acts →
      runActs (poolStep env (qcow2Prog emInflate o.disk)) (Pool.init o.cache w) acts = some P →
      (∀ i, (P.threads i).isIdle = true) →
      Sequential env (qcow2Prog emInflate o.disk) o.cache w P.log) := by
  refine ⟨?_, ?_, ?_⟩
  · intro hfull fname f acts P hmeets hrun
    exact sequential_rawProg hfull hmeets hrun
  · intro hfull emInflate io f fname o w acts P hd hf hmeets hrun
    exact sequential_of_cond hd hfull hf hmeets hrun
  · intro emInflate o w acts P hmeets hrun hend
    exact sequential_of_turns hmeets hrun hend

/-! ## Two threads -/

/-- Three sectors, each filled with its number. -/
def stripedFile : HostFile := ⟨1536, fun p => (p / 512).toUInt8, by decide⟩

def stripe (k : Fin 3) : RawCall (vdiskInitRaw [] stripedFile.size) :=
  ⟨⟨.yes⟩, k, 1, Block.zero _, by revert k; decide⟩

-- for the numerals that name the threads
local instance twoThreads : NeZero 2 := ⟨Nat.succ_ne_zero 1⟩

/-- Thread 1 seeks after thread 0's transfer and before thread 0 goes on. -/
def staggered : List (PoolAct (Fin 2) (RawCall (vdiskInitRaw [] stripedFile.size))) :=
  [.start 0 (stripe 0), .transfer 0, .start 1 (stripe 1), .resume 0, .transfer 1, .resume 1]

/-- Thread 1 seeks between thread 0's seek and thread 0's transfer. -/
def crossed : List (PoolAct (Fin 2) (RawCall (vdiskInitRaw [] stripedFile.size))) :=
  [.start 0 (stripe 0), .start 1 (stripe 1), .transfer 0, .transfer 1, .resume 0, .resume 1]

def flatWorld : World := ⟨flatImage 2, .rdonly, 0, 0, []⟩

/-- The image with two L1 entries, opened. -/
def flatDisk : OpenQcow2 :=
  (((vdiskInitQcow2 ⟨.never⟩ []).run .willing () flatWorld).bind Prod.fst).get
    (by decide +kernel)

def flatCall (start n : Nat) : Call flatDisk.disk.geom :=
  ⟨⟨.yes⟩, start, List.replicate n (Block.zero _)⟩

/-- Thread 1 reads a sector of the cluster that thread 0 has loaded and not copied from yet; then
    it announces a cluster of its own, and waits with the transfer into the buffer until thread 0
    has made its last copy. -/
def overlapping : List (PoolAct (Fin 2) (Call flatDisk.disk.geom)) :=
  [.start 0 (flatCall 0 2), .transfer 0, .resume 0, .transfer 0, .resume 0,
    .transfer 0, .resume 0, .transfer 0,
    .start 1 (flatCall 1 1), .start 1 (flatCall 2 1), .transfer 1, .resume 1, .resume 0,
    .transfer 1, .resume 1]

/-- One cluster whose L2 entry has to be fetched from the file. -/
def tableDisk : OpenQcow2 :=
  ⟨⟨smallGeometry, 1, 1, [512]⟩, ⟨2 ^ 64 - 1, Block.zero _, Block.zero _, []⟩⟩

/-- Two threads read the sector in turn; the second finds the tag of the first. -/
def inTurn : List (PoolAct (Fin 2) (Call tableDisk.disk.geom)) :=
  [.start 0 ⟨⟨.yes⟩, 0, [Block.zero _]⟩, .transfer 0, .resume 0,
    .start 1 ⟨⟨.yes⟩, 0, [Block.zero _]⟩]

instance {fname : List Char} {f : HostFile} {n : Nat}
    (P : Pool (Fin n) Unit (KosError × List UInt8) (RawCall (vdiskInitRaw fname f.size)))
    (act : PoolAct (Fin n) (RawCall (vdiskInitRaw fname f.size))) : Decidable (RawCond P act) := by
  cases act <;> unfold RawCond <;> infer_instance

instance {g : Geometry} (k : Call g) (sectCnt : Nat) : Decidable (k.InRange sectCnt) :=
  inferInstanceAs (Decidable (_ ≤ _))

instance {d : VdiskQcow2} {n : Nat} (P : Pool (Fin n) (ClusterCache d.geom)
      (KosError × List (Block d.geom.sectSize)) (Call d.geom))
    (act : PoolAct (Fin n) (Call d.geom)) : Decidable (Qcow2Cond P act) := by
  cases act <;> unfold Qcow2Cond <;> infer_instance

theorem standardDisk_flatDisk : StandardDisk ⟨.never⟩ (flatImage 2) [] flatDisk := by
  have hfresh : FreshDisk ⟨.never⟩ (flatImage 2) [] flatDisk := by
    obtain ⟨⟨o, u, w'⟩, hrun, ho⟩ : ∃ r, (vdiskInitQcow2 ⟨.never⟩ []).run .willing () flatWorld
        = some r ∧ r.1 = some flatDisk :=
      Option.bind_eq_some_iff.mp (Option.some_get _).symm
    refine ⟨.willing, flatWorld, w', Env.allFull_willing, rfl, rfl, ?_⟩
    rw [hrun, show o = _ from ho]
  have ht : TablesInFile (flatImage 2) := tablesInFile_flatImage (by decide)
  have hhdr := headerOf_flatImage (n := 2) (by decide)
  obtain ⟨hgeom, hcnt, -⟩ := hfresh.spec ht
  rw [hhdr, checkHeader_flatHeader, Option.some.injEq] at hgeom
  refine ⟨hfresh, ht, by rw [← hgeom]; decide, fun s hs => ?_⟩
  rw [hcnt] at hs
  rw [hhdr, ← hgeom] at hs ⊢
  exact allocated_flatImage.standardSector hs (l1Index_smallGeometry hs)

theorem interleaved_reads_sequential_two :
    (∃ P, runActs (poolStep .willing rawProg) (Pool.init () (rawWorld stripedFile)) staggered
        = some P ∧ P.log.length = 2 ∧
      Sequential .willing rawProg () (rawWorld stripedFile) P.log) ∧
    (∃ P, runActs (poolStep .willing (qcow2Prog (fun _ _ => []) flatDisk.disk))
        (Pool.init flatDisk.cache flatWorld) overlapping = some P ∧ P.log.length = 3 ∧
      Sequential .willing (qcow2Prog (fun _ _ => []) flatDisk.disk) flatDisk.cache flatWorld
        P.log) ∧
    (∃ P, runActs (poolStep .willing (qcow2Prog (fun _ _ => []) tableDisk.disk))
        (Pool.init tableDisk.cache (rawWorld stripedFile)) inTurn = some P ∧ P.log.length = 2 ∧
      Sequential .willing (qcow2Prog (fun _ _ => []) tableDisk.disk) tableDisk.cache
        (rawWorld stripedFile) P.log) := by
  obtain ⟨hraw, hqcow, hany⟩ := @interleaved_reads_sequential (Fin 2) _ .willing
  refine ⟨⟨_, rfl, rfl, ?_⟩, ?_, ?_⟩
  · exact hraw Env.allFull_willing [] stripedFile staggered _ (by decide) rfl
  · have hlog : (runActs (poolStep .willing (qcow2Prog (fun _ _ => []) flatDisk.disk))
        (Pool.init flatDisk.cache flatWorld) overlapping).map
          (fun P => P.log.length) = some 3 := by decide +kernel
    obtain ⟨P, hrun, hlen⟩ := Option.map_eq_some_iff.mp hlog
    exact ⟨P, hrun, hlen, hqcow Env.allFull_willing _ _ _ _ flatDisk flatWorld overlapping P
      standardDisk_flatDisk rfl (by decide +kernel) hrun⟩
  · have hlog : (runActs (poolStep .willing (qcow2Prog (fun _ _ => []) tableDisk.disk))
        (Pool.init tableDisk.cache (rawWorld stripedFile)) inTurn).map
          (fun P => (P.log.length, decide (∀ i, (P.threads i).isIdle = true)))
        = some (2, true) := by decide +kernel
    obtain ⟨P, hrun, hend⟩ := Option.map_eq_some_iff.mp hlog
    rw [Prod.mk.injEq, decide_eq_true_iff] at hend
    have halone : MeetsAll (poolStep .willing (qcow2Prog (fun _ _ => []) tableDisk.disk))
        (fun P act => ∀ j, j ≠ act.thread → (P.threads j).isIdle = true)
        (Pool.init tableDisk.cache (rawWorld stripedFile)) inTurn := by decide +kernel
    exact ⟨P, hrun, hend.1, hany _ tableDisk (rawWorld stripedFile) inTurn P
      (halone.mono fun _ _ => inTurn_of_idle) hrun hend.2⟩

/-- In whatever order the calls are put, the file has zeros in sector 0; thread 0 got ones. -/
theorem crossed_reads_not_sequential :
    ∃ P, runActs (poolStep .willing rawProg) (Pool.init () (rawWorld stripedFile)) crossed
        = some P ∧ ¬ Sequential .willing rawProg () (rawWorld stripedFile) P.log := by
  refine ⟨_, rfl, fun hseq => ?_⟩
  have hflat := (sequential_rawProg_iff fun _ => rfl).mp hseq _ List.mem_cons_self
  exact absurd (congrArg (fun r => r.2.head?) hflat) (by decide +kernel)

end Umka.Proof
