import Umka.Vdisk.Raw

/-!
# The raw disk as a store

A store answers a read with what was last written. `StoreLaw` says it of a sequence of raw
reads and writes: the abstract contents start as the file's, a write that reports success
changes them, a read that reports success shows them, and a transfer that did not complete is
not reported as a success.

Both functions report success always, and no write ever completes: the descriptor is opened
`O_RDONLY`, so the synchronous `write` fails with `EBADF`, and the asynchronous back end returns
`-1` without looking at its arguments. `storeLaw_iff` is what is left.
-/

set_option autoImplicit false

namespace Umka.Proof.Raw

open Lib Vdisk

/-- A call: the I/O mode it finds, the sectors it names, which are on the disk, and its
    buffer. -/
structure RawCall (d : VdiskRaw) where
  io : UmkaIo
  start : Nat
  n : Nat
  buf : Block (n * d.sectSize)
  inRange : start + n ≤ d.sectCnt

inductive RawOp (d : VdiskRaw)
  | read (c : RawCall d)
  | write (c : RawCall d)

def RawOp.call {d : VdiskRaw} : RawOp d → RawCall d
  | .read c => c
  | .write c => c

/-! ## Where a call's sectors are -/

section Range

variable {fname : List Char} {f : HostFile}

theorem range_le (c : RawCall (vdiskInitRaw fname f.size)) :
    c.start * (vdiskInitRaw fname f.size).sectSize + c.n * (vdiskInitRaw fname f.size).sectSize
      ≤ f.size := by
  have hin : c.start + c.n ≤ f.size / sectSizeOf fname := c.inRange
  calc c.start * sectSizeOf fname + c.n * sectSizeOf fname
      = (c.start + c.n) * sectSizeOf fname := (Nat.add_mul _ _ _).symm
    _ ≤ f.size / sectSizeOf fname * sectSizeOf fname := Nat.mul_le_mul_right _ hin
    _ ≤ f.size := Nat.div_mul_le_self _ _

theorem offsetOf_eq (c : RawCall (vdiskInitRaw fname f.size)) :
    (vdiskInitRaw fname f.size).offsetOf c.start
      = (c.start * (vdiskInitRaw fname f.size).sectSize : Nat) := by
  have hle := range_le c
  have hlt := f.size_lt
  unfold VdiskRaw.offsetOf toOffT
  rw [Nat.mod_eq_of_lt (by omega), if_pos (by omega)]

end Range

section Runs

variable (env : Env) {d : VdiskRaw}

/-- The world in which a call's transfer is made. -/
def atTransfer (c : RawCall d) (w : World) : World := w.lseek (d.offsetOf c.start)

theorem run_rawRead {c : RawCall d} {w : World} :
    (vdiskRawRead c.io d c.start c.n c.buf).run env () w
      = some ((.success, c.buf.overlay ((atTransfer c w).readData env (d.countOf c.n))), (),
          (atTransfer c w).afterRead env (d.countOf c.n)) := by
  simp only [vdiskRawRead, ioRead_eq, Drv.run_bind, Drv.run_seekTo, Drv.run_readBytes,
    Option.bind_some, Drv.run_pure, atTransfer]

/-- What `io_read` returns to a read, and `io_write` to a write. -/
def transferRet : RawOp d → World → Int
  | .read c, w => (atTransfer c w).readRet env (d.countOf c.n)
  | .write c, w =>
    if c.io.running.beforeYes
    then ((atTransfer c w).write env (c.buf.bytes.take (d.countOf c.n))).1 else -1

/-- The transfer moved all the call's bytes. -/
def Completed (op : RawOp d) (w : World) : Prop :=
  transferRet env op w = (op.call.n * d.sectSize : Nat)

/-- The contents after a write of `data` at `pos`. -/
def written (contents : Nat → UInt8) (pos : Nat) (data : List UInt8) : Nat → UInt8 :=
  fun i => if pos ≤ i ∧ i < pos + data.length then data.getD (i - pos) 0 else contents i

/-- The store law, from abstract contents and a world. -/
def StoreLaw : List (RawOp d) → (Nat → UInt8) → World → Prop
  | [], _, _ => True
  | .read c :: ops, contents, w =>
    ∃ r, (vdiskRawRead c.io d c.start c.n c.buf).run env () w = some r ∧
      (r.1.1 = .success → r.1.2.bytes
        = (List.range (c.n * d.sectSize)).map fun i => contents (c.start * d.sectSize + i)) ∧
      (¬ Completed env (.read c) w → r.1.1 ≠ .success) ∧
      StoreLaw ops contents r.2.2
  | .write c :: ops, contents, w =>
    ∃ r, (vdiskRawWrite c.io d c.start c.n c.buf).run env () w = some r ∧
      (¬ Completed env (.write c) w → r.1 ≠ .success) ∧
      StoreLaw ops (if r.1 = .success
        then written contents (c.start * d.sectSize) c.buf.bytes else contents) r.2.2

/-- What the law comes down to, operation by operation: no writes, and reads whose byte count
    fits into 32 bits and which the host serves in full. -/
def Served : List (RawOp d) → World → Prop
  | [], _ => True
  | .read c :: ops, w => c.n * d.sectSize < 2 ^ 32 ∧ (atTransfer c w).Whole env (c.n * d.sectSize) ∧
      Served ops ((atTransfer c w).afterRead env (d.countOf c.n))
  | .write _ :: _, _ => False

end Runs

section Law

variable {env : Env} {d : VdiskRaw} {w : World}

/-! ## Writes -/

theorem write_success {c : RawCall d} {r : KosError × Unit × World}
    (hr : (vdiskRawWrite c.io d c.start c.n c.buf).run env () w = some r) : r.1 = .success := by
  unfold vdiskRawWrite at hr
  rw [Drv.run_bind, Drv.run_seekTo, Option.bind_some, Drv.run_bind] at hr
  obtain ⟨q, -, hq⟩ := Option.bind_eq_some_iff.mp hr
  cases hq
  rfl

/-- Neither back end completes a write. -/
theorem write_not_completed {c : RawCall d} (hw : w.mode = .rdonly) :
    ¬ Completed env (.write c) w := by
  have hret : transferRet env (.write c) w = -1 := by
    rw [transferRet]
    split
    · unfold World.write
      rw [atTransfer, World.mode_lseek, hw]
    · rfl
  unfold Completed
  rw [hret]
  omega

/-! ## Reads -/

theorem completed_iff {c : RawCall d} :
    Completed env (.read c) w ↔
      c.n * d.sectSize < 2 ^ 32 ∧ (atTransfer c w).Whole env (c.n * d.sectSize) := by
  unfold Completed transferRet
  rw [World.readRet_eq_iff]
  constructor
  · intro hcount
    -- No more bytes arrive than the wrapped count asks for.
    have hle := World.readCount_le hcount
    have hlt : c.n * d.sectSize < 2 ^ 32 :=
      Nat.lt_of_le_of_lt hle (Nat.mod_lt _ (Nat.two_pow_pos 32))
    rw [VdiskRaw.countOf, Nat.mod_eq_of_lt hlt] at hcount
    exact ⟨hlt, hcount⟩
  · rintro ⟨hlt, hwhole⟩
    rw [VdiskRaw.countOf, Nat.mod_eq_of_lt hlt]
    exact hwhole

/-- A completed read shows the file. -/
theorem read_bytes {fname : List Char} {f : HostFile} {c : RawCall (vdiskInitRaw fname f.size)}
    (hf : w.file = f) (hc : Completed env (.read c) w) :
    (c.buf.overlay ((atTransfer c w).readData env
        ((vdiskInitRaw fname f.size).countOf c.n))).bytes
      = f.span (c.start * (vdiskInitRaw fname f.size).sectSize)
          (c.n * (vdiskInitRaw fname f.size).sectSize) := by
  obtain ⟨hlt, hwhole⟩ := completed_iff.mp hc
  rw [VdiskRaw.countOf, Nat.mod_eq_of_lt hlt, hwhole.readData,
    Block.bytes_overlay_full HostFile.length_span]
  unfold atTransfer
  rw [World.file_lseek, hf, offsetOf_eq, World.pos_lseek_nat]

/-! ## The law -/

theorem storeLaw_iff_served {fname : List Char} {f : HostFile} :
    ∀ (ops : List (RawOp (vdiskInitRaw fname f.size))) (w : World), w.mode = .rdonly →
      w.file = f → (StoreLaw env ops f.byteAt w ↔ Served env ops w) := by
  intro ops
  induction ops with
  | nil => intro w _ _; exact Iff.rfl
  | cons op ops ih =>
    intro w hmode hfile
    cases op with
    | write c =>
      refine ⟨?_, fun h => h.elim⟩
      rintro ⟨r, hr, hstatus, -⟩
      exact hstatus (write_not_completed hmode) (write_success hr)
    | read c =>
      have hmode' : ((atTransfer c w).afterRead env
          ((vdiskInitRaw fname f.size).countOf c.n)).mode = .rdonly := by
        simp [atTransfer, hmode]
      have hfile' : ((atTransfer c w).afterRead env
          ((vdiskInitRaw fname f.size).countOf c.n)).file = f := by
        simp [atTransfer, hfile]
      constructor
      · rintro ⟨r, hr, -, hstatus, hrest⟩
        rw [run_rawRead, Option.some.injEq] at hr
        subst hr
        have hdone : Completed env (.read c) w := by
          by_contra hno
          exact hstatus hno rfl
        obtain ⟨hlt, hwhole⟩ := completed_iff.mp hdone
        exact ⟨hlt, hwhole, (ih _ hmode' hfile').mp hrest⟩
      · rintro ⟨hlt, hwhole, hserved⟩
        have hdone : Completed env (.read c) w := completed_iff.mpr ⟨hlt, hwhole⟩
        exact ⟨_, run_rawRead env, fun _ => read_bytes hfile hdone,
          fun hno => absurd hdone hno, (ih _ hmode' hfile').mpr hserved⟩

/-- **What a raw disk keeps of the store law**: everything, for sequences without writes whose
    reads the host serves in full. -/
theorem storeLaw_iff (fname : List Char) (f : HostFile) (env : Env)
    (ops : List (RawOp (vdiskInitRaw fname f.size))) :
    StoreLaw env ops f.byteAt (rawWorld f) ↔ Served env ops (rawWorld f) :=
  storeLaw_iff_served ops (rawWorld f) rfl rfl

end Law

/-- A file of one sector of zeros. -/
def zeroFile : HostFile := ⟨512, fun _ => 0, by decide⟩

def oneSector (v : UInt8) : RawCall (vdiskInitRaw [] zeroFile.size) :=
  ⟨⟨.never⟩, 0, 1, Block.ofFn _ fun _ => v, by decide⟩

/-- A write of ones to the one sector, and a read of it, on a host that does all it can: both
    report success, and the read shows zeros. -/
theorem write_dropped : ¬ StoreLaw .willing
    [.write (oneSector 1), .read (oneSector 2)] zeroFile.byteAt (rawWorld zeroFile) := by
  intro hlaw
  have hfile : (rawWorld zeroFile).file = zeroFile := rfl
  exact (storeLaw_iff_served _ _ rfl hfile).mp hlaw

end Umka.Proof.Raw
