import Umka.Lib.Interleave
import Umka.Proof.Raw.Store

/-!
# Raw reads that interleave

A raw read is one `lseek` and one `read` on the disk's only descriptor, and the thread yields
between the two. It is out of danger once its transfer is made: `RawCond` only asks that nobody
seeks while another thread's transfer is outstanding. Under it every call returns the file's
bytes (`RawInv`).
-/

set_option autoImplicit false

namespace Umka.Proof.Raw

open Lib Vdisk

/-- A raw read as a pool runs it. -/
def rawProg {d : VdiskRaw} (c : RawCall d) : Drv Unit (KosError × List UInt8) := do
  let r ← vdiskRawRead c.io d c.start c.n c.buf
  pure (r.1, r.2.bytes)

/-- What is left of a raw read after its transfer. -/
def rawRest {d : VdiskRaw} (c : RawCall d) (_ret : Int) (data : List UInt8) :
    Drv Unit (KosError × List UInt8) :=
  .done (.success, (c.buf.overlay data).bytes)

/-- What a raw read returns when nobody gets in its way. -/
def rawFlat {d : VdiskRaw} (f : HostFile) (c : RawCall d) : KosError × List UInt8 :=
  (.success, (c.buf.overlay (f.span (c.start * d.sectSize)
    (min (d.countOf c.n) (f.size - c.start * d.sectSize)))).bytes)

section Calls

variable {fname : List Char} {f : HostFile} {env : Env} {w : World}
variable {c : RawCall (vdiskInitRaw fname f.size)}

theorem toRead_rawProg (env : Env) (w : World) (c : RawCall (vdiskInitRaw fname f.size)) :
    ∃ store, (rawProg c).toRead env () w
    = some (.inRead ((vdiskInitRaw fname f.size).countOf c.n) store (rawRest c), (),
        atTransfer c w) := by
  unfold rawProg vdiskRawRead
  rw [ioRead_eq]
  exact ⟨_, rfl⟩

theorem pos_atTransfer :
    (atTransfer c w).pos = c.start * (vdiskInitRaw fname f.size).sectSize := by
  unfold atTransfer
  rw [offsetOf_eq, World.pos_lseek_nat]

theorem file_atTransfer : (atTransfer c w).file = w.file := World.file_lseek

/-- A transfer at the call's own position brings the call's own bytes. -/
theorem rawRest_readData (hfull : env.AllFull) (hf : w.file = f)
    (hpos : w.pos = c.start * (vdiskInitRaw fname f.size).sectSize) (ret : Int) :
    rawRest c ret (w.readData env ((vdiskInitRaw fname f.size).countOf c.n))
      = .done (rawFlat f c) := by
  unfold rawRest rawFlat World.readData World.readCount
  rw [hfull, hf, hpos]
  rfl

theorem run_rawProg (hfull : env.AllFull) (hf : w.file = f) :
    ∃ w', (rawProg c).run env () w = some (rawFlat f c, (), w') ∧ w'.file = f := by
  obtain ⟨store, hto⟩ := toRead_rawProg env w c
  refine ⟨(atTransfer c w).afterRead env ((vdiskInitRaw fname f.size).countOf c.n), ?_, ?_⟩
  · rw [Drv.run_toRead, hto, Option.bind_some]
    show (rawRest c ((atTransfer c w).readRet env ((vdiskInitRaw fname f.size).countOf c.n))
      ((atTransfer c w).readData env ((vdiskInitRaw fname f.size).countOf c.n))).run env _ _ = _
    rw [rawRest_readData hfull (file_atTransfer.trans hf) pos_atTransfer]
    rfl
  · rw [World.file_afterRead, file_atTransfer, hf]

/-- One after the other, raw reads return the file. -/
theorem seqRun_rawProg (hfull : env.AllFull) :
    ∀ (cs : List (RawCall (vdiskInitRaw fname f.size))) (w : World), w.file = f →
      ∃ w', seqRun env rawProg cs () w = some (cs.map (rawFlat f), (), w') := by
  intro cs
  induction cs with
  | nil => intro w _; exact ⟨w, rfl⟩
  | cons c cs ih =>
    intro w hf
    obtain ⟨w₁, hrun, hf₁⟩ := run_rawProg (c := c) hfull hf
    obtain ⟨w₂, hrest⟩ := ih w₁ hf₁
    refine ⟨w₂, ?_⟩
    rw [seqRun, hrun, Option.bind_some, hrest]
    rfl

/-! ## A pool of raw reads -/

variable {ι : Type}

/-- Nobody seeks while another thread's transfer is outstanding. -/
def RawCond (P : Pool ι Unit (KosError × List UInt8) (RawCall (vdiskInitRaw fname f.size))) :
    PoolAct ι (RawCall (vdiskInitRaw fname f.size)) → Prop
  | .start _ _ => ∀ j, (P.threads j).isAsked = false
  | .transfer _ => True
  | .resume _ => True

/-- A thread that waits for its transfer has the descriptor where it needs it, and one that has
    been served holds its own bytes. -/
def ThreadOk (f : HostFile) (w : World) :
    Thread Unit (KosError × List UInt8) (RawCall (vdiskInitRaw fname f.size)) → Prop
  | .idle => True
  | .asked c count _ k => count = (vdiskInitRaw fname f.size).countOf c.n ∧
      w.pos = c.start * (vdiskInitRaw fname f.size).sectSize ∧ k = rawRest c
  | .answered c p => p = .done (rawFlat f c)

structure RawInv
    (P : Pool ι Unit (KosError × List UInt8) (RawCall (vdiskInitRaw fname f.size))) : Prop where
  file : P.world.file = f
  log : ∀ e ∈ P.log, e.2 = rawFlat f e.1
  threads : ∀ i, ThreadOk f P.world (P.threads i)
  one : ∀ i j, (P.threads i).isAsked = true → (P.threads j).isAsked = true → i = j

/-- The position matters only to a thread that waits for its transfer. -/
theorem ThreadOk.move {w w' : World}
    {t : Thread Unit (KosError × List UInt8) (RawCall (vdiskInitRaw fname f.size))}
    (h : ThreadOk f w t) (ht : t.isAsked = false) : ThreadOk f w' t := by
  cases t with
  | idle => trivial
  | asked c count store k => cases ht
  | answered c p => exact h

variable [DecidableEq ι]
variable {P P' : Pool ι Unit (KosError × List UInt8) (RawCall (vdiskInitRaw fname f.size))}

theorem advance_rawProg (env : Env) (i : ι) : ∃ store, P.advance env i c (rawProg c)
    = some ⟨(), atTransfer c P.world, Function.update P.threads i
        (.asked c ((vdiskInitRaw fname f.size).countOf c.n) store (rawRest c)), P.log⟩ := by
  obtain ⟨store, hto⟩ := toRead_rawProg env P.world c
  refine ⟨store, ?_⟩
  unfold Pool.advance
  rw [show P.st = () from rfl, hto]
  rfl

theorem RawInv.start {i : ι} (h : RawInv P)
    (hnone : ∀ j, (P.threads j).isAsked = false) (hs : P.advance env i c (rawProg c) = some P') :
    RawInv P' := by
  obtain ⟨store, hadv⟩ := advance_rawProg (P := P) (c := c) env i
  rw [hadv, Option.some.injEq] at hs
  subst hs
  -- the thread that seeks is the only one that waits, so it may take the position
  have honly : ∀ j, (Function.update P.threads i
      (.asked c ((vdiskInitRaw fname f.size).countOf c.n) store (rawRest c)) j).isAsked = true →
      j = i := by
    refine (Function.forall_update_iff P.threads fun j t => t.isAsked = true → j = i).mpr
      ⟨fun _ => rfl, fun j _ hj => ?_⟩
    rw [hnone j] at hj
    cases hj
  refine ⟨file_atTransfer.trans h.file, h.log, ?_,
    fun j k hj hk => (honly j hj).trans (honly k hk).symm⟩
  exact (Function.forall_update_iff P.threads fun _ t => ThreadOk f (atTransfer c P.world) t).mpr
    ⟨⟨rfl, pos_atTransfer, rfl⟩, fun j _ => (h.threads j).move (hnone j)⟩

theorem RawInv.transfer {i : ι} (hfull : env.AllFull) (h : RawInv P) {count : Nat}
    {store : List UInt8 → Unit → Unit}
    {k : Int → List UInt8 → Drv Unit (KosError × List UInt8)}
    (hth : P.threads i = .asked c count store k) :
    RawInv { P with
      st := store (P.world.readData env count) P.st
      world := P.world.afterRead env count
      threads := Function.update P.threads i
        (.answered c (k (P.world.readRet env count) (P.world.readData env count))) } := by
  have hok := h.threads i
  rw [hth] at hok
  obtain ⟨hcount, hpos, hk⟩ := hok
  have hothers : ∀ j, j ≠ i → (P.threads j).isAsked = false := by
    intro j hji
    cases hj : (P.threads j).isAsked with
    | false => rfl
    | true => exact absurd (h.one j i hj (by rw [hth]; rfl)) hji
  have hnone : ∀ j, (Function.update P.threads i (.answered c (k (P.world.readRet env count)
      (P.world.readData env count))) j).isAsked = false :=
    (Function.forall_update_iff P.threads fun _ t => t.isAsked = false).mpr ⟨rfl, hothers⟩
  refine ⟨h.file, h.log, ?_, fun j l hj _ => ?_⟩
  · refine (Function.forall_update_iff P.threads fun _ t => ThreadOk f _ t).mpr
      ⟨?_, fun j hji => (h.threads j).move (hothers j hji)⟩
    subst hcount hk
    exact rawRest_readData hfull h.file hpos _
  · rw [hnone j] at hj
    cases hj

theorem RawInv.resume {i : ι} {p : Drv Unit (KosError × List UInt8)} (h : RawInv P)
    (hth : P.threads i = .answered c p) (hs : P.advance env i c p = some P') : RawInv P' := by
  have hok := h.threads i
  rw [hth] at hok
  have hp : p = .done (rawFlat f c) := hok
  subst hp
  cases hs
  have hkeep : ∀ j, (Function.update P.threads i .idle j).isAsked = true →
      (P.threads j).isAsked = true :=
    (Function.forall_update_iff P.threads fun j t => t.isAsked = true →
      (P.threads j).isAsked = true).mpr ⟨nofun, fun _ _ hj => hj⟩
  refine ⟨h.file, fun e he => ?_, ?_, fun j k hj hk => h.one j k (hkeep j hj) (hkeep k hk)⟩
  · rcases List.mem_append.mp he with hold | hnew
    · exact h.log e hold
    · rw [List.mem_singleton.mp hnew]
  · exact (Function.forall_update_iff P.threads fun _ t => ThreadOk f P.world t).mpr
      ⟨trivial, fun j _ => h.threads j⟩

theorem RawInv.step {act : PoolAct ι (RawCall (vdiskInitRaw fname f.size))} (hfull : env.AllFull)
    (h : RawInv P) (hc : RawCond P act) (hs : poolStep env rawProg P act = some P') :
    RawInv P' := by
  cases act with
  | start i c => exact h.start hc (poolStep_start hs).2
  | transfer i =>
    obtain ⟨c, count, store, k, hth, rfl⟩ := poolStep_transfer hs
    exact h.transfer hfull hth
  | resume i =>
    obtain ⟨c, p, hth, hadv⟩ := poolStep_resume hs
    exact h.resume hth hadv

omit [DecidableEq ι] in
/-- For raw reads, to be sequential is to return the file; the order does not matter. -/
theorem sequential_rawProg_iff (hfull : env.AllFull)
    {log : List (RawCall (vdiskInitRaw fname f.size) × KosError × List UInt8)} :
    Sequential env rawProg () (rawWorld f) log ↔ ∀ e ∈ log, e.2 = rawFlat f e.1 := by
  constructor
  · rintro ⟨order, s', w', hperm, hseq⟩ e he
    obtain ⟨w₁, hflat⟩ := seqRun_rawProg hfull (order.map Prod.fst) (rawWorld f) rfl
    rw [hflat, List.map_map, Option.some.injEq, Prod.mk.injEq] at hseq
    exact (List.map_inj_left.mp hseq.1 e (hperm.mem_iff.mpr he)).symm
  · intro h
    obtain ⟨w', hflat⟩ := seqRun_rawProg hfull (log.map Prod.fst) (rawWorld f) rfl
    refine ⟨log, (), w', .refl _, ?_⟩
    have hsnd : log.map Prod.snd = log.map (rawFlat f ∘ Prod.fst) := List.map_inj_left.mpr h
    rw [hflat, List.map_map, hsnd]

/-- Raw reads that do not seek over each other return the file, in whatever order. -/
theorem sequential_rawProg (hfull : env.AllFull)
    {acts : List (PoolAct ι (RawCall (vdiskInitRaw fname f.size)))}
    (hmeets : MeetsAll (poolStep env rawProg) RawCond (Pool.init () (rawWorld f)) acts)
    (hrun : runActs (poolStep env rawProg) (Pool.init () (rawWorld f)) acts = some P) :
    Sequential env rawProg () (rawWorld f) P.log := by
  have hinit : RawInv (Pool.init () (rawWorld f)
      : Pool ι Unit (KosError × List UInt8) (RawCall (vdiskInitRaw fname f.size))) :=
    ⟨rfl, fun e he => absurd he List.not_mem_nil, fun _ => trivial, fun i j hi _ => by cases hi⟩
  have hinv : RawInv P := invariant_of_step (I := RawInv)
    (fun _ _ _ h hc hs => h.step hfull hc hs) acts _ P hinit hmeets hrun
  exact (sequential_rawProg_iff hfull).mpr hinv.log

end Calls

end Umka.Proof.Raw
