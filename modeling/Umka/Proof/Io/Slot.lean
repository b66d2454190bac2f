import Umka.Io.Slot

/-!
# The I/O slot, caller by caller

What the slot promises is `SlotOk`: one caller at a time, `thread_io` acts on published commands
only, and the ledger is in order. The code keeps the promise as long as three things do not
happen, and each of them is one line of it:

* a submit test meets a lock held by somebody else. `io_async_submit_wait_test` returns what
  `pthread_mutex_trylock` returns, and that is nonzero when the lock is *busy*; a caller alone
  gets in because its second test finds its own lock, and a caller that finds another's lock
  gets in at once;
* a signal comes while `thread_io` is not in its wait, as it may right after a `DONE`;
* the wait, which is not in a loop, returns by itself.

`SlotCond` is the condition that they do not, on the state a step is taken from, and
`slotOk_of_cond` is the result for every run that meets it. The invariant behind it gives the
slot to one caller at a time and says, for each line that caller may be at, where the command
is.
-/

set_option autoImplicit false

namespace Umka.Proof.Io

open Lib Umka.Io

/-- Between passing the submit wait and unlocking. -/
def CallerPc.inside : CallerPc → Bool
  | .idle => false
  | .submitWait _ => false
  | _ => true

/-- The completion wait has been passed. -/
def CallerPc.completed : CallerPc → Bool
  | .readRet _ => true
  | .setEmpty _ _ => true
  | .unlock _ _ => true
  | _ => false

/-- `thread_io` has nothing in hand. -/
def ThreadPc.resting : ThreadPc → Bool
  | .waiting => true
  | .rewait => true
  | _ => false

section

variable {ι : Type}

/-- What the slot promises. -/
structure SlotOk (s : Slot ι) : Prop where
  exclusive : ∀ i j, CallerPc.inside (s.pc i) = true → CallerPc.inside (s.pc j) = true → i = j
  ready : s.thread = .woken → s.status = .ready
  ledger : s.ledger.Ok
  executed : ∀ i, CallerPc.completed (s.pc i) = true →
    s.ledger.submitted.length = s.ledger.executed.length
  served : ∀ i a, s.pc i = .completeWait a → s.status = .done ∨ ThreadPc.resting s.thread = false

/-- A caller's line, taken where it does no harm: a submit test that meets no other caller's
    lock, a signal that `thread_io` waits for. -/
def LineCond (s : Slot ι) (i : ι) : CallerPc → Prop
  | .submitWait _ => s.mutex = none ∨ s.mutex = some i
  | .signal _ => s.thread = .waiting
  | _ => True

/-- The steps that stay clear of the three lines. -/
def SlotCond (s : Slot ι) : SlotAct ι → Prop
  | .call _ _ => True
  | .caller i => LineCond s i (s.pc i)
  | .thread _ => True
  | .spuriousWake => False

instance [DecidableEq ι] (s : Slot ι) (i : ι) : ∀ p, Decidable (LineCond s i p)
  | .submitWait _ => inferInstanceAs (Decidable (s.mutex = none ∨ s.mutex = some i))
  | .signal _ => inferInstanceAs (Decidable (s.thread = .waiting))
  | .idle | .setType _ | .setFd _ | .setBuf _ | .setCount _ | .setReady _ | .completeWait _
  | .readRet _ | .setEmpty _ _ | .unlock _ _ => isTrue trivial

instance [DecidableEq ι] (s : Slot ι) : ∀ act, Decidable (SlotCond s act)
  | .call _ _ => isTrue trivial
  | .caller i => inferInstanceAs (Decidable (LineCond s i (s.pc i)))
  | .thread _ => isTrue trivial
  | .spuriousWake => isFalse id

/-! ## The invariant -/

/-- Nothing is in the slot. -/
structure AtRest (s : Slot ι) : Prop where
  thread : ThreadPc.resting s.thread = true
  status : s.status = .empty
  ledger : s.ledger.Idle

/-- The command of `i` has been executed with result `r`. -/
def Executed (s : Slot ι) (i : ι) (a : ReadArg) (r : Int) : Prop := s.ledger.Done i ⟨.read, a⟩ r

/-- Where the command of the holder `i` is while it waits for completion: published, in
    `thread_io`'s hands, or back in the slot. -/
inductive InService (s : Slot ι) (i : ι) (a : ReadArg) : Prop
  | published (hthread : s.thread = .woken) (hstatus : s.status = .ready)
      (hcmd : s.cmd = ⟨.read, a⟩) (hledger : s.ledger.Pending i ⟨.read, a⟩)
  | transferred (r : Int) (hthread : s.thread = .storeRet r) (hstatus : s.status = .ready)
      (hledger : Executed s i a r)
  | stored (r : Int) (hthread : s.thread = .setDone) (hstatus : s.status = .ready)
      (hword : s.word0 = r) (hledger : Executed s i a r)
  | finished (r : Int) (hthread : ThreadPc.resting s.thread = true) (hstatus : s.status = .done)
      (hword : s.word0 = r) (hledger : Executed s i a r)

/-- What holds of the slot while `i` has the lock and is at `p`. -/
def Holder (s : Slot ι) (i : ι) : CallerPc → Prop
  | .idle => False
  | .submitWait _ => AtRest s
  | .setType _ => AtRest s
  | .setFd _ => AtRest s ∧ s.type = .read
  | .setBuf a => AtRest s ∧ s.type = .read ∧ s.word0 = a.fd
  | .setCount a => AtRest s ∧ s.type = .read ∧ s.word0 = a.fd ∧ s.buf = a.buf
  | .setReady a => AtRest s ∧ s.cmd = ⟨.read, a⟩
  | .signal a => ThreadPc.resting s.thread = true ∧ s.status = .ready ∧ s.cmd = ⟨.read, a⟩ ∧
      s.ledger.Pending i ⟨.read, a⟩
  | .completeWait a => InService s i a
  | .readRet a => ∃ r, ThreadPc.resting s.thread = true ∧ s.status = .done ∧ s.word0 = r ∧
      Executed s i a r
  | .setEmpty a r => ThreadPc.resting s.thread = true ∧ s.status = .done ∧ Executed s i a r
  | .unlock a r => ThreadPc.resting s.thread = true ∧ s.status = .empty ∧ Executed s i a r

/-- The lock is free and so is the slot, or one caller has both. -/
inductive SlotInv (s : Slot ι) : Prop
  | free (hmutex : s.mutex = none) (hout : ∀ j, CallerPc.inside (s.pc j) = false) (hrest : AtRest s)
  | held (i : ι) (hmutex : s.mutex = some i)
      (hout : ∀ j, j ≠ i → CallerPc.inside (s.pc j) = false) (hholder : Holder s i (s.pc i))

theorem slotInv_init : SlotInv (Slot.init : Slot ι) :=
  .free rfl (fun _ => rfl) ⟨rfl, rfl, Ledger.idle_empty⟩

variable {s : Slot ι} {i : ι}

/-- A caller inside has the lock. -/
theorem SlotInv.holder (h : SlotInv s) (hin : CallerPc.inside (s.pc i) = true) :
    s.mutex = some i ∧ (∀ j, j ≠ i → CallerPc.inside (s.pc j) = false) ∧ Holder s i (s.pc i) := by
  cases h with
  | free hmutex hout hrest =>
    rw [hout i] at hin
    cases hin
  | held k hmutex hout hholder =>
    have hk : i = k := by
      by_contra hne
      rw [hout i hne] at hin
      cases hin
    subst hk
    exact ⟨hmutex, hout, hholder⟩

/-- With the lock free, or held by a caller that only waits, the slot is at rest. -/
theorem SlotInv.atRest (h : SlotInv s) {a : ReadArg} (hpc : s.pc i = .submitWait a)
    (hm : s.mutex = none ∨ s.mutex = some i) : AtRest s := by
  cases h with
  | free hmutex hout hrest => exact hrest
  | held k hmutex hout hholder =>
    rcases hm with hnone | hsome
    · rw [hmutex] at hnone
      cases hnone
    · rw [hmutex, Option.some.injEq] at hsome
      subst hsome
      rw [hpc] at hholder
      exact hholder

/-! ## From the invariant to the promise -/

/-- `thread_io` has something in hand only while the holder waits for it. -/
theorem Holder.inService {p : CallerPc} (h : Holder s i p)
    (hbusy : ThreadPc.resting s.thread = false) : ∃ a, p = .completeWait a ∧ InService s i a := by
  have hrest : ThreadPc.resting s.thread ≠ true := by
    rw [hbusy]
    simp
  cases p with
  | idle => exact h.elim
  | submitWait a => exact absurd h.thread hrest
  | setType a => exact absurd h.thread hrest
  | setFd a => exact absurd h.1.thread hrest
  | setBuf a => exact absurd h.1.thread hrest
  | setCount a => exact absurd h.1.thread hrest
  | setReady a => exact absurd h.1.thread hrest
  | signal a => exact absurd h.1 hrest
  | completeWait a => exact ⟨a, rfl, h⟩
  | readRet a =>
    obtain ⟨r, hr, -⟩ := h
    exact absurd hr hrest
  | setEmpty a r => exact absurd h.1 hrest
  | unlock a r => exact absurd h.1 hrest

theorem InService.ready {a : ReadArg} (h : InService s i a) (hw : s.thread = .woken) :
    s.status = .ready ∧ s.cmd = ⟨.read, a⟩ ∧ s.ledger.Pending i ⟨.read, a⟩ := by
  cases h with
  | published _ hstatus hcmd hledger => exact ⟨hstatus, hcmd, hledger⟩
  | transferred _ hthread _ _ => rw [hw] at hthread; cases hthread
  | stored _ hthread _ _ _ => rw [hw] at hthread; cases hthread
  | finished _ hthread _ _ _ => rw [hw] at hthread; cases hthread

theorem Holder.ledger_ok {p : CallerPc} (h : Holder s i p) : s.ledger.Ok := by
  cases p with
  | idle => exact h.elim
  | submitWait a => exact h.ledger.ok
  | setType a => exact h.ledger.ok
  | setFd a => exact h.1.ledger.ok
  | setBuf a => exact h.1.ledger.ok
  | setCount a => exact h.1.ledger.ok
  | setReady a => exact h.1.ledger.ok
  | signal a => exact h.2.2.2.ok
  | completeWait a =>
    cases h with
    | published _ _ _ hledger => exact hledger.ok
    | transferred _ _ _ hledger => exact hledger.ok
    | stored _ _ _ _ hledger => exact hledger.ok
    | finished _ _ _ _ hledger => exact hledger.ok
  | readRet a =>
    obtain ⟨r, -, -, -, hledger⟩ := h
    exact hledger.ok
  | setEmpty a r => exact h.2.2.ok
  | unlock a r => exact h.2.2.ok

theorem Holder.executed {p : CallerPc} (h : Holder s i p) (hp : CallerPc.completed p = true) :
    s.ledger.submitted.length = s.ledger.executed.length := by
  cases p with
  | readRet a =>
    obtain ⟨r, -, -, -, hledger⟩ := h
    exact hledger.length_eq
  | setEmpty a r => exact h.2.2.length_eq
  | unlock a r => exact h.2.2.length_eq
  | _ => cases hp

theorem InService.served {a : ReadArg} (h : InService s i a) :
    s.status = .done ∨ ThreadPc.resting s.thread = false := by
  cases h with
  | published hthread _ _ _ => exact .inr (by rw [hthread]; rfl)
  | transferred _ hthread _ _ => exact .inr (by rw [hthread]; rfl)
  | stored _ hthread _ _ _ => exact .inr (by rw [hthread]; rfl)
  | finished _ _ hstatus _ _ => exact .inl hstatus

theorem completed_inside {p : CallerPc} (h : CallerPc.completed p = true) :
    CallerPc.inside p = true := by
  cases p <;> first | rfl | cases h

theorem SlotInv.ok (h : SlotInv s) : SlotOk s := by
  refine ⟨fun i j hi hj => ?_, fun hw => ?_, ?_, fun i hi => ?_, fun i a hi => ?_⟩
  · obtain ⟨hmi, -⟩ := h.holder hi
    obtain ⟨hmj, -⟩ := h.holder hj
    rw [hmi, Option.some.injEq] at hmj
    exact hmj
  · cases h with
    | free hmutex hout hrest =>
      have hr := hrest.thread
      rw [hw] at hr
      cases hr
    | held k hmutex hout hholder =>
      obtain ⟨a, -, hserv⟩ := hholder.inService (by rw [hw]; rfl)
      exact (hserv.ready hw).1
  · cases h with
    | free hmutex hout hrest => exact hrest.ledger.ok
    | held k hmutex hout hholder => exact hholder.ledger_ok
  · obtain ⟨-, -, hholder⟩ := h.holder (completed_inside hi)
    exact hholder.executed hi
  · obtain ⟨-, -, hholder⟩ := h.holder (i := i) (by rw [hi]; rfl)
    rw [hi] at hholder
    exact hholder.served

/-! ## Steps of `thread_io` -/

/-- Going back to the wait changes nothing for the holder. -/
theorem Holder.rewait {p : CallerPc} (h : Holder s i p) (hr : s.thread = .rewait) :
    Holder { s with thread := .waiting } i p := by
  have hrest : AtRest s → AtRest { s with thread := .waiting } :=
    fun h => ⟨rfl, h.status, h.ledger⟩
  cases p with
  | idle => exact h
  | submitWait a => exact hrest h
  | setType a => exact hrest h
  | setFd a => exact ⟨hrest h.1, h.2⟩
  | setBuf a => exact ⟨hrest h.1, h.2⟩
  | setCount a => exact ⟨hrest h.1, h.2⟩
  | setReady a => exact ⟨hrest h.1, h.2⟩
  | signal a => exact ⟨rfl, h.2⟩
  | completeWait a =>
    cases h with
    | published hthread _ _ _ => rw [hr] at hthread; cases hthread
    | transferred _ hthread _ _ => rw [hr] at hthread; cases hthread
    | stored _ hthread _ _ _ => rw [hr] at hthread; cases hthread
    | finished r _ hstatus hword hledger => exact .finished r rfl hstatus hword hledger
  | readRet a =>
    obtain ⟨r, -, hrest⟩ := h
    exact ⟨r, rfl, hrest⟩
  | setEmpty a r => exact ⟨rfl, h.2⟩
  | unlock a r => exact ⟨rfl, h.2⟩

/-- A transfer, a stored result, a published `DONE`: the command moves on in service. -/
theorem InService.threadStep {a : ReadArg} {ret : Int} {s' : Slot ι} (h : InService s i a)
    (hbusy : ThreadPc.resting s.thread = false) (hs : s.threadStep ret = some s') :
    InService s' i a ∧ s'.mutex = s.mutex ∧ s'.pc = s.pc := by
  cases h with
  | published hthread hstatus hcmd hledger =>
    rw [Slot.threadStep, hthread] at hs
    cases hs
    refine ⟨.transferred ret rfl hstatus ?_, rfl, rfl⟩
    show (s.ledger.execute s.cmd ret).Done i ⟨.read, a⟩ ret
    rw [hcmd]
    exact hledger.execute
  | transferred r hthread hstatus hledger =>
    rw [Slot.threadStep, hthread] at hs
    cases hs
    exact ⟨.stored r rfl hstatus rfl hledger, rfl, rfl⟩
  | stored r hthread hstatus hword hledger =>
    rw [Slot.threadStep, hthread] at hs
    cases hs
    exact ⟨.finished r rfl rfl hword hledger, rfl, rfl⟩
  | finished r hthread _ _ _ =>
    rw [hbusy] at hthread
    cases hthread

theorem SlotInv.thread {ret : Int} {s' : Slot ι} (h : SlotInv s)
    (hs : s.threadStep ret = some s') : SlotInv s' := by
  by_cases hbusy : ThreadPc.resting s.thread = false
  · cases h with
    | free hmutex hout hrest =>
      rw [hrest.thread] at hbusy
      cases hbusy
    | held i hmutex hout hholder =>
      obtain ⟨a, hpc, hserv⟩ := hholder.inService hbusy
      obtain ⟨hserv', hm', hpc'⟩ := hserv.threadStep hbusy hs
      refine .held i (hm'.trans hmutex) (fun j hj => by rw [hpc']; exact hout j hj) ?_
      rw [hpc', hpc]
      exact hserv'
  · have hre : s.thread = .rewait ∧ s' = { s with thread := .waiting } := by
      unfold Slot.threadStep at hs
      cases hth : s.thread with
      | waiting => rw [hth] at hs; cases hs
      | rewait => rw [hth] at hs; cases hs; exact ⟨rfl, rfl⟩
      | woken => rw [hth] at hbusy; exact absurd rfl hbusy
      | storeRet r => rw [hth] at hbusy; exact absurd rfl hbusy
      | setDone => rw [hth] at hbusy; exact absurd rfl hbusy
    obtain ⟨hth, rfl⟩ := hre
    cases h with
    | free hmutex hout hrest => exact .free hmutex hout ⟨rfl, hrest.status, hrest.ledger⟩
    | held i hmutex hout hholder => exact .held i hmutex hout (hholder.rewait hth)

/-! ## Steps of a caller -/

variable [DecidableEq ι]

@[simp] theorem pc_goto_self {p : CallerPc} : (s.goto i p).pc i = p := Function.update_self _ _ _

theorem pc_goto_ne {j : ι} {p : CallerPc} (h : j ≠ i) : (s.goto i p).pc j = s.pc j :=
  Function.update_of_ne h _ _

/-! Where a caller is does not matter to what is in the slot. -/

theorem AtRest.goto {j : ι} {p : CallerPc} (h : AtRest s) : AtRest (s.goto j p) :=
  ⟨h.thread, h.status, h.ledger⟩

theorem InService.goto {j : ι} {p : CallerPc} {a : ReadArg} (h : InService s i a) :
    InService (s.goto j p) i a := by
  cases h with
  | published hthread hstatus hcmd hledger => exact .published hthread hstatus hcmd hledger
  | transferred r hthread hstatus hledger => exact .transferred r hthread hstatus hledger
  | stored r hthread hstatus hword hledger => exact .stored r hthread hstatus hword hledger
  | finished r hthread hstatus hword hledger => exact .finished r hthread hstatus hword hledger

theorem Holder.goto {j : ι} {p q : CallerPc} (h : Holder s i q) : Holder (s.goto j p) i q := by
  cases q with
  | idle => exact h
  | submitWait a => exact AtRest.goto h
  | setType a => exact AtRest.goto h
  | setFd a => exact ⟨h.1.goto, h.2⟩
  | setBuf a => exact ⟨h.1.goto, h.2⟩
  | setCount a => exact ⟨h.1.goto, h.2⟩
  | setReady a => exact ⟨h.1.goto, h.2⟩
  | signal a => exact h
  | completeWait a => exact InService.goto h
  | readRet a => exact h
  | setEmpty a r => exact h
  | unlock a r => exact h

/-- The holder goes to its next line. -/
theorem slotInv_goto {p : CallerPc} (hmutex : s.mutex = some i)
    (hout : ∀ j, j ≠ i → CallerPc.inside (s.pc j) = false) (hholder : Holder s i p) :
    SlotInv (s.goto i p) := by
  refine .held i hmutex (fun j hj => ?_) ?_
  · rw [pc_goto_ne hj]
    exact hout j hj
  · rw [pc_goto_self]
    exact hholder.goto

/-- The submit test, where it meets a free lock or the caller's own. -/
theorem SlotInv.submit {a : ReadArg} {s' : Slot ι} (h : SlotInv s) (hpc : s.pc i = .submitWait a)
    (hm : s.mutex = none ∨ s.mutex = some i) (hs : s.callerStep i = some s') : SlotInv s' := by
  have hrest := h.atRest hpc hm
  unfold Slot.callerStep at hs
  rw [hpc] at hs
  cases h with
  | free hmutex hout _ =>
    -- The lock is taken, and the caller stays in its wait.
    rw [hmutex] at hs
    cases hs
    refine .held i rfl (fun j _ => hout j) ?_
    show Holder _ i (s.pc i)
    rw [hpc]
    exact ⟨hrest.thread, hrest.status, hrest.ledger⟩
  | held k hmutex hout _ =>
    have hk : k = i := by
      rcases hm with hnone | hsome
      · rw [hmutex] at hnone
        cases hnone
      · rw [hmutex, Option.some.injEq] at hsome
        exact hsome
    subst hk
    rw [hmutex] at hs
    cases hs
    exact slotInv_goto hmutex hout hrest

/-- **One line of the holder.** -/
theorem SlotInv.callerInside {s' : Slot ι} (h : SlotInv s)
    (hin : CallerPc.inside (s.pc i) = true) (hc : SlotCond s (.caller i))
    (hs : s.callerStep i = some s') : SlotInv s' := by
  obtain ⟨hmutex, hout, hholder⟩ := h.holder hin
  unfold Slot.callerStep at hs
  cases hpc : s.pc i with
  | idle => rw [hpc] at hin; cases hin
  | submitWait a => rw [hpc] at hin; cases hin
  | setType a =>
    rw [hpc] at hs hholder
    cases hs
    exact slotInv_goto hmutex hout ⟨⟨hholder.thread, hholder.status, hholder.ledger⟩, rfl⟩
  | setFd a =>
    rw [hpc] at hs hholder
    obtain ⟨hrest, htype⟩ := hholder
    cases hs
    exact slotInv_goto hmutex hout ⟨⟨hrest.thread, hrest.status, hrest.ledger⟩, htype, rfl⟩
  | setBuf a =>
    rw [hpc] at hs hholder
    obtain ⟨hrest, htype, hfd⟩ := hholder
    cases hs
    exact slotInv_goto hmutex hout ⟨⟨hrest.thread, hrest.status, hrest.ledger⟩, htype, hfd, rfl⟩
  | setCount a =>
    rw [hpc] at hs hholder
    obtain ⟨hrest, htype, hfd, hbuf⟩ := hholder
    cases hs
    refine slotInv_goto hmutex hout ⟨⟨hrest.thread, hrest.status, hrest.ledger⟩, ?_⟩
    simp only [Slot.cmd, htype, hfd, hbuf]
  | setReady a =>
    rw [hpc] at hs hholder
    obtain ⟨hrest, hcmd⟩ := hholder
    cases hs
    exact slotInv_goto hmutex hout ⟨hrest.thread, rfl, hcmd, hrest.ledger.submit⟩
  | signal a =>
    rw [hpc] at hs hholder
    simp only [SlotCond, hpc, LineCond] at hc
    obtain ⟨-, hstatus, hcmd, hledger⟩ := hholder
    cases hs
    have hwake : s.wake = .woken := if_pos hc
    exact slotInv_goto hmutex hout (.published hwake hstatus hcmd hledger)
  | completeWait a =>
    rw [hpc] at hs
    simp only [Option.some.injEq] at hs
    subst hs
    split
    · rename_i hdone
      rw [hpc] at hholder
      refine slotInv_goto hmutex hout ?_
      cases hholder with
      | published _ hstatus _ _ => rw [hdone] at hstatus; cases hstatus
      | transferred _ _ hstatus _ => rw [hdone] at hstatus; cases hstatus
      | stored _ _ hstatus _ _ => rw [hdone] at hstatus; cases hstatus
      | finished r hthread hstatus hword hledger => exact ⟨r, hthread, hstatus, hword, hledger⟩
    · exact h
  | readRet a =>
    rw [hpc] at hs hholder
    obtain ⟨r, hthread, hstatus, hword, hledger⟩ := hholder
    cases hs
    rw [hword]
    exact slotInv_goto hmutex hout ⟨hthread, hstatus, hledger⟩
  | setEmpty a r =>
    rw [hpc] at hs hholder
    cases hs
    exact slotInv_goto hmutex hout ⟨hholder.1, rfl, hholder.2.2⟩
  | unlock a r =>
    rw [hpc] at hs hholder
    obtain ⟨hthread, hstatus, hledger⟩ := hholder
    cases hs
    refine .free rfl (fun j => ?_) ⟨hthread, hstatus, hledger.answer⟩
    by_cases hj : j = i
    · subst hj
      rw [pc_goto_self]
      rfl
    · rw [pc_goto_ne hj]
      exact hout j hj

theorem SlotInv.call {a : ReadArg} (h : SlotInv s) (hpc : s.pc i = .idle) :
    SlotInv (s.goto i (.submitWait a)) := by
  have hout : ∀ j, CallerPc.inside (s.pc j) = false →
      CallerPc.inside ((s.goto i (.submitWait a)).pc j) = false := by
    intro j hj
    by_cases hji : j = i
    · subst hji
      rw [pc_goto_self]
      rfl
    · rwa [pc_goto_ne hji]
  cases h with
  | free hmutex hout₀ hrest =>
    exact .free hmutex (fun j => hout j (hout₀ j)) ⟨hrest.thread, hrest.status, hrest.ledger⟩
  | held k hmutex hout₀ hholder =>
    have hki : k ≠ i := by
      intro hk
      rw [hk, hpc] at hholder
      exact hholder
    refine .held k hmutex (fun j hj => hout j (hout₀ j hj)) ?_
    rw [pc_goto_ne hki]
    exact hholder.goto

/-- **The step lemma.** -/
theorem SlotInv.step {s' : Slot ι} {act : SlotAct ι} (h : SlotInv s) (hc : SlotCond s act)
    (hs : slotStep s act = some s') : SlotInv s' := by
  cases act with
  | call i a =>
    by_cases hpc : s.pc i = .idle
    · rw [slotStep, if_pos hpc, Option.some.injEq] at hs
      exact hs ▸ h.call hpc
    · rw [slotStep, if_neg hpc] at hs
      cases hs
  | caller i =>
    cases hin : CallerPc.inside (s.pc i) with
    | true => exact h.callerInside hin hc hs
    | false =>
      cases hpc : s.pc i with
      | submitWait a =>
        simp only [SlotCond, hpc, LineCond] at hc
        exact h.submit hpc hc hs
      | idle =>
        rw [slotStep, Slot.callerStep, hpc] at hs
        cases hs
      | _ => rw [hpc] at hin; cases hin
  | thread ret => exact h.thread hs
  | spuriousWake => exact hc.elim

/-- **The slot keeps its promise** in every state of every run whose steps meet `SlotCond`. -/
theorem slotOk_of_cond {acts : List (SlotAct ι)}
    (hmeets : MeetsAll slotStep SlotCond Slot.init acts)
    (hrun : runActs slotStep Slot.init acts = some s) : SlotOk s :=
  (invariant_of_step (I := SlotInv) (fun _ _ _ h hc hs => h.step hc hs) acts Slot.init s
    slotInv_init hmeets hrun).ok

/-- Two callers, the second of which calls while the first is inside and tests the lock when it is
    out: the second submit test of each finds its own lock, and the first completion test of the
    first comes too early. -/
def turnsActs : List (SlotAct (Fin 2)) :=
  [.call 0 ⟨3, 100, 512⟩] ++ List.replicate 9 (.caller 0) ++ [.call 1 ⟨4, 200, 512⟩] ++
    List.replicate 4 (.thread 512) ++ List.replicate 4 (.caller 0) ++
    List.replicate 8 (.caller 1) ++ List.replicate 4 (.thread 7) ++ List.replicate 4 (.caller 1)

theorem slotOk_of_cond_turns : ∃ s, runActs slotStep Slot.init turnsActs = some s ∧
    s.ledger.answered = [(0, 512), (1, 7)] ∧ SlotOk s :=
  ⟨_, rfl, rfl, slotOk_of_cond (show MeetsAll slotStep SlotCond Slot.init turnsActs by decide) rfl⟩

/-- Two callers: the first takes the lock and waits on, the second finds it taken and goes in,
    and then so does the first. -/
theorem slot_shared : ∃ s : Slot (Fin 2),
    runActs slotStep Slot.init
      [.call 0 ⟨3, 100, 512⟩, .call 1 ⟨4, 200, 512⟩, .caller 0, .caller 1, .caller 0] = some s ∧
    ¬ SlotOk s :=
  ⟨_, rfl, fun hok => absurd (hok.exclusive 0 1 rfl rfl) (by decide)⟩

end

end Umka.Proof.Io
