import Umka.Shell.CmdSlot

/-!
# The command slot, client by client

The slot has no owner: nothing keeps a client from writing into it while another's command is
in it, and nothing keeps `thread_cmd_runner` from taking a command whose client has decided, a
moment before `running` became `UMKA_RUNNING_YES`, to execute it itself. On the way back, the
runner's signal is lost on a client that has not yet reached `pthread_cond_wait`, and the wait,
which is not in a loop, may return by itself.

`CmdCond` is the condition that none of this happens, on the state a step is taken from, and
`cmdOk_of_cond` says what every run that meets it has: each command executed once, as its
client wrote it, before `shell_run_cmd` returns, and left alone until then.
-/

set_option autoImplicit false

namespace Umka.Proof.Shell

open Lib Vdisk Umka.Shell

/-- A published command's type and words, while its client waits or works for it. -/
def ClientPc.request? : ClientPc → Option (CmdType × List Nat)
  | .loadRunning t ws => some (t, ws)
  | .enterWait t ws => some (t, ws)
  | .waiting t ws => some (t, ws)
  | .exec t ws => some (t, ws)
  | .setDone t ws => some (t, ws)
  | _ => none

/-- `shell_run_cmd` has returned. -/
def ClientPc.returned : ClientPc → Bool
  | .clear _ => true
  | .between _ => true
  | _ => false

/-- The client has decided to execute its command itself. -/
def ClientPc.inline : ClientPc → Bool
  | .exec _ _ => true
  | .setDone _ _ => true
  | .signal _ _ => true
  | _ => false

/-- The client has not begun to write to the slot. -/
def ClientPc.outside : ClientPc → Bool
  | .idle => true
  | .setType _ _ => true
  | _ => false

def ClientPc.blocked : ClientPc → Bool
  | .waiting _ _ => true
  | _ => false

/-- The slot holds type `t`, one that has a case, and the words `ws`. -/
structure Written (s : CmdSlot) (t : CmdType) (ws : List Nat) : Prop where
  known : t.argWords? ≠ none
  type_eq : s.type = t
  words_eq : ∀ k v, ws[k]? = some v → s.words k = v

/-- What the slot should promise. -/
structure CmdOk (s : CmdSlot) : Prop where
  ledger : s.ledger.Ok
  executed : ∀ i, ClientPc.returned (s.pc i) = true →
    s.ledger.submitted.length = s.ledger.executed.length
  intact : ∀ i t ws, ClientPc.request? (s.pc i) = some (t, ws) → s.status = .ready → Written s t ws

/-- The runner's step, taken where it does no harm: it finds a command only when the OS runs and
    nobody executes one inline, and it signals to a client that waits. -/
def RunnerCond (s : CmdSlot) : RunnerPc → Prop
  | .test => s.status = .ready → s.running = .yes ∧
      ClientPc.inline (s.pc .monitor) = false ∧ ClientPc.inline (s.pc .display) = false
  | .signal => ClientPc.blocked (s.pc .monitor) = true ∨ ClientPc.blocked (s.pc .display) = true
  | _ => True

/-- A client begins to write only while the other one is not in the slot. -/
def ClientCond (s : CmdSlot) (i : Client) : ClientPc → Prop
  | .setType _ _ => ClientPc.outside (s.pc i.other) = true
  | _ => True

/-- One client uses the slot at a time, the runner keeps to `RunnerCond`, and no wait returns by
    itself. -/
def CmdCond (s : CmdSlot) : CmdAct → Prop
  | .begin _ _ _ => True
  | .again _ _ => True
  | .client i _ => ClientCond s i (s.pc i)
  | .runner _ => RunnerCond s s.runner
  | .startOs => True
  | .spuriousWake _ => False

instance (s : CmdSlot) : ∀ p, Decidable (RunnerCond s p)
  | .test => inferInstanceAs (Decidable (s.status = .ready → s.running = .yes ∧
      ClientPc.inline (s.pc .monitor) = false ∧ ClientPc.inline (s.pc .display) = false))
  | .signal => inferInstanceAs (Decidable
      (ClientPc.blocked (s.pc .monitor) = true ∨ ClientPc.blocked (s.pc .display) = true))
  | .exec | .setDone => isTrue trivial

instance (s : CmdSlot) (i : Client) : ∀ p, Decidable (ClientCond s i p)
  | .setType _ _ => inferInstanceAs (Decidable (ClientPc.outside (s.pc i.other) = true))
  | .idle | .setWord _ _ _ | .setReady _ _ | .loadRunning _ _ | .enterWait _ _ | .waiting _ _
  | .exec _ _ | .setDone _ _ | .signal _ _ | .clear _ | .between _ => isTrue trivial

instance (s : CmdSlot) : ∀ act, Decidable (CmdCond s act)
  | .begin _ _ _ | .again _ _ | .startOs => isTrue trivial
  | .client i _ => inferInstanceAs (Decidable (ClientCond s i (s.pc i)))
  | .runner _ => inferInstanceAs (Decidable (RunnerCond s s.runner))
  | .spuriousWake _ => isFalse id

/-! ## The invariant -/

/-- The client is not in the slot; the command it may have in mind has a case. -/
def Outside : ClientPc → Prop
  | .idle => True
  | .setType t _ => t.argWords? ≠ none
  | _ => False

/-- Nobody's command is in the slot. -/
structure AtRest (s : CmdSlot) : Prop where
  status : s.status = .empty
  runner : s.runner = .test
  ledger : s.ledger.Idle

/-- Where the published command of `i` is: in the slot, or with the runner. -/
inductive Service (s : CmdSlot) (i : Client) : Prop
  | published (c : ShellCmd) (hrunner : s.runner = .test) (hstatus : s.status = .ready)
      (hcmd : s.cmd? = some c) (hledger : s.ledger.Pending i c)
  | taken (c : ShellCmd) (hyes : s.running = .yes) (hrunner : s.runner = .exec)
      (hstatus : s.status = .ready) (hcmd : s.cmd? = some c) (hledger : s.ledger.Pending i c)
  | executed (c : ShellCmd) (hyes : s.running = .yes) (hrunner : s.runner = .setDone)
      (hstatus : s.status = .ready) (hledger : s.ledger.Done i c ())
  | finished (c : ShellCmd) (hyes : s.running = .yes) (hrunner : s.runner = .signal)
      (hstatus : s.status = .done) (hledger : s.ledger.Done i c ())

/-- What holds of the slot while `i` uses it and is at `p`. -/
def User (s : CmdSlot) (i : Client) : ClientPc → Prop
  | .idle => False
  | .setType _ _ => False
  | .setWord t ws k => AtRest s ∧ Written s t (ws.take k)
  | .setReady t ws => AtRest s ∧ Written s t ws
  | .loadRunning t ws => Written s t ws ∧ Service s i
  | .enterWait t ws => Written s t ws ∧ Service s i ∧ s.running = .yes
  | .waiting t ws => Written s t ws ∧ Service s i ∧ s.running = .yes
  | .exec t ws => Written s t ws ∧ s.runner = .test ∧ s.status = .ready ∧
      ∃ c, s.cmd? = some c ∧ s.ledger.Pending i c
  | .setDone t ws => Written s t ws ∧ s.runner = .test ∧ s.status = .ready ∧
      ∃ c, s.ledger.Done i c ()
  | .signal t _ => Written s t [] ∧ s.runner = .test ∧ s.status = .done ∧ ∃ c, s.ledger.Done i c ()
  | .clear t => Written s t [] ∧ s.runner = .test ∧ s.status = .done ∧ s.ledger.Idle
  | .between t => Written s t [] ∧ AtRest s

/-- Nobody uses the slot, or one client does. -/
inductive CmdInv (s : CmdSlot) : Prop
  | free (hall : ∀ j, Outside (s.pc j)) (hrest : AtRest s)
  | used (i : Client) (hothers : ∀ j, j ≠ i → Outside (s.pc j)) (huser : User s i (s.pc i))

theorem cmdInv_init : CmdInv CmdSlot.init :=
  .free (fun _ => trivial) ⟨rfl, rfl, Ledger.idle_empty⟩

theorem Outside.outside {p : ClientPc} (h : Outside p) : ClientPc.outside p = true := by
  cases p with
  | idle => rfl
  | setType t ws => rfl
  | _ => exact h.elim

theorem Outside.not_blocked {p : ClientPc} (h : Outside p) : ClientPc.blocked p = false := by
  cases p with
  | waiting t ws => exact h.elim
  | _ => rfl

section

variable {s : CmdSlot} {i : Client}

theorem User.inside {p : ClientPc} (h : User s i p) : ClientPc.outside p = false := by
  cases p with
  | idle => exact h.elim
  | setType t ws => exact h.elim
  | _ => rfl

/-- With every word written, the command meant is the command there. -/
theorem Written.meant_eq {t : CmdType} {ws : List Nat} (h : Written s t ws) :
    ∃ c, s.meant? t ws = some c ∧ s.cmd? = some c := by
  obtain ⟨n, hn⟩ := Option.ne_none_iff_exists'.mp h.known
  refine ⟨⟨t, (List.range n).map s.words⟩, ?_, ?_⟩
  · have hmap : (fun k => ws.getD k (s.words k)) = s.words := by
      funext k
      rw [List.getD_eq_getElem?_getD]
      cases hk : ws[k]? with
      | none => rfl
      | some v => exact (h.words_eq k v hk).symm
    rw [CmdSlot.meant?, hn, hmap]
    rfl
  · rw [CmdSlot.cmd?, h.type_eq, hn]
    rfl

theorem Service.ok (h : Service s i) : s.ledger.Ok := by
  cases h with
  | published _ _ _ _ hledger => exact hledger.ok
  | taken _ _ _ _ _ hledger => exact hledger.ok
  | executed _ _ _ _ hledger => exact hledger.ok
  | finished _ _ _ _ hledger => exact hledger.ok

theorem User.ledger_ok {p : ClientPc} (h : User s i p) : s.ledger.Ok := by
  cases p with
  | idle => exact h.elim
  | setType t ws => exact h.elim
  | setWord t ws k => exact h.1.ledger.ok
  | setReady t ws => exact h.1.ledger.ok
  | loadRunning t ws => exact h.2.ok
  | enterWait t ws => exact h.2.1.ok
  | waiting t ws => exact h.2.1.ok
  | exec t ws =>
    obtain ⟨-, -, -, c, -, hledger⟩ := h
    exact hledger.ok
  | setDone t ws =>
    obtain ⟨-, -, -, c, hledger⟩ := h
    exact hledger.ok
  | signal t ws =>
    obtain ⟨-, -, -, c, hledger⟩ := h
    exact hledger.ok
  | clear t => exact h.2.2.2.ok
  | between t => exact h.2.ledger.ok

theorem User.written {p : ClientPc} {t : CmdType} {ws : List Nat} (h : User s i p)
    (hp : ClientPc.request? p = some (t, ws)) : Written s t ws := by
  cases p with
  | loadRunning t' ws' => cases hp; exact h.1
  | enterWait t' ws' => cases hp; exact h.1
  | waiting t' ws' => cases hp; exact h.1
  | exec t' ws' => cases hp; exact h.1
  | setDone t' ws' => cases hp; exact h.1
  | _ => cases hp

/-- A client that is in the slot is its user. -/
theorem CmdInv.user (h : CmdInv s) (hpc : ClientPc.outside (s.pc i) = false) :
    (∀ j, j ≠ i → Outside (s.pc j)) ∧ User s i (s.pc i) := by
  cases h with
  | free hall hrest => exact absurd (hall i).outside (Bool.eq_false_iff.mp hpc)
  | used k hothers huser =>
    have hk : i = k := by
      by_contra hne
      exact Bool.eq_false_iff.mp hpc (hothers i hne).outside
    subst hk
    exact ⟨hothers, huser⟩

theorem CmdInv.ok (h : CmdInv s) : CmdOk s := by
  refine ⟨?_, fun i hi => ?_, fun i t ws hi _ => ?_⟩
  · cases h with
    | free hall hrest => exact hrest.ledger.ok
    | used k hothers huser => exact huser.ledger_ok
  · cases hpc : s.pc i with
    | clear t =>
      obtain ⟨-, huser⟩ := h.user (i := i) (by rw [hpc]; rfl)
      rw [hpc] at huser
      exact huser.2.2.2.length_eq
    | between t =>
      obtain ⟨-, huser⟩ := h.user (i := i) (by rw [hpc]; rfl)
      rw [hpc] at huser
      exact huser.2.ledger.length_eq
    | _ => rw [hpc] at hi; cases hi
  · have hpc : ClientPc.outside (s.pc i) = false := by
      cases hp : s.pc i with
      | idle => rw [hp] at hi; cases hi
      | setType t' ws' => rw [hp] at hi; cases hi
      | _ => rfl
    exact (h.user hpc).2.written hi

/-! Where a client is does not matter to what is in the slot. -/

theorem AtRest.goto {j : Client} {q : ClientPc} (h : AtRest s) : AtRest (s.goto j q) :=
  ⟨h.status, h.runner, h.ledger⟩

theorem Written.goto {j : Client} {q : ClientPc} {t : CmdType} {ws : List Nat}
    (h : Written s t ws) : Written (s.goto j q) t ws :=
  ⟨h.known, h.type_eq, h.words_eq⟩

theorem Service.goto {j : Client} {q : ClientPc} (h : Service s i) : Service (s.goto j q) i := by
  cases h with
  | published c hrunner hstatus hcmd hledger => exact .published c hrunner hstatus hcmd hledger
  | taken c hyes hrunner hstatus hcmd hledger => exact .taken c hyes hrunner hstatus hcmd hledger
  | executed c hyes hrunner hstatus hledger => exact .executed c hyes hrunner hstatus hledger
  | finished c hyes hrunner hstatus hledger => exact .finished c hyes hrunner hstatus hledger

theorem User.goto {j : Client} {p q : ClientPc} (h : User s i p) : User (s.goto j q) i p := by
  cases p with
  | idle => exact h
  | setType t ws => exact h
  | setWord t ws k => exact ⟨h.1.goto, h.2.goto⟩
  | setReady t ws => exact ⟨h.1.goto, h.2.goto⟩
  | loadRunning t ws => exact ⟨h.1.goto, h.2.goto⟩
  | enterWait t ws => exact ⟨h.1.goto, h.2.1.goto, h.2.2⟩
  | waiting t ws => exact ⟨h.1.goto, h.2.1.goto, h.2.2⟩
  | exec t ws => exact ⟨h.1.goto, h.2⟩
  | setDone t ws => exact ⟨h.1.goto, h.2⟩
  | signal t ws => exact ⟨h.1.goto, h.2⟩
  | clear t => exact ⟨h.1.goto, h.2⟩
  | between t => exact ⟨h.1.goto, h.2.goto⟩

@[simp] theorem pc_goto_self {p : ClientPc} : (s.goto i p).pc i = p := Function.update_self _ _ _

theorem pc_goto_ne {j : Client} {p : ClientPc} (h : j ≠ i) : (s.goto i p).pc j = s.pc j :=
  Function.update_of_ne h _ _

/-- The user goes to its next line. -/
theorem cmdInv_goto {p : ClientPc} (hothers : ∀ j, j ≠ i → Outside (s.pc j)) (huser : User s i p) :
    CmdInv (s.goto i p) := by
  refine .used i (fun j hj => ?_) ?_
  · rw [pc_goto_ne hj]
    exact hothers j hj
  · rw [pc_goto_self]
    exact huser.goto

/-- The user leaves, or a client that is outside thinks of a command. -/
theorem cmdInv_leave {p : ClientPc} (hothers : ∀ j, j ≠ i → Outside (s.pc j)) (hp : Outside p)
    (hrest : AtRest s) : CmdInv (s.goto i p) := by
  refine .free (fun j => ?_) hrest.goto
  by_cases hj : j = i
  · subst hj
    rwa [pc_goto_self]
  · rw [pc_goto_ne hj]
    exact hothers j hj

/-! ## Steps of a client -/

theorem wake?_eq_none {j : Client} (h : ClientPc.blocked (s.pc j) = false) :
    s.wake? j = none := by
  unfold CmdSlot.wake?
  cases hpc : s.pc j with
  | waiting t ws => rw [hpc] at h; cases h
  | _ => rfl

/-- With the other client outside and this one not waiting, a signal is lost. -/
theorem signal_lost {pick : Client} (hothers : ∀ j, j ≠ i → Outside (s.pc j))
    (hi : ClientPc.blocked (s.pc i) = false) : s.signal pick = s := by
  have hnone : ∀ j, s.wake? j = none := by
    intro j
    refine wake?_eq_none ?_
    by_cases hj : j = i
    · subst hj
      exact hi
    · exact (hothers j hj).not_blocked
  rw [CmdSlot.signal, hnone, hnone]
  rfl

/-- One more word. -/
theorem Written.word {t : CmdType} {ws : List Nat} {k v : Nat} (h : Written s t (ws.take k))
    (hv : ws[k]? = some v) :
    Written { s with words := Function.update s.words k v } t (ws.take (k + 1)) := by
  refine ⟨h.known, h.type_eq, fun j u hj => ?_⟩
  have hjk : j < k + 1 := by
    by_contra hge
    rw [List.getElem?_take, if_neg hge] at hj
    cases hj
  rw [List.getElem?_take_of_lt hjk] at hj
  by_cases hk : j = k
  · subst hk
    rw [hv, Option.some.injEq] at hj
    exact (Function.update_self _ _ _).trans hj
  · exact (Function.update_of_ne hk _ _).trans
      (h.words_eq j u (by rw [List.getElem?_take_of_lt (by omega)]; exact hj))

theorem Written.all {t : CmdType} {ws : List Nat} {k : Nat} (h : Written s t (ws.take k))
    (hk : ws[k]? = none) : Written s t ws := by
  rwa [List.take_of_length_le (List.getElem?_eq_none_iff.mp hk)] at h

/-- Publishing. -/
theorem CmdInv.publish {t : CmdType} {ws : List Nat} {s' : CmdSlot}
    (hothers : ∀ j, j ≠ i → Outside (s.pc j)) (hrest : AtRest s) (hw : Written s t ws)
    (hs : ((s.meant? t ws).map fun c =>
      ({ s with status := .ready, ledger := s.ledger.submit i c } : CmdSlot).goto i
        (.loadRunning t ws)) = some s') : CmdInv s' := by
  obtain ⟨c, hmeant, hcmd⟩ := hw.meant_eq
  rw [hmeant, Option.map_some, Option.some.injEq] at hs
  subst hs
  exact cmdInv_goto hothers ⟨⟨hw.known, hw.type_eq, hw.words_eq⟩,
    .published c hrest.runner rfl hcmd hrest.ledger.submit⟩

theorem eq_other {i j : Client} (h : j ≠ i) : j = i.other := by
  cases i <;> cases j <;> first | rfl | exact absurd rfl h

/-- **The first line**: with the other client outside, so is everybody. -/
theorem CmdInv.setType {t : CmdType} {ws : List Nat} (h : CmdInv s) (hpc : s.pc i = .setType t ws)
    (hother : ClientPc.outside (s.pc i.other) = true) :
    CmdInv ({ s with type := t }.goto i (.setWord t ws 0)) := by
  cases h with
  | free hall hrest =>
    have hknown := hall i
    rw [hpc] at hknown
    exact cmdInv_goto (fun j _ => hall j)
      ⟨⟨hrest.status, hrest.runner, hrest.ledger⟩, hknown, rfl, by simp⟩
  | used k hothers huser =>
    have hk : ClientPc.outside (s.pc k) = true := by
      by_cases hki : k = i
      · rw [hki, hpc]
        rfl
      · rwa [eq_other hki]
    exact absurd hk (Bool.eq_false_iff.mp huser.inside)

/-- **One line of the user.** -/
theorem CmdInv.userLine {pick : Client} {s' : CmdSlot}
    (hothers : ∀ j, j ≠ i → Outside (s.pc j)) (huser : User s i (s.pc i))
    (hs : s.clientStep i pick = some s') : CmdInv s' := by
  unfold CmdSlot.clientStep at hs
  cases hp : s.pc i with
  | idle =>
    rw [hp] at huser
    exact huser.elim
  | setType t ws =>
    rw [hp] at huser
    exact huser.elim
  | setWord t ws k =>
    rw [hp] at hs huser
    obtain ⟨hrest, hw⟩ := huser
    cases hv : ws[k]? with
    | some v =>
      simp only [hv, Option.some.injEq] at hs
      subst hs
      exact cmdInv_goto hothers ⟨⟨hrest.status, hrest.runner, hrest.ledger⟩, hw.word hv⟩
    | none =>
      simp only [hv, Option.some.injEq] at hs
      subst hs
      exact cmdInv_goto hothers ⟨hrest, hw.all hv⟩
  | setReady t ws =>
    rw [hp] at hs huser
    exact CmdInv.publish hothers huser.1 huser.2 hs
  | loadRunning t ws =>
    rw [hp] at huser
    obtain ⟨hw, hserv⟩ := huser
    simp only [hp, Option.some.injEq] at hs
    subst hs
    split
    · rename_i hyes
      exact cmdInv_goto hothers ⟨hw, hserv, hyes⟩
    · rename_i hno
      -- The runner has the command only while the OS runs.
      refine cmdInv_goto hothers ?_
      cases hserv with
      | published c hrunner hstatus hcmd hledger =>
        exact ⟨hw, hrunner, hstatus, c, hcmd, hledger⟩
      | taken _ hyes _ _ _ _ => exact absurd hyes hno
      | executed _ hyes _ _ _ => exact absurd hyes hno
      | finished _ hyes _ _ _ => exact absurd hyes hno
  | enterWait t ws =>
    rw [hp] at hs huser
    cases hs
    exact cmdInv_goto hothers huser
  | waiting t ws =>
    rw [hp] at hs
    cases hs
  | exec t ws =>
    rw [hp] at hs huser
    obtain ⟨hw, hrunner, hstatus, c, hcmd, hledger⟩ := huser
    have hexec : s.execute = { s with ledger := s.ledger.execute c () } := by
      rw [CmdSlot.execute, hcmd]
    simp only [hexec, Option.some.injEq] at hs
    subst hs
    exact cmdInv_goto hothers ⟨⟨hw.known, hw.type_eq, hw.words_eq⟩, hrunner, hstatus, c,
      hledger.execute⟩
  | setDone t ws =>
    rw [hp] at hs huser
    obtain ⟨hw, hrunner, -, hledger⟩ := huser
    cases hs
    exact cmdInv_goto hothers ⟨⟨hw.known, hw.type_eq, by simp⟩, hrunner, rfl, hledger⟩
  | signal t ws =>
    rw [hp] at huser
    obtain ⟨hw, hrunner, hstatus, c, hledger⟩ := huser
    simp only [hp, Option.some.injEq] at hs
    rw [signal_lost hothers (by rw [hp]; rfl)] at hs
    subst hs
    exact cmdInv_goto hothers ⟨⟨hw.known, hw.type_eq, by simp⟩, hrunner, hstatus,
      hledger.answer⟩
  | clear t =>
    rw [hp] at hs huser
    obtain ⟨hw, hrunner, -, hledger⟩ := huser
    cases hs
    exact cmdInv_goto hothers ⟨⟨hw.known, hw.type_eq, by simp⟩, rfl, hrunner, hledger⟩
  | between t =>
    rw [hp] at hs huser
    cases hs
    exact cmdInv_leave hothers trivial huser.2

/-- **One line of a client.** -/
theorem CmdInv.client {pick : Client} {s' : CmdSlot} (h : CmdInv s)
    (hc : ClientCond s i (s.pc i)) (hs : s.clientStep i pick = some s') : CmdInv s' := by
  cases hin : ClientPc.outside (s.pc i) with
  | false =>
    obtain ⟨hothers, huser⟩ := h.user hin
    exact CmdInv.userLine hothers huser hs
  | true =>
    rw [CmdSlot.clientStep] at hs
    cases hp : s.pc i with
    | idle =>
      rw [hp] at hs
      cases hs
    | setType t ws =>
      rw [hp] at hs hc
      cases hs
      exact h.setType hp hc
    | _ => rw [hp] at hin; cases hin

/-! ## Steps of the runner -/

/-- The runner has a command in hand only while its client is on the way to waiting. -/
theorem User.advance {s' : CmdSlot} {p : ClientPc} (h : User s i p) (hbusy : s.runner ≠ .test)
    (hw : ∀ t ws, Written s t ws → Written s' t ws) (hrun : s'.running = s.running)
    (hserv : Service s i → Service s' i) : User s' i p := by
  cases p with
  | idle => exact h
  | setType t ws => exact h
  | setWord t ws k => exact absurd h.1.runner hbusy
  | setReady t ws => exact absurd h.1.runner hbusy
  | loadRunning t ws => exact ⟨hw t ws h.1, hserv h.2⟩
  | enterWait t ws => exact ⟨hw t ws h.1, hserv h.2.1, hrun.trans h.2.2⟩
  | waiting t ws => exact ⟨hw t ws h.1, hserv h.2.1, hrun.trans h.2.2⟩
  | exec t ws => exact absurd h.2.1 hbusy
  | setDone t ws => exact absurd h.2.1 hbusy
  | signal t ws => exact absurd h.2.1 hbusy
  | clear t => exact absurd h.2.1 hbusy
  | between t => exact absurd h.2.runner hbusy

theorem CmdInv.used_of_busy (h : CmdInv s) (hbusy : s.runner ≠ .test) :
    ∃ i, (∀ j, j ≠ i → Outside (s.pc j)) ∧ User s i (s.pc i) := by
  cases h with
  | free hall hrest => exact absurd hrest.runner hbusy
  | used i hothers huser => exact ⟨i, hothers, huser⟩

/-- A command is found in the slot only if its client is not about to execute it. -/
theorem User.take {p : ClientPc} (h : User s i p) (hrunner : s.runner = .test)
    (hready : s.status = .ready) (hyes : s.running = .yes) (hin : ClientPc.inline p = false) :
    User { s with runner := .exec } i p := by
  have hrest : ¬ AtRest s := by
    intro hr
    rw [hr.status] at hready
    cases hready
  have hserv : Service s i → Service { s with runner := .exec } i := by
    intro hs
    cases hs with
    | published c _ hstatus hcmd hledger => exact .taken c hyes rfl hstatus hcmd hledger
    | taken _ _ hr _ _ _ => rw [hrunner] at hr; cases hr
    | executed _ _ hr _ _ => rw [hrunner] at hr; cases hr
    | finished _ _ hr _ _ => rw [hrunner] at hr; cases hr
  have hw : ∀ t ws, Written s t ws → Written { s with runner := .exec } t ws :=
    fun t ws hw => ⟨hw.known, hw.type_eq, hw.words_eq⟩
  cases p with
  | idle => exact h
  | setType t ws => exact h
  | setWord t ws k => exact absurd h.1 hrest
  | setReady t ws => exact absurd h.1 hrest
  | loadRunning t ws => exact ⟨hw t ws h.1, hserv h.2⟩
  | enterWait t ws => exact ⟨hw t ws h.1, hserv h.2.1, h.2.2⟩
  | waiting t ws => exact ⟨hw t ws h.1, hserv h.2.1, h.2.2⟩
  | exec t ws => cases hin
  | setDone t ws => cases hin
  | signal t ws => cases hin
  | clear t =>
    have hdone := h.2.2.1
    rw [hready] at hdone
    cases hdone
  | between t => exact absurd h.2 hrest

theorem CmdInv.runnerTest (h : CmdInv s) (hrunner : s.runner = .test)
    (hc : RunnerCond s .test) :
    CmdInv (if s.status = .ready then { s with runner := .exec } else s) := by
  split
  · rename_i hready
    obtain ⟨hyes, hm, hd⟩ := hc hready
    cases h with
    | free hall hrest =>
      rw [hrest.status] at hready
      cases hready
    | used i hothers huser =>
      have hin : ClientPc.inline (s.pc i) = false := by
        cases i with
        | monitor => exact hm
        | display => exact hd
      exact .used i hothers (huser.take hrunner hready hyes hin)
  · exact h

theorem CmdInv.runnerExec (h : CmdInv s) (hrunner : s.runner = .exec) :
    CmdInv { s.execute with runner := .setDone } := by
  obtain ⟨i, hothers, huser⟩ := h.used_of_busy (by rw [hrunner]; simp)
  -- The ledger changes, and what it records is the command in the slot.
  obtain ⟨L, hL, hserv⟩ : ∃ L, s.execute = { s with ledger := L } ∧
      (Service s i → Service { s with ledger := L, runner := .setDone } i) := by
    cases hcmd : s.cmd? with
    | none =>
      refine ⟨s.ledger, by rw [CmdSlot.execute, hcmd], fun hs => ?_⟩
      cases hs with
      | published _ hr _ _ _ => rw [hrunner] at hr; cases hr
      | taken c _ _ _ hc _ => rw [hcmd] at hc; cases hc
      | executed _ _ hr _ _ => rw [hrunner] at hr; cases hr
      | finished _ _ hr _ _ => rw [hrunner] at hr; cases hr
    | some c =>
      refine ⟨s.ledger.execute c (), by rw [CmdSlot.execute, hcmd], fun hs => ?_⟩
      cases hs with
      | published _ hr _ _ _ => rw [hrunner] at hr; cases hr
      | taken c' hyes _ hstatus hc hledger =>
        rw [hcmd, Option.some.injEq] at hc
        subst hc
        exact .executed c hyes rfl hstatus hledger.execute
      | executed _ _ hr _ _ => rw [hrunner] at hr; cases hr
      | finished _ _ hr _ _ => rw [hrunner] at hr; cases hr
  rw [hL]
  exact .used i hothers (huser.advance (by rw [hrunner]; simp)
    (fun t ws hw => ⟨hw.known, hw.type_eq, hw.words_eq⟩) rfl hserv)

theorem CmdInv.runnerSetDone (h : CmdInv s) (hrunner : s.runner = .setDone) :
    CmdInv { s with status := .done, runner := .signal } := by
  obtain ⟨i, hothers, huser⟩ := h.used_of_busy (by rw [hrunner]; simp)
  refine .used i hothers (huser.advance (by rw [hrunner]; simp)
    (fun t ws hw => ⟨hw.known, hw.type_eq, hw.words_eq⟩) rfl fun hs => ?_)
  cases hs with
  | published _ hr _ _ _ => rw [hrunner] at hr; cases hr
  | taken _ _ hr _ _ _ => rw [hrunner] at hr; cases hr
  | executed c hyes _ _ hledger => exact .finished c hyes rfl rfl hledger
  | finished _ _ hr _ _ => rw [hrunner] at hr; cases hr

/-- The signal wakes the one client that waits, whoever it would rather wake. -/
theorem signal_wakes {pick : Client} {t : CmdType} {ws : List Nat}
    (hothers : ∀ j, j ≠ i → Outside (s.pc j)) (hpc : s.pc i = .waiting t ws) :
    s.signal pick = s.ret i t := by
  have hi : s.wake? i = some (s.ret i t) := by
    rw [CmdSlot.wake?, hpc]
  have hj : ∀ j, j ≠ i → s.wake? j = none := fun j hne =>
    wake?_eq_none (hothers j hne).not_blocked
  unfold CmdSlot.signal
  by_cases hpick : pick = i
  · rw [hpick, hi]
    rfl
  · rw [hj pick hpick, ← eq_other (Ne.symm hpick), hi]
    rfl

theorem CmdInv.runnerSignal {pick : Client} (h : CmdInv s) (hrunner : s.runner = .signal)
    (hc : RunnerCond s .signal) : CmdInv { s.signal pick with runner := .test } := by
  obtain ⟨i, hothers, huser⟩ := h.used_of_busy (by rw [hrunner]; simp)
  have hblocked : ClientPc.blocked (s.pc i) = true := by
    have hone : ∀ j, ClientPc.blocked (s.pc j) = true → j = i := by
      intro j hj
      by_contra hne
      exact Bool.eq_false_iff.mp (hothers j hne).not_blocked hj
    rcases hc with hm | hd
    · exact hone _ hm ▸ hm
    · exact hone _ hd ▸ hd
  cases hpc : s.pc i with
  | waiting t ws =>
    rw [hpc] at huser
    obtain ⟨hw, hserv, -⟩ := huser
    rw [signal_wakes hothers hpc]
    refine cmdInv_goto (s := { s with runner := .test, ledger := s.ledger.answer i () }) hothers ?_
    cases hserv with
    | published _ hr _ _ _ => rw [hrunner] at hr; cases hr
    | taken _ _ hr _ _ _ => rw [hrunner] at hr; cases hr
    | executed _ _ hr _ _ => rw [hrunner] at hr; cases hr
    | finished c _ _ hstatus hledger =>
      exact ⟨⟨hw.known, hw.type_eq, by simp⟩, rfl, hstatus, hledger.answer⟩
  | _ => rw [hpc] at hblocked; cases hblocked

theorem CmdInv.runner {pick : Client} (h : CmdInv s) (hc : RunnerCond s s.runner) :
    CmdInv (s.runnerStep pick) := by
  unfold CmdSlot.runnerStep
  cases hr : s.runner with
  | test => exact h.runnerTest hr (hr ▸ hc)
  | exec => exact h.runnerExec hr
  | setDone => exact h.runnerSetDone hr
  | signal => exact h.runnerSignal hr (hr ▸ hc)

/-! ## The remaining steps -/

theorem User.startOs {p : ClientPc} (h : User s i p) : User { s with running := .yes } i p := by
  have hrest : AtRest s → AtRest { s with running := .yes } :=
    fun hr => ⟨hr.status, hr.runner, hr.ledger⟩
  have hw : ∀ t ws, Written s t ws → Written { s with running := .yes } t ws :=
    fun t ws hw => ⟨hw.known, hw.type_eq, hw.words_eq⟩
  have hserv : Service s i → Service { s with running := .yes } i := by
    intro hs
    cases hs with
    | published c hrunner hstatus hcmd hledger => exact .published c hrunner hstatus hcmd hledger
    | taken c _ hrunner hstatus hcmd hledger => exact .taken c rfl hrunner hstatus hcmd hledger
    | executed c _ hrunner hstatus hledger => exact .executed c rfl hrunner hstatus hledger
    | finished c _ hrunner hstatus hledger => exact .finished c rfl hrunner hstatus hledger
  cases p with
  | idle => exact h
  | setType t ws => exact h
  | setWord t ws k => exact ⟨hrest h.1, hw _ _ h.2⟩
  | setReady t ws => exact ⟨hrest h.1, hw _ _ h.2⟩
  | loadRunning t ws => exact ⟨hw _ _ h.1, hserv h.2⟩
  | enterWait t ws => exact ⟨hw _ _ h.1, hserv h.2.1, rfl⟩
  | waiting t ws => exact ⟨hw _ _ h.1, hserv h.2.1, rfl⟩
  | exec t ws => exact ⟨hw _ _ h.1, h.2⟩
  | setDone t ws => exact ⟨hw _ _ h.1, h.2⟩
  | signal t ws => exact ⟨hw _ _ h.1, h.2⟩
  | clear t => exact ⟨hw _ _ h.1, h.2⟩
  | between t => exact ⟨hw _ _ h.1, hrest h.2⟩

/-- A client thinks of a command: nothing shared has changed. -/
theorem CmdInv.begin {t : CmdType} {ws : List Nat} (h : CmdInv s) (hpc : s.pc i = .idle)
    (hknown : t.argWords? ≠ none) : CmdInv (s.goto i (.setType t ws)) := by
  cases h with
  | free hall hrest => exact cmdInv_leave (fun j _ => hall j) hknown hrest
  | used k hothers huser =>
    have hki : k ≠ i := by
      rintro rfl
      rw [hpc] at huser
      exact huser.elim
    refine .used k (fun j hj => ?_) ?_
    · by_cases hji : j = i
      · subst hji
        rwa [pc_goto_self]
      · rw [pc_goto_ne hji]
        exact hothers j hj
    · rw [pc_goto_ne hki]
      exact huser.goto

/-- **The step lemma.** -/
theorem CmdInv.step {s' : CmdSlot} {act : CmdAct} (h : CmdInv s) (hc : CmdCond s act)
    (hs : cmdStep s act = some s') : CmdInv s' := by
  cases act with
  | begin i t ws =>
    by_cases hguard : s.pc i = .idle ∧ t.argWords? ≠ none
    · rw [cmdStep, if_pos hguard, Option.some.injEq] at hs
      exact hs ▸ h.begin hguard.1 hguard.2
    · rw [cmdStep, if_neg hguard] at hs
      cases hs
  | again i ws =>
    rw [cmdStep] at hs
    cases hpc : s.pc i with
    | between t =>
      simp only [hpc, Option.some.injEq] at hs
      obtain ⟨hothers, huser⟩ := h.user (i := i) (by rw [hpc]; rfl)
      rw [hpc] at huser
      exact hs ▸ cmdInv_goto hothers ⟨huser.2, huser.1⟩
    | _ => rw [hpc] at hs; cases hs
  | client i pick => exact h.client hc hs
  | runner pick =>
    rw [cmdStep, Option.some.injEq] at hs
    exact hs ▸ h.runner hc
  | startOs =>
    rw [cmdStep, Option.some.injEq] at hs
    subst hs
    cases h with
    | free hall hrest => exact .free hall ⟨hrest.status, hrest.runner, hrest.ledger⟩
    | used i hothers huser => exact .used i hothers huser.startOs
  | spuriousWake i => exact hc.elim

/-- **The slot keeps its promise** in every state of every run whose steps meet `CmdCond`. -/
theorem cmdOk_of_cond {acts : List CmdAct} (hmeets : MeetsAll cmdStep CmdCond CmdSlot.init acts)
    (hrun : runActs cmdStep CmdSlot.init acts = some s) : CmdOk s :=
  (invariant_of_step (I := CmdInv) (fun _ _ _ h hc hs => h.step hc hs) acts CmdSlot.init s
    cmdInv_init hmeets hrun).ok

end

/-- A mouse command before the OS runs, executed inline, and one after, through the runner. The
    second client has thought of its command before the first one is done. -/
def twoCommands : List CmdAct :=
  [.begin .display .setMouseData [1, 2, 3, 4, 5]] ++
    List.replicate 9 (.client .display .display) ++ [.begin .monitor .sysCsleep [10]] ++
    List.replicate 5 (.client .display .display) ++ [.startOs] ++
    List.replicate 6 (.client .monitor .monitor) ++
    List.replicate 4 (.runner .monitor) ++ [.client .monitor .monitor]

theorem cmdOk_of_cond_two : ∃ s, runActs cmdStep CmdSlot.init twoCommands = some s ∧
    s.ledger.executed = [(⟨.setMouseData, [1, 2, 3, 4, 5]⟩, ()), (⟨.sysCsleep, [10]⟩, ())] ∧
    s.ledger.answered = [(.display, ()), (.monitor, ())] ∧ CmdOk s :=
  ⟨_, rfl, rfl, rfl,
    cmdOk_of_cond (show MeetsAll cmdStep CmdCond CmdSlot.init twoCommands by decide) rfl⟩

/-- The monitor finds the OS not running and sets out to execute its command; the OS starts, and
    the runner finds the command `READY` and executes it as well. -/
theorem command_executed_twice : ∃ s, runActs cmdStep CmdSlot.init
      ([.begin .monitor .sendScancode [30]] ++ List.replicate 5 (.client .monitor .monitor) ++
        [.startOs, .runner .monitor, .runner .monitor, .client .monitor .monitor]) = some s ∧
    s.ledger.submitted = [(.monitor, ⟨.sendScancode, [30]⟩)] ∧
    s.ledger.executed = [(⟨.sendScancode, [30]⟩, ()), (⟨.sendScancode, [30]⟩, ())] ∧
    ¬ CmdOk s :=
  ⟨_, rfl, rfl, rfl, fun hok => absurd hok.ledger.executed.length_le (by decide)⟩

end Umka.Proof.Shell
