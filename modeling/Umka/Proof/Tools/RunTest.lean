import Umka.Tools.RunTest

/-!
# When the supervisor can be trusted

What `run_test` promises is `Sound`. It keeps the promise as long as four things do not happen:

* `thread_wait` signals before the parent is in its wait. The signal is lost, the parent waits for
  the deadline and then sends `SIGKILL` to a number that is free again;
* the wait returns by itself while the test runs. The parent then waits in `pthread_join`, where
  there is no deadline;
* the deadline passes with the test over but not yet signalled, which ends as the first;
* the test ends by itself after the deadline and before the `SIGKILL`: whatever it returns is
  returned.

`TestCond` is the condition that they do not, on the state a step is taken from. A run that meets it
can always go on to the end of `run_test`, by steps that meet it too, unless it is the third of
these that is about to happen (`Missed`).
-/

set_option autoImplicit false

namespace Umka.Proof.Tools

open Umka.Tools Lib

/-- The parent has not come to the end of its wait. -/
def Parent.before : Parent → Bool
  | .create => true
  | .deadline => true
  | .timedwait _ => true
  | .blocked _ => true
  | _ => false

/-- What `run_test` promises: a test that ended before the deadline gives its status, and the wait
    was not ended by the clock; any other was killed and fails; nothing but a test that is not
    reaped is killed, and not before the deadline. `noStall` and `noHang` say that the parent never
    waits for what will not come: a signal that was sent already, or the end of a test that nobody
    ends. -/
structure Sound (s : Supervisor) : Prop where
  reaped : ∀ ts status result, s.parent = .returned ts status result →
    ∃ time, s.child = .reaped result time
  early : ∀ ts status result, s.parent = .returned ts status result →
    ∀ time, s.child = .reaped result time → time < ts → status = 0 ∧ s.kills = []
  late : ∀ ts status result, s.parent = .returned ts status result →
    ∀ time, s.child = .reaped result time → ts ≤ time → s.kills ≠ [] ∧ result ≠ 0
  kills : ∀ c ∈ s.kills, ∀ status time, c ≠ .reaped status time
  due : s.kills ≠ [] → ∃ ts, s.parent.ts? = some ts ∧ ts ≤ s.now
  noStall : ∀ status, s.waiter = .finished status → Parent.before s.parent = false
  noHang : ∀ ts status killed, s.parent = .join ts status → s.child = .running killed →
    killed = true

/-- The deadline, if there is one, has not come. -/
abbrev Ahead (s : Supervisor) : Prop := ∀ ts ∈ s.parent.ts?, s.now < ts

/-- The parent has come to its wait. -/
def Parent.waits : Parent → Bool
  | .create => false
  | .deadline => false
  | .timedwait _ => false
  | _ => true

/-- What must not happen does not, in the state before the step. -/
def TestCond (s : Supervisor) : TestAct → Prop
  | .exit _ => s.child = .running true ∨ Ahead s
  | .signal => Parent.waits s.parent = true
  | .timedwait => s.child = .running false ∨ Ahead s
  | .timeout => s.child = .running false
  | .spurious => s.child ≠ .running false
  | _ => True

instance (s : Supervisor) : ∀ a, Decidable (TestCond s a)
  | .exit _ => inferInstanceAs (Decidable (s.child = .running true ∨ Ahead s))
  | .signal => inferInstanceAs (Decidable (Parent.waits s.parent = true))
  | .timedwait => inferInstanceAs (Decidable (s.child = .running false ∨ Ahead s))
  | .timeout => inferInstanceAs (Decidable (s.child = .running false))
  | .spurious => inferInstanceAs (Decidable (s.child ≠ .running false))
  | .tick => isTrue trivial
  | .reap => isTrue trivial
  | .create => isTrue trivial
  | .deadline _ => isTrue trivial
  | .wakeUp => isTrue trivial
  | .join => isTrue trivial

/-! ## The invariant -/

/-- `thread_wait` knows the status once it has reaped the child. -/
def Tied : Waiter → Child → Prop
  | .signal status, c => ∃ time, c = .reaped status time
  | .finished status, c => ∃ time, c = .reaped status time
  | _, c => ∀ status time, c ≠ .reaped status time

/-- As long as the test runs, the thread has no status. -/
theorem tied_of_running {w : Waiter} {killed : Bool} {c : Child} (h : Tied w (.running killed))
    (hc : ∀ status time, c ≠ .reaped status time) : Tied w c := by
  cases w with
  | absent => exact hc
  | waitpid => exact hc
  | signal status => exact absurd h.choose_spec nofun
  | finished status => exact absurd h.choose_spec nofun

/-- The test ended, before the deadline. -/
def InTime (ts : Nat) : Child → Prop
  | .running _ => False
  | .exited _ time => time < ts
  | .reaped _ time => time < ts

/-- The test ends or ended by the `SIGKILL`, after the deadline. -/
def Killed (ts : Nat) : Child → Prop
  | .running killed => killed = true
  | .exited status time => status = sigkill ∧ ts ≤ time
  | .reaped status time => status = sigkill ∧ ts ≤ time

/-- The test ended in the past. -/
def Past (now : Nat) : Child → Prop
  | .running _ => True
  | .exited _ time => time ≤ now
  | .reaped _ time => time ≤ now

/-- How the test ended, as far as the parent knows by the value of its wait. -/
def Ending (s : Supervisor) (ts status : Nat) : Prop :=
  (status = 0 ∧ s.kills = [] ∧ InTime ts s.child)
    ∨ (status ≠ 0 ∧ ts ≤ s.now ∧ s.kills = [.running false] ∧ Killed ts s.child)

/-- What is known at each point of `run_test`. -/
def AtPoint (s : Supervisor) : Parent → Prop
  | .create => s.waiter = .absent ∧ s.kills = [] ∧ s.child ≠ .running true
  | .deadline => (∀ status, s.waiter ≠ .finished status) ∧ s.kills = [] ∧ s.child ≠ .running true
  | .timedwait _ => (∀ status, s.waiter ≠ .finished status) ∧ s.kills = [] ∧ s.child ≠ .running true
  | .blocked ts => (∀ status, s.waiter ≠ .finished status) ∧ s.kills = []
      ∧ (s.child = .running false ∨ InTime ts s.child)
  | .woken ts status => (status = 0 ∧ s.kills = [] ∧ InTime ts s.child)
      ∨ (status ≠ 0 ∧ ts ≤ s.now ∧ s.kills = [] ∧ s.child = .running false)
  | .join ts status => Ending s ts status
  | .returned ts status result => Ending s ts status ∧ s.waiter = .finished result

structure TestInv (s : Supervisor) : Prop where
  tied : Tied s.waiter s.child
  past : Past s.now s.child
  point : AtPoint s s.parent

theorem testInv_init : TestInv .init :=
  ⟨nofun, trivial, rfl, rfl, nofun⟩

/-- There is one `SIGKILL` at most, for a test that runs, after the deadline. -/
theorem kills_of_testInv {s : Supervisor} (h : TestInv s) :
    s.kills = [] ∨ (s.kills = [.running false] ∧ ∃ ts, s.parent.ts? = some ts ∧ ts ≤ s.now) := by
  have hpoint := h.point
  cases hp : s.parent with rw [hp] at hpoint
  | create => exact .inl hpoint.2.1
  | deadline => exact .inl hpoint.2.1
  | timedwait ts => exact .inl hpoint.2.1
  | blocked ts => exact .inl hpoint.2.1
  | woken ts status =>
    rcases hpoint with ⟨-, hkills, -⟩ | ⟨-, -, hkills, -⟩
    · exact .inl hkills
    · exact .inl hkills
  | join ts status =>
    rcases hpoint with ⟨-, hkills, -⟩ | ⟨-, hts, hkills, -⟩
    · exact .inl hkills
    · exact .inr ⟨hkills, ts, rfl, hts⟩
  | returned ts status result =>
    rcases hpoint.1 with ⟨-, hkills, -⟩ | ⟨-, hts, hkills, -⟩
    · exact .inl hkills
    · exact .inr ⟨hkills, ts, rfl, hts⟩

theorem before_of_testInv {s : Supervisor} (h : TestInv s) {status : Nat}
    (hw : s.waiter = .finished status) : Parent.before s.parent = false := by
  have hpoint := h.point
  cases hp : s.parent with rw [hp] at hpoint
  | create => exact absurd (hw.symm.trans hpoint.1) nofun
  | deadline => exact absurd hw (hpoint.1 status)
  | timedwait ts => exact absurd hw (hpoint.1 status)
  | blocked ts => exact absurd hw (hpoint.1 status)
  | woken ts status => rfl
  | join ts status => rfl
  | returned ts status result => rfl

/-- The invariant gives the promise. -/
theorem sound_of_testInv {s : Supervisor} (h : TestInv s) : Sound s where
  reaped := by
    intro ts status result hp
    have hpoint := h.point
    have htied := h.tied
    rw [hp] at hpoint
    rwa [hpoint.2] at htied
  early := by
    intro ts status result hp time hc hlt
    have hpoint := h.point
    rw [hp] at hpoint
    rcases hpoint.1 with ⟨hstatus, hkills, -⟩ | ⟨-, -, -, hkilled⟩
    · exact ⟨hstatus, hkills⟩
    · rw [hc] at hkilled
      exact absurd hlt (Nat.not_lt.mpr hkilled.2)
  late := by
    intro ts status result hp time hc hle
    have hpoint := h.point
    rw [hp] at hpoint
    rcases hpoint.1 with ⟨-, -, hintime⟩ | ⟨-, -, hkills, hkilled⟩
    · rw [hc] at hintime
      exact absurd hle (Nat.not_le.mpr hintime)
    · rw [hc] at hkilled
      have hresult : result = sigkill := hkilled.1
      rw [hkills, hresult]
      exact ⟨List.cons_ne_nil _ _, by decide⟩
  kills := by
    intro c hc status time
    rcases kills_of_testInv h with hkills | ⟨hkills, -⟩
    · rw [hkills] at hc
      exact absurd hc List.not_mem_nil
    · rw [hkills] at hc
      rw [List.mem_singleton.mp hc]
      exact nofun
  due := by
    intro hne
    rcases kills_of_testInv h with hkills | ⟨-, hdue⟩
    · exact absurd hkills hne
    · exact hdue
  noStall := fun status hw => before_of_testInv h hw
  noHang := by
    intro ts status killed hp hc
    have hpoint := h.point
    rw [hp] at hpoint
    rcases hpoint with ⟨-, -, hintime⟩ | ⟨-, -, -, hkilled⟩
    · rw [hc] at hintime
      exact hintime.elim
    · rwa [hc] at hkilled

/-! ## The steps -/

section Steps

variable {s : Supervisor} (h : TestInv s)

include h

theorem testInv_tick : TestInv { s with now := s.now + 1 } := by
  have hending : ∀ ts status, Ending s ts status →
      Ending { s with now := s.now + 1 } ts status := by
    rintro ts status (hintime | ⟨hstatus, hts, hrest⟩)
    · exact .inl hintime
    · exact .inr ⟨hstatus, Nat.le_succ_of_le hts, hrest⟩
  refine ⟨h.tied, ?_, ?_⟩
  · have hpast := h.past
    show Past (s.now + 1) s.child
    cases hc : s.child with rw [hc] at hpast
    | running killed => trivial
    | exited status time => exact Nat.le_succ_of_le hpast
    | reaped status time => exact Nat.le_succ_of_le hpast
  · have hpoint := h.point
    show AtPoint _ s.parent
    cases hp : s.parent with rw [hp] at hpoint
    | create => exact hpoint
    | deadline => exact hpoint
    | timedwait ts => exact hpoint
    | blocked ts => exact hpoint
    | woken ts status =>
      rcases hpoint with hintime | ⟨hstatus, hts, hrest⟩
      · exact .inl hintime
      · exact .inr ⟨hstatus, Nat.le_succ_of_le hts, hrest⟩
    | join ts status => exact hending ts status hpoint
    | returned ts status result => exact ⟨hending ts status hpoint.1, hpoint.2⟩

/-- The test ends in time, or by the `SIGKILL`. -/
theorem testInv_exit {killed : Bool} {status : Nat} (hc : s.child = .running killed)
    (hstatus : killed = true → status = sigkill) (hcond : s.child = .running true ∨ Ahead s) :
    TestInv { s with child := .exited status s.now } := by
  have hfalse : s.child = .running false → Ahead s := fun hf =>
    hcond.resolve_left fun ht => nomatch hf.symm.trans ht
  have htied := h.tied
  rw [hc] at htied
  refine ⟨tied_of_running htied nofun, Nat.le_refl s.now, ?_⟩
  have hpoint := h.point
  show AtPoint _ s.parent
  cases hp : s.parent with rw [hp] at hpoint
  | create => exact ⟨hpoint.1, hpoint.2.1, nofun⟩
  | deadline => exact ⟨hpoint.1, hpoint.2.1, nofun⟩
  | timedwait ts => exact ⟨hpoint.1, hpoint.2.1, nofun⟩
  | blocked ts =>
    rcases hpoint.2.2 with hrun | hintime
    · exact ⟨hpoint.1, hpoint.2.1, .inr (hfalse hrun ts (hp ▸ rfl))⟩
    · rw [hc] at hintime
      exact hintime.elim
  | woken ts status =>
    rcases hpoint with ⟨-, -, hintime⟩ | ⟨-, hts, -, hrun⟩
    · rw [hc] at hintime
      exact hintime.elim
    · exact absurd (hfalse hrun ts (hp ▸ rfl)) (Nat.not_lt.mpr hts)
  | join ts status =>
    rcases hpoint with ⟨-, -, hintime⟩ | ⟨hne, hts, hkills, hkilled⟩
    · rw [hc] at hintime
      exact hintime.elim
    · rw [hc] at hkilled
      exact .inr ⟨hne, hts, hkills, hstatus hkilled, hts⟩
  | returned ts status result =>
    rw [hpoint.2] at htied
    exact absurd htied.choose_spec nofun

theorem testInv_reap {status time : Nat} (hw : s.waiter = .waitpid)
    (hc : s.child = .exited status time) :
    TestInv { s with waiter := .signal status, child := .reaped status time } := by
  have hending : ∀ ts rc, Ending s ts rc →
      Ending { s with waiter := .signal status, child := .reaped status time } ts rc := by
    rintro ts rc (⟨hrc, hkills, hintime⟩ | ⟨hrc, hts, hkills, hkilled⟩)
    · exact .inl ⟨hrc, hkills, by rw [hc] at hintime; exact hintime⟩
    · exact .inr ⟨hrc, hts, hkills, by rw [hc] at hkilled; exact hkilled⟩
  have hpast := h.past
  rw [hc] at hpast
  refine ⟨⟨time, rfl⟩, hpast, ?_⟩
  have hpoint := h.point
  show AtPoint _ s.parent
  cases hp : s.parent with rw [hp] at hpoint
  | create => exact absurd (hw.symm.trans hpoint.1) nofun
  | deadline => exact ⟨nofun, hpoint.2.1, nofun⟩
  | timedwait ts => exact ⟨nofun, hpoint.2.1, nofun⟩
  | blocked ts =>
    rw [AtPoint, hc] at hpoint
    exact ⟨nofun, hpoint.2.1, .inr (hpoint.2.2.resolve_left nofun)⟩
  | woken ts rc =>
    rw [AtPoint, hc] at hpoint
    exact .inl (hpoint.resolve_right fun hrun => nomatch hrun.2.2.2)
  | join ts rc => exact hending ts rc hpoint
  | returned ts rc result => exact absurd (hw.symm.trans hpoint.2) nofun

/-- The signal is not lost, or not needed any more. -/
theorem testInv_signal {status : Nat} (hw : s.waiter = .signal status)
    (hcond : Parent.waits s.parent = true) :
    TestInv { s with waiter := .finished status, parent := s.parent.signalled } := by
  have htied := h.tied
  rw [hw] at htied
  refine ⟨htied, h.past, ?_⟩
  have hpoint := h.point
  show AtPoint _ s.parent.signalled
  cases hp : s.parent with rw [hp] at hpoint hcond
  | create => exact absurd hcond (by decide)
  | deadline => exact absurd hcond nofun
  | timedwait ts => exact absurd hcond nofun
  | blocked ts =>
    obtain ⟨time, hc⟩ := htied
    exact .inl ⟨rfl, hpoint.2.1, hpoint.2.2.resolve_left fun hrun => nomatch hc.symm.trans hrun⟩
  | woken ts rc => exact hpoint
  | join ts rc => exact hpoint
  | returned ts rc result => exact absurd (hw.symm.trans hpoint.2) nofun

theorem testInv_create (hp : s.parent = .create) :
    TestInv { s with parent := .deadline, waiter := .waitpid } := by
  obtain ⟨htied, hpast, hpoint⟩ := h
  rw [hp] at hpoint
  rw [hpoint.1] at htied
  exact ⟨htied, hpast, nofun, hpoint.2⟩

theorem testInv_deadline (hp : s.parent = .deadline) (ts : Nat) :
    TestInv { s with parent := .timedwait ts } := by
  obtain ⟨htied, hpast, hpoint⟩ := h
  rw [hp] at hpoint
  exact ⟨htied, hpast, hpoint⟩

/-- The parent blocks, or the deadline has come and the test still runs. -/
theorem testInv_timedwait {ts : Nat} (hp : s.parent = .timedwait ts)
    (hcond : s.child = .running false ∨ Ahead s) :
    TestInv { s with parent := if ts ≤ s.now then .woken ts etimedout else .blocked ts } := by
  obtain ⟨htied, hpast, hpoint⟩ := h
  rw [hp] at hpoint
  refine ⟨htied, hpast, ?_⟩
  by_cases hts : ts ≤ s.now
  · show AtPoint _ (if ts ≤ s.now then _ else _)
    rw [if_pos hts]
    refine .inr ⟨by decide, hts, hpoint.2.1, hcond.resolve_right fun hahead => ?_⟩
    exact absurd (hahead ts (hp ▸ rfl)) (Nat.not_lt.mpr hts)
  · show AtPoint _ (if ts ≤ s.now then _ else _)
    rw [if_neg hts]
    refine ⟨hpoint.1, hpoint.2.1, ?_⟩
    cases hc : s.child with rw [hc] at hpast
    | running killed =>
      cases killed with
      | false => exact .inl rfl
      | true => exact absurd hc hpoint.2.2
    | exited status time => exact .inr (Nat.lt_of_le_of_lt hpast (Nat.not_le.mp hts))
    | reaped status time => exact .inr (Nat.lt_of_le_of_lt hpast (Nat.not_le.mp hts))

theorem testInv_timeout {ts : Nat} (hp : s.parent = .blocked ts) (hts : ts ≤ s.now)
    (hcond : s.child = .running false) : TestInv { s with parent := .woken ts etimedout } := by
  obtain ⟨htied, hpast, hpoint⟩ := h
  rw [hp] at hpoint
  exact ⟨htied, hpast, .inr ⟨by decide, hts, hpoint.2.1, hcond⟩⟩

theorem testInv_spurious {ts : Nat} (hp : s.parent = .blocked ts)
    (hcond : s.child ≠ .running false) :
    TestInv { s with parent := .woken ts 0 } := by
  obtain ⟨htied, hpast, hpoint⟩ := h
  rw [hp] at hpoint
  exact ⟨htied, hpast, .inl ⟨rfl, hpoint.2.1, hpoint.2.2.resolve_left hcond⟩⟩

/-- A timeout kills the test. -/
theorem testInv_kill {ts status : Nat} (hp : s.parent = .woken ts status) (hne : status ≠ 0) :
    TestInv { s with parent := .join ts status, child := s.child.kill,
                     kills := s.kills ++ [s.child] } := by
  obtain ⟨htied, -, hpoint⟩ := h
  rw [hp] at hpoint
  obtain ⟨-, hts, hkills, hrun⟩ := hpoint.resolve_left fun hin => hne hin.1
  rw [hrun] at htied
  rw [hrun, hkills]
  exact ⟨tied_of_running htied nofun, trivial, .inr ⟨hne, hts, rfl, rfl⟩⟩

theorem testInv_wake {ts : Nat} (hp : s.parent = .woken ts 0) :
    TestInv { s with parent := .join ts 0 } := by
  obtain ⟨htied, hpast, hpoint⟩ := h
  rw [hp] at hpoint
  exact ⟨htied, hpast, .inl (hpoint.resolve_right fun hlate => hlate.1 rfl)⟩

theorem testInv_join {ts status result : Nat} (hp : s.parent = .join ts status)
    (hw : s.waiter = .finished result) :
    TestInv { s with parent := .returned ts status result } := by
  obtain ⟨htied, hpast, hpoint⟩ := h
  rw [hp] at hpoint
  exact ⟨htied, hpast, hpoint, hw⟩

end Steps

/-- **What a good step keeps.** -/
theorem testInv_step (s : Supervisor) (a : TestAct) (s' : Supervisor) (h : TestInv s)
    (hcond : TestCond s a) (hstep : s.step a = some s') : TestInv s' := by
  cases a with
  | tick =>
    cases hstep
    exact testInv_tick h
  | exit status =>
    rw [Supervisor.step] at hstep
    split at hstep
    · rename_i killed hc
      split at hstep
      · exact nomatch hstep
      · rename_i hallowed
        cases hstep
        refine testInv_exit h hc (fun hk => ?_) hcond
        by_contra hne
        exact hallowed ⟨hk, hne⟩
    · exact nomatch hstep
  | reap =>
    rw [Supervisor.step] at hstep
    split at hstep
    · rename_i hw hc
      cases hstep
      exact testInv_reap h hw hc
    · exact nomatch hstep
  | signal =>
    rw [Supervisor.step] at hstep
    split at hstep
    · rename_i hw
      cases hstep
      exact testInv_signal h hw hcond
    · exact nomatch hstep
  | create =>
    rw [Supervisor.step] at hstep
    split at hstep
    · rename_i hp
      cases hstep
      exact testInv_create h hp
    · exact nomatch hstep
  | deadline tout =>
    rw [Supervisor.step] at hstep
    split at hstep
    · rename_i hp
      cases hstep
      exact testInv_deadline h hp _
    · exact nomatch hstep
  | timedwait =>
    rw [Supervisor.step] at hstep
    split at hstep
    · rename_i hp
      cases hstep
      exact testInv_timedwait h hp hcond
    · exact nomatch hstep
  | timeout =>
    rw [Supervisor.step] at hstep
    split at hstep
    · rename_i hp
      split at hstep
      · rename_i hts
        cases hstep
        exact testInv_timeout h hp hts hcond
      · exact nomatch hstep
    · exact nomatch hstep
  | spurious =>
    rw [Supervisor.step] at hstep
    split at hstep
    · rename_i hp
      cases hstep
      exact testInv_spurious h hp hcond
    · exact nomatch hstep
  | wakeUp =>
    rw [Supervisor.step] at hstep
    split at hstep
    · rename_i ts status hp
      split at hstep
      · rename_i hne
        cases hstep
        exact testInv_kill h hp hne
      · rename_i hzero
        cases hstep
        rw [not_not.mp hzero] at hp ⊢
        exact testInv_wake h hp
    · exact nomatch hstep
  | join =>
    rw [Supervisor.step] at hstep
    split at hstep
    · rename_i hp hw
      cases hstep
      exact testInv_join h hp hw
    · exact nomatch hstep

/-! ## The way to the end

From a good state the parent comes to return whatever the test does: if it does not end by
itself, the clock and the `SIGKILL` end it. The one good state without a way on is that in which
the test is over and the deadline has come before the parent is in its wait. -/

/-- `run_test` has returned. -/
def Returned (s : Supervisor) : Prop := ∃ ts status result, s.parent = .returned ts status result

/-- The test is over, and the deadline has come before the parent is in its wait. -/
def Missed (s : Supervisor) : Prop :=
  s.child ≠ .running false ∧ ∃ ts, s.parent = .timedwait ts ∧ ts ≤ s.now

/-- The steps of the clock, of `thread_wait` and of `run_test` with timeout `tout`; the test only
    ends when it is killed. -/
def Unaided (tout : Nat) (s : Supervisor) : TestAct → Prop
  | .exit _ => s.child = .running true
  | .deadline t => t = tout
  | .spurious => False
  | _ => True

/-- Such steps, where they do no harm, lead to the end of `run_test`. -/
abbrev WayOn (tout : Nat) (s : Supervisor) : Prop :=
  LeadsTo Supervisor.step (fun s a => TestCond s a ∧ Unaided tout s a) Returned s

/-- The state is good, and has its `thread_wait` once the parent has made it. -/
structure OnTheWay (s : Supervisor) : Prop where
  inv : TestInv s
  made : s.waiter = .absent → s.parent = .create

theorem onTheWay_init : OnTheWay .init := ⟨testInv_init, fun _ => rfl⟩

theorem onTheWay_step (s : Supervisor) (a : TestAct) (s' : Supervisor) (h : OnTheWay s)
    (hcond : TestCond s a) (hstep : s.step a = some s') : OnTheWay s' := by
  refine ⟨testInv_step s a s' h.inv hcond hstep, fun habsent => ?_⟩
  have hmade := h.made
  cases a with
  | tick =>
    cases hstep
    exact hmade habsent
  | _ => grind [Supervisor.step]

section WayOn

variable {tout now ts status : Nat} {waiter : Waiter} {child : Child} {kills : List Child}

theorem OnTheWay.wayOn {s s' : Supervisor} {a : TestAct} (h : OnTheWay s)
    (hok : TestCond s a ∧ Unaided tout s a) (hs : s.step a = some s')
    (hnext : OnTheWay s' → WayOn tout s') : WayOn tout s :=
  .after hok hs (hnext (onTheWay_step s a s' h hok.1 hs))

/-- The test has been reaped, and the parent is past its wait. -/
theorem wayOn_signal {st : Nat} (h : OnTheWay ⟨now, .join ts status, .signal st, child, kills⟩) :
    WayOn tout ⟨now, .join ts status, .signal st, child, kills⟩ :=
  h.wayOn (a := .signal) ⟨rfl, trivial⟩ rfl fun h =>
    h.wayOn (a := .join) ⟨trivial, trivial⟩ rfl fun _ => .here ⟨ts, status, st, rfl⟩

theorem wayOn_join (h : OnTheWay ⟨now, .join ts status, waiter, child, kills⟩) :
    WayOn tout ⟨now, .join ts status, waiter, child, kills⟩ := by
  cases waiter with
  | absent => exact nomatch h.made rfl
  | finished st =>
    exact h.wayOn (a := .join) ⟨trivial, trivial⟩ rfl fun _ => .here ⟨ts, status, st, rfl⟩
  | signal st => exact wayOn_signal h
  | waitpid =>
    cases child with
    | reaped st time => exact absurd rfl (h.inv.tied st time)
    | exited st time => exact h.wayOn (a := .reap) ⟨trivial, trivial⟩ rfl wayOn_signal
    | running killed =>
      obtain rfl := (sound_of_testInv h.inv).noHang ts status killed rfl rfl
      exact h.wayOn (a := .exit sigkill) ⟨.inl rfl, rfl⟩ rfl fun h =>
        h.wayOn (a := .reap) ⟨trivial, trivial⟩ rfl wayOn_signal

theorem wayOn_woken (h : OnTheWay ⟨now, .woken ts status, waiter, child, kills⟩) :
    WayOn tout ⟨now, .woken ts status, waiter, child, kills⟩ := by
  by_cases hstatus : status = 0
  · exact h.wayOn (a := .wakeUp) ⟨trivial, trivial⟩ (if_neg (not_not.mpr hstatus)) wayOn_join
  · exact h.wayOn (a := .wakeUp) ⟨trivial, trivial⟩ (if_pos hstatus) wayOn_join

/-- With nothing else to happen the clock brings the deadline. -/
theorem wayOn_running (h : OnTheWay ⟨now, .blocked ts, waiter, .running false, kills⟩) :
    WayOn tout ⟨now, .blocked ts, waiter, .running false, kills⟩ := by
  -- the induction is on the time that is left
  induction hn : ts - now generalizing now with
  | zero =>
    exact h.wayOn (a := .timeout) ⟨rfl, trivial⟩ (if_pos (Nat.sub_eq_zero_iff_le.mp hn)) wayOn_woken
  | succ n ih =>
    have hleft : ts - (now + 1) = n := by omega
    exact h.wayOn (a := .tick) ⟨trivial, trivial⟩ rfl fun h => ih h hleft

theorem wayOn_blocked (h : OnTheWay ⟨now, .blocked ts, waiter, child, kills⟩) :
    WayOn tout ⟨now, .blocked ts, waiter, child, kills⟩ := by
  have hpoint := h.inv.point
  have hsignal : ∀ {st c}, OnTheWay ⟨now, .blocked ts, .signal st, c, kills⟩ →
      WayOn tout ⟨now, .blocked ts, .signal st, c, kills⟩ := fun h =>
    h.wayOn (a := .signal) ⟨rfl, trivial⟩ rfl wayOn_woken
  cases waiter with
  | absent => exact nomatch h.made rfl
  | finished st => exact absurd rfl (hpoint.1 st)
  | signal st => exact hsignal h
  | waitpid =>
    cases child with
    | reaped st time => exact absurd rfl (h.inv.tied st time)
    | exited st time => exact h.wayOn (a := .reap) ⟨trivial, trivial⟩ rfl hsignal
    | running killed =>
      cases killed with
      | false => exact wayOn_running h
      | true => exact hpoint.2.2.elim nofun False.elim

theorem wayOn_timedwait (h : OnTheWay ⟨now, .timedwait ts, waiter, child, kills⟩)
    (hin : ¬ Missed ⟨now, .timedwait ts, waiter, child, kills⟩) :
    WayOn tout ⟨now, .timedwait ts, waiter, child, kills⟩ := by
  have hcond : TestCond ⟨now, .timedwait ts, waiter, child, kills⟩ .timedwait := by
    by_cases hc : child = .running false
    · exact .inl hc
    · refine .inr fun t ht => ?_
      cases ht
      exact Nat.not_le.mp fun hts => hin ⟨hc, ts, rfl, hts⟩
  refine h.wayOn (a := .timedwait) ⟨hcond, trivial⟩ rfl fun h => ?_
  by_cases hts : ts ≤ now
  · simp only [if_pos hts] at h ⊢
    exact wayOn_woken h
  · simp only [if_neg hts] at h ⊢
    exact wayOn_blocked h

theorem wayOn_deadline (htout : 0 < tout) (h : OnTheWay ⟨now, .deadline, waiter, child, kills⟩) :
    WayOn tout ⟨now, .deadline, waiter, child, kills⟩ := by
  refine h.wayOn (a := .deadline tout) ⟨trivial, rfl⟩ rfl fun h => wayOn_timedwait h ?_
  rintro ⟨-, ts, hts, hle⟩
  cases hts
  exact absurd hle (by simp only; omega)

end WayOn

/-- **The way on**: from every good state but a missed one. -/
theorem wayOn_of_not_missed {tout : Nat} {s : Supervisor} (htout : 0 < tout) (h : OnTheWay s)
    (hin : ¬ Missed s) : WayOn tout s := by
  obtain ⟨now, parent, waiter, child, kills⟩ := s
  cases parent with
  | create => exact h.wayOn (a := .create) ⟨trivial, trivial⟩ rfl (wayOn_deadline htout)
  | deadline => exact wayOn_deadline htout h
  | timedwait ts => exact wayOn_timedwait h hin
  | blocked ts => exact wayOn_blocked h
  | woken ts status => exact wayOn_woken h
  | join ts status => exact wayOn_join h
  | returned ts status result => exact .here ⟨ts, status, result, rfl⟩

/-- Good steps do not lead out of a missed state. -/
theorem missed_step (s : Supervisor) (a : TestAct) (s' : Supervisor) (h : Missed s)
    (hcond : TestCond s a) (hstep : s.step a = some s') : Missed s' := by
  obtain ⟨hc, ts, hp, hts⟩ := h
  cases a with
  | tick =>
    cases hstep
    exact ⟨hc, ts, hp, Nat.le_succ_of_le hts⟩
  | signal =>
    rw [TestCond, hp] at hcond
    exact nomatch hcond
  | timedwait =>
    rcases hcond with hrun | hahead
    · exact absurd hrun hc
    · exact absurd (hahead ts (hp ▸ rfl)) (Nat.not_lt.mpr hts)
  -- the test has ended or is not there to end, and the parent is not at these lines
  | _ => grind [Supervisor.step, Missed]

/-- **In every run whose steps all meet the condition the supervisor keeps its promise**, and
    unless the deadline was missed it comes to return. -/
theorem sound_of_cond (as : List TestAct) (s : Supervisor)
    (hmeets : MeetsAll Supervisor.step TestCond .init as)
    (hrun : runActs Supervisor.step .init as = some s) :
    Sound s ∧ (∀ tout, 0 < tout → ¬ Missed s → WayOn tout s)
      ∧ (Missed s → ¬ LeadsTo Supervisor.step TestCond Returned s) := by
  have hway := invariant_of_step onTheWay_step as .init s onTheWay_init hmeets hrun
  refine ⟨sound_of_testInv hway.inv, fun tout htout hin => wayOn_of_not_missed htout hway hin, ?_⟩
  refine not_leadsTo_of_step missed_step fun s hmissed hret => ?_
  obtain ⟨-, ts, hp, -⟩ := hmissed
  obtain ⟨ts', status, result, hp'⟩ := hret
  exact nomatch hp.symm.trans hp'

/-- A test that ends in time, and one that does not; one that would run on is brought to its end;
    and a deadline that is missed. -/
theorem sound_of_cond_two :
    Sound ⟨0, .returned 1 0 0, .finished 0, .reaped 0 0, []⟩
    ∧ Sound ⟨1, .returned 1 etimedout sigkill, .finished sigkill, .reaped sigkill 1,
        [.running false]⟩
    ∧ WayOn 60 ⟨0, .blocked 60, .waitpid, .running false, []⟩
    ∧ ¬ LeadsTo Supervisor.step TestCond Returned
        ⟨1, .timedwait 1, .waitpid, .exited 0 0, []⟩ :=
  ⟨(sound_of_cond [.create, .deadline 1, .timedwait, .exit 0, .reap, .signal, .wakeUp, .join] _
      (by decide) (by decide)).1,
    (sound_of_cond [.create, .deadline 1, .timedwait, .tick, .timeout, .wakeUp, .exit 9, .reap,
      .signal, .join] _ (by decide) (by decide)).1,
    (sound_of_cond [.create, .deadline 60, .timedwait] _ (by decide) (by decide)).2.1 60
      (by decide) fun h => h.1 rfl,
    (sound_of_cond [.create, .deadline 1, .exit 0, .tick] _ (by decide) (by decide)).2.2
      ⟨nofun, 1, rfl, Nat.le_refl 1⟩⟩

/-- A test that is over before the wait begins: the signal is lost, and the `SIGKILL` goes to a
    process that is reaped. A wait that returns by itself: the test runs past its deadline and
    passes. A test that ends between the deadline and the `SIGKILL`: it passes. -/
theorem supervisor_unsound :
    (∃ s, runActs Supervisor.step .init [.create, .exit 0, .reap, .signal, .deadline 1, .timedwait,
        .tick, .timeout, .wakeUp, .join] = some s ∧ ¬ Sound s)
    ∧ (∃ s, runActs Supervisor.step .init
      [.create, .deadline 1, .timedwait, .spurious, .wakeUp, .tick,
        .exit 0, .reap, .signal, .join] = some s ∧ ¬ Sound s)
    ∧ ∃ s, runActs Supervisor.step .init
      [.create, .deadline 1, .timedwait, .tick, .exit 0, .timeout,
        .wakeUp, .reap, .signal, .join] = some s ∧ ¬ Sound s := by
  refine ⟨⟨_, rfl, fun h => ?_⟩, ⟨_, rfl, fun h => ?_⟩, ⟨_, rfl, fun h => ?_⟩⟩
  · exact h.kills _ (List.mem_singleton_self _) 0 0 rfl
  · exact (h.late 1 0 0 rfl 1 rfl (Nat.le_refl 1)).2 rfl
  · exact (h.late 1 etimedout 0 rfl 1 rfl (Nat.le_refl 1)).2 rfl

end Umka.Proof.Tools
