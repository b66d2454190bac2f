import Umka.Lib.Run

/-!
# `runtests.c`: a test and its timeout

`run_test` forks the test, starts `thread_wait` to reap it, and waits on a condition variable that
`thread_wait` signals. There is no flag beside the variable and the wait is not in a loop: a signal
that comes before the wait is lost, and a wait that returns by itself is taken for the signal. What
the parent found at the end of its wait is overwritten by what `thread_wait` returns.

`kills` is not part of the program. It records in what state each `SIGKILL` finds the process.
-/

set_option autoImplicit false

namespace Umka.Tools

def etimedout : Nat := 110

/-- The wait status of a process that `SIGKILL` ended. -/
def sigkill : Nat := 9

/-- The test: running, perhaps with a `SIGKILL` on its way; ended with a wait status at some time;
    reaped by `waitpid`, so that its number is free. -/
inductive Child
  | running (killed : Bool)
  | exited (status time : Nat)
  | reaped (status time : Nat)
deriving DecidableEq, Repr

/-- `thread_wait`. -/
inductive Waiter
  | absent
  | waitpid
  | signal (status : Nat)
  | finished (status : Nat)
deriving DecidableEq, Repr

/-- `run_test` after the fork. From the wait on the deadline is known, and from the wake-up what the
    wait returned. -/
inductive Parent
  | create
  | deadline
  | timedwait (ts : Nat)
  | blocked (ts : Nat)
  | woken (ts status : Nat)
  | join (ts status : Nat)
  | returned (ts status result : Nat)
deriving DecidableEq, Repr

/-- The deadline, once there is one. -/
def Parent.ts? : Parent → Option Nat
  | .create => none
  | .deadline => none
  | .timedwait ts => some ts
  | .blocked ts => some ts
  | .woken ts _ => some ts
  | .join ts _ => some ts
  | .returned ts _ _ => some ts

/-- `pthread_cond_signal`. -/
def Parent.signalled : Parent → Parent
  | .blocked ts => .woken ts 0
  | p => p

/-- `kill(child, SIGKILL)`. -/
def Child.kill : Child → Child
  | .running _ => .running true
  | c => c

structure Supervisor where
  now : Nat
  parent : Parent
  waiter : Waiter
  child : Child
  kills : List Child
deriving DecidableEq, Repr

def Supervisor.init : Supervisor := ⟨0, .create, .absent, .running false, []⟩

/-- A step of the clock, of the child, of `thread_wait` or of `run_test`, or of the host in
    `pthread_cond_timedwait`. -/
inductive TestAct
  | tick
  | exit (status : Nat)
  | reap
  | signal
  | create
  | deadline (tout : Nat)
  | timedwait
  | timeout
  | spurious
  | wakeUp
  | join
deriving DecidableEq, Repr

def Supervisor.step (s : Supervisor) : TestAct → Option Supervisor
  | .tick => some { s with now := s.now + 1 }
  | .exit status =>
    match s.child with
    | .running killed =>
      if killed = true ∧ status ≠ sigkill then none
      else some { s with child := .exited status s.now }
    | _ => none
  | .reap =>
    match s.waiter, s.child with
    | .waitpid, .exited status time =>
      some { s with waiter := .signal status, child := .reaped status time }
    | _, _ => none
  | .signal =>
    match s.waiter with
    | .signal status => some { s with waiter := .finished status, parent := s.parent.signalled }
    | _ => none
  | .create =>
    match s.parent with
    | .create => some { s with parent := .deadline, waiter := .waitpid }
    | _ => none
  | .deadline tout =>
    match s.parent with
    | .deadline => some { s with parent := .timedwait (s.now + tout) }
    | _ => none
  | .timedwait =>
    match s.parent with
    | .timedwait ts =>
      -- a time that has passed is noticed before the thread blocks
      some { s with parent := if ts ≤ s.now then .woken ts etimedout else .blocked ts }
    | _ => none
  | .timeout =>
    match s.parent with
    | .blocked ts => if ts ≤ s.now then some { s with parent := .woken ts etimedout } else none
    | _ => none
  | .spurious =>
    match s.parent with
    | .blocked ts => some { s with parent := .woken ts 0 }
    | _ => none
  | .wakeUp =>
    match s.parent with
    | .woken ts status =>
      if status ≠ 0 then
        some { s with parent := .join ts status, child := s.child.kill,
                      kills := s.kills ++ [s.child] }
      else some { s with parent := .join ts status }
    | _ => none
  | .join =>
    match s.parent, s.waiter with
    | .join ts status, .finished result => some { s with parent := .returned ts status result }
    | _, _ => none

end Umka.Tools
