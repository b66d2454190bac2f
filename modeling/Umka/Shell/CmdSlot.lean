import Mathlib.Logic.Function.Basic
import Umka.Lib.Ledger
import Umka.Lib.Run
import Umka.Vdisk.Basic

/-!
# `shell.c`: the shared command slot

Two host threads hand commands to the kernel through `umka_cmd_buf[0]`: the monitor, which runs
the shell, and the SDL display thread. A client writes the command's type and arguments into
the slot and calls `shell_run_cmd`, which publishes the command with `SHELL_CMD_STATUS_READY`
and then looks at `running`: if the OS runs it waits on `cmd_done` for the kernel thread
`thread_cmd_runner`, otherwise it calls `shell_run_cmd_sync` itself. Afterwards the client
clears the slot. `cmd_send_scancode` submits in a loop and writes the type only once; the
display's key handler submits a scancode command without writing the scancode.

A step is one access to shared memory, by either client or the runner. Each client's program is
the same, so the two differ only in name. The argument structs of the slot's union are a row of
32-bit words. `cmd_mutex` is left out: the monitor holds it from the start of the shell to its
end except while it waits, the runner never takes it, and all it could do is delay a client
that `cmd_done` has already woken. What a command does in the kernel is left out too; the
ledger records that it was done.
-/

set_option autoImplicit false

namespace Umka.Shell

open Lib Vdisk

/-- `SHELL_CMD_STATUS_*`. -/
inductive CmdStatus
  | empty
  | ready
  | done
deriving DecidableEq, Repr

/-- `UMKA_CMD_*`. -/
inductive CmdType
  | none
  | setMouseData
  | waitForIdle
  | waitForOsIdle
  | waitForWindow
  | sysCsleep
  | sysProcessInfo
  | sysGetMousePosScreen
  | sysLfn
  | sendScancode
deriving DecidableEq, Repr

/-- The argument words `shell_run_cmd_sync` passes on; a type without a case has none to give. -/
def CmdType.argWords? : CmdType → Option Nat
  | .waitForIdle => some 0
  | .waitForOsIdle => some 0
  | .waitForWindow => some 1
  | .sysCsleep => some 1
  | .setMouseData => some 5
  | .sendScancode => some 1
  | .sysLfn => some 3
  | .none => Option.none
  | .sysProcessInfo => Option.none
  | .sysGetMousePosScreen => Option.none

/-- A command with its arguments. -/
structure ShellCmd where
  type : CmdType
  args : List Nat
deriving DecidableEq, Repr

inductive Client
  | monitor
  | display
deriving DecidableEq, Repr

def Client.other : Client → Client
  | .monitor => .display
  | .display => .monitor

/-- What a client does next, with the type and the words it has to write. -/
inductive ClientPc
  | idle
  | setType (t : CmdType) (ws : List Nat)
  /-- about to write word `k` -/
  | setWord (t : CmdType) (ws : List Nat) (k : Nat)
  | setReady (t : CmdType) (ws : List Nat)
  | loadRunning (t : CmdType) (ws : List Nat)
  /-- about to block in `pthread_cond_wait` -/
  | enterWait (t : CmdType) (ws : List Nat)
  | waiting (t : CmdType) (ws : List Nat)
  /-- in its own `shell_run_cmd_sync` -/
  | exec (t : CmdType) (ws : List Nat)
  | setDone (t : CmdType) (ws : List Nat)
  | signal (t : CmdType) (ws : List Nat)
  /-- `shell_run_cmd` has returned -/
  | clear (t : CmdType)
  /-- between two submissions of one command function -/
  | between (t : CmdType)
deriving DecidableEq, Repr

/-- What `thread_cmd_runner` does next. -/
inductive RunnerPc
  /-- in `kos_wait_events(shell_run_cmd_wait_test)` -/
  | test
  | exec
  | setDone
  | signal
deriving DecidableEq, Repr

structure CmdSlot where
  status : CmdStatus
  type : CmdType
  words : Nat → Nat
  running : Running
  runner : RunnerPc
  pc : Client → ClientPc
  ledger : Ledger Client ShellCmd Unit

namespace CmdSlot

/-- The slot as the program starts with it, before the OS runs. -/
def init : CmdSlot where
  status := .empty
  type := .none
  words := fun _ => 0
  running := .notYet
  runner := .test
  pc := fun _ => .idle
  ledger := Ledger.empty

/-- The command `shell_run_cmd_sync` finds, if its type has a case. -/
def cmd? (s : CmdSlot) : Option ShellCmd :=
  s.type.argWords?.map fun n => ⟨s.type, (List.range n).map s.words⟩

/-- The command a client means that has written type `t` and words `ws`; an argument it does not
    write is what it found. -/
def meant? (s : CmdSlot) (t : CmdType) (ws : List Nat) : Option ShellCmd :=
  t.argWords?.map fun n => ⟨t, (List.range n).map fun k => ws.getD k (s.words k)⟩

/-- The `switch` of `shell_run_cmd_sync`. -/
def execute (s : CmdSlot) : CmdSlot :=
  match s.cmd? with
  | none => s
  | some c => { s with ledger := s.ledger.execute c () }

def goto (s : CmdSlot) (i : Client) (p : ClientPc) : CmdSlot :=
  { s with pc := Function.update s.pc i p }

/-- Client `i` returns from `shell_run_cmd`. -/
def ret (s : CmdSlot) (i : Client) (t : CmdType) : CmdSlot :=
  { s with ledger := s.ledger.answer i () }.goto i (.clear t)

/-- Client `i` comes out of `pthread_cond_wait`, if it is in it. -/
def wake? (s : CmdSlot) (i : Client) : Option CmdSlot :=
  match s.pc i with
  | .waiting t _ => some (s.ret i t)
  | _ => none

/-- `pthread_cond_signal(&ctx->cmd_done)`: one waiting client is woken, `pick` if there is a
    choice; with nobody waiting the signal is lost. -/
def signal (s : CmdSlot) (pick : Client) : CmdSlot :=
  ((s.wake? pick).or (s.wake? pick.other)).getD s

/-- The next step of client `i`. -/
def clientStep (s : CmdSlot) (i pick : Client) : Option CmdSlot :=
  match s.pc i with
  | .idle => none
  | .setType t ws => some ({ s with type := t }.goto i (.setWord t ws 0))
  | .setWord t ws k =>
    match ws[k]? with
    | some v =>
      some ({ s with words := Function.update s.words k v }.goto i (.setWord t ws (k + 1)))
    | none => some (s.goto i (.setReady t ws))
  | .setReady t ws =>
    (s.meant? t ws).map fun c =>
      { s with status := .ready, ledger := s.ledger.submit i c }.goto i (.loadRunning t ws)
  | .loadRunning t ws =>
    some (if s.running = .yes then s.goto i (.enterWait t ws) else s.goto i (.exec t ws))
  | .enterWait t ws => some (s.goto i (.waiting t ws))
  | .waiting _ _ => none
  | .exec t ws => some (s.execute.goto i (.setDone t ws))
  | .setDone t ws => some ({ s with status := .done }.goto i (.signal t ws))
  | .signal t _ => some ((s.signal pick).ret i t)
  | .clear t => some ({ s with status := .empty }.goto i (.between t))
  | .between _ => some (s.goto i .idle)

/-- The next step of `thread_cmd_runner`. -/
def runnerStep (s : CmdSlot) (pick : Client) : CmdSlot :=
  match s.runner with
  | .test => if s.status = .ready then { s with runner := .exec } else s
  | .exec => { s.execute with runner := .setDone }
  | .setDone => { s with status := .done, runner := .signal }
  | .signal => { s.signal pick with runner := .test }

end CmdSlot

/-- One step of somebody. A signal says which client it would rather wake. -/
inductive CmdAct
  /-- a client starts on a command with a case in `shell_run_cmd_sync` -/
  | begin (i : Client) (t : CmdType) (ws : List Nat)
  /-- a client submits again without writing the type -/
  | again (i : Client) (ws : List Nat)
  | client (i pick : Client)
  | runner (pick : Client)
  /-- `main` sets `running` to `UMKA_RUNNING_YES` -/
  | startOs
  | spuriousWake (i : Client)
deriving DecidableEq, Repr

def cmdStep (s : CmdSlot) : CmdAct → Option CmdSlot
  | .begin i t ws =>
    if s.pc i = .idle ∧ t.argWords? ≠ none then some (s.goto i (.setType t ws)) else none
  | .again i ws =>
    match s.pc i with
    | .between t => some (s.goto i (.setWord t ws 0))
    | _ => none
  | .client i pick => s.clientStep i pick
  | .runner pick => some (s.runnerStep pick)
  | .startOs => some { s with running := .yes }
  | .spuriousWake i => s.wake? i

end Umka.Shell
