import Mathlib.Logic.Function.Basic
import Umka.Lib.Ledger
import Umka.Lib.Run

/-!
# `umkaio.c`: the asynchronous I/O slot

`io_async_read` and `thread_io` share one `struct iot_cmd`. A caller takes the slot with a
try-lock polled by `kos_wait_events`, writes its arguments, publishes them with
`IOT_CMD_STATUS_READY`, signals `iot_cond` and polls the status; `thread_io` waits on
`iot_cond`, performs the transfer, stores the result where the descriptor was (`arg` and `ret`
share a union) and publishes it with `IOT_CMD_STATUS_DONE`.

Any number of callers `ι` run against the one `thread_io`, and a step is one access to shared
memory. The model begins when `thread_io` has initialised the slot and waits for the first
time. `kos_wait_events` is left by the first test that answers nonzero; a test that answers
zero leaves the caller where it is. `pthread_cond_signal` wakes `thread_io` if it waits and is
lost if it does not; `pthread_cond_wait` may also return by itself.

The ledger is not part of the program. It records what was asked, what `thread_io` did, and
what was returned.
-/

set_option autoImplicit false

namespace Umka.Io

open Lib

/-- `IOT_CMD_STATUS_*`. -/
inductive CmdStatus
  | empty
  | ready
  | done
deriving DecidableEq, Repr

/-- `IOT_CMD_*`. -/
inductive CmdType
  | read
  | write
deriving DecidableEq, Repr

/-- `struct iot_cmd_read_arg`, the arguments of an `io_async_read`. -/
structure ReadArg where
  fd : Int
  buf : Nat
  count : Nat
deriving DecidableEq, Repr

/-- A command as `thread_io` finds it in the slot. -/
structure IotCmd where
  type : CmdType
  arg : ReadArg
deriving DecidableEq, Repr

/-- What a caller of `io_async_read` does next. -/
inductive CallerPc
  | idle
  /-- in `kos_wait_events(io_async_submit_wait_test)` -/
  | submitWait (a : ReadArg)
  | setType (a : ReadArg)
  | setFd (a : ReadArg)
  | setBuf (a : ReadArg)
  | setCount (a : ReadArg)
  | setReady (a : ReadArg)
  | signal (a : ReadArg)
  /-- in `kos_wait_events(io_async_complete_wait_test)` -/
  | completeWait (a : ReadArg)
  | readRet (a : ReadArg)
  | setEmpty (a : ReadArg) (res : Int)
  | unlock (a : ReadArg) (res : Int)
deriving DecidableEq, Repr

/-- What `thread_io` does next. -/
inductive ThreadPc
  /-- blocked in `pthread_cond_wait` -/
  | waiting
  /-- out of the wait, about to look at the command -/
  | woken
  | storeRet (ret : Int)
  | setDone
  /-- about to wait again -/
  | rewait
deriving DecidableEq, Repr

/-- The slot, its threads, and the ledger. `word0` is the union's first word: the descriptor
    before the transfer and the result after it. -/
structure Slot (ι : Type) where
  type : CmdType
  status : CmdStatus
  word0 : Int
  buf : Nat
  count : Nat
  mutex : Option ι
  thread : ThreadPc
  pc : ι → CallerPc
  ledger : Ledger ι IotCmd Int

namespace Slot

variable {ι : Type}

/-- `thread_io` has initialised the slot and waits. -/
def init : Slot ι where
  type := .read
  status := .empty
  word0 := 0
  buf := 0
  count := 0
  mutex := none
  thread := .waiting
  pc := fun _ => .idle
  ledger := Ledger.empty

/-- The command in the slot. -/
def cmd (s : Slot ι) : IotCmd := ⟨s.type, ⟨s.word0, s.buf, s.count⟩⟩

/-- `pthread_cond_signal`. -/
def wake (s : Slot ι) : ThreadPc := if s.thread = .waiting then .woken else s.thread

variable [DecidableEq ι]

def goto (s : Slot ι) (i : ι) (p : CallerPc) : Slot ι := { s with pc := Function.update s.pc i p }

/-- The next step of `io_async_read` in caller `i`. The submit test is
    `return pthread_mutex_trylock(..)`, which is zero, and so keeps the caller waiting, when the
    lock has just been acquired. -/
def callerStep (s : Slot ι) (i : ι) : Option (Slot ι) :=
  match s.pc i with
  | .idle => none
  | .submitWait a =>
    match s.mutex with
    | none => some { s with mutex := some i }
    | some _ => some (s.goto i (.setType a))
  | .setType a => some ({ s with type := .read }.goto i (.setFd a))
  | .setFd a => some ({ s with word0 := a.fd }.goto i (.setBuf a))
  | .setBuf a => some ({ s with buf := a.buf }.goto i (.setCount a))
  | .setCount a => some ({ s with count := a.count }.goto i (.setReady a))
  | .setReady a =>
    some ({ s with status := .ready, ledger := s.ledger.submit i ⟨.read, a⟩ }.goto i (.signal a))
  | .signal a => some ({ s with thread := s.wake }.goto i (.completeWait a))
  | .completeWait a => some (if s.status = .done then s.goto i (.readRet a) else s)
  | .readRet a => some (s.goto i (.setEmpty a s.word0))
  | .setEmpty a res => some ({ s with status := .empty }.goto i (.unlock a res))
  | .unlock _ res => some ({ s with mutex := none, ledger := s.ledger.answer i res }.goto i .idle)

/-- The next step of `thread_io`; `ret` is what the host returns if the step is a transfer. Both
    commands take their arguments from the same place and leave their result there. -/
def threadStep (s : Slot ι) (ret : Int) : Option (Slot ι) :=
  match s.thread with
  | .waiting => none
  | .woken => some { s with thread := .storeRet ret, ledger := s.ledger.execute s.cmd ret }
  | .storeRet r => some { s with word0 := r, thread := .setDone }
  | .setDone => some { s with status := .done, thread := .rewait }
  | .rewait => some { s with thread := .waiting }

end Slot

/-- One step of somebody. -/
inductive SlotAct (ι : Type)
  | call (i : ι) (a : ReadArg)
  | caller (i : ι)
  | thread (ret : Int)
  | spuriousWake
deriving DecidableEq, Repr

def slotStep {ι : Type} [DecidableEq ι] (s : Slot ι) : SlotAct ι → Option (Slot ι)
  | .call i a => if s.pc i = .idle then some (s.goto i (.submitWait a)) else none
  | .caller i => s.callerStep i
  | .thread ret => s.threadStep ret
  | .spuriousWake => if s.thread = .waiting then some { s with thread := .woken } else none

end Umka.Io
