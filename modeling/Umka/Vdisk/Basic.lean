import Mathlib.Data.List.Infix
import Umka.Lib.Drv

/-!
# What the virtual disks share

`umka.h` gives the status codes and the running flag, `umkaio.c` the two entry points through
which a driver transfers bytes, and both `vdisk_init_*` functions pick the sector size from
the file name with the same four `strstr`s. All of it is here once.

`io_read` has two back ends and one meaning: whether the calling thread performs the `read`
itself or hands it to `thread_io`, the descriptor's position moves and the bytes arrive the
same way. What the hand-over adds — a protocol, and a point where other threads run — is the
subject of `Umka/Io/Slot.lean` and `Umka/Lib/Interleave.lean`. `io_write` has two back ends
and two meanings, and that difference is kept.
-/

set_option autoImplicit false

namespace Umka.Vdisk

open Lib

/-- The `KOS_ERROR_*` codes of `umka.h`. -/
inductive KosError
  | success
  | diskBase
  | unsupportedFs
  | unknownFs
  | partition
  | fileNotFound
  | endOfFile
  | memoryPointer
  | diskFull
  | fsFail
  | accessDenied
  | device
  | outOfMemory
deriving DecidableEq, Repr

/-- The values of `umka_ctx.running`, in the enumeration's order. -/
inductive Running
  | never
  | notYet
  | yes
deriving DecidableEq, Repr

/-- `*io->running < UMKA_RUNNING_YES`. -/
def Running.beforeYes : Running → Bool
  | .never => true
  | .notYet => true
  | .yes => false

/-- `struct umka_io`, as a transfer sees it: the flag's value at that moment. -/
structure UmkaIo where
  running : Running
deriving DecidableEq, Repr

section Transfers

variable {σ : Type}

/-- `io_async_read`, seen from its caller: `thread_io` performs the `read`. -/
def ioAsyncRead (count : Nat) : Drv σ (Int × List UInt8) := Drv.readBytes count

/-- The same with a destination in the disk's own structure. -/
def ioAsyncReadInto (count : Nat) (store : List UInt8 → σ → σ) : Drv σ Int :=
  Drv.readInto count store

/-- `io_async_write` ignores its arguments. -/
def ioAsyncWrite (_data : List UInt8) : Drv σ Int := pure (-1)

def ioRead (io : UmkaIo) (count : Nat) : Drv σ (Int × List UInt8) :=
  if io.running.beforeYes then Drv.readBytes count else ioAsyncRead count

def ioReadInto (io : UmkaIo) (count : Nat) (store : List UInt8 → σ → σ) : Drv σ Int :=
  if io.running.beforeYes then Drv.readInto count store else ioAsyncReadInto count store

def ioWrite (io : UmkaIo) (data : List UInt8) : Drv σ Int :=
  if io.running.beforeYes then Drv.writeBytes data else ioAsyncWrite data

/-! Both back ends of `io_read` are one `read` on the descriptor. -/

@[simp] theorem ioRead_eq {io : UmkaIo} {count : Nat} :
    (ioRead io count : Drv σ _) = Drv.readBytes count := by
  unfold ioRead ioAsyncRead
  exact ite_self _

@[simp] theorem ioReadInto_eq {io : UmkaIo} {count : Nat} {store : List UInt8 → σ → σ} :
    ioReadInto io count store = Drv.readInto count store := by
  unfold ioReadInto ioAsyncReadInto
  exact ite_self _

end Transfers

/-! ## The sector size -/

/-- `strstr(hay, needle) != NULL`. -/
def strstr (hay needle : List Char) : Bool := decide (needle <:+: hay)

/-- The sector size a file name asks for; `4096` is looked for before `2048`. -/
def sectSizeOf (fname : List Char) : Nat :=
  if strstr fname "s4096".toList || strstr fname "s4k".toList then 4096
  else if strstr fname "s2048".toList || strstr fname "s2k".toList then 2048
  else 512

theorem sectSizeOf_mem (fname : List Char) :
    sectSizeOf fname = 512 ∨ sectSizeOf fname = 2048 ∨ sectSizeOf fname = 4096 := by
  unfold sectSizeOf
  split
  · exact Or.inr (Or.inr rfl)
  · split
    · exact Or.inr (Or.inl rfl)
    · exact Or.inl rfl

/-- A `uint64_t` handed to a parameter of type `off_t`. -/
def toOffT (x : Nat) : Int := if x < 2 ^ 63 then x else (x : Int) - 2 ^ 64

end Umka.Vdisk
