import Mathlib.Data.List.Basic
import Mathlib.Tactic.Common
import Mathlib.Algebra.Order.Ring.Nat

/-!
# `vnet.c`: packets from the host

`vnet_input_monitor` reads a packet into the device's own array, puts the result of `read` next to
it and raises the interrupt; the handler runs in the same thread before `raise` returns.
`vnet_input` copies the array to a new network buffer, and hands that to the kernel.
-/

set_option autoImplicit false

namespace Umka.Net

def netBufferSize : Nat := 0x800

/-- `offsetof(net_buff_t, data)`: three pointers, `type`, `length` and `offset`. -/
def dataOffset : Nat := 24

def vnetBufinCap : Nat := netBufferSize - dataOffset

/-- What `read(fdin, bufin, VNET_BUFIN_CAP)` does; no byte is the end of the file. -/
inductive ReadResult
  | error
  | got (data : List UInt8) (fits : data.length ≤ vnetBufinCap)

/-- Its value, a 32-bit `ssize_t`. -/
def ReadResult.nread : ReadResult → Int32
  | .error => -1
  | .got data _ => .ofNat data.length

/-- `struct vnet`, as far as input goes. -/
structure Vnet where
  bufin : List UInt8
  bufinLen : UInt32
  inputProcessed : Bool
  length_bufin : bufin.length = vnetBufinCap

/-- The array after a read. -/
def ReadResult.store (r : ReadResult) (v : Vnet) : Vnet :=
  match r with
  | .error => v
  | .got data fits =>
    { v with
      bufin := data ++ v.bufin.drop data.length
      length_bufin := by rw [List.length_append, List.length_drop, v.length_bufin]; omega }

/-- A `net_buff_t`: its header, and what was copied to `data`. -/
structure NetBuff where
  length : UInt32
  offset : Nat
  data : List UInt8
deriving DecidableEq, Repr

inductive Event
  /-- `memcpy` of so many bytes from `bufin` to the buffer. -/
  | memcpy (n : Nat)
  | ethInput (buf : NetBuff)
deriving DecidableEq, Repr

/-- `vnet_input`: what happens, and the device afterwards, or `none` when the copy has left both
    arrays. `alloc` says whether the kernel has a buffer. -/
def vnetInput (v : Vnet) (alloc : Bool) : List Event × Option Vnet :=
  if alloc then
    let plen : Int32 := v.bufinLen.toInt32
    if v.bufinLen.toNat ≤ vnetBufinCap then
      ([.memcpy v.bufinLen.toNat,
          .ethInput ⟨plen.toUInt32, dataOffset, v.bufin.take v.bufinLen.toNat⟩],
        some { v with inputProcessed := true })
    else ([.memcpy v.bufinLen.toNat], none)
  else ([], some v)

/-- One round of `vnet_input_monitor`. -/
def monitorRound (v : Vnet) (r : ReadResult) (alloc : Bool) : List Event × Option Vnet :=
  vnetInput { r.store v with inputProcessed := false, bufinLen := r.nread.toUInt32 } alloc

/-- `vnet_input_monitor`: what happens after each read. -/
def vnetInputMonitor : Vnet → List (ReadResult × Bool) → List (ReadResult × List Event)
  | _, [] => []
  | v, (r, alloc) :: rest =>
    match monitorRound v r alloc with
    | (events, some v') => (r, events) :: vnetInputMonitor v' rest
    | (events, none) => [(r, events)]

end Umka.Net
