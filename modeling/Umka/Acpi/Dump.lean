import Umka.Lib.Records

/-!
# `umkart.c`: writing `devices.dat`

`dump_devices_dat` walks the kernel's tree of PCI devices and writes a record of 16 bytes for each
device that has a `gsi`, and `0xffffffff` behind the last one. The order of the walk is the
kernel's; here it is the list of the nodes, each with its parent, in the order in which the callback
gets them.
-/

set_option autoImplicit false

namespace Umka.Acpi

open Lib

/-- `struct pci_dev`, without the pointers and the fields that are not written. -/
structure PciDev where
  bus : UInt32
  dev : UInt32
  fn : UInt32
  vendorId : UInt32
  deviceId : UInt32
  gsi : UInt32
deriving DecidableEq, Repr

/-- The tree, by `children` and `next`. -/
inductive PciTree
  | null
  | node (d : PciDev) (children next : PciTree)
deriving DecidableEq, Repr

/-- A node as the callback sees it: with what `parent` points at. -/
structure PciNode where
  dev : PciDev
  parent : Option PciDev
deriving DecidableEq, Repr

/-- All nodes; `parent` is the one of the topmost. -/
def PciTree.nodes (parent : Option PciDev) : PciTree → List PciNode
  | .null => []
  | .node d children next => ⟨d, parent⟩ :: (children.nodes (some d) ++ next.nodes parent)

/-- `struct devices_dat_entry`. -/
structure DevicesDatEntry where
  fn : BitVec 3
  dev : BitVec 5
  bus : UInt8
  pad1 : UInt16
  vendorId : UInt16
  deviceId : UInt16
  irq : UInt32
  pad2 : UInt32
deriving DecidableEq, Repr

/-- Its 16 bytes; the lower bit-field comes first. -/
def DevicesDatEntry.bytes (e : DevicesDatEntry) : List UInt8 :=
  UInt8.ofNat (e.fn.toNat + 8 * e.dev.toNat) :: e.bus :: (toLE 2 e.pad1.toNat
    ++ toLE 2 e.vendorId.toNat ++ toLE 2 e.deviceId.toNat ++ toLE 4 e.irq.toNat
    ++ toLE 4 e.pad2.toNat)

/-- The record of a device; what the initialiser does not name is zero. -/
def PciDev.entry (d parent : PciDev) : DevicesDatEntry where
  dev := BitVec.ofNat 5 d.dev.toNat
  fn := BitVec.ofNat 3 d.fn.toNat
  bus := parent.bus.toUInt8
  vendorId := d.vendorId.toUInt16
  deviceId := d.deviceId.toUInt16
  irq := d.gsi
  pad1 := 0
  pad2 := 0

/-- What `dump_devices_dat_iter` writes; `none` when it follows a null pointer to the parent. -/
def dumpDevicesDatIter (n : PciNode) : Option (List UInt8) :=
  if n.dev.gsi ≠ 0 then n.parent.map fun parent => (n.dev.entry parent).bytes else some []

/-- `dump_devices_dat`, once the file is open. -/
def dumpDevicesDat (walk : List PciNode) : Option (List UInt8) := do
  let records ← walk.mapM dumpDevicesDatIter
  some (records.flatten ++ toLE 4 0xffffffff)

end Umka.Acpi
