import Umka.Acpi.Dump

/-!
# Reading `devices.dat` back

The third and the fourth byte of a record are zero, so it does not start like the terminator,
whatever the device is.
-/

set_option autoImplicit false

namespace Umka.Proof.Acpi

open Umka.Acpi Lib

/-- What a record says. -/
structure DatRecord where
  bus : Nat
  dev : Nat
  fn : Nat
  vendorId : Nat
  deviceId : Nat
  irq : Nat
deriving DecidableEq, Repr

def decodeRecord (bytes : List UInt8) : DatRecord where
  fn := ofLE (bytes.take 1) % 8
  dev := ofLE (bytes.take 1) / 8
  bus := ofLE ((bytes.drop 1).take 1)
  vendorId := ofLE ((bytes.drop 4).take 2)
  deviceId := ofLE ((bytes.drop 6).take 2)
  irq := ofLE ((bytes.drop 8).take 4)

abbrev terminator : List UInt8 := toLE 4 0xffffffff

/-- The values that a PCI device can have. -/
structure InRange (d : PciDev) : Prop where
  bus : d.bus.toNat < 256
  dev : d.dev.toNat < 32
  fn : d.fn.toNat < 8
  vendorId : d.vendorId.toNat < 2 ^ 16
  deviceId : d.deviceId.toNat < 2 ^ 16

instance : DecidablePred InRange := fun d =>
  decidable_of_iff (d.bus.toNat < 256 ∧ d.dev.toNat < 32 ∧ d.fn.toNat < 8 ∧
    d.vendorId.toNat < 2 ^ 16
      ∧ d.deviceId.toNat < 2 ^ 16)
    ⟨fun ⟨bus, dev, fn, vendorId, deviceId⟩ => ⟨bus, dev, fn, vendorId, deviceId⟩,
      fun ⟨bus, dev, fn, vendorId, deviceId⟩ => ⟨bus, dev, fn, vendorId, deviceId⟩⟩

/-- The record is the device's, with the bus of its parent. -/
def Describes (r : DatRecord) (n : PciNode) : Prop :=
  ∃ parent, n.parent = some parent ∧
    r = ⟨parent.bus.toNat, n.dev.dev.toNat, n.dev.fn.toNat, n.dev.vendorId.toNat,
      n.dev.deviceId.toNat, n.dev.gsi.toNat⟩

abbrev HasGsi (n : PciNode) : Prop := n.dev.gsi ≠ 0

/-! ## One record -/

theorem length_bytes (e : DevicesDatEntry) : e.bytes.length = 16 := rfl

/-- The padding behind the bus, for every record and every rest of the file. -/
theorem not_terminator {e : DevicesDatEntry} (hpad : e.pad1 = 0) (rest : List UInt8) :
    ¬ terminator <+: e.bytes ++ rest := by
  intro h
  have hthird : (0xff : UInt8) = UInt8.ofNat e.pad1.toNat := h.getElem (i := 2) (by decide)
  rw [hpad] at hthird
  exact absurd hthird (by decide)

/-- The same for the word that the record starts with. -/
theorem firstWord_lt {e : DevicesDatEntry} (hpad : e.pad1 = 0) :
    ofLE (e.bytes.take 4) < 2 ^ 16 := by
  have hfirst := (UInt8.ofNat (e.fn.toNat + 8 * e.dev.toNat)).toNat_lt
  have hbus := e.bus.toNat_lt
  have hword : ofLE (e.bytes.take 4)
      = (UInt8.ofNat (e.fn.toNat + 8 * e.dev.toNat)).toNat + 256 * (e.bus.toNat + 256 * ofLE
        (toLE 2 e.pad1.toNat)) := rfl
  rw [hword, hpad, ofLE_toLE 2 (by decide)]
  show _ + 256 * (_ + 256 * 0) < _
  omega

/-- Each field is read where it was written. -/
theorem decodeRecord_bytes (e : DevicesDatEntry) :
    decodeRecord e.bytes = ⟨e.bus.toNat, e.dev.toNat, e.fn.toNat, e.vendorId.toNat,
      e.deviceId.toNat, e.irq.toNat⟩ := by
  have hfn := e.fn.isLt
  have hdev := e.dev.isLt
  have hfirst : ofLE (e.bytes.take 1) = e.fn.toNat + 8 * e.dev.toNat := by
    show (UInt8.ofNat (e.fn.toNat + 8 * e.dev.toNat)).toNat + 256 * 0 = _
    rw [UInt8.toNat_ofNat']
    omega
  have hvendor : ofLE ((e.bytes.drop 4).take 2) = e.vendorId.toNat :=
    ofLE_toLE 2 e.vendorId.toNat_lt
  have hdevice : ofLE ((e.bytes.drop 6).take 2) = e.deviceId.toNat :=
    ofLE_toLE 2 e.deviceId.toNat_lt
  have hirq : ofLE ((e.bytes.drop 8).take 4) = e.irq.toNat := ofLE_toLE 4 e.irq.toNat_lt
  have hbus : ofLE ((e.bytes.drop 1).take 1) = e.bus.toNat := rfl
  rw [decodeRecord, hfirst, hvendor, hdevice, hirq, hbus]
  congr 1 <;> omega

/-- No field of such a device is narrowed to another value. -/
theorem decodeRecord_entry {d parent : PciDev} (hd : InRange d) (hparent : InRange parent) :
    decodeRecord (d.entry parent).bytes = ⟨parent.bus.toNat, d.dev.toNat, d.fn.toNat,
      d.vendorId.toNat, d.deviceId.toNat, d.gsi.toNat⟩ := by
  obtain ⟨-, hdev, hfn, hvendor, hdevice⟩ := hd
  have hbus := hparent.bus
  rw [decodeRecord_bytes, PciDev.entry]
  simp only [UInt32.toNat_toUInt8, UInt32.toNat_toUInt16, BitVec.toNat_ofNat,
    Nat.mod_eq_of_lt hbus, Nat.mod_eq_of_lt hvendor, Nat.mod_eq_of_lt hdevice]
  rw [Nat.mod_eq_of_lt (a := d.dev.toNat) hdev, Nat.mod_eq_of_lt (a := d.fn.toNat) hfn]

/-! ## The parents -/

/-- What holds of all devices of a tree, and of what is above it, holds of all parents. -/
theorem parent_of_mem {P : PciDev → Prop} {tree : PciTree} {n : PciNode} {parent : PciDev} :
    ∀ {top : Option PciDev}, n ∈ tree.nodes top → n.parent = some parent →
      (∀ m ∈ tree.nodes top, P m.dev) → (∀ p ∈ top, P p) → P parent := by
  induction tree with
  | null => exact fun h => absurd h List.not_mem_nil
  | node d children next ihc ihn =>
    intro top hmem hparent hall htop
    have hchild : ∀ m ∈ children.nodes (some d), P m.dev := fun m hm =>
      hall m (List.mem_cons_of_mem _ (List.mem_append_left _ hm))
    have hnext : ∀ m ∈ next.nodes top, P m.dev := fun m hm =>
      hall m (List.mem_cons_of_mem _ (List.mem_append_right _ hm))
    rcases List.mem_cons.mp hmem with rfl | hmem
    · exact htop parent hparent
    · rcases List.mem_append.mp hmem with hmem | hmem
      · exact ihc hmem hparent hchild fun p hp =>
          Option.mem_some.mp hp ▸ hall ⟨d, top⟩ List.mem_cons_self
      · exact ihn hmem hparent hnext htop

/-! ## The file -/

/-- The record was made of the node. -/
def Records (e : DevicesDatEntry) (n : PciNode) : Prop :=
  ∃ parent, n.parent = some parent ∧ e = n.dev.entry parent

theorem dumpDevicesDatIter_gsi {n : PciNode} {parent : PciDev} (hgsi : HasGsi n)
    (hparent : n.parent = some parent) :
    dumpDevicesDatIter n = some (n.dev.entry parent).bytes := by
  rw [dumpDevicesDatIter, if_pos hgsi, hparent, Option.map_some]

/-- A walk that follows no null pointer writes one record for each device with a `gsi`. -/
theorem mapM_dumpDevicesDatIter {walk : List PciNode}
    (hparent : ∀ n ∈ walk, HasGsi n → n.parent ≠ none) :
    ∃ (chunks : List (List UInt8)) (entries : List DevicesDatEntry),
      walk.mapM dumpDevicesDatIter = some chunks
      ∧ chunks.flatten = entries.flatMap DevicesDatEntry.bytes
      ∧ List.Forall₂ Records entries (walk.filter HasGsi) := by
  induction walk with
  | nil => exact ⟨[], [], rfl, rfl, .nil⟩
  | cons n walk ih =>
    obtain ⟨chunks, entries, hchunks, hflat, hrec⟩ :=
      ih fun m hm => hparent m (List.mem_cons_of_mem n hm)
    by_cases hgsi : HasGsi n
    · obtain ⟨parent, hp⟩ := Option.ne_none_iff_exists'.mp (hparent n List.mem_cons_self hgsi)
      refine ⟨(n.dev.entry parent).bytes :: chunks, n.dev.entry parent :: entries, ?_, ?_, ?_⟩
      · rw [List.mapM_cons, dumpDevicesDatIter_gsi hgsi hp, hchunks]
        rfl
      · rw [List.flatten_cons, List.flatMap_cons, hflat]
      · rw [List.filter_cons, if_pos (decide_eq_true hgsi)]
        exact .cons ⟨parent, hp, rfl⟩ hrec
    · refine ⟨[] :: chunks, entries, ?_, hflat, ?_⟩
      · rw [List.mapM_cons, dumpDevicesDatIter, if_neg hgsi, hchunks]
        rfl
      · rwa [List.filter_cons, if_neg (by rwa [decide_eq_true_eq])]

theorem pad1_of_records {entries : List DevicesDatEntry} {ns : List PciNode}
    (h : List.Forall₂ Records entries ns) : ∀ e ∈ entries, e.pad1 = 0 := by
  induction h with
  | nil => exact fun e he => absurd he List.not_mem_nil
  | cons hd _ ih =>
    obtain ⟨parent, -, rfl⟩ := hd
    exact List.forall_mem_cons.mpr ⟨rfl, ih⟩

/-- The records of devices in range say what the devices are. -/
theorem describes_of_records {entries : List DevicesDatEntry} {ns : List PciNode}
    (h : List.Forall₂ Records entries ns) (hdev : ∀ n ∈ ns, InRange n.dev)
    (hparent : ∀ n ∈ ns, ∀ p ∈ n.parent, InRange p) :
    List.Forall₂ Describes (entries.map fun e => decodeRecord e.bytes) ns := by
  induction h with
  | nil => exact .nil
  | @cons e n entries ns hd _ ih =>
    obtain ⟨parent, hp, rfl⟩ := hd
    refine .cons ⟨parent, hp, ?_⟩ (ih (fun m hm => hdev m (List.mem_cons_of_mem n hm))
      fun m hm => hparent m (List.mem_cons_of_mem n hm))
    exact decodeRecord_entry (hdev n List.mem_cons_self) (hparent n List.mem_cons_self parent hp)

/-- What `dump_devices_dat` writes for a tree can be read back in one way only: the records up to
    the first `0xffffffff` are those of the devices with a `gsi`, in the order of the walk, and no
    record starts with that word. -/
theorem devicesDat_readBack {tree : PciTree} {top : Option PciDev} {walk : List PciNode}
    (hwalk : walk.Perm (tree.nodes top)) (hrange : ∀ n ∈ tree.nodes top, InRange n.dev)
    (htop : ∀ p ∈ top, InRange p)
    (hparent : ∀ n ∈ tree.nodes top, HasGsi n → n.parent ≠ none) :
    (∃ file records, dumpDevicesDat walk = some file
      ∧ readRecords 16 terminator decodeRecord file.length file = some records
      ∧ List.Forall₂ Describes records (walk.filter HasGsi))
    ∧ ∀ n ∈ tree.nodes top, HasGsi n → ∃ record, dumpDevicesDatIter n = some record
      ∧ record.length = 16 ∧ ofLE (record.take 4) ≠ 0xffffffff := by
  constructor
  · obtain ⟨chunks, entries, hchunks, hflat, hrec⟩ :=
      mapM_dumpDevicesDatIter fun n hn => hparent n (hwalk.mem_iff.mp hn)
    have hfile : dumpDevicesDat walk
        = some (entries.flatMap DevicesDatEntry.bytes ++ terminator) := by
      rw [dumpDevicesDat, hchunks, ← hflat]
      rfl
    have hmem : ∀ n ∈ walk.filter HasGsi, n ∈ tree.nodes top := fun n hn =>
      hwalk.mem_iff.mp (List.mem_of_mem_filter hn)
    refine ⟨_, entries.map fun e => decodeRecord e.bytes, hfile, ?_, ?_⟩
    · refine readRecords_flatMap (fun e _ => length_bytes e)
        (fun e he => not_terminator (pad1_of_records hrec e he)) _ ?_
      simp only [List.length_append, List.length_flatMap, length_bytes, List.map_const',
        List.sum_replicate_nat, length_toLE]
      omega
    · exact describes_of_records hrec (fun n hn => hrange n (hmem n hn)) fun n hn p hp =>
        parent_of_mem (hmem n hn) hp hrange htop
  · intro n hn hgsi
    obtain ⟨parent, hp⟩ := Option.ne_none_iff_exists'.mp (hparent n hn hgsi)
    exact ⟨_, dumpDevicesDatIter_gsi hgsi hp, length_bytes _,
      Nat.ne_of_lt (Nat.lt_trans (firstWord_lt rfl) (by decide))⟩

/-- A bridge without a `gsi` and two functions of a device below it, one at the highest numbers of
    all fields. -/
theorem devicesDat_readBack_bridge :
    ∃ file records, dumpDevicesDat
      [⟨⟨255, 31, 7, 0xffff, 0xffff, 0xffffffff⟩, some ⟨255, 0, 0, 0, 0, 0⟩⟩,
        ⟨⟨255, 0, 0, 0, 0, 0⟩, none⟩, ⟨⟨255, 0, 1, 0x8086, 0x100e, 11⟩, some ⟨255, 0, 0, 0, 0, 0⟩⟩]
        = some file
      ∧ readRecords 16 terminator decodeRecord file.length file = some records
      ∧ List.Forall₂ Describes records
        [⟨⟨255, 31, 7, 0xffff, 0xffff, 0xffffffff⟩, some ⟨255, 0, 0, 0, 0, 0⟩⟩,
          ⟨⟨255, 0, 1, 0x8086, 0x100e, 11⟩, some ⟨255, 0, 0, 0, 0, 0⟩⟩] :=
  (@devicesDat_readBack (.node ⟨255, 0, 0, 0, 0, 0⟩ (.node ⟨255, 0, 1, 0x8086, 0x100e, 11⟩ .null
      (.node ⟨255, 31, 7, 0xffff, 0xffff, 0xffffffff⟩ .null .null)) .null) none _
    (by decide) (by decide) (fun _ h => nomatch h) (by decide)).1

end Umka.Proof.Acpi
