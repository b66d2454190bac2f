import Umka.Net.Vnet

/-!
# When packets are delivered intact

A read that returned a packet is handed on as it was. The monitor does not look at the result,
though: an error is a length of four gigabytes, and the end of the file an empty packet.
-/

set_option autoImplicit false

namespace Umka.Proof.Net

open Umka.Net

/-- The packet that was read, if one was. -/
def packet : ReadResult → Option (List UInt8)
  | .error => none
  | .got data _ => if data = [] then none else some data

theorem packet_isSome {r : ReadResult} :
    (packet r).isSome ↔ ∃ data fits, r = .got data fits ∧ data ≠ [] := by
  cases r with
  | error => exact ⟨fun h => absurd h (by decide), fun ⟨_, _, h, _⟩ => nomatch h⟩
  | got data fits =>
    rw [packet]
    split
    · rename_i hnil
      refine ⟨fun h => absurd h (by decide), ?_⟩
      rintro ⟨_, _, h, hne⟩
      cases h
      exact absurd hnil hne
    · rename_i hne
      exact ⟨fun _ => ⟨data, fits, rfl, hne⟩, fun _ => rfl⟩

/-- What may happen after a read. -/
def Intact (r : ReadResult) : Event → Prop
  | .memcpy n => n ≤ vnetBufinCap
  | .ethInput buf => buf.length.toNat ≤ netBufferSize - dataOffset
      ∧ buf.data.length = buf.length.toNat ∧ packet r = some buf.data

/-- All that happens is intact, whatever was in the device before and whenever the kernel has
    buffers. -/
def VnetRight (results : List ReadResult) : Prop :=
  ∀ (v : Vnet) (allocs : List Bool), allocs.length = results.length →
    ∀ p ∈ vnetInputMonitor v (results.zip allocs), ∀ e ∈ p.2, Intact p.1 e

/-! ## One round -/

theorem toNat_nread {data : List UInt8} (fits : data.length ≤ vnetBufinCap) :
    (ReadResult.got data fits).nread.toUInt32.toNat = data.length := by
  have hfits : data.length ≤ 2024 := fits
  have hword : (ReadResult.got data fits).nread.toUInt32 = UInt32.ofNat data.length := rfl
  rw [hword, UInt32.toNat_ofNat']
  omega

/-- What was read is copied and handed on as it is, also when it is nothing. -/
theorem monitorRound_got (v : Vnet) {data : List UInt8} (fits : data.length ≤ vnetBufinCap) :
    ∃ v', monitorRound v (.got data fits) true
      = ([.memcpy data.length,
          .ethInput ⟨(ReadResult.got data fits).nread.toUInt32, dataOffset, data⟩], some v') := by
  have hlen := toNat_nread fits
  have htake : ((ReadResult.got data fits).store v).bufin.take data.length = data :=
    List.take_left' rfl
  simp only [monitorRound, vnetInput, if_true, hlen, if_pos fits, htake]
  exact ⟨_, rfl⟩

/-- The error is copied as a length. -/
theorem monitorRound_error (v : Vnet) :
    monitorRound v .error true = ([.memcpy 0xffffffff], none) := by
  have hlen : ReadResult.error.nread.toUInt32.toNat = 0xffffffff := by decide
  have hcap : ¬ 0xffffffff ≤ vnetBufinCap := by decide
  simp only [monitorRound, vnetInput, if_true, hlen, if_neg hcap]

/-- Everything that happens in a round with a packet is intact, and the device is still there. -/
theorem intact_of_packet (v : Vnet) {r : ReadResult} (alloc : Bool) (hr : (packet r).isSome) :
    ∃ events v', monitorRound v r alloc = (events, some v') ∧ ∀ e ∈ events, Intact r e := by
  obtain ⟨data, fits, rfl, hne⟩ := packet_isSome.mp hr
  cases alloc with
  | false => exact ⟨[], _, rfl, fun e he => absurd he List.not_mem_nil⟩
  | true =>
    obtain ⟨v', hround⟩ := monitorRound_got v fits
    have hlen := toNat_nread fits
    refine ⟨_, v', hround, List.forall_mem_cons.mpr ⟨fits, List.forall_mem_singleton.mpr ?_⟩⟩
    exact ⟨hlen.trans_le fits, hlen.symm, if_neg hne⟩

/-- A round without a packet, with a buffer for it, is not. -/
theorem not_intact_of_none (v : Vnet) {r : ReadResult} (hr : packet r = none) :
    ∃ e ∈ (monitorRound v r true).1, ¬ Intact r e := by
  cases r with
  | error =>
    rw [monitorRound_error]
    exact ⟨_, List.mem_singleton_self _, fun h : 0xffffffff ≤ vnetBufinCap => absurd h (by decide)⟩
  | got data fits =>
    obtain ⟨v', hround⟩ := monitorRound_got v fits
    rw [hround]
    refine ⟨_, List.mem_cons_of_mem _ (List.mem_singleton_self _), fun h => ?_⟩
    exact Option.some_ne_none _ (h.2.2.symm.trans hr)

/-! ## All rounds -/

theorem vnetInputMonitor_cons {v v' : Vnet} {r : ReadResult} {alloc : Bool} {events : List Event}
    (h : monitorRound v r alloc = (events, some v')) (rest : List (ReadResult × Bool)) :
    vnetInputMonitor v ((r, alloc) :: rest) = (r, events) :: vnetInputMonitor v' rest := by
  rw [vnetInputMonitor, h]

/-- The first round is what it is, however it ends. -/
theorem mem_vnetInputMonitor (v : Vnet) (r : ReadResult) (alloc : Bool)
    (rest : List (ReadResult × Bool)) :
    (r, (monitorRound v r alloc).1) ∈ vnetInputMonitor v ((r, alloc) :: rest) := by
  rw [vnetInputMonitor]
  split <;> rename_i hround <;> rw [hround]
  · exact List.mem_cons_self
  · exact List.mem_singleton_self _

theorem vnetRight_of_packets {results : List ReadResult} (h : ∀ r ∈ results, (packet r).isSome) :
    VnetRight results := by
  induction results with
  | nil => exact fun v allocs _ p hp => absurd hp List.not_mem_nil
  | cons r results ih =>
    intro v allocs hlen
    obtain ⟨alloc, allocs, rfl⟩ := List.exists_cons_of_length_eq_add_one hlen
    obtain ⟨events, v', hround, hintact⟩ := intact_of_packet v alloc (h r List.mem_cons_self)
    rw [List.zip_cons_cons, vnetInputMonitor_cons hround]
    exact List.forall_mem_cons.mpr
      ⟨hintact, ih (fun s hs => h s (List.mem_cons_of_mem r hs)) v' allocs (Nat.succ.inj hlen)⟩

/-- With buffers for all, the first read without a packet goes wrong. -/
theorem packets_of_vnetRight {results : List ReadResult} :
    ∀ v : Vnet, (∀ p ∈ vnetInputMonitor v (results.zip (List.replicate results.length true)),
        ∀ e ∈ p.2, Intact p.1 e) → ∀ r ∈ results, (packet r).isSome := by
  induction results with
  | nil => exact fun _ _ r hr => absurd hr List.not_mem_nil
  | cons r results ih =>
    intro v h
    rw [List.length_cons, List.replicate_succ, List.zip_cons_cons] at h
    have hr : (packet r).isSome := by
      by_contra hnone
      obtain ⟨e, he, hbad⟩ := not_intact_of_none v (Option.not_isSome_iff_eq_none.mp hnone)
      exact hbad (h _ (mem_vnetInputMonitor v r true _) e he)
    obtain ⟨events, v', hround, -⟩ := intact_of_packet v true hr
    rw [vnetInputMonitor_cons hround] at h
    exact List.forall_mem_cons.mpr ⟨hr, ih v' (List.forall_mem_cons.mp h).2⟩

/-- A device as `malloc` may give it. -/
def freshVnet : Vnet := ⟨List.replicate vnetBufinCap 0, 0, true, List.length_replicate⟩

theorem packet_of_vnetRight {results : List ReadResult} (h : VnetRight results) {r : ReadResult}
    (hr : r ∈ results) : (packet r).isSome :=
  packets_of_vnetRight freshVnet (h freshVnet _ List.length_replicate) r hr

/-- **Packets are delivered intact, and nothing else is, exactly when every `read` returns one.** -/
theorem vnetRight_iff (results : List ReadResult) :
    VnetRight results ↔ ∀ r ∈ results, ∃ data fits, r = .got data fits ∧ data ≠ [] := by
  constructor
  · exact fun h r hr => packet_isSome.mp (packet_of_vnetRight h hr)
  · exact fun h => vnetRight_of_packets fun r hr => packet_isSome.mpr (h r hr)

/-- An error copies far more than the arrays have, and the end of the file is handed on as a packet
    of no bytes. -/
theorem vnetRight_error_eof : ¬ VnetRight [.error] ∧ ¬ VnetRight [.got [] (Nat.zero_le _)] := by
  constructor
  · intro h
    exact absurd (packet_of_vnetRight h (List.mem_singleton_self _)) (by decide)
  · intro h
    exact absurd (packet_of_vnetRight h (List.mem_singleton_self _)) (by decide)

end Umka.Proof.Net
