import Umka.Shell.Net

/-!
# MAC addresses there and back

The address is printed in hexadecimal and read, and printed again, in decimal. Two digits mean the
same in both exactly when the first one is 0 and the second one is not a letter.
-/

set_option autoImplicit false

namespace Umka.Proof.Shell

open Lib Umka.Shell

/-- The text is read as the six bytes of the address, all of them stored. -/
def ReadAs (text : List Char) (mac : List UInt8) : Prop :=
  ∀ (inetAddr : List Char → UInt32) (devNum addr status ttl : List Char),
    (netArpAddEntry inetAddr devNum addr text status ttl).2.mac = mac

/-- The text is the one that is printed for an entry with the address. -/
def PrintedFor (text : List Char) (mac : List UInt8) : Prop :=
  ∀ (arpNum : UInt32) (r : F76Ret) (arp : ArpEntry), arp.mac = mac → r.eax ≠ 0xffffffff →
    netArpGetEntry arpNum r arp = arpLine arpNum arp text

/-- What is printed for the address of a device, without the newline, is read as that address and
    printed again for it. -/
def MacRoundTrips (r : F76Ret) : Prop :=
  ∃ text, netEthReadMac r = text ++ ['\n'] ∧ ReadAs text (macOf r) ∧ PrintedFor text (macOf r)

/-! ## One number -/

section Scan

variable {c : Char} {w tail : List Char}

/-- What follows a number, and is no digit, does not change it. -/
theorem scanU8_append (hc : (hexDigit? c).isSome) (ht : ∀ d ∈ tail.head?, digitIn 10 d = false) :
    scanU8 (c :: w ++ tail) = (scanU8 (c :: w)).map fun p => (p.1, p.2 ++ tail) := by
  obtain ⟨htake, hdrop⟩ := takeWhile_append_stop (w := c :: w) ht
  unfold scanU8
  rw [dropWhile_of_digit hc, unsign_of_digit hc, List.cons_append, dropWhile_of_digit hc,
    unsign_of_digit hc, ← List.cons_append]
  dsimp only
  rw [htake, hdrop]
  split <;> rfl

end Scan

/-! ## One byte -/

/-- All bytes at once: up to 9 the two bases agree, and above the byte read is another one. -/
theorem scanU8_twoDigits_all : ∀ n < 256,
    ((twoDigits 16 (UInt8.ofNat n)).head?.bind hexDigit?).isSome
    ∧ if n ≤ 9 then scanU8 (twoDigits 16 (UInt8.ofNat n)) = some (UInt8.ofNat n, [])
        ∧ twoDigits 10 (UInt8.ofNat n) = twoDigits 16 (UInt8.ofNat n)
      else ∀ p ∈ scanU8 (twoDigits 16 (UInt8.ofNat n)), p.1 ≠ UInt8.ofNat n := by
  decide +kernel

section Byte

variable {b : UInt8} {n : Nat} {tail : List Char}

theorem scanU8_twoDigits_append (ht : ∀ d ∈ tail.head?, digitIn 10 d = false) :
    scanU8 (twoDigits 16 b ++ tail)
      = (scanU8 (twoDigits 16 b)).map fun p => (p.1, p.2 ++ tail) := by
  have hhead := (scanU8_twoDigits_all b.toNat b.toNat_lt).1
  rw [UInt8.ofNat_toNat] at hhead
  cases hw : twoDigits 16 b with
  | nil => rw [hw] at hhead; cases hhead
  | cons c w =>
    rw [hw] at hhead
    exact scanU8_append hhead ht

theorem twoDigits_of_le (hb : b.toNat ≤ 9) :
    scanU8 (twoDigits 16 b) = some (b, []) ∧ twoDigits 10 b = twoDigits 16 b := by
  have hall := (scanU8_twoDigits_all b.toNat b.toNat_lt).2
  rwa [if_pos hb, UInt8.ofNat_toNat] at hall

theorem twoDigits_of_gt (hb : ¬ b.toNat ≤ 9) : ∀ p ∈ scanU8 (twoDigits 16 b), p.1 ≠ b := by
  have hall := (scanU8_twoDigits_all b.toNat b.toNat_lt).2
  rwa [if_neg hb, UInt8.ofNat_toNat] at hall

/-- A byte up to 9 is read, and the next one behind its colon. -/
theorem scanU8s_colon (hb : b.toNat ≤ 9) (rest : List Char) :
    scanU8s (n + 1) (twoDigits 16 b ++ ':' :: rest) = b :: scanU8s n rest := by
  have hscan : scanU8 (twoDigits 16 b ++ ':' :: rest) = some (b, ':' :: rest) := by
    rw [scanU8_twoDigits_append (fun d hd => by cases hd; rfl), (twoDigits_of_le hb).1]
    rfl
  simp only [scanU8s, hscan]

/-- The last one. -/
theorem scanU8s_last (hb : b.toNat ≤ 9) : scanU8s (n + 1) (twoDigits 16 b) = [b] := by
  rw [scanU8s, (twoDigits_of_le hb).1]

/-- Another byte is not read as what it is. -/
theorem scanU8s_ne (hb : ¬ b.toNat ≤ 9) (ht : ∀ d ∈ tail.head?, digitIn 10 d = false)
    (bs : List UInt8) : scanU8s (n + 1) (twoDigits 16 b ++ tail) ≠ b :: bs := by
  have hne := twoDigits_of_gt hb
  rw [scanU8s, scanU8_twoDigits_append ht]
  cases hscan : scanU8 (twoDigits 16 b) with
  | none => exact fun h => nomatch h
  | some p =>
    rw [Option.map_some]
    split
    · next h => cases h
    · next b' rest h =>
      have hfst : p.1 = b' := (Prod.mk.inj (Option.some.inj h)).1
      exact fun heq => hne p hscan (hfst.trans (List.cons.inj heq).1)
    · next b' rest _ h =>
      have hfst : p.1 = b' := (Prod.mk.inj (Option.some.inj h)).1
      exact fun heq => hne p hscan (hfst.trans (List.cons.inj heq).1)

end Byte

/-! ## Six bytes -/

/-- The printed bytes are read back exactly when none is above 9. -/
theorem scanU8s_colons_iff (bs : List UInt8) : bs ≠ [] →
    (scanU8s bs.length (colons (bs.map (twoDigits 16))) = bs ↔ ∀ b ∈ bs, b.toNat ≤ 9) := by
  induction bs with
  | nil => exact fun h => absurd rfl h
  | cons b bs ih =>
    intro _
    by_cases hb : b.toNat ≤ 9
    · rw [List.forall_mem_cons, and_iff_right hb]
      cases bs with
      | nil => exact iff_of_true (scanU8s_last hb) (fun _ h => nomatch h)
      | cons b' bs =>
        rw [← ih (List.cons_ne_nil _ _)]
        show scanU8s _ (twoDigits 16 b ++ ':' :: colons _) = _ ↔ _
        rw [List.length_cons, scanU8s_colon hb, List.cons.injEq, and_iff_right rfl]
    · refine iff_of_false ?_ (fun h => hb (h b List.mem_cons_self))
      cases bs with
      | nil =>
        have hne : scanU8s 1 (twoDigits 16 b ++ []) ≠ [b] := scanU8s_ne hb (by simp) []
        rwa [List.append_nil] at hne
      | cons b' bs => exact scanU8s_ne hb (fun d hd => by cases hd; rfl) _

theorem colons_twoDigits_eq {bs : List UInt8} (h : ∀ b ∈ bs, b.toNat ≤ 9) :
    bs.map (twoDigits 10) = bs.map (twoDigits 16) :=
  List.map_congr_left fun b hb => (twoDigits_of_le (h b hb)).2

/-- An address that is taken for an error is not read at all. -/
theorem not_readAs_fail (r : F76Ret) : ¬ ReadAs "status: fail".toList (macOf r) := by
  intro h
  have hscan : scanU8s 6 "status: fail".toList = macOf r := h (fun _ => 0) [] [] [] []
  exact nomatch hscan

/-- **An address makes the round trip exactly when none of its bytes is above 9.** -/
theorem macRoundTrips_iff (r : F76Ret) : MacRoundTrips r ↔ ∀ b ∈ macOf r, b.toNat ≤ 9 := by
  have hlen : macOf r ≠ [] := List.cons_ne_nil _ _
  constructor
  · rintro ⟨text, htext, hread, -⟩
    unfold netEthReadMac at htext
    split at htext
    · have hfail : "status: fail".toList = text := List.append_cancel_right htext
      exact absurd (hfail ▸ hread) (not_readAs_fail r)
    · have hcolons := List.append_cancel_right htext
      rw [← scanU8s_colons_iff _ hlen, hcolons]
      exact hread (fun _ => 0) [] [] [] []
  · intro h
    have hok : r.eax ≠ 0xffffffff := by
      intro heax
      have hbyte := h (r.eax >>> 0).toUInt8 (by simp [macOf])
      rw [heax] at hbyte
      exact absurd hbyte (by decide)
    refine ⟨_, if_neg hok, fun _ _ _ _ _ => (scanU8s_colons_iff _ hlen).mpr h,
      fun arpNum r' arp harp hr' => ?_⟩
    rw [netArpGetEntry, if_neg hr', harp, colons_twoDigits_eq h]

/-- The address that the tests give to `net_arp_add_entry`, `80:2b:f9:3b:6c:c9`. -/
theorem mac_not_roundTrips : ¬ MacRoundTrips ⟨0xc96c3bf9, 0x2b80⟩ := by
  rintro ⟨text, htext, hread, -⟩
  have hprint : netEthReadMac ⟨0xc96c3bf9, 0x2b80⟩ = "80:2b:f9:3b:6c:c9".toList ++ ['\n'] := by
    decide +kernel
  have hsame : text = "80:2b:f9:3b:6c:c9".toList :=
    List.append_cancel_right (htext.symm.trans hprint)
  have hscan : scanU8s 6 text = macOf ⟨0xc96c3bf9, 0x2b80⟩ := hread (fun _ => 0) [] [] [] []
  rw [hsame] at hscan
  exact absurd hscan (by decide +kernel)

end Umka.Proof.Shell
