import Umka.Shell.Numbers

/-!
# Which numbers are accepted, and how sizes are abbreviated

`strtoumax` takes a minus sign and negates modulo `2^64`, and it answers a number that is too large
with the largest one. Neither is looked at afterwards, so `parse_uint64` takes both for numbers, and
`parse_uint32` those whose negative is small.

`bytes_to_kmgtpe` divides by a signed division. A size below `2^63` is divided as it should be. A
larger one is taken for a negative number; if it is a multiple of 1024 the quotient, read as an
unsigned number again, is larger than the size.
-/

set_option autoImplicit false

namespace Umka.Proof.Shell

open Lib Umka.Shell

/-! ## Arguments -/

/-- The numbers below `2^32` are accepted, with their value, and nothing else. -/
def Exact32 (s : List Char) : Prop := ∀ v : UInt32, parseUint32 s = .ok v ↔ Written s false v.toNat

/-- The numbers below `2^64` are accepted, with their value, and nothing else. -/
def Exact64 (s : List Char) : Prop := ∀ v : UInt64, parseUint64 s = .ok v ↔ Written s false v.toNat

section Parse

variable {s : List Char}

theorem strtoul_lt (w : Nat) (s : List Char) : strtoul w s < 2 ^ w := by
  have hw := Nat.two_pow_pos w
  unfold strtoul
  dsimp only
  split
  · omega
  · split
    · exact Nat.mod_lt _ hw
    · omega

theorem parseUintmax_fst : (parseUintmax s).1 = true ↔ endptr s ≠ s ∧ endptr s = [] :=
  decide_eq_true_iff

theorem toNat_parseUintmax : (parseUintmax s).2.toNat = strtoul 64 s := by
  rw [parseUintmax, UInt64.toNat_ofNat', Nat.mod_eq_of_lt (strtoul_lt 64 s)]

theorem ite_ok_iff {ε α : Type} {c : Prop} [Decidable c] {a v : α} {e : ε} :
    (if c then Except.ok a else .error e) = .ok v ↔ c ∧ a = v := by
  split
  · next h => rw [Except.ok.injEq, and_iff_right h]
  · next h => exact iff_of_false (fun herr => nomatch herr) fun hc => h hc.1

theorem parseUint32_ok_iff {v : UInt32} : parseUint32 s = .ok v ↔
    (endptr s ≠ s ∧ endptr s = []) ∧ strtoul 64 s = v.toNat := by
  have hv := v.toNat_lt
  have hmax : (0xffffffff : UInt64).toNat = 2 ^ 32 - 1 := rfl
  rw [parseUint32, ite_ok_iff, parseUintmax_fst, UInt64.le_iff_toNat_le, ← UInt32.toNat_inj,
    UInt64.toNat_toUInt32, toNat_parseUintmax, hmax]
  constructor
  · rintro ⟨⟨hok, hle⟩, heq⟩
    exact ⟨hok, by omega⟩
  · rintro ⟨hok, heq⟩
    exact ⟨⟨hok, by omega⟩, by omega⟩

/-- The bound of `parse_uint64` excludes nothing. -/
theorem parseUint64_ok_iff {v : UInt64} : parseUint64 s = .ok v ↔
    (endptr s ≠ s ∧ endptr s = []) ∧ strtoul 64 s = v.toNat := by
  have hlt := strtoul_lt 64 s
  have hle : strtoul 64 s ≤ (0xffffffffffffffff : UInt64).toNat := Nat.le_of_lt_succ hlt
  rw [parseUint64, ite_ok_iff, parseUintmax_fst, UInt64.le_iff_toNat_le, ← UInt64.toNat_inj,
    toNat_parseUintmax, and_iff_left hle]

/-- A string that is no number is not accepted as one. -/
theorem not_written_of_rest (h : ¬ (endptr s ≠ s ∧ endptr s = [])) (neg : Bool) (v : Nat) :
    ¬ Written s neg v :=
  fun hw => h (written_iff.mp hw).1

/-- A string that is one stands for one number only. -/
theorem written_iff_of_number {neg : Bool} {m : Nat} (h : endptr s ≠ s ∧ endptr s = [])
    (hs : signedNumber s = (neg, m)) (neg' : Bool) (v : Nat) :
    Written s neg' v ↔ neg = neg' ∧ m = v := by
  rw [written_iff, hs, Prod.mk.injEq]
  exact and_iff_right h

theorem strtoul_of_number {neg : Bool} {m : Nat} (hs : signedNumber s = (neg, m)) :
    strtoul 64 s
      = if 2 ^ 64 ≤ m then 2 ^ 64 - 1 else if neg then (2 ^ 64 - m) % 2 ^ 64 else m := by
  unfold strtoul
  rw [hs]

theorem exact32_iff_of_number {neg : Bool} {m : Nat} (h : endptr s ≠ s ∧ endptr s = [])
    (hs : signedNumber s = (neg, m)) :
    Exact32 s ↔ (neg = true → m ≠ 0 ∧ ¬ (2 ^ 64 - 2 ^ 32 < m ∧ m < 2 ^ 64)) := by
  have hul := strtoul_of_number hs
  simp only [Exact32, parseUint32_ok_iff, written_iff_of_number h hs, and_iff_right h]
  cases neg with
  | false =>
    refine iff_of_true (fun v => ?_) (fun hneg => nomatch hneg)
    have hv := v.toNat_lt
    rw [if_neg Bool.false_ne_true] at hul
    rw [and_iff_right rfl]
    split at hul <;> omega
  | true =>
    rw [if_pos rfl] at hul
    constructor
    · intro hall _
      -- a value below `2^32` would be accepted
      have hlarge : 2 ^ 32 ≤ strtoul 64 s := by
        by_contra hsmall
        have haccept := hall (UInt32.ofNat (strtoul 64 s))
        rw [UInt32.toNat_ofNat', Nat.mod_eq_of_lt (Nat.lt_of_not_le hsmall)] at haccept
        exact nomatch (haccept.mp rfl).1
      split at hul <;> omega
    · intro hm v
      obtain ⟨hzero, hnear⟩ := hm rfl
      have hv := v.toNat_lt
      refine iff_of_false (fun heq => ?_) (fun hneg => nomatch hneg.1)
      split at hul <;> omega

theorem exact64_iff_of_number {neg : Bool} {m : Nat} (h : endptr s ≠ s ∧ endptr s = [])
    (hs : signedNumber s = (neg, m)) : Exact64 s ↔ neg = false ∧ m < 2 ^ 64 := by
  have hlt := strtoul_lt 64 s
  have hul := strtoul_of_number hs
  simp only [Exact64, parseUint64_ok_iff, written_iff_of_number h hs, and_iff_right h]
  constructor
  · intro hall
    have haccept := hall (UInt64.ofNat (strtoul 64 s))
    rw [UInt64.toNat_ofNat', Nat.mod_eq_of_lt hlt] at haccept
    obtain ⟨hneg, hm⟩ := haccept.mp rfl
    exact ⟨hneg, hm ▸ hlt⟩
  · rintro ⟨rfl, hm⟩ v
    rw [if_neg (Nat.not_le.mpr hm), if_neg Bool.false_ne_true] at hul
    rw [hul, and_iff_right rfl]

end Parse

/-- **Numbers are accepted exactly as long as there is no minus sign, and no more than 64 bits.**
    `parse_uint32` rejects most of the others, but not a negative number whose remainder modulo
    `2^64` has 32 bits. -/
theorem parse_exact_iff (s : List Char) :
    (Exact32 s ↔ ∀ m, Written s true m → m ≠ 0 ∧ ¬ (2 ^ 64 - 2 ^ 32 < m ∧ m < 2 ^ 64))
    ∧ (Exact64 s ↔ (∀ m, ¬ Written s true m) ∧ ∀ m, Written s false m → m < 2 ^ 64) := by
  by_cases h : endptr s ≠ s ∧ endptr s = []
  · obtain ⟨neg, m, hs⟩ : ∃ neg m, signedNumber s = (neg, m) := ⟨_, _, rfl⟩
    have hw := written_iff_of_number h hs
    rw [exact32_iff_of_number h hs, exact64_iff_of_number h hs]
    simp only [hw]
    cases neg with
    | false => simp
    | true => simp
  · have hw := not_written_of_rest h
    simp only [Exact32, Exact64, parseUint32_ok_iff, parseUint64_ok_iff, hw, h, false_and]
    simp

/-- `-1`, and a number of 65 bits, as an offset; `-18446744073709551615` as a count. -/
theorem negative_not_exact : ¬ Exact64 "-1".toList ∧ ¬ Exact64 "18446744073709551616".toList
    ∧ ¬ Exact32 "-18446744073709551615".toList := by
  refine ⟨fun h => ?_, fun h => ?_, fun h => ?_⟩
  · exact absurd ((h 0xffffffffffffffff).mp (by decide +kernel))
      (by rw [written_iff]; decide +kernel)
  · exact absurd ((h 0xffffffffffffffff).mp (by decide +kernel))
      (by rw [written_iff]; decide +kernel)
  · exact absurd ((h 1).mp (by decide +kernel)) (by rw [written_iff]; decide +kernel)

/-! ## Sizes -/

def unitNames : List String := ["B", "kiB", "MiB", "GiB", "TiB", "PiB", "EiB"]

/-- The abbreviated size is the size, and the unit is the largest one that divides it. -/
def Lossless (b : UInt64) : Prop :=
  ∃ u ≤ 6, unitNames[u]? = some (bytesToKmgtpe b).2
    ∧ (bytesToKmgtpe b).1.toNat * 1024 ^ u = b.toNat
    ∧ (b = 0 → u = 0) ∧ (b ≠ 0 → ∀ u' ≤ 6, 1024 ^ u' ∣ b.toNat → u' ≤ u)

section Sizes

variable {b : UInt64}

theorem toInt_toInt64 (b : UInt64) :
    b.toInt64.toInt = if b.toNat < 2 ^ 63 then (b.toNat : Int) else (b.toNat : Int) - 2 ^ 64 := by
  have h : b.toInt64.toInt = b.toBitVec.toInt := rfl
  have hn : b.toBitVec.toNat = b.toNat := rfl
  rw [h, BitVec.toInt_eq_toNat_cond, hn]
  split <;> split <;> omega

/-- No rest is left exactly when the size is a multiple of 1024, whatever its sign. -/
theorem lldiv_rem_eq_zero_iff : (lldiv b.toInt64.toInt 1024).2 = 0 ↔ 1024 ∣ b.toNat := by
  have hb := b.toNat_lt
  rw [lldiv, ← Int.dvd_iff_tmod_eq_zero, toInt_toInt64]
  split <;> omega

theorem toNat_quot (q : Int) : (Int64.ofInt q).toUInt64.toNat = (q % 2 ^ 64).toNat :=
  BitVec.toNat_ofInt q

/-- The quotient of a small size. -/
theorem lldiv_quot_small (hb : b.toNat < 2 ^ 63) (hdvd : 1024 ∣ b.toNat) :
    (Int64.ofInt (lldiv b.toInt64.toInt 1024).1).toUInt64.toNat * 1024 = b.toNat := by
  have hint : (b.toInt64.toInt : Int) = b.toNat := by rw [toInt_toInt64, if_pos hb]
  have hquot : (lldiv b.toInt64.toInt 1024).1 = b.toNat / 1024 := by
    simp only [lldiv, hint]
    exact Int.tdiv_eq_ediv_of_nonneg (Int.natCast_nonneg _)
  rw [toNat_quot, hquot]
  omega

/-- The quotient of a size that is taken for a negative number is such a size again. -/
theorem lldiv_quot_large (hb : 2 ^ 63 ≤ b.toNat) (hdvd : 1024 ∣ b.toNat) :
    2 ^ 63 ≤ (Int64.ofInt (lldiv b.toInt64.toInt 1024).1).toUInt64.toNat := by
  have hlt := b.toNat_lt
  have hint : (b.toInt64.toInt : Int) = b.toNat - 2 ^ 64 := by
    rw [toInt_toInt64, if_neg (Nat.not_lt.mpr hb)]
  have hquot : (lldiv b.toInt64.toInt 1024).1 = ((b.toNat : Int) - 2 ^ 64) / 1024 := by
    rw [hint]
    exact Int.tdiv_eq_ediv_of_dvd (by omega)
  rw [toNat_quot, hquot]
  omega

/-- Below `2^63` the divisions go on exactly as far as they can. -/
theorem divideOn_small (units : List String) : ∀ {b : UInt64} (kmg : String), b.toNat < 2 ^ 63 →
    ∃ k ≤ units.length, (kmg :: units)[k]? = some (divideOn units b kmg).2
      ∧ (divideOn units b kmg).1.toNat * 1024 ^ k = b.toNat
      ∧ (k < units.length → ¬ 1024 ∣ (divideOn units b kmg).1.toNat) := by
  induction units with
  | nil => exact fun kmg _ => ⟨0, le_refl 0, rfl, Nat.mul_one _, fun h => absurd h (lt_irrefl 0)⟩
  | cons unit units ih =>
    intro b kmg hb
    rw [divideOn]
    split
    · next h =>
      rw [ne_eq, lldiv_rem_eq_zero_iff] at h
      exact ⟨0, Nat.zero_le _, rfl, Nat.mul_one _, fun _ => h⟩
    · next h =>
      rw [not_not, lldiv_rem_eq_zero_iff] at h
      have hquot := lldiv_quot_small hb h
      have hsmall : (Int64.ofInt (lldiv b.toInt64.toInt 1024).1).toUInt64.toNat < 2 ^ 63 := by omega
      obtain ⟨k, hk, hunit, hval, hmax⟩ := ih unit hsmall
      refine ⟨k + 1, Nat.succ_le_succ hk, hunit, ?_, fun hlt => hmax (Nat.lt_of_succ_lt_succ hlt)⟩
      rw [Nat.pow_succ, ← Nat.mul_assoc, hval, hquot]

/-- From `2^63` on they never come below it. -/
theorem divideOn_large (units : List String) : ∀ {b : UInt64} (kmg : String), 2 ^ 63 ≤ b.toNat →
    2 ^ 63 ≤ (divideOn units b kmg).1.toNat ∧ (divideOn units b kmg).2 ∈ kmg :: units := by
  induction units with
  | nil => exact fun kmg hb => ⟨hb, List.mem_cons_self⟩
  | cons unit units ih =>
    intro b kmg hb
    rw [divideOn]
    split
    · exact ⟨hb, List.mem_cons_self⟩
    · next h =>
      rw [not_not, lldiv_rem_eq_zero_iff] at h
      obtain ⟨hval, hunit⟩ := ih unit (lldiv_quot_large hb h)
      exact ⟨hval, List.mem_cons_of_mem _ hunit⟩

theorem lossless_of_small (hb : b.toNat < 2 ^ 63) : Lossless b := by
  unfold Lossless bytesToKmgtpe
  split
  · next h =>
    subst h
    exact ⟨0, by decide, rfl, rfl, fun _ => rfl, fun h => absurd rfl h⟩
  · next h =>
    obtain ⟨k, hk, hunit, hval, hmax⟩ :=
      divideOn_small ["kiB", "MiB", "GiB", "TiB", "PiB", "EiB"] "B" hb
    refine ⟨k, hk, hunit, hval, fun h0 => absurd h0 h, fun _ u' hu' hdvd => ?_⟩
    by_contra hlt
    rw [Nat.not_le] at hlt
    refine hmax (Nat.lt_of_lt_of_le hlt hu') ?_
    have hpow : 1024 ^ (k + 1) ∣ b.toNat := Nat.dvd_trans (Nat.pow_dvd_pow _ hlt) hdvd
    rw [← hval, Nat.pow_succ, Nat.mul_comm] at hpow
    exact Nat.dvd_of_mul_dvd_mul_right (Nat.pow_pos (by decide)) hpow

/-- A size that is not divided is its own abbreviation. -/
theorem lossless_of_not_dvd (h : ¬ 1024 ∣ b.toNat) : Lossless b := by
  have hb : b ≠ 0 := by
    rintro rfl
    exact h (Nat.dvd_zero _)
  have hstop : bytesToKmgtpe b = (b, "B") := by
    rw [bytesToKmgtpe, if_neg hb, divideOn]
    exact if_pos (mt lldiv_rem_eq_zero_iff.mp h)
  rw [Lossless, hstop]
  refine ⟨0, by decide, rfl, Nat.mul_one _, fun h0 => absurd h0 hb, fun _ u' _ hdvd => ?_⟩
  by_contra hu
  have hone : 1024 ^ 1 ∣ 1024 ^ u' := Nat.pow_dvd_pow 1024 (by omega)
  exact h (Nat.dvd_trans hone hdvd)

/-- After a division of a negative number the value is too large for any unit. -/
theorem not_lossless_of_large (hb : 2 ^ 63 ≤ b.toNat) (hdvd : 1024 ∣ b.toNat) : ¬ Lossless b := by
  have hlt := b.toNat_lt
  have hb0 : b ≠ 0 := by
    rintro rfl
    exact absurd hb (by decide)
  have hgo : bytesToKmgtpe b = divideOn ["MiB", "GiB", "TiB", "PiB", "EiB"]
      (Int64.ofInt (lldiv b.toInt64.toInt 1024).1).toUInt64 "kiB" := by
    rw [bytesToKmgtpe, if_neg hb0, divideOn]
    exact if_neg (not_not.mpr (lldiv_rem_eq_zero_iff.mpr hdvd))
  rintro ⟨u, -, hunit, hval, -⟩
  rw [hgo] at hunit hval
  obtain ⟨hlarge, hmem⟩ := divideOn_large ["MiB", "GiB", "TiB", "PiB", "EiB"] "kiB"
    (lldiv_quot_large hb hdvd)
  cases u with
  | zero =>
    rw [← Option.some.inj hunit] at hmem
    exact absurd hmem (by decide)
  | succ u =>
    have hpow : 1024 ≤ 1024 ^ (u + 1) := Nat.le_self_pow (Nat.succ_ne_zero u) _
    have hle := Nat.mul_le_mul hlarge hpow
    omega

end Sizes

/-- **Sizes are abbreviated without loss exactly below 8 EiB**, and above if they are no multiple of
    1024 and stay as they are. -/
theorem lossless_iff (b : UInt64) : Lossless b ↔ b.toNat < 2 ^ 63 ∨ ¬ 1024 ∣ b.toNat := by
  constructor
  · intro h
    by_contra hcond
    rw [not_or, Nat.not_lt, not_not] at hcond
    exact not_lossless_of_large hcond.1 hcond.2 h
  · rintro (h | h)
    · exact lossless_of_small h
    · exact lossless_of_not_dvd h

/-- 8 EiB. -/
theorem eight_eib_not_lossless : ¬ Lossless 0x8000000000000000 :=
  not_lossless_of_large (by decide) (by decide)

/-- It is printed as `18446744073709551608 EiB`. -/
example : bytesToKmgtpe 0x8000000000000000 = (18446744073709551608, "EiB") := by decide +kernel

end Umka.Proof.Shell
