import Umka.Lib.Text
import Mathlib.Data.List.TakeWhile
import Mathlib.Tactic.Ring

/-!
# Numerals, and how far `strtol` reads

`strtol` and its kin, asked for base 0, skip white space, take a sign, find out the base and read
digits as long as there are any. `endptr` is the text that they leave; if there was no digit it is
the whole string. `Written` says in its own words which strings are numbers, and `written_iff` that
those are the ones of which nothing is left.
-/

set_option autoImplicit false

namespace Umka.Lib

/-! ## What is read -/

def digitIn (base : Nat) (c : Char) : Bool := (hexDigit? c).any (· < base)

/-- The number that digits stand for. -/
def valueIn (base : Nat) (ds : List Char) : Nat :=
  ds.foldl (fun v c => base * v + (hexDigit? c).getD 0) 0

/-- The base, and the text where the digits start. -/
def radix : List Char → Nat × List Char
  | '0' :: x :: d :: ds =>
    if (x = 'x' ∨ x = 'X') ∧ (hexDigit? d).isSome then (16, d :: ds) else (8, '0' :: x :: d :: ds)
  | '0' :: ds => (8, '0' :: ds)
  | ds => (10, ds)

/-- Whether there is a minus sign, and the text behind the sign. -/
def unsign : List Char → Bool × List Char
  | '-' :: ds => (true, ds)
  | '+' :: ds => (false, ds)
  | ds => (false, ds)

/-- Where `strtol(s, &endptr, 0)` and its kin leave `endptr`. -/
def endptr (s : List Char) : List Char :=
  let (base, ds) := radix (unsign (s.dropWhile isSpace)).2
  if ds.takeWhile (digitIn base) = [] then s else ds.dropWhile (digitIn base)

/-! ## Numerals -/

/-- A numeral, and the number that it stands for. -/
inductive Numeral : List Char → Nat → Prop
  | dec (ds : List Char) (hne : ds ≠ []) (hzero : ds.head? ≠ some '0')
      (hds : ∀ c ∈ ds, digitIn 10 c) : Numeral ds (valueIn 10 ds)
  | oct (ds : List Char) (hds : ∀ c ∈ ds, digitIn 8 c) : Numeral ('0' :: ds) (valueIn 8 ds)
  | hex (x : Char) (ds : List Char) (hx : x = 'x' ∨ x = 'X') (hne : ds ≠ [])
      (hds : ∀ c ∈ ds, digitIn 16 c) : Numeral ('0' :: x :: ds) (valueIn 16 ds)

/-- The string is white space, a sign or none, and a numeral; `neg` is whether the sign is a
    minus. -/
def Written (s : List Char) (neg : Bool) (v : Nat) : Prop :=
  ∃ ws num, (∀ c ∈ ws, isSpace c) ∧ Numeral num v
    ∧ (neg = true ∧ s = ws ++ '-' :: num
      ∨ neg = false ∧ (s = ws ++ num ∨ s = ws ++ '+' :: num))

section Numerals

variable {s t ds : List Char} {base v : Nat}

theorem valueIn_zero_cons : valueIn base ('0' :: ds) = valueIn base ds := by
  rw [valueIn, List.foldl_cons]
  rfl

theorem hexDigit_of_digitIn {c : Char} (h : digitIn base c = true) : (hexDigit? c).isSome := by
  unfold digitIn at h
  cases hc : hexDigit? c with
  | none => rw [hc] at h; cases h
  | some d => rfl

/-- The three shapes that base 0 tells apart. -/
theorem radix_cases (t : List Char) :
    (∃ x d ds, t = '0' :: x :: d :: ds ∧ (x = 'x' ∨ x = 'X') ∧ (hexDigit? d).isSome
      ∧ radix t = (16, d :: ds))
    ∨ (∃ ds, t = '0' :: ds ∧ radix t = (8, t)
      ∧ ∀ x d ds', ds = x :: d :: ds' → ¬ ((x = 'x' ∨ x = 'X') ∧ (hexDigit? d).isSome))
    ∨ (t.head? ≠ some '0' ∧ radix t = (10, t)) := by
  unfold radix
  split
  · next x d ds =>
    split
    · next h => exact .inl ⟨x, d, ds, rfl, h.1, h.2, rfl⟩
    · next h =>
      refine .inr (.inl ⟨_, rfl, rfl, fun x' d' ds' heq => ?_⟩)
      cases heq
      exact h
  · next ds hds =>
    exact .inr (.inl ⟨_, rfl, rfl, fun x d ds' heq => absurd heq (hds x d ds')⟩)
  · next h₁ h₂ =>
    refine .inr (.inr ⟨fun hhead => ?_, rfl⟩)
    obtain ⟨ds, rfl⟩ := List.head?_eq_some_iff.mp hhead
    exact h₂ ds rfl

/-- A numeral is digits of the base that its start says, and nothing else. -/
theorem numeral_iff : Numeral t v ↔
    (radix t).2 ≠ [] ∧ (∀ c ∈ (radix t).2, digitIn (radix t).1 c)
      ∧ valueIn (radix t).1 (radix t).2 = v := by
  constructor
  · intro h
    cases h with
    | dec ds hne hzero hds =>
      obtain ⟨x, d, ds', rfl, -⟩ | ⟨ds', rfl, -⟩ | ⟨-, hr⟩ := radix_cases t
      · exact absurd rfl hzero
      · exact absurd rfl hzero
      · rw [hr]
        exact ⟨hne, hds, rfl⟩
    | oct ds hds =>
      have hr : radix ('0' :: ds) = (8, '0' :: ds) := by
        obtain ⟨x, d, ds', heq, hx, -⟩ | ⟨-, -, hr, -⟩ | ⟨hzero, -⟩ := radix_cases ('0' :: ds)
        · cases heq
          have hoct := hds x List.mem_cons_self
          rcases hx with rfl | rfl
          · exact absurd hoct (by decide)
          · exact absurd hoct (by decide)
        · exact hr
        · exact absurd rfl hzero
      rw [hr]
      refine ⟨List.cons_ne_nil _ _, fun c hc => ?_, valueIn_zero_cons⟩
      rcases List.mem_cons.mp hc with rfl | hc
      · rfl
      · exact hds c hc
    | hex x ds hx hne hds =>
      obtain ⟨d, ds, rfl⟩ := List.exists_cons_of_ne_nil hne
      have hd := hexDigit_of_digitIn (hds d List.mem_cons_self)
      have hr : radix ('0' :: x :: d :: ds) = (16, d :: ds) := if_pos ⟨hx, hd⟩
      rw [hr]
      exact ⟨hne, hds, rfl⟩
  · rintro ⟨hne, hds, rfl⟩
    obtain ⟨x, d, ds, rfl, hx, hd, hr⟩ | ⟨ds, rfl, hr, -⟩ | ⟨hzero, hr⟩ := radix_cases t
    · rw [hr] at hds ⊢
      exact .hex x (d :: ds) hx (List.cons_ne_nil _ _) hds
    · rw [hr] at hds ⊢
      rw [valueIn_zero_cons]
      exact .oct ds fun c hc => hds c (List.mem_cons_of_mem _ hc)
    · rw [hr] at hne hds ⊢
      exact .dec t hne hzero hds

theorem magnitude_oct (h : ∀ x d ds', ds = x :: d :: ds' →
      ¬ ((x = 'x' ∨ x = 'X') ∧ (hexDigit? d).isSome)) :
    signedNumber.magnitude ('0' :: ds) = valueIn 8 (ds.takeWhile (digitIn 8)) := by
  cases ds with
  | nil => rfl
  | cons x ds =>
    cases ds with
    | nil => rfl
    | cons d ds => exact if_neg (h x d ds rfl)

theorem magnitude_dec (h : t.head? ≠ some '0') :
    signedNumber.magnitude t = valueIn 10 (t.takeWhile (digitIn 10)) := by
  unfold signedNumber.magnitude
  split
  · exact absurd rfl h
  · exact absurd rfl h
  · rfl

/-- The magnitude that `strtol` computes is the value of the digits it reads. -/
theorem magnitude_eq (t : List Char) : signedNumber.magnitude t
    = valueIn (radix t).1 ((radix t).2.takeWhile (digitIn (radix t).1)) := by
  obtain ⟨x, d, ds, rfl, hx, hd, hr⟩ | ⟨ds, rfl, hr, hds⟩ | ⟨hzero, hr⟩ := radix_cases t
  · rw [hr]
    exact if_pos ⟨hx, hd⟩
  · rw [hr, magnitude_oct hds, List.takeWhile_cons_of_pos (by rfl), valueIn_zero_cons]
  · rw [hr, magnitude_dec hzero]

end Numerals

/-! ## Strings that are numbers -/

section Strings

variable {s : List Char} {neg : Bool} {v : Nat}

theorem unsign_cases (t : List Char) :
    (∃ ds, t = '-' :: ds ∧ unsign t = (true, ds)) ∨ (∃ ds, t = '+' :: ds ∧ unsign t = (false, ds))
    ∨ (t.head? ≠ some '-' ∧ t.head? ≠ some '+' ∧ unsign t = (false, t)) := by
  unfold unsign
  split
  · exact .inl ⟨_, rfl, rfl⟩
  · exact .inr (.inl ⟨_, rfl, rfl⟩)
  · next hminus hplus =>
    refine .inr (.inr ⟨fun h => ?_, fun h => ?_, rfl⟩)
    · obtain ⟨ds, rfl⟩ := List.head?_eq_some_iff.mp h
      exact hminus ds rfl
    · obtain ⟨ds, rfl⟩ := List.head?_eq_some_iff.mp h
      exact hplus ds rfl

theorem signedNumber_eq (s : List Char) : signedNumber s
    = ((unsign (s.dropWhile isSpace)).1,
        signedNumber.magnitude (unsign (s.dropWhile isSpace)).2) := by
  unfold signedNumber
  obtain ⟨ds, ht, hu⟩ | ⟨ds, ht, hu⟩ | ⟨hminus, hplus, hu⟩ := unsign_cases (s.dropWhile isSpace)
  · rw [hu]
    simp only [ht]
  · rw [hu]
    simp only [ht]
  · rw [hu]
    split
    · next h => exact absurd (congrArg List.head? h) hminus
    · next h => exact absurd (congrArg List.head? h) hplus
    · rfl

/-- A numeral starts with a digit, so not with white space or a sign. -/
theorem Numeral.head_digit {num : List Char} (h : Numeral num v) :
    ∃ c ds, num = c :: ds ∧ (hexDigit? c).isSome := by
  cases h with
  | dec ds hne hzero hds =>
    obtain ⟨c, ds, rfl⟩ := List.exists_cons_of_ne_nil hne
    exact ⟨c, ds, rfl, hexDigit_of_digitIn (hds c List.mem_cons_self)⟩
  | oct ds hds => exact ⟨'0', ds, rfl, rfl⟩
  | hex x ds hx hne hds => exact ⟨'0', x :: ds, rfl, rfl⟩

theorem isSpace_of_hexDigit {c : Char} (h : (hexDigit? c).isSome) : isSpace c = false := by
  by_contra hspace
  have hc : c.toNat = 32 ∨ 9 ≤ c.toNat ∧ c.toNat ≤ 13 := by
    rw [Bool.not_eq_false] at hspace
    exact of_decide_eq_true hspace
  have h0 : '0'.toNat = 48 := rfl
  have hA : 'A'.toNat = 65 := rfl
  have ha : 'a'.toNat = 97 := rfl
  have hnone : hexDigit? c = none := by
    unfold hexDigit?
    rw [if_neg (by omega), if_neg (by omega), if_neg (by omega)]
  rw [hnone] at h
  cases h

/-- A text that starts with a digit has no white space and no sign before it. -/
theorem dropWhile_of_digit {c : Char} {ds : List Char} (hc : (hexDigit? c).isSome) :
    (c :: ds).dropWhile isSpace = c :: ds :=
  List.dropWhile_cons_of_neg (by rw [isSpace_of_hexDigit hc]; exact Bool.false_ne_true)

theorem unsign_of_digit {c : Char} {ds : List Char} (hc : (hexDigit? c).isSome) :
    unsign (c :: ds) = (false, c :: ds) := by
  obtain ⟨ds', h, -⟩ | ⟨ds', h, -⟩ | ⟨-, -, hu⟩ := unsign_cases (c :: ds)
  · cases h
    exact absurd hc (by decide)
  · cases h
    exact absurd hc (by decide)
  · exact hu

/-- White space, and a text that does not start with any. -/
theorem dropWhile_space {ws t : List Char} (hws : ∀ c ∈ ws, isSpace c = true)
    (ht : ∀ c ∈ t.head?, isSpace c = false) : (ws ++ t).dropWhile isSpace = t := by
  rw [List.dropWhile_append_of_pos hws]
  cases t with
  | nil => rfl
  | cons c t => exact List.dropWhile_cons_of_neg (by rw [ht c rfl]; exact Bool.false_ne_true)

/-- The text of a number is a sign and a numeral. -/
theorem written_iff_unsign : Written s neg v ↔
    (unsign (s.dropWhile isSpace)).1 = neg ∧ Numeral (unsign (s.dropWhile isSpace)).2 v := by
  constructor
  · rintro ⟨ws, num, hws, hnum, h⟩
    obtain ⟨c, ds, rfl, hc⟩ := hnum.head_digit
    have hsign : ∀ {t : List Char} (c : Char), t.head? = some c → isSpace c = false →
        (ws ++ t).dropWhile isSpace = t := fun c ht hc =>
      dropWhile_space hws fun c' hc' => by
        rw [ht] at hc'
        cases hc'
        exact hc
    rcases h with ⟨rfl, rfl⟩ | ⟨rfl, rfl | rfl⟩
    · rw [hsign '-' rfl rfl]
      exact ⟨rfl, hnum⟩
    · rw [hsign c rfl (isSpace_of_hexDigit hc), unsign_of_digit hc]
      exact ⟨rfl, hnum⟩
    · rw [hsign '+' rfl rfl]
      exact ⟨rfl, hnum⟩
  · rintro ⟨hneg, hnum⟩
    have hs : s = s.takeWhile isSpace ++ s.dropWhile isSpace :=
      List.takeWhile_append_dropWhile.symm
    refine ⟨s.takeWhile isSpace, _, fun c hc => List.mem_takeWhile_imp hc, hnum, ?_⟩
    obtain ⟨ds, ht, hu⟩ | ⟨ds, ht, hu⟩ | ⟨-, -, hu⟩ := unsign_cases (s.dropWhile isSpace)
    · rw [hu] at hneg ⊢
      rw [ht] at hs
      exact .inl ⟨hneg.symm, hs⟩
    · rw [hu] at hneg ⊢
      rw [ht] at hs
      exact .inr ⟨hneg.symm, .inr hs⟩
    · rw [hu] at hneg ⊢
      exact .inr ⟨hneg.symm, .inl hs⟩

/-- Nothing is left exactly when there are digits, and nothing else. -/
theorem endptr_eq_nil_iff : (endptr s ≠ s ∧ endptr s = []) ↔
    (radix (unsign (s.dropWhile isSpace)).2).2 ≠ []
      ∧ ∀ c ∈ (radix (unsign (s.dropWhile isSpace)).2).2,
          digitIn (radix (unsign (s.dropWhile isSpace)).2).1 c := by
  have hempty : s = [] → (radix (unsign (s.dropWhile isSpace)).2).2 = [] := by
    rintro rfl
    rfl
  unfold endptr
  generalize radix (unsign (s.dropWhile isSpace)).2 = r at *
  obtain ⟨base, ds⟩ := r
  dsimp only at *
  constructor
  · rintro ⟨hne, hnil⟩
    split at hnil
    · next h => exact absurd (if_pos h) hne
    · next h =>
      refine ⟨fun hds => h (by rw [hds]; rfl), List.dropWhile_eq_nil_iff.mp hnil⟩
  · rintro ⟨hds, hdigits⟩
    rw [List.takeWhile_eq_self_iff.mpr hdigits, if_neg hds, List.dropWhile_eq_nil_iff.mpr hdigits]
    exact ⟨fun h => hds (hempty h.symm), rfl⟩

/-- **A string is a number exactly when nothing is left of it**, and the number is the one that
    was read. -/
theorem written_iff : Written s neg v ↔
    (endptr s ≠ s ∧ endptr s = []) ∧ signedNumber s = (neg, v) := by
  rw [written_iff_unsign, numeral_iff, endptr_eq_nil_iff, signedNumber_eq, magnitude_eq,
    Prod.mk.injEq]
  constructor
  · rintro ⟨hneg, hne, hds, hv⟩
    rw [List.takeWhile_eq_self_iff.mpr hds]
    exact ⟨⟨hne, hds⟩, hneg, hv⟩
  · rintro ⟨⟨hne, hds⟩, hneg, hv⟩
    rw [List.takeWhile_eq_self_iff.mpr hds] at hv
    exact ⟨hneg, hne, hds, hv⟩

end Strings

/-! ## Decimal digits, read in the base that they start like -/

section LeadingZero

variable {base : Nat} {ds : List Char}

theorem valueIn_cons (base : Nat) (c : Char) (ds : List Char) :
    valueIn base (c :: ds) = (hexDigit? c).getD 0 * base ^ ds.length + valueIn base ds := by
  have hfold : ∀ v, ds.foldl (fun v c => base * v + (hexDigit? c).getD 0) v
      = v * base ^ ds.length + valueIn base ds := by
    induction ds with
    | nil => exact fun v => by simp [valueIn]
    | cons d ds ih =>
      intro v
      rw [valueIn, List.foldl_cons, List.foldl_cons, ih, ih, List.length_cons, Nat.pow_succ]
      ring
  rw [valueIn, List.foldl_cons, hfold, Nat.mul_zero, Nat.zero_add]

theorem digit_lt {c : Char} (h : digitIn base c = true) : (hexDigit? c).getD 0 < base := by
  unfold digitIn at h
  cases hc : hexDigit? c with
  | none => rw [hc] at h; cases h
  | some d =>
    rw [hc] at h
    exact of_decide_eq_true h

theorem le_digit {c : Char} {b : Nat} (hdec : digitIn base c = true) (h : digitIn b c = false) :
    b ≤ (hexDigit? c).getD 0 := by
  unfold digitIn at h
  obtain ⟨d, hd⟩ := Option.isSome_iff_exists.mp (hexDigit_of_digitIn hdec)
  rw [hd] at h ⊢
  exact Nat.not_lt.mp (of_decide_eq_false h)

theorem digit_le_valueIn {c : Char} (hbase : 0 < base) (h : c ∈ ds) :
    (hexDigit? c).getD 0 ≤ valueIn base ds := by
  induction ds with
  | nil => exact absurd h List.not_mem_nil
  | cons d ds ih =>
    rw [valueIn_cons]
    rcases List.mem_cons.mp h with rfl | h
    · exact Nat.le_trans (Nat.le_mul_of_pos_right _ (Nat.pow_pos hbase)) (Nat.le_add_right _ _)
    · exact Nat.le_trans (ih h) (Nat.le_add_left _ _)

/-- Decimal digits, read in base 8 as far as they go: never more than what they stand for, and as
    much only for the numbers that are written alike. -/
theorem octal_le (hds : ∀ c ∈ ds, digitIn 10 c = true) :
    valueIn 8 (ds.takeWhile (digitIn 8)) ≤ valueIn 10 ds
      ∧ (valueIn 8 (ds.takeWhile (digitIn 8)) = valueIn 10 ds ↔ valueIn 10 ds < 8) := by
  induction ds with
  | nil => exact ⟨Nat.le_refl _, iff_of_true rfl (by decide)⟩
  | cons c ds ih =>
    obtain ⟨hc, hds⟩ := List.forall_mem_cons.mp hds
    obtain ⟨hle, heq⟩ := ih hds
    by_cases hoct : digitIn 8 c = true
    · rw [List.takeWhile_cons_of_pos hoct, valueIn_cons, valueIn_cons]
      have hd := digit_lt hoct
      rcases Nat.eq_zero_or_pos ((hexDigit? c).getD 0) with hzero | hpos
      · rw [hzero, Nat.zero_mul, Nat.zero_add, Nat.zero_mul, Nat.zero_add]
        exact ⟨hle, heq⟩
      · cases ds with
        | nil =>
          rw [List.length_nil, Nat.pow_zero, Nat.mul_one]
          exact ⟨Nat.le_of_eq (Nat.mul_one _), iff_of_true (Nat.mul_one _) hd⟩
        | cons c' ds =>
          -- a digit that is not the last one counts for more in base 10
          have hlen := (List.takeWhile_sublist (digitIn 8) (l := c' :: ds)).length_le
          have hpow : 8 ^ ((c' :: ds).takeWhile (digitIn 8)).length < 10 ^ (c' :: ds).length :=
            Nat.lt_of_le_of_lt (Nat.pow_le_pow_right (by decide) hlen)
              (Nat.pow_lt_pow_left (by decide) (Nat.succ_ne_zero _))
          have hmul := Nat.mul_lt_mul_of_pos_left hpow hpos
          have hten : 10 ≤ 10 ^ (c' :: ds).length := Nat.le_self_pow (Nat.succ_ne_zero _) 10
          have hbig := Nat.le_trans hten (Nat.le_mul_of_pos_left _ hpos)
          exact ⟨by omega, iff_of_false (by omega) (by omega)⟩
    · have hd := le_digit hc (Bool.eq_false_of_not_eq_true hoct)
      have hbig := Nat.le_trans hd (Nat.le_mul_of_pos_right _ (Nat.pow_pos (n := ds.length)
        (by decide : 0 < 10)))
      rw [List.takeWhile_cons_of_neg hoct, valueIn_cons]
      show 0 ≤ _ ∧ (0 = _ ↔ _)
      exact ⟨Nat.zero_le _, iff_of_false (by omega) (by omega)⟩

/-- The base that `strtoul(s, &end, 0)` takes for digits. -/
def guess (ds : List Char) : Nat := if ds.head? = some '0' then 8 else 10

theorem ne_x_of_digit {c : Char} (h : digitIn 10 c = true) : c ≠ 'x' ∧ c ≠ 'X' := by
  constructor
  · rintro rfl
    exact absurd h (by decide)
  · rintro rfl
    exact absurd h (by decide)

variable {rest : List Char} (hne : ds ≠ []) (hds : ∀ c ∈ ds, digitIn 10 c = true)

include hne hds

/-- Digits without a sign, and something behind them. -/
theorem digits_start : unsign ((ds ++ rest).dropWhile isSpace) = (false, ds ++ rest) := by
  obtain ⟨c, ds, rfl⟩ := List.exists_cons_of_ne_nil hne
  have hc := hexDigit_of_digitIn (hds c List.mem_cons_self)
  rw [List.cons_append, dropWhile_of_digit hc, unsign_of_digit hc]

variable (hrest : ∀ c ∈ rest.head?, c ≠ 'x' ∧ c ≠ 'X')

include hrest

theorem radix_digits : radix (ds ++ rest) = (guess ds, ds ++ rest) := by
  obtain ⟨c, ds, rfl⟩ := List.exists_cons_of_ne_nil hne
  obtain ⟨x, d, ds', heq, hx, -⟩ | ⟨ds', heq, hr, -⟩ | ⟨hzero, hr⟩ := radix_cases (c :: ds ++ rest)
  · rw [List.cons_append, List.cons.injEq] at heq
    have hnot : x ≠ 'x' ∧ x ≠ 'X' := by
      cases ds with
      | nil => exact hrest x (by rw [← List.nil_append rest, heq.2]; rfl)
      | cons c' ds =>
        rw [List.cons_append, List.cons.injEq] at heq
        rw [← heq.2.1]
        exact ne_x_of_digit (hds c' (List.mem_cons_of_mem c List.mem_cons_self))
    rcases hx with hx | hx
    · exact absurd hx hnot.1
    · exact absurd hx hnot.2
  · rw [List.cons_append, List.cons.injEq] at heq
    rw [hr, heq.1]
    rfl
  · have hzero' : (c :: ds).head? ≠ some '0' := hzero
    rw [hr, guess, if_neg hzero']

/-- What is read of them. -/
theorem signedNumber_digits : signedNumber (ds ++ rest)
    = (false, valueIn (guess ds) ((ds ++ rest).takeWhile (digitIn (guess ds)))) := by
  rw [signedNumber_eq, digits_start hne hds, magnitude_eq, radix_digits hne hds hrest]

/-- What is left. -/
theorem endptr_digits : endptr (ds ++ rest) = (ds ++ rest).dropWhile (digitIn (guess ds)) := by
  have htake : (ds ++ rest).takeWhile (digitIn (guess ds)) ≠ [] := by
    obtain ⟨c, ds, rfl⟩ := List.exists_cons_of_ne_nil hne
    have hc : digitIn (guess (c :: ds)) c = true := by
      rw [guess]
      split
      · rename_i hzero
        rw [Option.some.inj hzero]
        rfl
      · exact hds c List.mem_cons_self
    rw [List.cons_append, List.takeWhile_cons_of_pos hc]
    exact List.cons_ne_nil _ _
  unfold endptr
  rw [digits_start hne hds]
  simp only [radix_digits hne hds hrest, if_neg htake]

end LeadingZero

end Umka.Lib
