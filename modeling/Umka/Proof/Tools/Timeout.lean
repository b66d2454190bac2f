import Umka.Tools.Timeout

/-!
# Which timeouts are read as they are written

A field that starts with `0` is read in base 8, and only as far as it has digits of that base: the
number is then too small, if the field stands for eight or more. A file that ends in a digit has
nothing behind it, and what is in the array from before is read on.
-/

set_option autoImplicit false

namespace Umka.Proof.Tools

open Umka.Tools Lib

/-- Decimal digits, at least one. -/
structure Digits where
  chars : List Char
  nonempty : chars ≠ []
  digits : ∀ c ∈ chars, digitIn 10 c = true

def Digits.value (ds : Digits) : Nat := valueIn 10 ds.chars

/-- The forms of a timeout. The `s` behind minutes and seconds may be missing. -/
inductive Form
  | seconds (ss : Digits)
  | minutes (ms ss : Digits) (unit : Bool)

def Form.text : Form → List Char
  | .seconds ss => ss.chars ++ ['s']
  | .minutes ms ss unit => ms.chars ++ 'm' :: (ss.chars ++ if unit then ['s'] else [])

def Form.value : Form → Nat
  | .seconds ss => ss.value
  | .minutes ms ss _ => ms.value * 60 + ss.value

def Form.fields : Form → List Digits
  | .seconds ss => [ss]
  | .minutes ms ss _ => [ms, ss]

/-- There is an `s` at the end. -/
def Form.hasUnit : Form → Bool
  | .seconds _ => true
  | .minutes _ _ unit => unit

/-- A file with a timeout. -/
structure TimeoutFile where
  form : Form
  newline : Bool
  short : form.text.length + newline.toNat ≤ timeoutStrMaxLen
  small : form.value < 2 ^ 32

def TimeoutFile.bytes (f : TimeoutFile) : List Char :=
  f.form.text ++ if f.newline then ['\n'] else []

/-- The timeout is what the file says, whatever the array had in it before. -/
def ReadAsWritten (f : TimeoutFile) : Prop :=
  ∀ stale, getTestTimeout (some f.bytes) stale = some f.form.value

/-- The field is not read in base 8, or it makes no difference. -/
def Plain (ds : Digits) : Prop := ds.chars.head? ≠ some '0' ∨ ds.value < 8

/-! ## One field -/

/-- What `strtoul` makes of the field. -/
def Digits.read (ds : Digits) : Nat :=
  valueIn (guess ds.chars) (ds.chars.takeWhile (digitIn (guess ds.chars)))

/-- The digits that it leaves. -/
def Digits.left (ds : Digits) : List Char := ds.chars.dropWhile (digitIn (guess ds.chars))

section Field

variable (ds : Digits)

theorem read_of_dec (h : ds.chars.head? ≠ some '0') : ds.read = ds.value ∧ ds.left = [] := by
  have hguess : guess ds.chars = 10 := if_neg h
  rw [Digits.read, Digits.left, hguess, List.takeWhile_eq_self_iff.mpr ds.digits,
    List.dropWhile_eq_nil_iff.mpr ds.digits]
  exact ⟨rfl, rfl⟩

theorem read_le : ds.read ≤ ds.value := by
  by_cases h : ds.chars.head? = some '0'
  · have hguess : guess ds.chars = 8 := if_pos h
    rw [Digits.read, hguess]
    exact (octal_le ds.digits).1
  · exact (read_of_dec ds h).1.le

/-- The number is right exactly if the field is plain. -/
theorem read_eq_iff : ds.read = ds.value ↔ Plain ds := by
  by_cases h : ds.chars.head? = some '0'
  · have hguess : guess ds.chars = 8 := if_pos h
    rw [Digits.read, hguess, Plain, Digits.value, (octal_le ds.digits).2]
    exact (or_iff_right fun hne => hne h).symm
  · exact iff_of_true (read_of_dec ds h).1 (.inl h)

/-- What is left starts with an `8` or a `9`, so the field is not plain. -/
theorem left_cases :
    ds.left = [] ∨ ¬ Plain ds ∧ ∃ c rest, ds.left = c :: rest ∧ digitIn 10 c = true := by
  by_cases h : ds.chars.head? = some '0'
  · have hguess : guess ds.chars = 8 := if_pos h
    rw [Digits.left, hguess]
    cases hleft : ds.chars.dropWhile (digitIn 8) with
    | nil => exact .inl rfl
    | cons c rest =>
      have hmem : c ∈ ds.chars := (List.dropWhile_sublist _).subset (hleft ▸ List.mem_cons_self)
      have hbad : digitIn 8 c = false := by
        have hhead := List.head_dropWhile_not (digitIn 8) (l := ds.chars)
          (by rw [hleft]; exact List.cons_ne_nil _ _)
        simpa only [hleft, List.head_cons] using hhead
      have hle := Nat.le_trans (le_digit (ds.digits c hmem) hbad)
        (digit_le_valueIn (by decide : 0 < 10) hmem)
      refine .inr ⟨?_, c, rest, rfl, ds.digits c hmem⟩
      rintro (hne | hlt)
      · exact hne h
      · exact absurd hlt (Nat.not_lt.mpr hle)
  · exact .inl (read_of_dec ds h).2

variable {ds} {c : Char} {rest : List Char}

/-- A character that ends a number. -/
structure Stop (c : Char) : Prop where
  dec : digitIn 10 c = false
  oct : digitIn 8 c = false
  x : c ≠ 'x' ∧ c ≠ 'X'

/-- Digits are not the start of a hexadecimal number. -/
theorem not_hexStart {x : Char} (hx : x = 'x' ∨ x = 'X')
    (hrest : ∀ c ∈ rest.head?, c ≠ 'x' ∧ c ≠ 'X') : ds.chars ++ rest ≠ ['0', x] := by
  have hnot : ¬ (x ≠ 'x' ∧ x ≠ 'X') := fun h => hx.elim h.1 h.2
  intro heq
  have hdigits := ds.digits
  cases hds : ds.chars with
  | nil => exact ds.nonempty hds
  | cons c cs =>
    rw [hds] at heq hdigits
    rw [List.cons_append, List.cons.injEq] at heq
    cases cs with
    | nil => exact hnot (hrest x (by rw [← List.nil_append rest, heq.2]; rfl))
    | cons c' cs =>
      rw [List.cons_append, List.cons.injEq] at heq
      rw [← heq.2.1] at hnot
      exact hnot (ne_x_of_digit (hdigits c' (List.mem_cons_of_mem c List.mem_cons_self)))

/-- A field with something behind it: the scan goes on as long as there are digits. -/
theorem strtoulIn_digits (hrest : ∀ c ∈ rest.head?, c ≠ 'x' ∧ c ≠ 'X')
    (hne : (ds.chars ++ rest).dropWhile (digitIn (guess ds.chars)) ≠ [])
    (hsmall : valueIn (guess ds.chars) ((ds.chars ++ rest).takeWhile (digitIn (guess ds.chars)))
      < 2 ^ 32) :
    strtoulIn (ds.chars ++ rest)
      = some (valueIn (guess ds.chars) ((ds.chars ++ rest).takeWhile (digitIn (guess ds.chars))),
          (ds.chars ++ rest).dropWhile (digitIn (guess ds.chars))) := by
  have hstart : unsign ((ds.chars ++ rest).dropWhile isSpace) = (false, ds.chars ++ rest) :=
    digits_start ds.nonempty ds.digits
  have hend := endptr_digits ds.nonempty ds.digits hrest
  have hpast : readsPast (ds.chars ++ rest) = false := by
    rw [readsPast, hstart, hend]
    refine decide_eq_false ?_
    rintro (h | h | h)
    · exact hne h
    · exact not_hexStart (.inl rfl) hrest h
    · exact not_hexStart (.inr rfl) hrest h
  have hnum : strtoul 32 (ds.chars ++ rest) = valueIn (guess ds.chars)
      ((ds.chars ++ rest).takeWhile (digitIn (guess ds.chars))) := by
    rw [strtoul, signedNumber_digits ds.nonempty ds.digits hrest]
    exact if_neg (Nat.not_le.mpr hsmall)
  rw [strtoulIn, hpast, hnum, hend, if_neg Bool.false_ne_true]

theorem stop_guess (hc : Stop c) : digitIn (guess ds.chars) c = false := by
  rw [guess]
  split
  · exact hc.oct
  · exact hc.dec

/-- A field, and a character that ends it. -/
theorem strtoulIn_stop (hc : Stop c) (hsmall : ds.value < 2 ^ 32) :
    strtoulIn (ds.chars ++ c :: rest) = some (ds.read, ds.left ++ c :: rest) := by
  have hhead : ∀ c' ∈ (c :: rest).head?, digitIn (guess ds.chars) c' = false := by
    rintro c' ⟨⟩
    exact stop_guess hc
  obtain ⟨htake, hdrop⟩ := takeWhile_append_stop (w := ds.chars) hhead
  have hx : ∀ c' ∈ (c :: rest).head?, c' ≠ 'x' ∧ c' ≠ 'X' := by
    rintro c' ⟨⟩
    exact hc.x
  have hread := strtoulIn_digits hx (by rw [hdrop]; simp)
    (by rw [htake]; exact Nat.lt_of_le_of_lt (read_le ds) hsmall)
  rwa [htake, hdrop] at hread

/-- A plain field is read as it is, to its end. -/
theorem strtoulIn_plain (h : Plain ds) (hc : Stop c) (hsmall : ds.value < 2 ^ 32) :
    strtoulIn (ds.chars ++ c :: rest) = some (ds.value, c :: rest) := by
  have hleft : ds.left = [] := (left_cases ds).resolve_right fun hbad => hbad.1 h
  rw [strtoulIn_stop hc hsmall, (read_eq_iff ds).mpr h, hleft, List.nil_append]

/-- A field with ones behind it, up to the end of the array: it ends there, or within itself. -/
theorem strtoulIn_ones (k : Nat) (hsmall : ds.value < 2 ^ 32) :
    (ds.left = [] ∧ strtoulIn (ds.chars ++ List.replicate k '1') = none)
      ∨ (¬ Plain ds ∧ ∃ rest, strtoulIn (ds.chars ++ List.replicate k '1')
        = some (ds.read, rest)) := by
  have hone : digitIn (guess ds.chars) '1' = true := by
    rw [guess]
    split
    · rfl
    · rfl
  have hx : ∀ c ∈ (List.replicate k '1').head?, c ≠ 'x' ∧ c ≠ 'X' := by
    intro c hc
    rw [List.eq_of_mem_replicate (List.mem_of_mem_head? hc)]
    decide
  rcases left_cases ds with hleft | ⟨hplain, c, rest, hleft, -⟩
  · refine .inl ⟨hleft, ?_⟩
    have hend : endptr (ds.chars ++ List.replicate k '1') = [] := by
      rw [endptr_digits ds.nonempty ds.digits hx, List.dropWhile_eq_nil_iff]
      intro c hc
      rcases List.mem_append.mp hc with hc | hc
      · exact List.dropWhile_eq_nil_iff.mp hleft c hc
      · rwa [List.eq_of_mem_replicate hc]
    rw [strtoulIn, if_pos (by rw [readsPast, hend]; exact decide_eq_true (.inl rfl))]
  · refine .inr ⟨hplain, ds.left ++ List.replicate k '1', ?_⟩
    have hdrop : (ds.chars ++ List.replicate k '1').dropWhile (digitIn (guess ds.chars))
        = ds.left ++ List.replicate k '1' := by
      rw [List.dropWhile_append, if_neg (by rw [← Digits.left, hleft]; simp), ← Digits.left]
    have htake : (ds.chars ++ List.replicate k '1').takeWhile (digitIn (guess ds.chars))
        = ds.chars.takeWhile (digitIn (guess ds.chars)) := by
      have hall := List.takeWhile_append_dropWhile (p := digitIn (guess ds.chars))
        (l := ds.chars ++ List.replicate k '1')
      have hself : ds.chars.takeWhile (digitIn (guess ds.chars)) ++ ds.left = ds.chars :=
        List.takeWhile_append_dropWhile
      rw [hdrop, ← List.append_assoc] at hall
      exact List.append_cancel_right ((List.append_cancel_right hall).trans hself.symm)
    have hread := strtoulIn_digits hx (by rw [hdrop, hleft]; exact List.cons_ne_nil _ _)
      (by rw [htake]; exact Nat.lt_of_le_of_lt (read_le ds) hsmall)
    rwa [htake, hdrop] at hread

end Field

/-! ## The file -/

section File

variable {bytes rest : List Char} {stale : CharBuf} {n v : Nat} {c : Char}

theorem getTestTimeout_s (h : strtoulIn (timeoutStr bytes stale) = some (n, 's' :: rest)) :
    getTestTimeout (some bytes) stale = some n := by
  simp only [getTestTimeout, h]

theorem getTestTimeout_m (h : strtoulIn (timeoutStr bytes stale) = some (n, 'm' :: rest)) :
    getTestTimeout (some bytes) stale
      = (strtoulIn rest).map fun (sec, _) => (n * 60 + sec) % 2 ^ 32 := by
  simp only [getTestTimeout, h]

/-- A number that does not end in a unit is an error, and the timeout zero. -/
theorem getTestTimeout_bad (h : strtoulIn (timeoutStr bytes stale) = some (n, c :: rest))
    (hs : c ≠ 's') (hm : c ≠ 'm') (hv : getTestTimeout (some bytes) stale = some v) : v = 0 := by
  simp only [getTestTimeout, h] at hv
  split at hv
  · rename_i heq
    exact nomatch heq
  · rename_i heq
    cases heq
    exact absurd rfl hs
  · rename_i heq
    cases heq
    exact absurd rfl hm
  · split at hv
    · exact (Option.some.inj hv).symm
    · exact nomatch hv

theorem timeoutStr_eq (h : bytes.length ≤ timeoutStrMaxLen) (stale : CharBuf) :
    timeoutStr bytes stale
      = bytes ++ ((List.range timeoutStrMaxLen).drop bytes.length).map stale := by
  rw [timeoutStr, List.take_of_length_le h]

/-- The array was full of ones. -/
theorem timeoutStr_ones (h : bytes.length ≤ timeoutStrMaxLen) :
    timeoutStr bytes (fun _ => '1')
      = bytes ++ List.replicate (timeoutStrMaxLen - bytes.length) '1' := by
  rw [timeoutStr_eq h, List.map_const', List.length_drop, List.length_range]

end File

/-- No part of a sum is too large, so the sum is right only if both are. -/
theorem parts_eq {a b A B : Nat} (ha : a ≤ A) (hb : b ≤ B) (hsmall : A * 60 + B < 2 ^ 32)
    (h : (a * 60 + b) % 2 ^ 32 = A * 60 + B) : a = A ∧ b = B := by
  omega

theorem stop_s : Stop 's' := ⟨by decide, by decide, by decide⟩

theorem stop_m : Stop 'm' := ⟨by decide, by decide, by decide⟩

theorem stop_newline : Stop '\n' := ⟨by decide, by decide, by decide⟩

/-- The first field, up to its unit: it is read to its end, or the timeout is zero and should not
    be. -/
theorem firstField {bytes rest : List Char} {stale : CharBuf} {ds : Digits} {c : Char} {v : Nat}
    (hstr : timeoutStr bytes stale = ds.chars ++ c :: rest) (hc : Stop c)
    (hsmall : ds.value < 2 ^ 32) (hv : getTestTimeout (some bytes) stale = some v)
    (hle : ds.value ≤ v) :
    strtoulIn (timeoutStr bytes stale) = some (ds.read, c :: rest) := by
  have hscan : strtoulIn (ds.chars ++ c :: rest) = some (ds.read, ds.left ++ c :: rest) :=
    strtoulIn_stop hc hsmall
  rw [← hstr] at hscan
  rcases left_cases ds with hleft | ⟨hplain, d, rest', hleft, hd⟩
  · rwa [hleft, List.nil_append] at hscan
  · rw [hleft, List.cons_append] at hscan
    have hzero := getTestTimeout_bad hscan (fun h => absurd (h ▸ hd) (by decide))
      (fun h => absurd (h ▸ hd) (by decide)) hv
    exact absurd (.inr (by omega)) hplain

section Forms

variable {f : TimeoutFile}

theorem length_bytes_le (f : TimeoutFile) : f.bytes.length ≤ timeoutStrMaxLen := by
  have hshort := f.short
  cases hnl : f.newline with
  | false => simpa [TimeoutFile.bytes, hnl] using hshort
  | true => simpa [TimeoutFile.bytes, hnl] using hshort

theorem small_of_minutes {ms ss : Digits} {unit : Bool} (hf : f.form = .minutes ms ss unit) :
    ms.value * 60 + ss.value < 2 ^ 32 := by
  have h := f.small
  rwa [hf] at h

/-- Seconds. -/
theorem readAsWritten_seconds {ss : Digits} (hf : f.form = .seconds ss) :
    ReadAsWritten f ↔ Plain ss := by
  have hsmall : ss.value < 2 ^ 32 := by
    have h := f.small
    rwa [hf] at h
  have hstr : ∀ stale, ∃ rest, timeoutStr f.bytes stale = ss.chars ++ 's' :: rest := by
    intro stale
    rw [timeoutStr_eq (length_bytes_le f), TimeoutFile.bytes, hf, Form.text, List.append_assoc,
      List.append_assoc]
    exact ⟨_, rfl⟩
  rw [ReadAsWritten, hf]
  constructor
  · intro h
    obtain ⟨rest, hstr⟩ := hstr fun _ => nul
    have hscan := firstField hstr stop_s hsmall (h _) (Nat.le_refl _)
    have hread := (getTestTimeout_s hscan).symm.trans (h _)
    exact (read_eq_iff ss).mp (Option.some.inj hread)
  · intro hplain stale
    obtain ⟨rest, hstr⟩ := hstr stale
    exact getTestTimeout_s (hstr ▸ strtoulIn_plain hplain stop_s hsmall)

/-- Minutes and seconds, with something behind them. -/
theorem readAsWritten_minutes {ms ss : Digits} {unit : Bool} (hf : f.form = .minutes ms ss unit)
    (hterm : unit = true ∨ f.newline = true) : ReadAsWritten f ↔ Plain ms ∧ Plain ss := by
  have hsmall := small_of_minutes hf
  have hstr : ∀ stale, ∃ c rest, Stop c ∧
      timeoutStr f.bytes stale = ms.chars ++ 'm' :: (ss.chars ++ c :: rest) := by
    intro stale
    obtain ⟨tail, htail⟩ : ∃ tail, timeoutStr f.bytes stale = f.bytes ++ tail :=
      ⟨_, timeoutStr_eq (length_bytes_le f) stale⟩
    rw [htail, TimeoutFile.bytes, hf, Form.text]
    cases unit with
    | true => exact ⟨'s', (if f.newline then ['\n'] else []) ++ tail, stop_s, by simp⟩
    | false => exact ⟨'\n', tail, stop_newline, by simp [hterm.resolve_left Bool.false_ne_true]⟩
  rw [ReadAsWritten, hf]
  constructor
  · intro h
    obtain ⟨c, rest, hc, hstr⟩ := hstr fun _ => nul
    have hle : ms.value ≤ (Form.minutes ms ss unit).value := by rw [Form.value]; omega
    have hscan := firstField hstr stop_m (by omega) (h _) hle
    have hread := (getTestTimeout_m hscan).symm.trans (h _)
    rw [strtoulIn_stop hc (by omega), Option.map_some] at hread
    obtain ⟨hms, hss⟩ := parts_eq (read_le ms) (read_le ss) hsmall (Option.some.inj hread)
    exact ⟨(read_eq_iff ms).mp hms, (read_eq_iff ss).mp hss⟩
  · rintro ⟨hms, hss⟩ stale
    obtain ⟨c, rest, hc, hstr⟩ := hstr stale
    have hscan : strtoulIn (timeoutStr f.bytes stale)
        = some (ms.value, 'm' :: (ss.chars ++ c :: rest)) :=
      hstr ▸ strtoulIn_plain hms stop_m (by omega)
    rw [getTestTimeout_m hscan, strtoulIn_plain hss hc (by omega), Option.map_some]
    exact congrArg some (Nat.mod_eq_of_lt hsmall)

/-- Nothing behind the last digit: what was in the array counts. -/
theorem not_readAsWritten_open {ms ss : Digits} (hf : f.form = .minutes ms ss false)
    (hnl : f.newline = false) : ¬ ReadAsWritten f := by
  have hsmall := small_of_minutes hf
  have hstr : ∃ k, timeoutStr f.bytes (fun _ => '1')
      = ms.chars ++ 'm' :: (ss.chars ++ List.replicate k '1') := by
    refine ⟨timeoutStrMaxLen - f.bytes.length, ?_⟩
    rw [timeoutStr_ones (length_bytes_le f)]
    nth_rewrite 1 [TimeoutFile.bytes]
    simp [hf, hnl, Form.text]
  intro h
  have hv := h fun _ => '1'
  rw [hf] at hv
  obtain ⟨k, hstr⟩ := hstr
  have hle : ms.value ≤ (Form.minutes ms ss false).value := by rw [Form.value]; omega
  have hscan := firstField hstr stop_m (by omega) hv hle
  have hread := (getTestTimeout_m hscan).symm.trans hv
  rcases strtoulIn_ones k (by omega : ss.value < 2 ^ 32) with ⟨-, hnone⟩ | ⟨hplain, rest, hsome⟩
  · rw [hnone] at hread
    exact nomatch hread
  · rw [hsome, Option.map_some] at hread
    obtain ⟨-, hss⟩ := parts_eq (read_le ms) (read_le ss) hsmall (Option.some.inj hread)
    exact hplain ((read_eq_iff ss).mp hss)

end Forms

/-- **A timeout is read as it is written exactly if** no field that starts with `0` stands for more
    than seven, and there is something behind the last digit. -/
theorem readAsWritten_iff (f : TimeoutFile) :
    ReadAsWritten f ↔ (∀ ds ∈ f.form.fields, Plain ds) ∧
      (f.form.hasUnit = true ∨ f.newline = true) := by
  cases hf : f.form with
  | seconds ss =>
    rw [readAsWritten_seconds hf, Form.fields, List.forall_mem_singleton]
    exact (and_iff_left (.inl rfl)).symm
  | minutes ms ss unit =>
    rw [Form.fields, List.forall_mem_cons, List.forall_mem_singleton]
    by_cases hterm : unit = true ∨ f.newline = true
    · rw [readAsWritten_minutes hf hterm]
      exact (and_iff_left hterm).symm
    · have hunit : unit = false := Bool.eq_false_of_not_eq_true fun h => hterm (.inl h)
      have hnl : f.newline = false := Bool.eq_false_of_not_eq_true fun h => hterm (.inr h)
      refine iff_of_false ?_ fun h => hterm h.2
      exact not_readAsWritten_open (hunit ▸ hf) hnl

/-- `010s` is eight seconds, `1m08s` a minute, and what `1m5` is depends on the array. -/
theorem not_readAsWritten_three :
    (∃ f : TimeoutFile, f.bytes = "010s".toList ∧ f.form.value = 10
      ∧ getTestTimeout (some f.bytes) (fun _ => nul) = some 8)
    ∧ (∃ f : TimeoutFile, f.bytes = "1m08s".toList ∧ f.form.value = 68
      ∧ getTestTimeout (some f.bytes) (fun _ => nul) = some 60)
    ∧ ∃ f : TimeoutFile, f.bytes = "1m5".toList ∧ f.form.value = 65
      ∧ getTestTimeout (some f.bytes) (fun i => if i = 3 then '7' else nul) = some 117
      ∧ getTestTimeout (some f.bytes) (fun _ => '7') = none :=
  ⟨⟨⟨.seconds ⟨"010".toList, by decide, List.all_eq_true.mp rfl⟩, false, by decide, by decide⟩,
      by decide, by decide, by decide⟩,
    ⟨⟨.minutes ⟨"1".toList, by decide, List.all_eq_true.mp rfl⟩
        ⟨"08".toList, by decide, List.all_eq_true.mp rfl⟩ true, false, by decide, by decide⟩,
      by decide, by decide, by decide⟩,
    ⟨⟨.minutes ⟨"1".toList, by decide, List.all_eq_true.mp rfl⟩
        ⟨"5".toList, by decide, List.all_eq_true.mp rfl⟩ false, false, by decide, by decide⟩,
      by decide, by decide, by decide, by decide⟩⟩

end Umka.Proof.Tools
