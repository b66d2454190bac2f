import Mathlib.Data.List.Basic
import Mathlib.Tactic.Common
import Mathlib.Algebra.Order.Ring.Nat

/-!
# Text files read through a character array

`fgets` puts the next line into an array and a NUL after it, and leaves what was behind the NUL
from earlier, longer lines. A program that looks at a fixed column of a short line sees that
old text, so the array is kept here, not only the line.
-/

set_option autoImplicit false

namespace Umka.Lib

def nul : Char := Char.ofNat 0

/-- The contents of a character array. -/
abbrev CharBuf := Nat → Char

/-- The array after a line has been stored in it. -/
def CharBuf.store (buf : CharBuf) (line : List Char) : CharBuf := fun i =>
  if i < line.length then line.getD i nul else if i = line.length then nul else buf i

/-- The string that starts at `off` in an array of `n` characters. -/
def CharBuf.cstr (n : Nat) (buf : CharBuf) (off : Nat) : List Char :=
  ((List.range (n - off)).map fun i => buf (off + i)).takeWhile (· ≠ nul)

/-- `text` written at `off` into an array of `n` characters; `none` when it does not fit there. -/
def CharBuf.write (n : Nat) (buf : CharBuf) (off : Nat) (text : List Char) : Option CharBuf :=
  if off + text.length ≤ n then
    some fun i => if off ≤ i ∧ i < off + text.length then text.getD (i - off) nul else buf i
  else none

/-- `strspn`. -/
def strspn (s set : List Char) : Nat := (s.takeWhile (· ∈ set)).length

def hexDigit? (c : Char) : Option Nat :=
  if '0'.toNat ≤ c.toNat ∧ c.toNat ≤ '9'.toNat then some (c.toNat - '0'.toNat)
  else if 'A'.toNat ≤ c.toNat ∧ c.toNat ≤ 'F'.toNat then some (c.toNat - 'A'.toNat + 10)
  else if 'a'.toNat ≤ c.toNat ∧ c.toNat ≤ 'f'.toNat then some (c.toNat - 'a'.toNat + 10)
  else none

/-- The number that the hexadecimal digits `ds` stand for. -/
def hexValue (ds : List Char) : Nat := ds.foldl (fun v c => 16 * v + (hexDigit? c).getD 0) 0

/-- The space characters that `strtol` and its kin skip. -/
def isSpace (c : Char) : Bool := c.toNat = 32 ∨ (9 ≤ c.toNat ∧ c.toNat ≤ 13)

/-- `strtoull(s, &end, 16)`: the number, and the text `end` is left at. -/
def strtoull16 (s : List Char) : Nat × List Char :=
  let signed := s.dropWhile isSpace
  let unsigned := if signed.head? = some '-' ∨ signed.head? = some '+' then signed.tail else signed
  let digits := match unsigned with
    | '0' :: x :: d :: ds =>
      if (x = 'x' ∨ x = 'X') ∧ (hexDigit? d).isSome then d :: ds else unsigned
    | _ => unsigned
  let number := digits.takeWhile fun c => (hexDigit? c).isSome
  if number = [] then (0, s) else
    (if 2 ^ 64 ≤ hexValue number then 2 ^ 64 - 1
     else if signed.head? = some '-' then (2 ^ 64 - hexValue number) % 2 ^ 64
     else hexValue number,
     digits.drop number.length)

/-- The sign and the magnitude that `strtol(s, NULL, 0)` reads: a number with `0x` is
    hexadecimal, another one that starts with `0` is octal. -/
def signedNumber (s : List Char) : Bool × Nat :=
  match s.dropWhile isSpace with
  | '-' :: ds => (true, magnitude ds)
  | '+' :: ds => (false, magnitude ds)
  | ds => (false, magnitude ds)
where
  magnitude : List Char → Nat
  | '0' :: x :: d :: ds =>
    if (x = 'x' ∨ x = 'X') ∧ (hexDigit? d).isSome then digits 16 (d :: ds)
    else digits 8 (x :: d :: ds)
  | '0' :: ds => digits 8 ds
  | ds => digits 10 ds
  digits (base : Nat) (ds : List Char) : Nat :=
    (ds.takeWhile fun c => (hexDigit? c).any (· < base)).foldl
      (fun v c => base * v + (hexDigit? c).getD 0) 0

/-- `strtoul(s, NULL, 0)` where `unsigned long` has `w` bits. -/
def strtoul (w : Nat) (s : List Char) : Nat :=
  let (neg, m) := signedNumber s
  if 2 ^ w ≤ m then 2 ^ w - 1 else if neg then (2 ^ w - m) % 2 ^ w else m

/-- `strtol(s, NULL, 0)` where `long` has `w` bits. -/
def strtol (w : Nat) (s : List Char) : Int :=
  let (neg, m) := signedNumber s
  if neg then -(min m (2 ^ (w - 1)) : Nat) else (min m (2 ^ (w - 1) - 1) : Nat)

theorem drop_length_takeWhile {α : Type} (p : α → Bool) (l : List α) :
    l.drop (l.takeWhile p).length = l.dropWhile p := by
  induction l with
  | nil => rfl
  | cons x l ih =>
    by_cases hx : p x = true
    · rw [List.takeWhile_cons_of_pos hx, List.dropWhile_cons_of_pos hx]
      exact ih
    · rw [List.takeWhile_cons_of_neg hx, List.dropWhile_cons_of_neg hx]
      rfl

/-- A scan that stops where `tail` starts. -/
theorem takeWhile_append_stop {α : Type} {p : α → Bool} {w tail : List α}
    (ht : ∀ d ∈ tail.head?, p d = false) :
    (w ++ tail).takeWhile p = w.takeWhile p ∧ (w ++ tail).dropWhile p = w.dropWhile p ++ tail := by
  induction w with
  | nil =>
    cases tail with
    | nil => exact ⟨rfl, rfl⟩
    | cons d tail =>
      have hd : ¬ p d = true := by rw [ht d rfl]; exact Bool.false_ne_true
      exact ⟨List.takeWhile_cons_of_neg hd, List.dropWhile_cons_of_neg hd⟩
  | cons c w ih =>
    by_cases hc : p c = true
    · rw [List.cons_append, List.takeWhile_cons_of_pos hc, List.takeWhile_cons_of_pos hc,
        List.dropWhile_cons_of_pos hc, List.dropWhile_cons_of_pos hc, ih.1, ih.2]
      exact ⟨rfl, rfl⟩
    · rw [List.cons_append, List.takeWhile_cons_of_neg hc, List.takeWhile_cons_of_neg hc,
        List.dropWhile_cons_of_neg hc, List.dropWhile_cons_of_neg hc]
      exact ⟨rfl, rfl⟩

/-- The characters from `off` on are those of `text`. -/
def CharBuf.Holds (buf : CharBuf) (off : Nat) (text : List Char) : Prop :=
  ∀ i, (h : i < text.length) → buf (off + i) = text[i]

section Holds

variable {buf : CharBuf} {n off : Nat} {text : List Char}

theorem holds_append {rest : List Char} :
    buf.Holds off (text ++ rest) ↔ buf.Holds off text ∧ buf.Holds (off + text.length) rest := by
  constructor
  · intro h
    refine ⟨fun i hi => ?_, fun i hi => ?_⟩
    · rw [h i (by rw [List.length_append]; omega), List.getElem_append_left hi]
    · have hall := h (text.length + i) (by rw [List.length_append]; omega)
      rw [List.getElem_append_right (Nat.le_add_right _ _)] at hall
      simpa only [Nat.add_assoc, Nat.add_sub_cancel_left] using hall
  · rintro ⟨hfirst, hrest⟩ i hi
    by_cases hlt : i < text.length
    · rw [hfirst i hlt, List.getElem_append_left hlt]
    · have hi' : i - text.length < rest.length := by rw [List.length_append] at hi; omega
      have hall := hrest (i - text.length) hi'
      rw [show off + text.length + (i - text.length) = off + i by omega] at hall
      rw [hall, List.getElem_append_right (not_lt.mp hlt)]

theorem holds_cons {c : Char} :
    buf.Holds off (c :: text) ↔ buf off = c ∧ buf.Holds (off + 1) text := by
  rw [← List.singleton_append, holds_append]
  refine and_congr_left' ⟨fun h => h 0 Nat.one_pos, fun h i hi => ?_⟩
  obtain rfl : i = 0 := Nat.lt_one_iff.mp hi
  exact h

/-- What is written elsewhere does not matter. -/
theorem CharBuf.Holds.congr {buf' : CharBuf} (h : buf.Holds off text)
    (hsame : ∀ i, off ≤ i → i < off + text.length → buf' i = buf i) : buf'.Holds off text := by
  intro i hi
  rw [hsame (off + i) (by omega) (by omega), h i hi]

/-- The string at `off` is what the array holds there up to a NUL. -/
theorem CharBuf.Holds.cstr (h : buf.Holds off (text ++ [nul])) (hnul : nul ∉ text)
    (hn : off + text.length < n) : buf.cstr n off = text := by
  obtain ⟨htext, hend⟩ := holds_append.mp h
  have hlen : n - off = text.length + ((n - off - text.length - 1) + 1) := by omega
  have hfirst : (List.range text.length).map (fun i => buf (off + i)) = text := by
    refine List.ext_getElem (by simp) fun i h₁ h₂ => ?_
    rw [List.getElem_map, List.getElem_range, htext i h₂]
  have hstop : buf (off + (text.length + 0)) = nul := (holds_cons.mp hend).1
  unfold CharBuf.cstr
  rw [hlen, List.range_add, List.map_append, hfirst, List.range_succ_eq_map, List.map_cons,
    List.map_cons, hstop, List.takeWhile_append_of_pos, List.takeWhile_cons_of_neg (by simp),
    List.append_nil]
  intro c hc
  simp only [ne_eq, decide_eq_true_eq]
  rintro rfl
  exact hnul hc

theorem length_cstr_le : (buf.cstr n off).length ≤ n :=
  calc (buf.cstr n off).length
    _ ≤ ((List.range (n - off)).map fun i => buf (off + i)).length :=
        (List.takeWhile_sublist _).length_le
    _ = n - off := by rw [List.length_map, List.length_range]
    _ ≤ n := Nat.sub_le _ _

/-- A write that fits leaves its text, and everything else as it was. -/
theorem write_fits (buf : CharBuf) (n off : Nat) (text : List Char) (h : off + text.length ≤ n) :
    ∃ buf', buf.write n off text = some buf' ∧ buf'.Holds off text ∧
      ∀ i, i < off ∨ off + text.length ≤ i → buf' i = buf i := by
  refine ⟨_, if_pos h, fun i hi => ?_, fun i hi => if_neg (by omega)⟩
  have hin : off ≤ off + i ∧ off + i < off + text.length := by omega
  simp only [if_pos hin, Nat.add_sub_cancel_left, List.getD_eq_getElem?_getD,
    List.getElem?_eq_getElem hi, Option.getD_some]

/-- `strcpy` of a string that fits. -/
theorem write_string (buf : CharBuf) (hnul : nul ∉ text) (hn : text.length < n) :
    ∃ buf', buf.write n 0 (text ++ [nul]) = some buf' ∧ buf'.Holds 0 (text ++ [nul])
      ∧ buf'.cstr n 0 = text := by
  have hfits : 0 + (text ++ [nul]).length ≤ n := by
    rw [List.length_append, List.length_singleton]
    omega
  obtain ⟨buf', hwrite, hholds, -⟩ := write_fits buf n 0 _ hfits
  exact ⟨buf', hwrite, hholds, hholds.cstr hnul (by omega)⟩

/-- A write over a part of a text that has the same length. -/
theorem write_over {pre old new post : List Char} (h : buf.Holds 0 (pre ++ old ++ post))
    (hlen : new.length = old.length) (hn : (pre ++ old ++ post).length ≤ n) :
    ∃ buf', buf.write n pre.length new = some buf' ∧ buf'.Holds 0 (pre ++ new ++ post) := by
  rw [List.length_append, List.length_append] at hn
  obtain ⟨buf', hwrite, hnew, hframe⟩ := write_fits buf n pre.length new (by omega)
  refine ⟨buf', hwrite, ?_⟩
  rw [holds_append, holds_append, List.length_append, Nat.zero_add, Nat.zero_add] at h ⊢
  refine ⟨⟨h.1.1.congr fun i _ hi => hframe i (Or.inl (by omega)), hnew⟩, ?_⟩
  rw [hlen]
  exact h.2.congr fun i hi _ => hframe i (Or.inr (by omega))

end Holds

/-! ## A line in the array -/

section Store

variable {buf : CharBuf} {l : List Char} {i n off : Nat}

end Store

/-! ## Lines of a file -/

/-- A line as a text file has it: one newline, at its end, and short enough for the array. -/
structure IsLine (n : Nat) (line : List Char) : Prop where
  ends : ∃ body, line = body ++ ['\n'] ∧ '\n' ∉ body
  fits : line.length < n
  nul : nul ∉ line

section Lines

variable {n : Nat}

theorem IsLine.ne_nil {line : List Char} (h : IsLine n line) : line ≠ [] := by
  obtain ⟨body, rfl, -⟩ := h.ends
  exact List.append_ne_nil_of_right_ne_nil _ (List.cons_ne_nil _ _)

end Lines

/-! ## Hexadecimal -/

end Umka.Lib
