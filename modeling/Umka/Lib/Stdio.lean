import Mathlib.Data.List.Basic
import Mathlib.Tactic.Common
import Mathlib.Algebra.Order.Ring.Nat

/-!
# Files read in blocks, `strstr` and `strrchr`

The end of a file is noticed by a read that comes out short, not by one that takes the last byte.
-/

set_option autoImplicit false

namespace Umka.Lib

/-! ## Streams -/

/-- A file that is open for reading: what is left of it, and `feof`. -/
structure Stream where
  left : List UInt8
  eof : Bool
deriving DecidableEq, Repr

def Stream.start (contents : List UInt8) : Stream := ⟨contents, false⟩

/-- `fread(buf, 1, n, f)`: what arrives in the buffer, and the stream afterwards. -/
def Stream.fread (n : Nat) (f : Stream) : List UInt8 × Stream :=
  (f.left.take n, ⟨f.left.drop n, f.eof || decide (f.left.length < n)⟩)

theorem fread_start (n : Nat) (contents : List UInt8) :
    (Stream.start contents).fread n
      = (contents.take n, ⟨contents.drop n, decide (contents.length < n)⟩) := rfl

/-! ## The first occurrence -/

section Strstr

variable (needle : List Char)

/-- Where `needle` first occurs. -/
def strstrAt : List Char → Option Nat
  | [] => if needle = [] then some 0 else none
  | c :: cs => if needle <+: c :: cs then some 0 else (strstrAt cs).map (· + 1)

variable {needle}

/-- The needle stands there, and nowhere before. -/
theorem strstrAt_some {s : List Char} : ∀ {i : Nat}, strstrAt needle s = some i →
    ∃ pre post, s = pre ++ needle ++ post ∧ pre.length = i ∧ ∀ j, j < i →
      ¬ needle <+: s.drop j := by
  induction s with
  | nil =>
    intro i h
    rw [strstrAt] at h
    split at h
    · rename_i hnil
      cases h
      subst hnil
      exact ⟨[], [], rfl, rfl, fun j hj => absurd hj (Nat.not_lt_zero j)⟩
    · exact nomatch h
  | cons c cs ih =>
    intro i h
    rw [strstrAt] at h
    split at h
    · rename_i hpre
      cases h
      obtain ⟨post, hpost⟩ := hpre
      exact ⟨[], post, hpost.symm, rfl, fun j hj => absurd hj (Nat.not_lt_zero j)⟩
    · rename_i hpre
      obtain ⟨k, hk, rfl⟩ := Option.map_eq_some_iff.mp h
      obtain ⟨pre, post, hpost, hlen, hfirst⟩ := ih hk
      refine ⟨c :: pre, post, congrArg (c :: ·) hpost, congrArg (· + 1) hlen, fun j hj => ?_⟩
      cases j with
      | zero => exact hpre
      | succ j => exact hfirst j (Nat.lt_of_succ_lt_succ hj)

theorem strstrAt_none {s : List Char} (h : strstrAt needle s = none) : ¬ needle <:+: s := by
  induction s with
  | nil =>
    rw [strstrAt] at h
    split at h
    · exact nomatch h
    · rename_i hne
      exact fun hin => hne (List.infix_nil.mp hin)
  | cons c cs ih =>
    rw [strstrAt] at h
    split at h
    · exact nomatch h
    · rename_i hpre
      intro hin
      rcases List.infix_cons_iff.mp hin with hin | hin
      · exact hpre hin
      · exact ih (Option.map_eq_none_iff.mp h) hin

/-- A place with nothing before it is the one. -/
theorem strstrAt_of_first {s pre post : List Char} (hs : s = pre ++ needle ++ post)
    (hfirst : ∀ j, j < pre.length → ¬ needle <+: s.drop j) :
    strstrAt needle s = some pre.length := by
  have hhere : needle <+: s.drop pre.length := by
    rw [hs, List.append_assoc, List.drop_left]
    exact List.prefix_append _ _
  cases h : strstrAt needle s with
  | none => exact absurd ⟨pre, post, hs.symm⟩ (strstrAt_none h)
  | some i =>
    obtain ⟨pre', post', hs', rfl, hfirst'⟩ := strstrAt_some h
    have hthere : needle <+: s.drop pre'.length := by
      rw [hs', List.append_assoc, List.drop_left]
      exact List.prefix_append _ _
    have hle : ¬ pre'.length < pre.length := fun hlt => hfirst _ hlt hthere
    have hge : ¬ pre.length < pre'.length := fun hlt => hfirst' _ hlt hhere
    rw [Nat.le_antisymm (not_lt.mp hge) (not_lt.mp hle)]

end Strstr

/-! ## The last occurrence -/

section Strrchr

variable (c : Char)

/-- What is before the last `c`: the text after `*strrchr(s, c) = 0`. -/
def cutLast : List Char → Option (List Char)
  | [] => none
  | d :: s =>
    match cutLast s with
    | some t => some (d :: t)
    | none => if d = c then some [] else none

variable {c}

theorem cutLast_none {s : List Char} (h : c ∉ s) : cutLast c s = none := by
  induction s with
  | nil => rfl
  | cons d s ih =>
    obtain ⟨hd, hs⟩ := not_or.mp (mt List.mem_cons.mpr h)
    rw [cutLast, ih hs]
    exact if_neg fun hdc => hd hdc.symm

theorem cutLast_append {s t : List Char} (h : c ∉ t) : cutLast c (s ++ c :: t) = some s := by
  induction s with
  | nil =>
    rw [List.nil_append, cutLast, cutLast_none h]
    exact if_pos rfl
  | cons d s ih => rw [List.cons_append, cutLast, ih]

/-- Cutting takes one `c` away. -/
theorem count_cutLast {s : List Char} (h : c ∈ s) :
    ∃ t, cutLast c s = some t ∧ t.count c + 1 = s.count c := by
  induction s with
  | nil => exact absurd h List.not_mem_nil
  | cons d s ih =>
    by_cases hs : c ∈ s
    · obtain ⟨t, ht, hcount⟩ := ih hs
      refine ⟨d :: t, by rw [cutLast, ht], ?_⟩
      rw [List.count_cons, List.count_cons, ← hcount]
      exact Nat.add_right_comm _ _ _
    · obtain rfl := (List.mem_cons.mp h).resolve_right hs
      refine ⟨[], ?_, ?_⟩
      · rw [cutLast, cutLast_none hs]
        exact if_pos rfl
      · rw [List.count_cons_self, List.count_eq_zero_of_not_mem hs, List.count_nil]

end Strrchr

end Umka.Lib
