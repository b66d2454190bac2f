import Mathlib.Data.List.Basic
import Mathlib.Data.List.Infix
import Mathlib.Tactic.Common
import Mathlib.Algebra.Order.Ring.Nat

/-!
# Removing every occurrence of a text

As `s.replace(old, "")` does it: from the left, and going on behind each occurrence.
-/

set_option autoImplicit false

namespace Umka.Lib

variable {α : Type} [DecidableEq α]

/-- What is left of a text; there are as many rounds as it has characters. -/
def removeIn (old : List α) : Nat → List α → List α
  | 0, s => s
  | _ + 1, [] => []
  | rounds + 1, c :: s =>
    if old <+: c :: s then removeIn old rounds ((c :: s).drop old.length)
    else c :: removeIn old rounds s

def removeAll (old s : List α) : List α := removeIn old s.length s

section

variable {old s : List α}

theorem length_removeIn_le : ∀ {rounds : Nat} {s : List α},
    (removeIn old rounds s).length ≤ s.length := by
  intro rounds
  induction rounds with
  | zero => exact Nat.le_refl _
  | succ rounds ih =>
    intro s
    cases s with
    | nil => exact Nat.le_refl _
    | cons c s =>
      rw [removeIn]
      split
      · refine Nat.le_trans ih ?_
        rw [List.length_drop]
        exact Nat.sub_le _ _
      · exact Nat.succ_le_succ ih

/-- More rounds than characters change nothing. -/
theorem removeIn_congr (hold : old ≠ []) : ∀ {m n : Nat} {s : List α}, s.length ≤ m → s.length ≤ n →
    removeIn old m s = removeIn old n s := by
  have hpos := List.length_pos_iff.mpr hold
  intro m
  induction m with
  | zero =>
    intro n s hm _
    obtain rfl := List.eq_nil_of_length_eq_zero (Nat.le_zero.mp hm)
    cases n with
    | zero => rfl
    | succ n => rfl
  | succ m ih =>
    intro n s hm hn
    cases s with
    | nil =>
      cases n with
      | zero => rfl
      | succ n => rfl
    | cons c s =>
      rw [List.length_cons] at hm hn
      obtain ⟨n, rfl⟩ := Nat.exists_eq_add_one_of_ne_zero (by omega : n ≠ 0)
      have hdrop : ((c :: s).drop old.length).length ≤ s.length := by
        rw [List.length_drop, List.length_cons]
        omega
      rw [removeIn, removeIn, ih (by omega) (by omega : ((c :: s).drop old.length).length ≤ n),
        ih (by omega) (by omega : s.length ≤ n)]

/-- An occurrence at the start goes first. -/
theorem removeAll_append (hold : old ≠ []) : removeAll old (old ++ s) = removeAll old s := by
  obtain ⟨c, old, rfl⟩ := List.exists_cons_of_ne_nil hold
  have hdrop : (c :: old ++ s).drop (c :: old).length = s := List.drop_left
  rw [removeAll, List.cons_append, List.length_cons, removeIn, if_pos ⟨s, rfl⟩, ← List.cons_append,
    hdrop]
  refine removeIn_congr hold ?_ (Nat.le_refl _)
  rw [List.length_append]
  omega

/-- **A text stays as it is exactly if it does not have the other in it.** -/
theorem removeAll_eq_self_iff (hold : old ≠ []) : removeAll old s = s ↔ ¬ old <:+: s := by
  induction s with
  | nil => exact iff_of_true rfl fun h => hold (List.infix_nil.mp h)
  | cons c s ih =>
    rw [removeAll, List.length_cons, removeIn]
    by_cases hpre : old <+: c :: s
    · rw [if_pos hpre]
      refine iff_of_false (fun heq => ?_) (fun h => h hpre.isInfix)
      have hlen := congrArg List.length heq
      have hle : (removeIn old s.length ((c :: s).drop old.length)).length ≤
          ((c :: s).drop old.length).length := length_removeIn_le
      have hpos := List.length_pos_iff.mpr hold
      rw [hlen, List.length_drop, List.length_cons] at hle
      omega
    · rw [if_neg hpre, List.cons.injEq, and_iff_right rfl, List.infix_cons_iff, or_iff_right hpre]
      exact ih

end

end Umka.Lib
