import Mathlib.Data.List.Basic
import Mathlib.Data.List.Nodup
import Mathlib.Tactic.Common
import Mathlib.Algebra.Order.Ring.Nat

/-!
# Tuples in the order of nested loops

`k` nested loops over one list, the first the outermost, go through the `k`-tuples of its members.
-/

set_option autoImplicit false

namespace Umka.Lib

variable {α : Type}

/-- The tuples whose first member is in `xs` and the other `k` in `table`. -/
def tuplesFrom (rest : List (List α)) (xs : List α) : List (List α) :=
  xs.flatMap fun x => rest.map (x :: ·)

/-- The `k`-tuples of members of `table`. -/
def tuples (table : List α) : Nat → List (List α)
  | 0 => [[]]
  | k + 1 => tuplesFrom (tuples table k) table

section

variable {table xs : List α} {rest : List (List α)} {t : List α} {k : Nat}

theorem length_tuplesFrom : (tuplesFrom rest xs).length = xs.length * rest.length := by
  rw [tuplesFrom, List.length_flatMap]
  simp

theorem length_tuples : (tuples table k).length = table.length ^ k := by
  induction k with
  | zero => rfl
  | succ k ih => rw [tuples, length_tuplesFrom, ih, Nat.pow_succ, Nat.mul_comm]

theorem mem_tuplesFrom : t ∈ tuplesFrom rest xs ↔ ∃ x ∈ xs, ∃ u ∈ rest, t = x :: u := by
  simp only [tuplesFrom, List.mem_flatMap, List.mem_map, eq_comm]

/-- The outer loop takes its first turn, and then the others. -/
theorem tuplesFrom_cons (x : α) :
    tuplesFrom rest (x :: xs) = rest.map (x :: ·) ++ tuplesFrom rest xs :=
  rfl

theorem nodup_tuplesFrom (hxs : xs.Nodup) (hrest : rest.Nodup) : (tuplesFrom rest xs).Nodup := by
  induction xs with
  | nil => exact List.nodup_nil
  | cons x xs ih =>
    obtain ⟨hx, hxs⟩ := List.nodup_cons.mp hxs
    rw [tuplesFrom_cons]
    refine List.nodup_append.mpr ⟨hrest.map fun u v h => (List.cons.inj h).2, ih hxs, ?_⟩
    intro t ht u hu htu
    obtain ⟨v, -, rfl⟩ := List.mem_map.mp ht
    obtain ⟨y, hy, w, -, rfl⟩ := mem_tuplesFrom.mp hu
    exact hx ((List.cons.inj htu).1 ▸ hy)

theorem nodup_tuples (h : table.Nodup) : (tuples table k).Nodup := by
  induction k with
  | zero => exact List.nodup_singleton _
  | succ k ih => exact nodup_tuplesFrom h ih

end

end Umka.Lib
