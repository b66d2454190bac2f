import Mathlib.Data.List.Basic
import Mathlib.Tactic.Common
import Mathlib.Algebra.Order.Ring.Nat

/-!
# Programs that may stop

A C function that can fail, or do something that is not defined, is a computation in `Except ε`.
Arrays are lists, and every access says what it stops with when it is outside. `loop` is a `for`
that counts up; `loop_ok` and `loop_ends` are the rules for it, with an invariant that knows how far
it got.
-/

set_option autoImplicit false

namespace Umka.Lib

variable {ε α β σ : Type}

/-! ## Arrays -/

def fetch (e : ε) (a : List α) (i : Nat) : Except ε α :=
  match a[i]? with
  | some x => .ok x
  | none => .error e

def store (e : ε) (a : List α) (i : Nat) (x : α) : Except ε (List α) :=
  if i < a.length then .ok (a.set i x) else .error e

theorem fetch_of_some {e : ε} {a : List α} {i : Nat} {x : α} (h : a[i]? = some x) :
    fetch e a i = .ok x := by
  rw [fetch, h]

theorem fetch_of_lt (e : ε) {a : List α} {i : Nat} (h : i < a.length) : fetch e a i = .ok a[i] :=
  fetch_of_some (List.getElem?_eq_getElem h)

theorem store_of_lt (e : ε) {a : List α} {i : Nat} (x : α) (h : i < a.length) :
    store e a i x = .ok (a.set i x) := if_pos h

@[simp] theorem ok_bind (a : α) (f : α → Except ε β) : (Except.ok a >>= f) = f a := rfl

@[simp] theorem error_bind (e : ε) (f : α → Except ε β) :
    ((Except.error e : Except ε α) >>= f) = .error e := rfl

/-! ## How a computation ends -/

/-- With a result as `P` says, or stopped as `E` says. -/
def Ends (m : Except ε α) (P : α → Prop) (E : ε → Prop) : Prop :=
  match m with
  | .ok a => P a
  | .error e => E e

theorem ends_ok {a : α} {P : α → Prop} {E : ε → Prop} : Ends (.ok a) P E ↔ P a := Iff.rfl

theorem Ends.imp {m : Except ε α} {P Q : α → Prop} {E F : ε → Prop} (h : Ends m P E)
    (hP : ∀ a, P a → Q a) (hE : ∀ e, E e → F e) : Ends m Q F := by
  cases m with
  | ok a => exact hP a h
  | error e => exact hE e h

theorem Ends.bind {m : Except ε α} {f : α → Except ε β} {P : α → Prop} {Q : β → Prop} {E : ε → Prop}
    (h : Ends m P E) (hf : ∀ a, P a → Ends (f a) Q E) : Ends (m >>= f) Q E := by
  cases m with
  | ok a => exact hf a h
  | error e => exact h

theorem Ends.exists_ok {m : Except ε α} {P : α → Prop} {E : ε → Prop} (h : Ends m P E)
    (hE : ∀ e, ¬ E e) : ∃ a, m = .ok a ∧ P a := by
  cases m with
  | ok a => exact ⟨a, rfl, h⟩
  | error e => exact absurd h (hE e)

theorem Ends.and_eq {m : Except ε α} {P : α → Prop} {E : ε → Prop} (h : Ends m P E) :
    Ends m (fun a => m = .ok a ∧ P a) E := by
  cases m with
  | ok a => exact ⟨rfl, h⟩
  | error e => exact h

/-! ## Loops -/

/-- `for (; n; n--, i++)`: the body at `i`, at `i + 1` and so on, `n` times. -/
def loop (body : Nat → σ → Except ε σ) : Nat → Nat → σ → Except ε σ
  | _, 0, s => .ok s
  | i, n + 1, s => body i s >>= loop body (i + 1) n

theorem loop_ends (body : Nat → σ → Except ε σ) {I : Nat → σ → Prop} {E : ε → Prop} :
    ∀ {i n : Nat} {s : σ}, (∀ j s, i ≤ j → j < i + n → I j s → Ends (body j s) (I (j + 1)) E) →
      I i s → Ends (loop body i n s) (I (i + n)) E
  | _, 0, _, _, h => h
  | i, n + 1, s, hstep, h => by
    have hfirst := hstep i s (Nat.le_refl i) (by omega) h
    refine hfirst.bind fun s' hs' => ?_
    have hrest := loop_ends body (n := n) (fun j t hj hlt => hstep j t (by omega) (by omega)) hs'
    rwa [Nat.add_right_comm, Nat.add_assoc] at hrest

theorem loop_ok (body : Nat → σ → Except ε σ) {I : Nat → σ → Prop} {i n : Nat} {s : σ}
    (hstep : ∀ j s, i ≤ j → j < i + n → I j s → ∃ s', body j s = .ok s' ∧ I (j + 1) s')
    (h : I i s) :
    ∃ s', loop body i n s = .ok s' ∧ I (i + n) s' := by
  have hends : Ends (loop body i n s) (I (i + n)) fun _ => False := by
    refine loop_ends body (fun j t hj hlt ht => ?_) h
    obtain ⟨t', hbody, ht'⟩ := hstep j t hj hlt ht
    rw [hbody]
    exact ht'
  exact hends.exists_ok fun _ => id

/-- Filling a part of an array. -/
theorem loop_store (e : ε) (x : α) :
    ∀ {n i : Nat} {a : List α}, i + n ≤ a.length →
      loop (fun j a => store e a j x) i n a = .ok (a.take i ++ List.replicate n x ++ a.drop (i + n))
  | 0, i, a, _ => by
    rw [loop, List.replicate_zero, List.append_nil, Nat.add_zero, List.take_append_drop]
  | n + 1, i, a, h => by
    have hi : i < a.length := by omega
    have htake : (a.set i x).take (i + 1) = a.take i ++ [x] := by
      rw [List.take_succ_eq_append_getElem (by rw [List.length_set]; exact hi),
        List.take_set_of_le (by omega), List.getElem_set_self]
    have hdrop : (a.set i x).drop (i + 1 + n) = a.drop (i + (n + 1)) := by
      rw [List.drop_set_of_lt (by omega), Nat.add_right_comm, Nat.add_assoc]
    rw [loop, store_of_lt _ _ hi, ok_bind, loop_store e x (by rw [List.length_set]; omega),
      htake, hdrop, List.replicate_succ, List.append_assoc (a.take i), List.singleton_append]

end Umka.Lib
