import Mathlib.Data.List.Basic
import Mathlib.Tactic.Common
import Mathlib.Algebra.Order.Ring.Nat

/-!
# Runs of a step function, under a condition on each step

A protocol is a state type and a partial step function; an interleaving is the list of the
steps taken. Some protocols keep their promises only if the environment behaves, and then the
promise is about the runs whose every step meets a condition *in the state it is taken from*.
`invariant_of_step` is the one induction such results need. That something good can still
happen is `LeadsTo`, which is proved backwards, a step at a time.
-/

set_option autoImplicit false

namespace Umka.Lib

section Run

variable {S A : Type}

/-- The state after the steps `as`, if each of them can be taken. -/
def runActs (step : S → A → Option S) : S → List A → Option S
  | s, [] => some s
  | s, a :: as => (step s a).bind fun s' => runActs step s' as

/-- Every step of the run meets `ok` in the state it is taken from. -/
def MeetsAll (step : S → A → Option S) (ok : S → A → Prop) : S → List A → Prop
  | _, [] => True
  | s, a :: as => ok s a ∧ ∀ s', step s a = some s' → MeetsAll step ok s' as

variable {step : S → A → Option S} {ok : S → A → Prop}

instance decidableMeetsAll [∀ s a, Decidable (ok s a)] :
    ∀ (s : S) (as : List A), Decidable (MeetsAll step ok s as)
  | _, [] => isTrue trivial
  | s, a :: as =>
    match h : step s a with
    | none => decidable_of_iff (ok s a)
        ⟨fun hok => ⟨hok, fun s' hs' => by rw [h] at hs'; cases hs'⟩, fun hm => hm.1⟩
    | some t =>
      have := decidableMeetsAll t as
      decidable_of_iff (ok s a ∧ MeetsAll step ok t as)
        ⟨fun hm => ⟨hm.1, fun s' hs' => by rw [h] at hs'; cases hs'; exact hm.2⟩,
          fun hm => ⟨hm.1, hm.2 t h⟩⟩

/-- A run that meets a condition meets every weaker one. -/
theorem MeetsAll.mono {ok' : S → A → Prop} (himp : ∀ s a, ok s a → ok' s a) :
    ∀ {as : List A} {s : S}, MeetsAll step ok s as → MeetsAll step ok' s as
  | [], _, _ => trivial
  | _ :: _, _, h => ⟨himp _ _ h.1, fun s' hs' => (h.2 s' hs').mono himp⟩

/-- **What every good step preserves, every good run preserves.** -/
theorem invariant_of_step {I : S → Prop}
    (hstep : ∀ s a s', I s → ok s a → step s a = some s' → I s') :
    ∀ (as : List A) (s s' : S), I s → MeetsAll step ok s as → runActs step s as = some s' →
      I s' := by
  intro as
  induction as with
  | nil =>
    intro s s' hI _ hrun
    cases hrun
    exact hI
  | cons a as ih =>
    intro s s' hI hmeets hrun
    obtain ⟨t, ht, hrest⟩ := Option.bind_eq_some_iff.mp hrun
    exact ih t s' (hstep s a t hI hmeets.1 ht) (hmeets.2 t ht) hrest

/-- Good steps lead from `s` to a state with `P`. -/
def LeadsTo (step : S → A → Option S) (ok : S → A → Prop) (P : S → Prop) (s : S) : Prop :=
  ∃ as s', MeetsAll step ok s as ∧ runActs step s as = some s' ∧ P s'

variable {P : S → Prop}

theorem LeadsTo.here {s : S} (h : P s) : LeadsTo step ok P s :=
  ⟨[], s, trivial, rfl, h⟩

theorem LeadsTo.after {s s' : S} {a : A} (hok : ok s a) (hs : step s a = some s')
    (h : LeadsTo step ok P s') : LeadsTo step ok P s := by
  obtain ⟨as, t, hmeets, hrun, hP⟩ := h
  refine ⟨a :: as, t, ⟨hok, fun s'' hs'' => ?_⟩, ?_, hP⟩
  · cases hs.symm.trans hs''
    exact hmeets
  · rw [runActs, hs]
    exact hrun

/-- Nothing leads out of what every good step preserves. -/
theorem not_leadsTo_of_step {I : S → Prop}
    (hstep : ∀ s a s', I s → ok s a → step s a = some s' → I s') (hP : ∀ s, I s → ¬ P s) {s : S}
    (h : I s) : ¬ LeadsTo step ok P s := by
  rintro ⟨as, s', hmeets, hrun, hs'⟩
  exact hP s' (invariant_of_step hstep as s s' h hmeets hrun) hs'

end Run

/-! ## Calls that answer

A store is a state type and a total step function that also returns an answer. Two stores with
different states are the same to their users when every sequence of calls gets the same
answers. -/

section Transcript

variable {S T A O : Type}

/-- The answers to the calls `as`, and the state after them. -/
def transcript (step : S → A → O × S) : S → List A → List O × S
  | s, [] => ([], s)
  | s, a :: as =>
    ((step s a).1 :: (transcript step (step s a).2 as).1, (transcript step (step s a).2 as).2)

/-- **Simulation.** A relation that every call keeps, and under which every call gets the same
    answer, is kept by every sequence of calls. -/
theorem transcript_simulates {step : S → A → O × S} {step' : T → A → O × T} {R : S → T → Prop}
    (h : ∀ s t a, R s t → (step s a).1 = (step' t a).1 ∧ R (step s a).2 (step' t a).2) :
    ∀ (as : List A) (s : S) (t : T), R s t →
      (transcript step s as).1 = (transcript step' t as).1
        ∧ R (transcript step s as).2 (transcript step' t as).2 := by
  intro as
  induction as with
  | nil =>
    intro s t hR
    exact ⟨rfl, hR⟩
  | cons a as ih =>
    intro s t hR
    obtain ⟨hout, hR'⟩ := h s t a hR
    obtain ⟨houts, hend⟩ := ih _ _ hR'
    exact ⟨congrArg₂ List.cons hout houts, hend⟩

end Transcript

end Umka.Lib
