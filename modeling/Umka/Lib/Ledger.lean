import Mathlib.Data.List.Perm.Subperm
import Mathlib.Tactic.Common
import Mathlib.Algebra.Order.Ring.Nat

/-!
# A ledger of requests

What a service with one request at a time owes its clients, in terms of three records: the
requests as they were submitted, the requests as they were executed, with their results, and
the results as they were handed back. `Ledger.Ok` says that the three tell the same story:
the `k`-th execution is of the `k`-th submission, and the `k`-th answer is the result of the
`k`-th execution, given to the client that submitted it. Nothing is executed twice, nothing is
executed that was not asked for, and nobody gets somebody else's answer.

A protocol moves a ledger around the cycle `Idle`, `Pending`, `Done`, `Idle`; each of the three
is `Ok`.
-/

set_option autoImplicit false

namespace Umka.Lib

/-- The three records: clients `ι`, requests `α`, results `ρ`. -/
structure Ledger (ι α ρ : Type) where
  submitted : List (ι × α)
  executed : List (α × ρ)
  answered : List (ι × ρ)

namespace Ledger

variable {ι α ρ : Type}

def empty : Ledger ι α ρ := ⟨[], [], []⟩

def submit (L : Ledger ι α ρ) (i : ι) (a : α) : Ledger ι α ρ :=
  { L with submitted := L.submitted ++ [(i, a)] }

def execute (L : Ledger ι α ρ) (a : α) (r : ρ) : Ledger ι α ρ :=
  { L with executed := L.executed ++ [(a, r)] }

def answer (L : Ledger ι α ρ) (i : ι) (r : ρ) : Ledger ι α ρ :=
  { L with answered := L.answered ++ [(i, r)] }

/-- The answers the submissions and executions call for. -/
def dueAnswers (L : Ledger ι α ρ) : List (ι × ρ) :=
  List.zipWith (fun p e => (p.1, e.2)) L.submitted L.executed

/-- The three records agree, as far as the later ones go. -/
structure Ok (L : Ledger ι α ρ) : Prop where
  executed : L.executed.map Prod.fst <+: L.submitted.map Prod.snd
  answered : L.answered <+: L.dueAnswers

/-- Everything submitted has been executed and answered. -/
structure Idle (L : Ledger ι α ρ) : Prop where
  executed : L.executed.map Prod.fst = L.submitted.map Prod.snd
  answered : L.answered = L.dueAnswers

/-- One request is submitted and not executed. -/
def Pending (i : ι) (a : α) (L : Ledger ι α ρ) : Prop := ∃ L₀, Idle L₀ ∧ L = L₀.submit i a

/-- One request is executed and not answered. -/
def Done (i : ι) (a : α) (r : ρ) (L : Ledger ι α ρ) : Prop :=
  ∃ L₀, Idle L₀ ∧ L = (L₀.submit i a).execute a r

variable {L : Ledger ι α ρ} {i : ι} {a : α} {r : ρ}

/-! ## The cycle -/

theorem idle_empty : Idle (empty : Ledger ι α ρ) := ⟨rfl, rfl⟩

theorem Idle.submit (h : Idle L) : Pending i a (L.submit i a) := ⟨L, h, rfl⟩

theorem Pending.execute (h : Pending i a L) : Done i a r (L.execute a r) := by
  obtain ⟨L₀, h₀, rfl⟩ := h
  exact ⟨L₀, h₀, rfl⟩

theorem Idle.length_eq (h : Idle L) : L.submitted.length = L.executed.length := by
  have := congrArg List.length h.executed
  simpa using this.symm

/-- With one more request through, one more answer is due. -/
theorem Idle.dueAnswers_append (h : Idle L) :
    ((L.submit i a).execute a r).dueAnswers = L.answered ++ [(i, r)] := by
  rw [h.answered]
  exact List.zipWith_append h.length_eq

theorem Done.answer (h : Done i a r L) : Idle (L.answer i r) := by
  obtain ⟨L₀, h₀, rfl⟩ := h
  constructor
  · simp only [Ledger.answer, Ledger.execute, Ledger.submit, List.map_append, h₀.executed]
    rfl
  · exact h₀.dueAnswers_append.symm

/-! ## Each of the three is in order -/

theorem Idle.ok (h : Idle L) : L.Ok :=
  ⟨h.executed ▸ List.prefix_refl _, h.answered ▸ List.prefix_refl _⟩

theorem Pending.ok (h : Pending i a L) : L.Ok := by
  obtain ⟨L₀, h₀, rfl⟩ := h
  constructor
  · simp only [Ledger.submit, List.map_append, h₀.executed]
    exact List.prefix_append _ _
  · -- The submission without an execution adds nothing to what is due.
    have hdue : (L₀.submit i a).dueAnswers = L₀.dueAnswers := by
      have happ : List.zipWith (fun (p : ι × α) (e : α × ρ) => (p.1, e.2))
          (L₀.submitted ++ [(i, a)]) (L₀.executed ++ []) = L₀.dueAnswers ++ [] :=
        List.zipWith_append h₀.length_eq
      simpa [dueAnswers, Ledger.submit] using happ
    rw [hdue]
    exact h₀.answered ▸ List.prefix_refl _

theorem Done.ok (h : Done i a r L) : L.Ok := by
  obtain ⟨L₀, h₀, rfl⟩ := h
  constructor
  · simp only [Ledger.execute, Ledger.submit, List.map_append, h₀.executed]
    exact List.prefix_refl _
  · rw [h₀.dueAnswers_append]
    exact List.prefix_append _ _

theorem Done.length_eq (h : Done i a r L) : L.submitted.length = L.executed.length := by
  obtain ⟨L₀, h₀, rfl⟩ := h
  simp [Ledger.execute, Ledger.submit, h₀.length_eq]

end Ledger

/-! ## Records by client

Where many requests are under way at once, a record is compared with another one client by
client: what client `i` did is `byClient log i`, in the order it did it. -/

section ByClient

variable {ι α : Type} [DecidableEq ι]

def byClient (log : List (ι × α)) (i : ι) : List α := (log.filter fun p => p.1 = i).map Prod.snd

@[simp] theorem byClient_append {log : List (ι × α)} {i j : ι} {a : α} :
    byClient (log ++ [(j, a)]) i = if j = i then byClient log i ++ [a] else byClient log i := by
  unfold byClient
  rw [List.filter_append, List.map_append, List.filter_singleton]
  by_cases h : j = i
  · simp [h]
  · simp [h]

theorem byClient_filter {log : List (ι × α)} {i : ι} {p : α → Bool} :
    byClient (log.filter fun x => p x.2) i = (byClient log i).filter p := by
  unfold byClient
  rw [List.filter_map, List.filter_filter, List.filter_filter]
  congr 1
  exact List.filter_congr fun x _ => Bool.and_comm _ _

theorem count_byClient [DecidableEq α] (log : List (ι × α)) (i : ι) (a : α) :
    log.count (i, a) = (byClient log i).count a := by
  induction log with
  | nil => rfl
  | cons x log ih =>
    obtain ⟨j, b⟩ := x
    by_cases h : j = i
    · subst h
      have hcons : byClient ((j, b) :: log) j = b :: byClient log j := by simp [byClient]
      rw [hcons, List.count_cons, List.count_cons, ih]
      simp
    · have hcons : byClient ((j, b) :: log) i = byClient log i := by simp [byClient, h]
      rw [hcons, List.count_cons, ih]
      simp [h]

/-- Records that agree client by client agree, up to the order in which clients took turns. -/
theorem perm_of_byClient [DecidableEq α] {l l' : List (ι × α)}
    (h : ∀ i, (byClient l i).Perm (byClient l' i)) : l.Perm l' := by
  rw [List.perm_iff_count]
  rintro ⟨i, a⟩
  rw [count_byClient, count_byClient, (h i).count_eq]

theorem subperm_of_byClient [DecidableEq α] {l l' : List (ι × α)}
    (h : ∀ i, (byClient l i).Subperm (byClient l' i)) : l.Subperm l' := by
  rw [List.subperm_ext_iff]
  rintro ⟨i, a⟩ -
  rw [count_byClient, count_byClient]
  exact (h i).count_le a

end ByClient

end Umka.Lib
