import Mathlib.Data.List.Nodup
import Mathlib.Tactic.Common
import Mathlib.Algebra.Order.Ring.Nat

/-!
# Trees of named nodes

A list of siblings, each with a name, a kind and its own children, as a C program keeps it: the
first child and the next sibling. The one operation is `enter`, which goes into the first child
of a given name, makes that child when there is none, and replaces its children by what the
caller does there.

A node is known by its `entries`, the labels on the way to it from the top. When siblings have
`Distinct` names, two forests with the same entries are the `Same` up to the order of siblings
(`Distinct.same`).
-/

set_option autoImplicit false

namespace Umka.Lib

/-- Siblings, the first one first. -/
inductive Forest (ν κ : Type)
  | empty
  | node (name : ν) (kind : κ) (children next : Forest ν κ)
deriving DecidableEq, Repr

namespace Forest

variable {ν κ ε : Type}

def append : Forest ν κ → Forest ν κ → Forest ν κ
  | empty, g => g
  | node n k cs next, g => node n k cs (next.append g)

/-- The way from the top to each node. -/
def entries : Forest ν κ → List (List (ν × κ))
  | empty => []
  | node n k cs next => [(n, k)] :: (cs.entries.map ((n, k) :: ·) ++ next.entries)

section Named

variable [DecidableEq ν]

/-- The first sibling of that name. -/
def child? (s : ν) : Forest ν κ → Option (κ × Forest ν κ)
  | empty => none
  | node n k cs next => if n = s then some (k, cs) else next.child? s

/-- No two siblings have the same name, anywhere. -/
def Distinct : Forest ν κ → Prop
  | empty => True
  | node n _ cs next => next.child? n = none ∧ cs.Distinct ∧ next.Distinct

/-- Going into the child `s`. One that has to be made is made by `make` and put last. -/
def enter (s : ν) (make : Except ε (κ × Forest ν κ))
    (inside : Forest ν κ → Except ε (Forest ν κ)) : Forest ν κ → Except ε (Forest ν κ)
  | empty => do
    let (k, cs) ← make
    let cs' ← inside cs
    pure (node s k cs' empty)
  | node n k cs next =>
    if n = s then do
      let cs' ← inside cs
      pure (node n k cs' next)
    else do
      let next' ← next.enter s make inside
      pure (node n k cs next')

end Named

/-- The same trees up to the order of siblings. -/
inductive Same : Forest ν κ → Forest ν κ → Prop
  | empty : Same empty empty
  | node {n : ν} {k : κ} {cs cs' next next' : Forest ν κ} (hc : Same cs cs')
      (hn : Same next next') :
      Same (node n k cs next) (node n k cs' next')
  | swap (n m : ν) (k l : κ) (cs ds next : Forest ν κ) :
      Same (node n k cs (node m l ds next)) (node m l ds (node n k cs next))
  | trans {f g h : Forest ν κ} (h₁ : Same f g) (h₂ : Same g h) : Same f h

/-! ## Entries -/

@[simp] theorem entries_empty : (empty : Forest ν κ).entries = [] := rfl

@[simp] theorem append_empty (f : Forest ν κ) : f.append empty = f := by
  induction f with
  | empty => rfl
  | node n k cs next _ ih => rw [append, ih]

@[simp] theorem mem_entries_node {n : ν} {k : κ} {cs next : Forest ν κ} {e : List (ν × κ)} :
    e ∈ (node n k cs next).entries ↔
      e = [(n, k)] ∨ (∃ e' ∈ cs.entries, e = (n, k) :: e') ∨ e ∈ next.entries := by
  simp only [entries, List.mem_cons, List.mem_append, List.mem_map]
  constructor
  · rintro (h | ⟨e', he', rfl⟩ | h)
    · exact .inl h
    · exact .inr (.inl ⟨e', he', rfl⟩)
    · exact .inr (.inr h)
  · rintro (h | ⟨e', he', rfl⟩ | h)
    · exact .inl h
    · exact .inr (.inl ⟨e', he', rfl⟩)
    · exact .inr (.inr h)

@[simp] theorem mem_entries_append {f g : Forest ν κ} {e : List (ν × κ)} :
    e ∈ (f.append g).entries ↔ e ∈ f.entries ∨ e ∈ g.entries := by
  induction f with
  | empty => simp [append]
  | node n k cs next _ ih =>
    rw [append, mem_entries_node, mem_entries_node, ih, or_assoc, or_assoc]

theorem nil_notMem_entries (f : Forest ν κ) : [] ∉ f.entries := by
  induction f with
  | empty => simp
  | node n k cs next _ ih =>
    rw [mem_entries_node]
    rintro (h | ⟨e', -, h⟩ | h)
    · cases h
    · cases h
    · exact ih h

/-! ## Same trees -/

theorem Same.refl : ∀ f : Forest ν κ, Same f f
  | .empty => .empty
  | .node _ _ cs next => .node (.refl cs) (.refl next)

theorem Same.symm {f g : Forest ν κ} (h : Same f g) : Same g f := by
  induction h with
  | empty => exact .empty
  | node _ _ ihc ihn => exact .node ihc ihn
  | swap n m k l cs ds next => exact .swap m n l k ds cs next
  | trans _ _ ih₁ ih₂ => exact .trans ih₂ ih₁

theorem Same.mem_entries {f g : Forest ν κ} (h : Same f g) {e : List (ν × κ)} :
    e ∈ f.entries ↔ e ∈ g.entries := by
  induction h generalizing e with
  | empty => rfl
  | node _ _ ihc ihn => simp only [mem_entries_node, ihc, ihn]
  | swap n m k l cs ds next =>
    simp only [mem_entries_node]
    grind
  | trans _ _ ih₁ ih₂ => exact ih₁.trans ih₂

/-- A node may be brought to the front. -/
theorem same_front (f : Forest ν κ) {n : ν} {k : κ} {cs g : Forest ν κ} :
    Same (f.append (node n k cs g)) (node n k cs (f.append g)) := by
  induction f with
  | empty => exact .refl _
  | node m l ds next _ ih => exact .trans (.node (.refl ds) ih) (.swap m n l k ds cs _)

/-! ## Names -/

section Named

variable [DecidableEq ν]

theorem child?_eq_none_iff {s : ν} {f : Forest ν κ} :
    f.child? s = none ↔ ∀ k e, (s, k) :: e ∉ f.entries := by
  induction f with
  | empty => simp [child?]
  | node n k cs next _ ih =>
    unfold child?
    split
    · rename_i hn
      subst hn
      refine iff_of_false (by simp) fun h => ?_
      exact h k [] (mem_entries_node.mpr (.inl rfl))
    · rename_i hn
      rw [ih]
      refine forall_congr' fun k' => forall_congr' fun e => not_congr ?_
      rw [mem_entries_node]
      constructor
      · exact fun h => .inr (.inr h)
      · rintro (h | ⟨e', -, h⟩ | h)
        · cases h
          exact absurd rfl hn
        · cases h
          exact absurd rfl hn
        · exact h

/-- Where the first child of a name is. -/
theorem child?_eq_some {s : ν} {k : κ} {cs f : Forest ν κ} (h : f.child? s = some (k, cs)) :
    ∃ f₁ f₂ : Forest ν κ, f = f₁.append (node s k cs f₂) ∧ f₁.child? s = none := by
  induction f with
  | empty => cases h
  | node n k' cs' next _ ih =>
    rw [child?] at h
    by_cases hn : n = s
    · subst hn
      rw [if_pos rfl, Option.some.injEq, Prod.mk.injEq] at h
      obtain ⟨rfl, rfl⟩ := h
      exact ⟨empty, next, rfl, rfl⟩
    · rw [if_neg hn] at h
      obtain ⟨f₁, f₂, rfl, h₁⟩ := ih h
      refine ⟨node n k' cs' f₁, f₂, rfl, ?_⟩
      rw [child?, if_neg hn, h₁]

theorem child?_append {s : ν} {f g : Forest ν κ} :
    (f.append g).child? s = (f.child? s).or (g.child? s) := by
  induction f with
  | empty => rfl
  | node n k cs next _ ih =>
    rw [append, child?, child?]
    split
    · rfl
    · exact ih

theorem distinct_append {f g : Forest ν κ} :
    (f.append g).Distinct ↔
      f.Distinct ∧ g.Distinct ∧ ∀ s, f.child? s ≠ none → g.child? s = none := by
  induction f with
  | empty => simp [append, Distinct, child?]
  | node n k cs next _ ih =>
    rw [append, Distinct, Distinct, ih, child?_append, Option.or_eq_none_iff]
    constructor
    · rintro ⟨⟨h₁, h₂⟩, h₃, h₄, h₅, h₆⟩
      refine ⟨⟨h₁, h₃, h₄⟩, h₅, fun s hs => ?_⟩
      by_cases hn : n = s
      · exact hn ▸ h₂
      · rw [child?, if_neg hn] at hs
        exact h₆ s hs
    · rintro ⟨⟨h₁, h₃, h₄⟩, h₅, h₆⟩
      refine ⟨⟨h₁, h₆ n ?_⟩, h₃, h₄, h₅, fun s hs => h₆ s ?_⟩
      · rw [child?, if_pos rfl]
        exact Option.some_ne_none _
      · rw [child?]
        split
        · exact Option.some_ne_none _
        · exact hs

theorem distinct_leaf {n : ν} {k : κ} {cs : Forest ν κ} :
    (node n k cs empty).Distinct ↔ cs.Distinct := by
  simp [Distinct, child?]

/-- Below a node, and beside it. -/
theorem Distinct.cons_mem {n : ν} {k k' : κ} {cs next : Forest ν κ} {e : List (ν × κ)}
    (h : (node n k cs next).Distinct) (he : (n, k') :: e ∈ (node n k cs next).entries) :
    k' = k ∧ (e = [] ∨ e ∈ cs.entries) := by
  rw [mem_entries_node] at he
  rcases he with he | ⟨e', he', he⟩ | he
  · cases he
    exact ⟨rfl, .inl rfl⟩
  · cases he
    exact ⟨rfl, .inr he'⟩
  · exact absurd he (child?_eq_none_iff.mp h.1 k' e)

/-- Below the child of a name. -/
theorem Distinct.mem_child {f : Forest ν κ} (h : f.Distinct) {s : ν} {k k' : κ} {cs : Forest ν κ}
    {e : List (ν × κ)} (hch : f.child? s = some (k, cs)) :
    (s, k') :: e ∈ f.entries ↔ k' = k ∧ (e = [] ∨ e ∈ cs.entries) := by
  obtain ⟨f₁, f₂, rfl, h₁⟩ := child?_eq_some hch
  have hnode := (distinct_append.mp h).2.1
  rw [mem_entries_append, or_iff_right (child?_eq_none_iff.mp h₁ k' e)]
  constructor
  · exact hnode.cons_mem
  · rintro ⟨rfl, rfl | he⟩
    · exact mem_entries_node.mpr (.inl rfl)
    · exact mem_entries_node.mpr (.inr (.inl ⟨e, he, rfl⟩))

theorem Distinct.nodup {f : Forest ν κ} (h : f.Distinct) : f.entries.Nodup := by
  induction f with
  | empty => exact List.nodup_nil
  | node n k cs next ihc ihn =>
    obtain ⟨hn, hcs, hnext⟩ := h
    have hout := child?_eq_none_iff.mp hn
    unfold entries
    rw [List.nodup_cons, List.nodup_append]
    refine ⟨?_, List.Nodup.map List.cons_injective (ihc hcs), ihn hnext, ?_⟩
    · simp only [List.mem_append, List.mem_map, not_or, not_exists, not_and]
      refine ⟨fun e he h => ?_, hout k []⟩
      cases h
      exact nil_notMem_entries cs he
    · rintro _ ha b hb rfl
      obtain ⟨e, -, rfl⟩ := List.mem_map.mp ha
      exact hout k e hb

/-- A name says what kind of node it is. -/
theorem Distinct.kind_unique {f : Forest ν κ} (h : f.Distinct) {n : ν} {k k' : κ} :
    ∀ {e : List (ν × κ)}, e ++ [(n, k)] ∈ f.entries → e ++ [(n, k')] ∈ f.entries → k = k' := by
  induction f with
  | empty => intro e he; simp at he
  | node m l cs next ihc ihn =>
    intro e he he'
    cases e with
    | nil =>
      by_cases hm : n = m
      · subst hm
        exact (h.cons_mem he).1.trans (h.cons_mem he').1.symm
      · refine ihn h.2.2 (e := []) ?_ ?_
        · simpa [hm] using he
        · simpa [hm] using he'
    | cons a e =>
      obtain ⟨a, b⟩ := a
      by_cases hm : a = m
      · subst hm
        have h₁ := (h.cons_mem he).2
        have h₂ := (h.cons_mem he').2
        simp only [List.append_eq, List.append_eq_nil_iff, List.cons_ne_self, and_false,
          false_or] at h₁ h₂
        exact ihc h.2.1 h₁ h₂
      · refine ihn h.2.2 (e := (a, b) :: e) ?_ ?_
        · simpa [hm] using he
        · simpa [hm] using he'

/-- The nodes below the first one, told by the ways to them. -/
theorem Distinct.mem_below {n : ν} {k : κ} {cs next : Forest ν κ} {e : List (ν × κ)}
    (h : (node n k cs next).Distinct) :
    e ∈ cs.entries ↔ e ≠ [] ∧ (n, k) :: e ∈ (node n k cs next).entries := by
  constructor
  · intro he
    refine ⟨?_, mem_entries_node.mpr (.inr (.inl ⟨e, he, rfl⟩))⟩
    rintro rfl
    exact nil_notMem_entries cs he
  · rintro ⟨hne, he⟩
    exact (h.cons_mem he).2.resolve_left hne

/-- The nodes beside the first one and below those. -/
theorem Distinct.mem_beside {n : ν} {k : κ} {cs next : Forest ν κ} {e : List (ν × κ)}
    (h : (node n k cs next).Distinct) :
    e ∈ next.entries ↔ (∀ e', e ≠ (n, k) :: e') ∧ e ∈ (node n k cs next).entries := by
  constructor
  · intro he
    refine ⟨?_, mem_entries_node.mpr (.inr (.inr he))⟩
    rintro e' rfl
    exact child?_eq_none_iff.mp h.1 k e' he
  · rintro ⟨hne, he⟩
    rcases mem_entries_node.mp he with rfl | ⟨e', -, rfl⟩ | he
    · exact absurd rfl (hne [])
    · exact absurd rfl (hne e')
    · exact he

/-- Bringing a node to the front keeps the names distinct. -/
theorem Distinct.front {n : ν} {k : κ} {cs f g : Forest ν κ}
    (h : (f.append (node n k cs g)).Distinct) : (node n k cs (f.append g)).Distinct := by
  obtain ⟨h₁, ⟨h₂, h₃, h₄⟩, h₅⟩ := distinct_append.mp h
  refine ⟨?_, h₃, distinct_append.mpr ⟨h₁, h₄, fun s hs => ?_⟩⟩
  · rw [child?_append, Option.or_eq_none_iff]
    refine ⟨?_, h₂⟩
    by_contra hno
    have := h₅ n hno
    rw [child?, if_pos rfl] at this
    cases this
  · have := h₅ s hs
    rw [child?] at this
    split at this
    · cases this
    · exact this

/-- **Forests of distinct names with the same entries are the same.** -/
theorem Distinct.same {f : Forest ν κ} : ∀ {g : Forest ν κ}, f.Distinct → g.Distinct →
    (∀ e, e ∈ f.entries ↔ e ∈ g.entries) → Same f g := by
  induction f with
  | empty =>
    intro g _ _ h
    cases g with
    | empty => exact .empty
    | node n k cs next => simpa using (h [(n, k)]).mpr (mem_entries_node.mpr (.inl rfl))
  | node n k cs next ihc ihn =>
    intro g hf hg h
    -- `g` has the first node of `f` somewhere; bring it to the front.
    have hmem : [(n, k)] ∈ g.entries := (h _).mp (mem_entries_node.mpr (.inl rfl))
    obtain ⟨⟨k', ds⟩, hch⟩ : ∃ p, g.child? n = some p := by
      refine Option.ne_none_iff_exists'.mp fun hno => ?_
      exact child?_eq_none_iff.mp hno k [] hmem
    obtain ⟨rfl, -⟩ := (hg.mem_child hch).mp hmem
    obtain ⟨g₁, g₂, rfl, -⟩ := child?_eq_some hch
    have hfront : Same (g₁.append (node n k ds g₂)) (node n k ds (g₁.append g₂)) := same_front g₁
    have hg' := hg.front
    have hiff : ∀ e, e ∈ (node n k cs next).entries ↔ e ∈ (node n k ds (g₁.append g₂)).entries :=
      fun e => (h e).trans hfront.mem_entries
    refine .trans (.node (ihc hf.2.1 hg'.2.1 fun e => ?_) (ihn hf.2.2 hg'.2.2 fun e => ?_))
      hfront.symm
    · rw [hf.mem_below, hg'.mem_below, hiff]
    · rw [hf.mem_beside, hg'.mem_beside, hiff]

/-! ## Going in -/

variable {s : ν} {make : Except ε (κ × Forest ν κ)} {inside : Forest ν κ → Except ε (Forest ν κ)}

/-- Siblings of other names are passed by. -/
theorem enter_append {f g : Forest ν κ} (h : f.child? s = none) :
    (f.append g).enter s make inside = (g.enter s make inside).map f.append := by
  induction f with
  | empty =>
    show g.enter s make inside = _
    cases g.enter s make inside <;> rfl
  | node n k cs next _ ih =>
    rw [child?] at h
    split at h
    · cases h
    · rename_i hn
      rw [append, enter, if_neg hn, ih h]
      cases g.enter s make inside <;> rfl

/-- What going in leaves behind: the child was there, or it was made. -/
theorem enter_ok {f f' : Forest ν κ} (h : f.enter s make inside = .ok f') :
    (∃ (f₁ f₂ : Forest ν κ) (k : κ) (cs cs' : Forest ν κ), f = f₁.append (node s k cs f₂) ∧
      f.child? s = some (k, cs) ∧ f₁.child? s = none ∧ inside cs = .ok cs' ∧
      f' = f₁.append (node s k cs' f₂)) ∨
    (∃ k cs cs', f.child? s = none ∧ make = .ok (k, cs) ∧ inside cs = .ok cs' ∧
      f' = f.append (node s k cs' empty)) := by
  cases hch : f.child? s with
  | some p =>
    obtain ⟨k, cs⟩ := p
    obtain ⟨f₁, f₂, rfl, h₁⟩ := child?_eq_some hch
    rw [enter_append h₁, enter, if_pos rfl] at h
    cases hin : inside cs with
    | error e => simp [hin] at h; cases h
    | ok cs' =>
      rw [hin] at h
      cases h
      exact .inl ⟨f₁, f₂, k, cs, cs', rfl, rfl, h₁, hin, rfl⟩
  | none =>
    have heq : (f.append empty).enter s make inside = (empty.enter s make inside).map f.append :=
      enter_append hch
    rw [append_empty, h, enter] at heq
    cases hm : make with
    | error e => rw [hm] at heq; cases heq
    | ok p =>
      obtain ⟨k, cs⟩ := p
      rw [hm] at heq
      cases hin : inside cs with
      | error e =>
        simp only [bind, Except.bind, hin] at heq
        cases heq
      | ok cs' =>
        simp only [bind, Except.bind, hin] at heq
        cases heq
        exact .inr ⟨k, cs, cs', rfl, rfl, hin, rfl⟩

theorem enter_succeeds {f : Forest ν κ} (hm : ∃ p, make = .ok p)
    (hin : ∀ cs, ∃ cs', inside cs = .ok cs') : ∃ f', f.enter s make inside = .ok f' := by
  induction f with
  | empty =>
    obtain ⟨⟨k, cs⟩, hm⟩ := hm
    obtain ⟨cs', hcs⟩ := hin cs
    exact ⟨node s k cs' empty, by rw [enter, hm]; show (inside cs).bind _ = _; rw [hcs]; rfl⟩
  | node n k cs next _ ih =>
    rw [enter]
    split
    · obtain ⟨cs', hcs⟩ := hin cs
      exact ⟨node n k cs' next, by rw [hcs]; rfl⟩
    · obtain ⟨next', hn⟩ := ih
      exact ⟨node n k cs next', by rw [hn]; rfl⟩

/-- Names stay distinct. -/
theorem Distinct.enter {f f' : Forest ν κ} (hf : f.Distinct)
    (hm : ∀ k cs, make = .ok (k, cs) → cs.Distinct)
    (hin : ∀ cs cs', inside cs = .ok cs' → cs.Distinct → cs'.Distinct)
    (h : f.enter s make inside = .ok f') : f'.Distinct := by
  rcases enter_ok h with
    ⟨f₁, f₂, k, cs, cs', rfl, -, -, hcs, rfl⟩ | ⟨k, cs, cs', hno, hmk, hcs, rfl⟩
  · obtain ⟨h₁, ⟨h₂, h₃, h₄⟩, h₅⟩ := distinct_append.mp hf
    refine distinct_append.mpr ⟨h₁, ⟨h₂, hin cs cs' hcs h₃, h₄⟩, fun n hn => ?_⟩
    have := h₅ n hn
    rw [child?] at this ⊢
    split at this
    · cases this
    · rename_i hne
      rw [if_neg hne]
      exact this
  · refine distinct_append.mpr ⟨hf, distinct_leaf.mpr (hin cs cs' hcs (hm k cs hmk)),
      fun n hn => ?_⟩
    rw [child?]
    split
    · rename_i hs
      exact absurd (hs ▸ hno) hn
    · rfl

end Named

end Forest

end Umka.Lib
