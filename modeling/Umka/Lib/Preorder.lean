import Mathlib.Data.List.Lex
import Mathlib.Data.List.Perm.Basic
import Mathlib.Data.List.Sort
import Umka.Lib.Forest

/-!
# A forest in sorted pre-order

Going through a forest, a node before its children and siblings in the order of their names,
meets the entries in lexicographic order of the names on the way (`pairwise_preorder`). There is
no other way to list them in that order (`eq_of_ascending`).
-/

set_option autoImplicit false

namespace Umka.Lib

namespace Forest

variable {ν κ : Type} [LinearOrder ν]

/-- The names on the way to a node. -/
def names (e : List (ν × κ)) : List ν := e.map Prod.fst

/-- Trees in the order of their names. -/
def byName {β : Type} (trees : List (ν × β)) : List (ν × β) :=
  trees.insertionSort fun a b => a.1 ≤ b.1

/-- The trees of a forest, each with its name and its entries in pre-order. -/
def trees : Forest ν κ → List (ν × List (List (ν × κ)))
  | empty => []
  | node n k cs next =>
    (n, [(n, k)] :: ((byName cs.trees).flatMap Prod.snd).map ((n, k) :: ·)) :: next.trees

def preorder (f : Forest ν κ) : List (List (ν × κ)) := (byName f.trees).flatMap Prod.snd

/-! ## Every entry once -/

theorem byName_perm {β : Type} (l : List (ν × β)) : (byName l).Perm l :=
  List.perm_insertionSort _ l

theorem flatMap_trees_perm (f : Forest ν κ) : (f.trees.flatMap Prod.snd).Perm f.entries := by
  induction f with
  | empty => exact .refl _
  | node n k cs next ihc ihn =>
    have hcs : ((byName cs.trees).flatMap Prod.snd).Perm cs.entries :=
      ((byName_perm _).flatMap_right _).trans ihc
    exact .cons _ ((hcs.map _).append ihn)

theorem preorder_perm (f : Forest ν κ) : f.preorder.Perm f.entries :=
  ((byName_perm _).flatMap_right _).trans (flatMap_trees_perm f)

/-! ## In order -/

theorem names_cons_lt {p q : ν × κ} {a b : List (ν × κ)} :
    names (p :: a) < names (q :: b) ↔ p.1 < q.1 ∨ p.1 = q.1 ∧ names a < names b :=
  List.cons_lt_cons_iff

/-- Entries can be listed in ascending order in one way only. -/
theorem eq_of_ascending {l l' : List (List (ν × κ))} (hl : l.Pairwise fun a b => names a < names b)
    (hl' : l'.Pairwise fun a b => names a < names b) (hperm : l.Perm l') : l = l' :=
  List.Perm.eq_of_pairwise (fun _ _ _ _ h₁ h₂ => absurd h₂ (lt_asymm h₁)) hl hl' hperm

theorem byName_pairwise {β : Type} {l : List (ν × β)} (hnodup : (l.map Prod.fst).Nodup) :
    (byName l).Pairwise fun a b => a.1 < b.1 := by
  have : Std.Total fun a b : ν × β => a.1 ≤ b.1 := ⟨fun a b => le_total a.1 b.1⟩
  have : IsTrans (ν × β) fun a b => a.1 ≤ b.1 := ⟨fun _ _ _ => le_trans⟩
  have hle := List.pairwise_insertionSort (fun a b : ν × β => a.1 ≤ b.1) l
  have hne : ((byName l).map Prod.fst).Nodup := ((byName_perm l).map _).nodup_iff.mpr hnodup
  exact (hle.and (List.pairwise_map.mp hne)).imp fun h => lt_of_le_of_ne h.1 h.2

/-- A tree that is ready: it has its name on every entry, and the entries ascend. -/
structure Ascends (t : ν × List (List (ν × κ))) : Prop where
  head : ∀ e ∈ t.2, ∃ k a, e = (t.1, k) :: a
  pairwise : t.2.Pairwise fun a b => names a < names b

/-- Ascending trees of different names, one after the other, ascend. -/
theorem pairwise_flatMap_byName {l : List (ν × List (List (ν × κ)))}
    (hl : ∀ t ∈ l, Ascends t) (hnodup : (l.map Prod.fst).Nodup) :
    ((byName l).flatMap Prod.snd).Pairwise fun a b => names a < names b := by
  have hmem : ∀ t ∈ byName l, Ascends t := fun t ht => hl t ((byName_perm l).mem_iff.mp ht)
  refine List.pairwise_flatMap.mpr ⟨fun t ht => (hmem t ht).pairwise, ?_⟩
  refine (byName_pairwise hnodup).imp_of_mem fun {s t} hs ht hlt a ha b hb => ?_
  obtain ⟨_, _, rfl⟩ := (hmem s hs).head a ha
  obtain ⟨_, _, rfl⟩ := (hmem t ht).head b hb
  exact names_cons_lt.mpr (.inl hlt)

/-- The name of a tree is that of its top. -/
theorem top_mem_entries {f : Forest ν κ} : ∀ {t : ν × List (List (ν × κ))}, t ∈ f.trees →
    ∃ k, [(t.1, k)] ∈ f.entries := by
  induction f with
  | empty => exact fun ht => absurd ht List.not_mem_nil
  | node n k cs next _ ihn =>
    intro t ht
    rcases List.mem_cons.mp ht with rfl | ht
    · exact ⟨k, mem_entries_node.mpr (.inl rfl)⟩
    · obtain ⟨k', hk'⟩ := ihn ht
      exact ⟨k', mem_entries_node.mpr (.inr (.inr hk'))⟩

theorem ne_nil_of_mem_preorder {f : Forest ν κ} {e : List (ν × κ)} (he : e ∈ f.preorder) :
    e ≠ [] := by
  rintro rfl
  exact nil_notMem_entries f ((preorder_perm f).mem_iff.mp he)

variable [DecidableEq ν]

theorem trees_nodup {f : Forest ν κ} (hf : f.Distinct) : (f.trees.map Prod.fst).Nodup := by
  induction f with
  | empty => exact List.nodup_nil
  | node n k cs next _ ihn =>
    obtain ⟨hnone, -, hnext⟩ := hf
    refine List.nodup_cons.mpr ⟨fun hmem => ?_, ihn hnext⟩
    obtain ⟨t, ht, rfl⟩ := List.mem_map.mp hmem
    obtain ⟨k', hk'⟩ := top_mem_entries ht
    exact child?_eq_none_iff.mp hnone k' [] hk'

theorem ascends_trees {f : Forest ν κ} (hf : f.Distinct) : ∀ t ∈ f.trees, Ascends t := by
  induction f with
  | empty => exact fun _ ht => absurd ht List.not_mem_nil
  | node n k cs next ihc ihn =>
    obtain ⟨-, hcs, hnext⟩ := hf
    have hpre := pairwise_flatMap_byName (ihc hcs) (trees_nodup hcs)
    refine List.forall_mem_cons.mpr ⟨⟨?_, ?_⟩, ihn hnext⟩
    · refine List.forall_mem_cons.mpr ⟨⟨k, [], rfl⟩, fun e he => ?_⟩
      obtain ⟨a, -, rfl⟩ := List.mem_map.mp he
      exact ⟨k, a, rfl⟩
    · refine List.pairwise_cons.mpr ⟨fun e he => ?_, ?_⟩
      · obtain ⟨a, ha, rfl⟩ := List.mem_map.mp he
        obtain ⟨p, a, rfl⟩ := List.exists_cons_of_ne_nil (ne_nil_of_mem_preorder ha)
        exact names_cons_lt.mpr (.inr ⟨rfl, List.nil_lt_cons _ _⟩)
      · exact List.pairwise_map.mpr (hpre.imp fun h => names_cons_lt.mpr (.inr ⟨rfl, h⟩))

theorem pairwise_preorder {f : Forest ν κ} (hf : f.Distinct) :
    f.preorder.Pairwise fun a b => names a < names b :=
  pairwise_flatMap_byName (ascends_trees hf) (trees_nodup hf)

end Forest

end Umka.Lib
