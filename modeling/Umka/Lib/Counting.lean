import Mathlib.Data.List.Nodup
import Mathlib.Data.Nat.Digits.Lemmas
import Mathlib.Data.Nat.ModEq
import Mathlib.Logic.Function.Iterate

/-!
# Counting

Texts over an alphabet are numerals: the place of a letter in the alphabet is its digit. Texts of
one length are the numbers below a power of the size of the alphabet.

Something that counts up by one through `n` numbers and starts again visits everything once in
any `n` steps (`Counts.existsUnique_iterate`).
-/

set_option autoImplicit false

namespace Umka.Lib

/-! ## Numerals over an alphabet -/

section Numerals

variable {α : Type} [DecidableEq α]

/-- The number that a text stands for; its last letter is the lowest digit. -/
def readOver (alphabet cs : List α) : Nat :=
  Nat.ofDigits alphabet.length (cs.reverse.map fun c => alphabet.idxOf c)

variable {alphabet cs ds : List α}

theorem readOver_concat (c : α) :
    readOver alphabet (cs ++ [c]) = readOver alphabet cs * alphabet.length + alphabet.idxOf c := by
  rw [readOver, List.reverse_concat, List.map_cons, Nat.ofDigits_cons, Nat.add_comm, Nat.mul_comm]
  rfl

theorem digits_lt (hcs : cs ⊆ alphabet) :
    ∀ d ∈ cs.reverse.map fun c => alphabet.idxOf c, d < alphabet.length := by
  intro d hd
  obtain ⟨c, hc, rfl⟩ := List.mem_map.mp hd
  exact List.idxOf_lt_length_iff.mpr (hcs (List.mem_reverse.mp hc))

theorem readOver_lt (hsize : 1 < alphabet.length) (hcs : cs ⊆ alphabet) :
    readOver alphabet cs < alphabet.length ^ cs.length := by
  have hlt := Nat.ofDigits_lt_base_pow_length hsize (digits_lt hcs)
  rwa [List.length_map, List.length_reverse] at hlt

/-- Texts of one length that stand for the same number are the same. -/
theorem readOver_inj (hsize : 1 < alphabet.length) (hcs : cs ⊆ alphabet) (hds : ds ⊆ alphabet)
    (hlen : cs.length = ds.length) (h : readOver alphabet cs = readOver alphabet ds) : cs = ds := by
  have hdigits := Nat.ofDigits_inj_of_len_eq hsize (by simpa using hlen) (digits_lt hcs)
    (digits_lt hds) h
  -- the letters are found at their places
  have hback : ∀ {ts : List α}, ts ⊆ alphabet →
      (ts.reverse.map fun c => alphabet.idxOf c).map (alphabet[·]?) = ts.reverse.map some := by
    intro ts hts
    rw [List.map_map]
    exact List.map_congr_left fun c hc => List.getElem?_idxOf (hts (List.mem_reverse.mp hc))
  have hsome : cs.reverse.map some = ds.reverse.map some := by
    rw [← hback hcs, ← hback hds, hdigits]
  exact List.reverse_injective (List.map_injective_iff.mpr (Option.some_injective α) hsome)

/-- There is a text for every number. -/
theorem exists_readOver (hnodup : alphabet.Nodup) : ∀ {n v : Nat}, v < alphabet.length ^ n →
    ∃ cs, cs.length = n ∧ cs ⊆ alphabet ∧ readOver alphabet cs = v := by
  intro n
  induction n with
  | zero =>
    intro v hv
    exact ⟨[], rfl, List.nil_subset _, (Nat.lt_one_iff.mp hv).symm⟩
  | succ n ih =>
    intro v hv
    have hpos : 0 < alphabet.length := by
      refine Nat.pos_of_ne_zero fun hzero => ?_
      rw [hzero, Nat.zero_pow (Nat.zero_lt_succ n)] at hv
      exact absurd hv (Nat.not_lt_zero v)
    have hmod : v % alphabet.length < alphabet.length := Nat.mod_lt v hpos
    have hdiv : v / alphabet.length < alphabet.length ^ n :=
      Nat.div_lt_of_lt_mul (by rwa [Nat.pow_succ, Nat.mul_comm] at hv)
    obtain ⟨cs, hlen, hcs, hread⟩ := ih hdiv
    refine ⟨cs ++ [alphabet[v % alphabet.length]], ?_, ?_, ?_⟩
    · rw [List.length_append, hlen, List.length_singleton]
    · refine List.append_subset.mpr ⟨hcs, List.cons_subset.mpr ⟨?_, List.nil_subset _⟩⟩
      exact List.getElem_mem hmod
    · rw [readOver_concat, hread, hnodup.idxOf_getElem _ hmod, Nat.mul_comm]
      exact Nat.div_add_mod v alphabet.length

end Numerals

/-! ## Going round -/

/-- `f` goes from each thing to the one of the next number, and from the last one to the first. -/
structure Counts {α : Type} (f : α → α) (number : α → Nat) (n : Nat) : Prop where
  lt : ∀ a, number a < n
  injective : Function.Injective number
  surjective : ∀ v, v < n → ∃ a, number a = v
  step : ∀ a, number (f a) = (number a + 1) % n

namespace Counts

variable {α : Type} {f : α → α} {number : α → Nat} {n : Nat} (h : Counts f number n)

include h

theorem number_iterate (a : α) (i : Nat) : number (f^[i] a) = (number a + i) % n := by
  induction i with
  | zero => exact (Nat.mod_eq_of_lt (h.lt a)).symm
  | succ i ih =>
    rw [Function.iterate_succ_apply', h.step, ih, Nat.mod_add_mod]
    rfl

theorem iterate_period (a : α) : f^[n] a = a := by
  refine h.injective ?_
  rw [h.number_iterate, Nat.add_mod_right, Nat.mod_eq_of_lt (h.lt a)]

/-- No two of the first `n` steps are at the same place. -/
theorem iterate_inj {a : α} {i j : Nat} (hi : i < n) (hj : j < n) (heq : f^[i] a = f^[j] a) :
    i = j := by
  have hnumber : number a + i ≡ number a + j [MOD n] := by
    rw [Nat.ModEq, ← h.number_iterate, ← h.number_iterate, heq]
  exact (hnumber.add_left_cancel' _).eq_of_lt_of_lt hi hj

theorem exists_iterate (a b : α) : ∃ i, i < n ∧ f^[i] a = b := by
  have ha := h.lt a
  have hb := h.lt b
  refine ⟨(number b + (n - number a)) % n, Nat.mod_lt _ (by omega), h.injective ?_⟩
  rw [h.number_iterate, Nat.add_mod_mod]
  have hsum : number a + (number b + (n - number a)) = number b + n := by omega
  rw [hsum, Nat.add_mod_right, Nat.mod_eq_of_lt hb]

/-- **Every place is visited once before the first one is again.** -/
theorem existsUnique_iterate (a b : α) : ∃! i, i < n ∧ f^[i] a = b := by
  obtain ⟨i, hi, hib⟩ := h.exists_iterate a b
  refine ⟨i, ⟨hi, hib⟩, ?_⟩
  rintro j ⟨hj, hjb⟩
  exact h.iterate_inj hj hi (hjb.trans hib.symm)

end Counts

end Umka.Lib
