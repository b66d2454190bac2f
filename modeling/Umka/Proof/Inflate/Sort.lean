import Umka.Inflate.Huffman
import Umka.Lib.Canonical

/-!
# `prepareTable` sorts the symbols

The symbols are counted by the lengths of their codewords, each length gets its place, and every
symbol goes to the next free place of its length. That is the place of its codeword among all
codewords (`CodeWord.index`).
-/

set_option autoImplicit false

namespace Umka.Inflate

open Lib

/-- The decoder of a code, when the symbols are sorted. What stands in the table for a symbol is
    `val`. -/
structure Sorted (lens : List Nat) (symbols : Nat) (val : Nat → Nat) (d : HuffmanDecoder)
    (rev : List Nat) : Prop where
  symbols_eq : d.symbols = symbols
  numSorted : d.numSorted = shorter (lenCount lens) 16
  startingPos : ∀ l, 1 ≤ l → l < 16 → d.startingPos[l]? = some (shorter (lenCount lens) (l + 1))
  length_rev : rev.length = symbols
  symbol : ∀ s (h : symLen lens s ≠ 0), rev[(codeOf s h).index]? = some (val s)

section

variable {lens codeLength : List Nat} {symbols : Nat}

theorem getElem?_codeLength (hpre : lens <+: codeLength) {j : Nat} (hj : j < lens.length) :
    codeLength[j]? = some (symLen lens j) := by
  obtain ⟨rest, rfl⟩ := hpre
  rw [List.getElem?_append_left hj, symLen, List.getD_eq_getElem?_getD, List.getElem?_eq_getElem hj,
    Option.getD_some]

theorem symLen_mem {j : Nat} (hj : j < lens.length) : symLen lens j ∈ lens := by
  rw [symLen, List.getD_eq_getElem?_getD, List.getElem?_eq_getElem hj, Option.getD_some]
  exact List.getElem_mem hj

theorem take_succ_symLen {j : Nat} (hj : j < lens.length) :
    lens.take (j + 1) = lens.take j ++ [symLen lens j] := by
  rw [symLen, List.getD_eq_getElem?_getD, List.getElem?_eq_getElem hj, Option.getD_some,
    List.take_succ_eq_append_getElem hj]

/-! ## Counting -/

def Counted (lens : List Nat) (i : Nat) (perLen : List Nat) : Prop :=
  perLen.length = 16 ∧ ∀ l < 16, perLen[l]? = some ((lens.take i).count l)

theorem countSymbol_ok (hpre : lens <+: codeLength) (hlens : ∀ l ∈ lens, l < 16) {j : Nat}
    {perLen : List Nat} (hj : j < lens.length) (h : Counted lens j perLen) :
    ∃ perLen', countSymbol codeLength j perLen = .ok perLen' ∧ Counted lens (j + 1) perLen' := by
  have hlt : symLen lens j < 16 := hlens _ (symLen_mem hj)
  refine ⟨perLen.set (symLen lens j) ((lens.take j).count (symLen lens j) + 1), ?_, ?_, ?_⟩
  · rw [countSymbol, fetch_of_some (getElem?_codeLength hpre hj), ok_bind, if_neg (by omega),
      fetch_of_some (h.2 _ hlt), ok_bind, store_of_lt _ _ (by rw [h.1]; exact hlt)]
  · rw [List.length_set, h.1]
  · intro l hl
    rw [take_succ_symLen hj, List.count_append, List.count_singleton]
    by_cases heq : symLen lens j = l
    · subst heq
      rw [List.getElem?_set_self (by rw [h.1]; exact hl), beq_self_eq_true, if_pos rfl]
    · rw [List.getElem?_set_ne heq, h.2 l hl, if_neg (by simpa using heq), Nat.add_zero]

theorem countSymbols (hpre : lens <+: codeLength) (hlens : ∀ l ∈ lens, l < 16) :
    ∃ perLen, loop (countSymbol codeLength) 0 lens.length (List.replicate 16 0) = .ok perLen ∧
      perLen.length = 16 ∧ ∀ l < 16, perLen[l]? = some (lens.count l) := by
  have hinit : Counted lens 0 (List.replicate 16 0) :=
    ⟨rfl, fun l hl => by rw [List.getElem?_replicate_of_lt hl, List.take_zero, List.count_nil]⟩
  obtain ⟨perLen, hloop, hlength, hcounts⟩ := loop_ok _ (i := 0) (n := lens.length)
    (fun j _ _ hj h => countSymbol_ok hpre hlens (by omega) h) hinit
  refine ⟨perLen, hloop, hlength, fun l hl => ?_⟩
  rw [hcounts l hl, Nat.zero_add, List.take_length]

/-! ## Places -/

def Started (lens : List Nat) (i : Nat) (s : List Nat × Nat) : Prop :=
  s.1.length = 16 ∧ s.2 = shorter (lenCount lens) i ∧
    ∀ l, 1 ≤ l → l < i → s.1[l]? = some (shorter (lenCount lens) l)

theorem startLength_ok {perLen : List Nat} (hcounts : ∀ l < 16, perLen[l]? = some (lens.count l))
    {j : Nat} {s : List Nat × Nat} (hone : 1 ≤ j) (hj : j < 16) (h : Started lens j s) :
    ∃ s', startLength perLen j s = .ok s' ∧ Started lens (j + 1) s' := by
  have hcount : lenCount lens j = lens.count j := if_neg (by omega)
  refine ⟨(s.1.set j s.2, s.2 + lens.count j), ?_, ?_, ?_, ?_⟩
  · rw [startLength, store_of_lt _ _ (by rw [h.1]; exact hj), ok_bind,
      fetch_of_some (hcounts j hj), ok_bind]
  · rw [List.length_set, h.1]
  · rw [h.2.1, shorter, hcount]
  · intro l hl hlt
    by_cases heq : j = l
    · subst heq
      rw [List.getElem?_set_self (by rw [h.1]; exact hj), h.2.1]
    · rw [List.getElem?_set_ne heq, h.2.2 l hl (by omega)]

theorem startLengths {perLen : List Nat} (hcounts : ∀ l < 16, perLen[l]? = some (lens.count l)) :
    ∃ s, loop (startLength perLen) 1 15 (List.replicate 16 0, 0) = .ok s ∧ Started lens 16 s := by
  have hinit : Started lens 1 (List.replicate 16 0, 0) :=
    ⟨rfl, by simp [shorter, lenCount], fun l hl hlt => absurd hl (by omega)⟩
  exact loop_ok _ (fun j _ hone hj h => startLength_ok hcounts hone (by omega) h) hinit

/-! ## Sorting -/

structure Sorting (lens : List Nat) (symbols i : Nat) (s : List Nat × List Nat) : Prop where
  length_start : s.1.length = 16
  start : ∀ l, 1 ≤ l → l < 16 → s.1[l]? = some (shorter (lenCount lens) l + (lens.take i).count l)
  length_rev : s.2.length = symbols
  symbol : ∀ t < i, ∀ h : symLen lens t ≠ 0, s.2[(codeOf t h).index]? = some t

theorem sortSymbol_ok (hpre : lens <+: codeLength) (hlens : ∀ l ∈ lens, l < 16)
    (hsymbols : lens.length ≤ symbols) {j : Nat} {s : List Nat × List Nat} (hj : j < lens.length)
    (h : Sorting lens symbols j s) :
    ∃ s', sortSymbol codeLength j s = .ok s' ∧ Sorting lens symbols (j + 1) s' := by
  have hfetch := fetch_of_some (e := Stop.fault) (getElem?_codeLength hpre hj)
  by_cases hzero : symLen lens j = 0
  · refine ⟨s, by rw [sortSymbol, hfetch, ok_bind, if_pos hzero], h.length_start, ?_,
      h.length_rev, ?_⟩
    · intro l hone hl
      rw [h.start l hone hl, take_succ_symLen hj, List.count_append, hzero, List.count_singleton,
        if_neg (by simp; omega), Nat.add_zero]
    · intro t ht hne
      refine h.symbol t (Nat.lt_of_le_of_ne (Nat.le_of_lt_succ ht) fun heq => ?_) hne
      exact hne (heq ▸ hzero)
  · have hlt : symLen lens j < 16 := hlens _ (symLen_mem hj)
    have hstart : s.1[symLen lens j]? = some (codeOf j hzero).index :=
      h.start _ (Nat.one_le_iff_ne_zero.mpr hzero) hlt
    have hindex : (codeOf j hzero).index < symbols :=
      calc (codeOf j hzero).index < shorter (lenCount lens) ((codeOf j hzero).len + 1) :=
        CodeWord.index_lt
        _ ≤ lens.length := shorter_le_length _
        _ ≤ symbols := hsymbols
    refine ⟨(s.1.set (symLen lens j) ((codeOf j hzero).index + 1),
      s.2.set (codeOf j hzero).index j), ?_, ?_, ?_, ?_, ?_⟩
    · rw [sortSymbol, hfetch, ok_bind, if_neg hzero, fetch_of_some hstart, ok_bind,
        store_of_lt _ _ (by rw [h.length_rev]; exact hindex), ok_bind,
        store_of_lt _ _ (by rw [h.length_start]; exact hlt), ok_bind]
    · rw [List.length_set, h.length_start]
    · intro l hone hl
      rw [take_succ_symLen hj, List.count_append, List.count_singleton]
      by_cases heq : symLen lens j = l
      · subst heq
        rw [List.getElem?_set_self (by rw [h.length_start]; exact hl), beq_self_eq_true, if_pos rfl]
        rfl
      · rw [List.getElem?_set_ne heq, h.start l hone hl, if_neg (by simpa using heq), Nat.add_zero]
    · rw [List.length_set, h.length_rev]
    · intro t ht hne
      by_cases heq : j = t
      · subst heq
        rw [List.getElem?_set_self (by rw [h.length_rev]; exact hindex)]
      · -- two symbols have two places
        have hplaces : (codeOf j hzero).index ≠ (codeOf t hne).index := fun hsame =>
          heq (codeOf_inj (CodeWord.eq_of_index hsame))
        rw [List.getElem?_set_ne hplaces, h.symbol t (by omega) hne]

/-- **`prepareTable` puts every symbol at the place of its codeword.** -/
theorem prepareTable_sorted (symbols : Nat) (hpre : lens <+: codeLength)
    (hlens : ∀ l ∈ lens, l < 16) (hsymbols : lens.length ≤ symbols) (hmax : symbols ≤ maxSymbols) :
    ∃ d rev, prepareTable lens.length symbols codeLength = .ok (d, rev) ∧
      Sorted lens symbols id d rev := by
  obtain ⟨perLen, hcount, -, hcounts⟩ := countSymbols hpre hlens
  obtain ⟨starts, hstarts, hlength, htotal, hplaces⟩ := startLengths hcounts
  have hinit : Sorting lens symbols 0 (starts.1, List.replicate symbols unset) :=
    ⟨hlength, fun l hone hl => by rw [hplaces l hone hl, List.take_zero, List.count_nil,
      Nat.add_zero], List.length_replicate, fun t ht => absurd ht (Nat.not_lt_zero t)⟩
  obtain ⟨sorted, hsort, hsorted⟩ := loop_ok _ (i := 0) (n := lens.length)
    (fun j _ _ hj h => sortSymbol_ok hpre hlens hsymbols (by omega) h) hinit
  refine ⟨⟨[], [], symbols, starts.2, sorted.1⟩, sorted.2, ?_, rfl, htotal, ?_,
    hsorted.length_rev, ?_⟩
  · rw [prepareTable, if_neg (by omega), hcount, ok_bind, hstarts, ok_bind, hsort, ok_bind]
  · intro l hone hl
    rw [hsorted.start l hone hl, Nat.zero_add, List.take_length, shorter, lenCount,
      if_neg (by omega)]
  · intro s h
    exact hsorted.symbol s (by rw [Nat.zero_add]; exact lt_of_symLen h) h

end

end Umka.Inflate
