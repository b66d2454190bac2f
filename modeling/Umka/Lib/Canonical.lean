import Umka.Lib.Bits

/-!
# Canonical prefix codes

A canonical code is given by how many codewords there are of each length. Codewords of one length
are consecutive numbers, and the first one of a length comes after all that begin with a shorter
one. So the bits in front of a longer codeword are a number past the codewords of that length, and
nothing that is read can be two codewords (`CodeWord.eq_of_prefix`).

A codeword is written with its highest bit first.
-/

set_option autoImplicit false

namespace Umka.Lib

/-- The number that some bits stand for, the highest first. -/
def ofMsb (bs : List Bool) : Nat := ofBits bs.reverse

theorem ofMsb_concat (bs : List Bool) (b : Bool) : ofMsb (bs ++ [b]) = 2 * ofMsb bs + b.toNat := by
  rw [ofMsb, List.reverse_append, List.reverse_singleton, List.singleton_append, ofBits_cons,
    Nat.add_comm]
  rfl

section Canonical

variable (cnt : Nat → Nat)

/-- The first codeword of length `l`. -/
def firstCode : Nat → Nat
  | 0 => 0
  | l + 1 => 2 * (firstCode l + cnt l)

/-- The number of codewords that are shorter. -/
def shorter : Nat → Nat
  | 0 => 0
  | l + 1 => shorter l + cnt l

/-- No length has more codewords than there is room for. -/
def Fits : Prop := ∀ l, firstCode cnt l + cnt l ≤ 2 ^ l

@[ext]
structure CodeWord where
  len : Nat
  rank : Nat
  rank_lt : rank < cnt len

end Canonical

variable {cnt : Nat → Nat}

theorem shorter_mono {j l : Nat} (h : j ≤ l) : shorter cnt j ≤ shorter cnt l := by
  induction l with
  | zero => rw [Nat.le_zero.mp h]
  | succ l ih =>
    rcases Nat.lt_or_eq_of_le h with hlt | rfl
    · exact Nat.le_trans (ih (Nat.le_of_lt_succ hlt)) (Nat.le_add_right _ _)
    · exact Nat.le_refl _

/-- What begins with a shorter codeword comes before the first one. -/
theorem le_firstCode {j l : Nat} (h : j < l) :
    (firstCode cnt j + cnt j) * 2 ^ (l - j) ≤ firstCode cnt l := by
  induction l with
  | zero => exact absurd h (Nat.not_lt_zero j)
  | succ l ih =>
    rcases Nat.lt_or_eq_of_le (Nat.le_of_lt_succ h) with hlt | rfl
    · have hpow : 2 ^ (l + 1 - j) = 2 * 2 ^ (l - j) := by
        rw [Nat.succ_sub (Nat.le_of_lt hlt), Nat.pow_succ']
      have hle := ih hlt
      rw [hpow, firstCode, Nat.mul_left_comm]
      exact Nat.mul_le_mul_left 2 (Nat.le_trans hle (Nat.le_add_right _ _))
    · rw [Nat.add_sub_cancel_left, Nat.pow_one, firstCode, Nat.mul_comm]

namespace CodeWord

variable (w : CodeWord cnt)

def value : Nat := firstCode cnt w.len + w.rank

/-- Its place when the codewords stand in a row, the shorter ones first. -/
def index : Nat := shorter cnt w.len + w.rank

/-- As it is written, the highest bit first. -/
def bits : List Bool := (toBits w.len w.value).reverse

variable {w} {w' : CodeWord cnt}

@[simp] theorem length_bits : w.bits.length = w.len := by
  rw [bits, List.length_reverse, length_toBits]

theorem index_lt : w.index < shorter cnt (w.len + 1) := Nat.add_lt_add_left w.rank_lt _

theorem value_lt (hfits : Fits cnt) : w.value < 2 ^ w.len :=
  Nat.lt_of_lt_of_le (Nat.add_lt_add_left w.rank_lt _) (hfits w.len)

theorem ofMsb_bits (hfits : Fits cnt) : ofMsb w.bits = w.value := by
  rw [ofMsb, bits, List.reverse_reverse, ofBits_toBits, Nat.mod_eq_of_lt (value_lt hfits)]

theorem bits_eq_of_ofMsb {bs : List Bool} (hlen : bs.length = w.len) (h : ofMsb bs = w.value) :
    w.bits = bs := by
  rw [bits, ← h, ← hlen, ofMsb, ← List.length_reverse, toBits_ofBits, List.reverse_reverse]

/-- The number that the first `j` bits stand for. -/
theorem ofMsb_take (hfits : Fits cnt) (j : Nat) :
    ofMsb (w.bits.take j) = w.value / 2 ^ (w.len - j) := by
  rw [ofMsb, bits, List.take_reverse, List.reverse_reverse, length_toBits, ofBits_drop,
    ofBits_toBits, Nat.mod_eq_of_lt (value_lt hfits)]

/-- The bits in front of a codeword are past the codewords of their length. -/
theorem le_top {j : Nat} (hj : j < w.len) :
    firstCode cnt j + cnt j ≤ w.value / 2 ^ (w.len - j) := by
  rw [Nat.le_div_iff_mul_le (Nat.two_pow_pos _)]
  exact Nat.le_trans (le_firstCode hj) (Nat.le_add_right _ _)

theorem not_prefix_of_len_lt (hfits : Fits cnt) {s : List Bool} (h : w.bits <+: s)
    (h' : w'.bits <+: s) : ¬ w.len < w'.len := by
  intro hlt
  have htake : w'.bits.take w.len = w.bits := by
    have hpre := List.prefix_of_prefix_length_le h h' (by simpa using Nat.le_of_lt hlt)
    rw [List.prefix_iff_eq_take.mp hpre, length_bits]
  have hval := ofMsb_take (w := w') hfits w.len
  rw [htake, ofMsb_bits hfits] at hval
  have hle := le_top hlt
  have hrank := w.rank_lt
  rw [← hval, value] at hle
  omega

/-- **What is read begins with one codeword at most.** -/
theorem eq_of_prefix (hfits : Fits cnt) {s : List Bool} (h : w.bits <+: s) (h' : w'.bits <+: s) :
    w = w' := by
  have hlen : w.len = w'.len :=
    Nat.le_antisymm (Nat.le_of_not_lt (not_prefix_of_len_lt hfits h' h))
      (Nat.le_of_not_lt (not_prefix_of_len_lt hfits h h'))
  have hbits : w.bits = w'.bits := by
    have hpre := List.prefix_of_prefix_length_le h h' (by simp [hlen])
    exact hpre.eq_of_length (by simp [hlen])
  have hval : w.value = w'.value := by rw [← ofMsb_bits hfits, hbits, ofMsb_bits hfits]
  rw [value, value, hlen] at hval
  exact CodeWord.ext hlen (Nat.add_left_cancel hval)

theorem index_lt_of_len_lt (h : w.len < w'.len) : w.index < w'.index :=
  calc w.index < shorter cnt (w.len + 1) := index_lt
    _ ≤ shorter cnt w'.len := shorter_mono h
    _ ≤ w'.index := Nat.le_add_right _ _

theorem eq_of_index (h : w.index = w'.index) : w = w' := by
  have hlen : w.len = w'.len := by
    rcases Nat.lt_trichotomy w.len w'.len with hlt | heq | hgt
    · exact absurd h (Nat.ne_of_lt (index_lt_of_len_lt hlt))
    · exact heq
    · exact absurd h.symm (Nat.ne_of_lt (index_lt_of_len_lt hgt))
  rw [index, index, hlen] at h
  exact CodeWord.ext hlen (Nat.add_left_cancel h)

/-- Every place has a codeword. -/
theorem exists_index {n i : Nat} (h : i < shorter cnt n) : ∃ w : CodeWord cnt, w.index = i := by
  induction n with
  | zero => exact absurd h (Nat.not_lt_zero i)
  | succ n ih =>
    by_cases hi : i < shorter cnt n
    · exact ih hi
    · rw [shorter] at h
      exact ⟨⟨n, i - shorter cnt n, by omega⟩, Nat.add_sub_of_le (Nat.le_of_not_lt hi)⟩

theorem len_lt_of_index_lt {l : Nat} (h : w.index < shorter cnt l) : w.len < l := by
  by_contra hge
  have hle : shorter cnt l ≤ w.index :=
    Nat.le_trans (shorter_mono (Nat.le_of_not_lt hge)) (Nat.le_add_right _ _)
  omega

end CodeWord

theorem fits_of_value_lt (h : ∀ w : CodeWord cnt, w.value < 2 ^ w.len) (hzero : cnt 0 = 0) :
    Fits cnt := by
  intro l
  induction l with
  | zero => simp [firstCode, hzero]
  | succ l ih =>
    rcases Nat.eq_zero_or_pos (cnt (l + 1)) with hnone | hsome
    · rw [hnone, firstCode, Nat.pow_succ, Nat.mul_comm]
      omega
    · -- the last codeword of this length
      have hlast := h ⟨l + 1, cnt (l + 1) - 1, by omega⟩
      rw [CodeWord.value] at hlast
      dsimp only at hlast
      omega

/-! ## The code of some symbols

The symbols are numbers, and a list says how long the codeword of each one is; a symbol of length
zero has none. Symbols with codewords of one length have them in their own order. -/

section Symbols

variable (lens : List Nat)

def lenCount (l : Nat) : Nat := if l = 0 then 0 else lens.count l

def symLen (s : Nat) : Nat := lens.getD s 0

/-- How many symbols before have the same length. -/
def symRank (s : Nat) : Nat := (lens.take s).count (symLen lens s)

def symBits (s : Nat) : List Bool :=
  (toBits (symLen lens s) (firstCode (lenCount lens) (symLen lens s) + symRank lens s)).reverse

variable {lens} {s : Nat}

theorem lt_of_symLen (h : symLen lens s ≠ 0) : s < lens.length := by
  by_contra hge
  rw [symLen, List.getD_eq_getElem?_getD, List.getElem?_eq_none (Nat.le_of_not_lt hge)] at h
  exact h rfl

theorem getElem?_of_symLen (h : symLen lens s ≠ 0) : lens[s]? = some (symLen lens s) := by
  rw [symLen, List.getD_eq_getElem?_getD, List.getElem?_eq_getElem (lt_of_symLen h),
    Option.getD_some]

theorem count_take_succ (h : symLen lens s ≠ 0) :
    (lens.take (s + 1)).count (symLen lens s) = symRank lens s + 1 := by
  have hs := lt_of_symLen h
  have hget : lens[s] = symLen lens s :=
    Option.some.inj ((List.getElem?_eq_getElem hs).symm.trans (getElem?_of_symLen h))
  rw [List.take_succ_eq_append_getElem hs, List.count_append, hget,
    List.count_singleton_self, symRank]

theorem symRank_lt (h : symLen lens s ≠ 0) : symRank lens s < lenCount lens (symLen lens s) := by
  have hle : (lens.take (s + 1)).count (symLen lens s) ≤ lens.count (symLen lens s) :=
    (List.take_sublist _ _).count_le _
  rw [count_take_succ h] at hle
  rw [lenCount, if_neg h]
  exact hle

/-- The codeword of a symbol. -/
def codeOf (s : Nat) (h : symLen lens s ≠ 0) : CodeWord (lenCount lens) :=
  ⟨symLen lens s, symRank lens s, symRank_lt h⟩

theorem symRank_lt_of_lt {s' : Nat} (hlt : s < s') (h : symLen lens s ≠ 0)
    (hlen : symLen lens s = symLen lens s') : symRank lens s < symRank lens s' := by
  have hle : (lens.take (s + 1)).count (symLen lens s) ≤ (lens.take s').count (symLen lens s) :=
    (List.take_prefix_take_left hlt).sublist.count_le _
  rw [count_take_succ h, hlen] at hle
  exact hle

theorem codeOf_inj {s' : Nat} {h : symLen lens s ≠ 0} {h' : symLen lens s' ≠ 0}
    (heq : codeOf s h = codeOf s' h') : s = s' := by
  have hlen : symLen lens s = symLen lens s' := congrArg CodeWord.len heq
  have hrank : symRank lens s = symRank lens s' := congrArg CodeWord.rank heq
  rcases Nat.lt_trichotomy s s' with hlt | rfl | hgt
  · exact absurd hrank (Nat.ne_of_lt (symRank_lt_of_lt hlt h hlen))
  · rfl
  · exact absurd hrank.symm (Nat.ne_of_lt (symRank_lt_of_lt hgt h' hlen.symm))

theorem bits_codeOf (h : symLen lens s ≠ 0) : (codeOf s h).bits = symBits lens s := rfl

theorem exists_of_lt_count {l k : Nat} :
    ∀ {lens : List Nat}, k < lens.count l → ∃ s, lens[s]? = some l ∧ (lens.take s).count l = k
  | [], h => absurd h (Nat.not_lt_zero k)
  | x :: lens, h => by
    by_cases hx : x = l
    · subst hx
      cases k with
      | zero => exact ⟨0, rfl, rfl⟩
      | succ k =>
        rw [List.count_cons_self] at h
        obtain ⟨s, hs, hcount⟩ := exists_of_lt_count (Nat.lt_of_succ_lt_succ h)
        exact ⟨s + 1, hs, by rw [List.take_succ_cons, List.count_cons_self, hcount]⟩
    · rw [List.count_cons_of_ne hx] at h
      obtain ⟨s, hs, hcount⟩ := exists_of_lt_count h
      exact ⟨s + 1, hs, by rw [List.take_succ_cons, List.count_cons_of_ne hx, hcount]⟩

namespace CodeWord

variable (w : CodeWord (lenCount lens))

theorem len_ne_zero : w.len ≠ 0 := by
  intro h
  have hrank := w.rank_lt
  rw [lenCount, if_pos h] at hrank
  exact Nat.not_lt_zero _ hrank

/-- Every codeword is the codeword of a symbol. -/
theorem exists_codeOf : ∃ s h, codeOf s h = w := by
  have hrank := w.rank_lt
  rw [lenCount, if_neg w.len_ne_zero] at hrank
  obtain ⟨s, hs, hcount⟩ := exists_of_lt_count hrank
  have hlen : symLen lens s = w.len := by
    rw [symLen, List.getD_eq_getElem?_getD, hs, Option.getD_some]
  have hrankOf : symRank lens s = w.rank := by rw [symRank, hlen, hcount]
  exact ⟨s, hlen ▸ w.len_ne_zero, CodeWord.ext hlen hrankOf⟩

theorem len_lt {n : Nat} (hlens : ∀ l ∈ lens, l < n) : w.len < n := by
  have hrank := w.rank_lt
  rw [lenCount, if_neg w.len_ne_zero] at hrank
  exact hlens _ (List.count_pos_iff.mp (Nat.lt_of_le_of_lt (Nat.zero_le _) hrank))

end CodeWord

/-- The symbols with codewords that are shorter. -/
theorem shorter_lenCount (n : Nat) :
    shorter (lenCount lens) n = lens.countP fun l => decide (0 < l ∧ l < n) := by
  induction n with
  | zero => simp [shorter]
  | succ n ih =>
    rw [shorter, ih, lenCount]
    rcases Nat.eq_zero_or_pos n with rfl | hn
    · rw [if_pos rfl, Nat.add_zero]
      refine List.countP_congr fun l _ => ?_
      simp only [decide_eq_true_eq]
      omega
    · rw [if_neg (Nat.pos_iff_ne_zero.mp hn)]
      clear ih
      induction lens with
      | nil => rfl
      | cons x lens ih =>
        simp only [List.countP_cons, List.count_cons, decide_eq_true_eq, beq_iff_eq]
        split <;> split <;> split <;> omega

theorem shorter_le_length (n : Nat) : shorter (lenCount lens) n ≤ lens.length := by
  rw [shorter_lenCount]
  exact List.countP_le_length

/-- Only the lengths that occur have to be looked at. -/
theorem fits_iff {k : Nat} (hlens : ∀ l ∈ lens, l < k) :
    (∀ l < k, firstCode (lenCount lens) l + lenCount lens l ≤ 2 ^ l) ↔ Fits (lenCount lens) := by
  refine ⟨fun h l => ?_, fun h l _ => h l⟩
  induction l with
  | zero => simp [firstCode, lenCount]
  | succ l ih =>
    by_cases hl : l + 1 < k
    · exact h (l + 1) hl
    · have hnone : lenCount lens (l + 1) = 0 := by
        rw [lenCount, if_neg (Nat.succ_ne_zero l), List.count_eq_zero]
        exact fun hmem => hl (hlens _ hmem)
      rw [hnone, firstCode, Nat.pow_succ']
      omega

instance : Decidable (Fits (lenCount lens)) :=
  decidable_of_iff _ (fits_iff fun _ hl => Nat.lt_succ_of_le
    (List.le_max?_getD_of_mem hl : _ ≤ lens.max?.getD 0))

end Symbols

end Umka.Lib
