import Umka.Proof.Inflate.Sort

/-!
# `finalizeTable` hands out the codewords

The symbols are gone through in their order, so that the codewords count up. The table for the fast
path then has, for every value of ten bits, the codeword that these bits begin with, and the other
tables lead from a codeword to its place. If there are more codewords than there is room for, the
function fails, and it does not fail otherwise (`finalizeTable_ends`).
-/

set_option autoImplicit false

namespace Umka.Inflate

open Lib

/-- A symbol and the length of its codeword, for the fast path. -/
def fastEntry (sym len : Nat) : Nat := (sym &&& 0xffffff) ||| len <<< 24

/-! ## Slots -/

theorem reverseWord_eq :
    ∀ len ≤ nFastSymbolBits, ∀ word < 2 ^ len, reverseWord word len = ofBits
      (toBits len word).reverse := by
  decide +kernel

theorem fillSlots_ok (entry step : Nat) :
    ∀ (slots word : Nat) (fast : List Nat), (∀ k < slots, word + k * step < fast.length) →
      ∃ fast', fillSlots entry step slots word fast = .ok fast' ∧ fast'.length = fast.length ∧
        (∀ k < slots, fast'[word + k * step]? = some entry) ∧
        ∀ x, (∀ k < slots, x ≠ word + k * step) → fast'[x]? = fast[x]?
  | 0, _, fast, _ => ⟨fast, rfl, rfl, fun k hk => absurd hk (Nat.not_lt_zero k), fun _ _ => rfl⟩
  | slots + 1, word, fast, hroom => by
    have hword : word < fast.length := by simpa using hroom 0 (Nat.succ_pos _)
    have hshift : ∀ k, word + (k + 1) * step = word + step + k * step := fun k => by
      rw [Nat.succ_mul]
      omega
    obtain ⟨fast', hfill, hlength, hset, hother⟩ :=
      fillSlots_ok entry step slots (word + step) (fast.set word entry) fun k hk => by
        rw [List.length_set, ← hshift]
        exact hroom (k + 1) (Nat.succ_lt_succ hk)
    refine ⟨fast', ?_, by rw [hlength, List.length_set], ?_, ?_⟩
    · rw [fillSlots, store_of_lt _ _ hword, ok_bind, hfill]
    · intro k hk
      cases k with
      | succ k =>
        rw [hshift]
        exact hset k (Nat.lt_of_succ_lt_succ hk)
      | zero =>
        rw [Nat.zero_mul, Nat.add_zero]
        -- with a step of zero, the first slot is written once more
        by_cases hagain : ∃ k < slots, word = word + step + k * step
        · obtain ⟨k, hk, heq⟩ := hagain
          rw [heq]
          exact hset k hk
        · rw [hother word fun k hk heq => hagain ⟨k, hk, heq⟩, List.getElem?_set_self hword]
    · intro x hx
      have hne : word ≠ x := fun heq => hx 0 (Nat.succ_pos _) (by simp [heq])
      rw [hother x fun k hk => by rw [← hshift]; exact hx (k + 1) (Nat.succ_lt_succ hk),
        List.getElem?_set_ne hne]

/-! ## The codewords so far -/

section

variable {cnt : Nat → Nat}

/-- The slot `x` for the codewords before place `i`: empty, or for a codeword that the bits of `x`
    begin with. -/
def SlotRight (cnt : Nat → Nat) (rev : List Nat) (i x v : Nat) : Prop :=
  (v = 0 ∧ ∀ w : CodeWord cnt, w.index < i → w.len ≤ nFastSymbolBits →
    ¬ w.bits <+: toBits nFastSymbolBits x) ∨
  ∃ (w : CodeWord cnt) (sym : Nat), w.index < i ∧ w.len ≤ nFastSymbolBits ∧
    w.bits <+: toBits nFastSymbolBits x ∧ rev[w.index]? = some sym ∧ v = fastEntry sym w.len

structure Placed (cnt : Nat → Nat) (symbols : Nat) (rev : List Nat) (i : Nat) (b : Building) :
    Prop where
  length_codeLength : b.codeLength.length = symbols
  codeLength : ∀ w : CodeWord cnt, w.index < i → b.codeLength[w.index]? = some w.len
  length_fast : b.fastSymbol.length = 2 ^ nFastSymbolBits
  fast : ∀ x < 2 ^ nFastSymbolBits, ∃ v, b.fastSymbol[x]? = some v ∧ SlotRight cnt rev i x v
  fits : ∀ w : CodeWord cnt, w.index < i → w.value < 2 ^ w.len

variable {symbols : Nat} {rev : List Nat} {w w' : CodeWord cnt}

theorem index_lt_succ_iff : w'.index < w.index + 1 ↔ w'.index < w.index ∨ w' = w := by
  rw [Nat.lt_succ_iff_lt_or_eq]
  exact or_congr_right ⟨CodeWord.eq_of_index, fun h => by rw [h]⟩

theorem SlotRight.mono {x v : Nat} (h : SlotRight cnt rev w.index x v)
    (hnot : w.len ≤ nFastSymbolBits → ¬ w.bits <+: toBits nFastSymbolBits x) :
    SlotRight cnt rev (w.index + 1) x v := by
  rcases h with ⟨rfl, hnone⟩ | ⟨w', sym, hlt, hrest⟩
  · refine .inl ⟨rfl, fun w' hlt hlen => ?_⟩
    rcases index_lt_succ_iff.mp hlt with hbefore | rfl
    · exact hnone w' hbefore hlen
    · exact hnot hlen
  · exact .inr ⟨w', sym, Nat.lt_succ_of_lt hlt, hrest⟩

/-- The slots of a codeword are those whose bits begin with it. -/
theorem fillSlots_codeWord {sym : Nat} {fast : List Nat} (hlen : w.len ≤ nFastSymbolBits)
    (hvalue : w.value < 2 ^ w.len) (hsym : rev[w.index]? = some sym)
    (hfast : fast.length = 2 ^ nFastSymbolBits)
    (hright : ∀ x < 2 ^ nFastSymbolBits, ∃ v, fast[x]? = some v ∧ SlotRight cnt rev w.index x v) :
    ∃ fast', fillSlots (fastEntry sym w.len) (2 ^ w.len) (2 ^ (nFastSymbolBits - w.len))
        (reverseWord w.value w.len) fast = .ok fast' ∧
      fast'.length = 2 ^ nFastSymbolBits ∧
      ∀ x < 2 ^ nFastSymbolBits, ∃ v, fast'[x]? = some v ∧ SlotRight cnt rev (w.index + 1) x v := by
  have hword : reverseWord w.value w.len = ofBits w.bits := reverseWord_eq _ hlen _ hvalue
  have hbits : w.bits.length = w.len := CodeWord.length_bits
  have hlt : ofBits w.bits < 2 ^ w.len := by
    rw [← hbits]
    exact ofBits_lt w.bits
  have hpow : 2 ^ (nFastSymbolBits - w.len) * 2 ^ w.len = 2 ^ nFastSymbolBits := by
    rw [← Nat.pow_add, Nat.sub_add_cancel hlen]
  have hroom : ∀ k < 2 ^ (nFastSymbolBits - w.len),
      ofBits w.bits + k * 2 ^ w.len < fast.length := by
    intro k hk
    calc ofBits w.bits + k * 2 ^ w.len < 2 ^ w.len + k * 2 ^ w.len := Nat.add_lt_add_right hlt _
      _ = (k + 1) * 2 ^ w.len := by rw [Nat.succ_mul, Nat.add_comm]
      _ ≤ 2 ^ (nFastSymbolBits - w.len) * 2 ^ w.len := Nat.mul_le_mul_right _ hk
      _ = fast.length := by rw [hpow, hfast]
  obtain ⟨fast', hfill, hlength, hset, hother⟩ :=
    fillSlots_ok (fastEntry sym w.len) (2 ^ w.len) _ _ fast hroom
  refine ⟨fast', by rw [hword, hfill], hlength.trans hfast, fun x hx => ?_⟩
  have hprefix : w.bits <+: toBits nFastSymbolBits x ↔ x % 2 ^ w.len = ofBits w.bits := by
    have hiff : w.bits <+: toBits nFastSymbolBits x ↔ x % 2 ^ w.bits.length = ofBits w.bits :=
      isPrefix_toBits (by rw [hbits]; exact hlen)
    rwa [hbits] at hiff
  by_cases hmine : x % 2 ^ w.len = ofBits w.bits
  · refine ⟨fastEntry sym w.len, ?_,
      .inr ⟨w, sym, Nat.lt_succ_self _, hlen, hprefix.mpr hmine, hsym, rfl⟩⟩
    have hx' : ofBits w.bits + x / 2 ^ w.len * 2 ^ w.len = x := by
      rw [← hmine, Nat.mul_comm]
      exact Nat.mod_add_div x (2 ^ w.len)
    have hk : x / 2 ^ w.len < 2 ^ (nFastSymbolBits - w.len) := by
      rw [Nat.div_lt_iff_lt_mul (Nat.two_pow_pos _), hpow]
      exact hx
    rw [← hx']
    exact hset _ hk
  · obtain ⟨v, hv, hv'⟩ := hright x hx
    refine ⟨v, ?_, hv'.mono fun _ => hprefix.not.mpr hmine⟩
    rw [hother x fun k _ heq => hmine ?_, hv]
    rw [heq, Nat.add_mul_mod_self_right, Nat.mod_eq_of_lt hlt]

/-! ## One codeword -/

theorem placeCode_ends {d : HuffmanDecoder} {b : Building} (hd : d.symbols = symbols)
    (hrev : rev.length = symbols) (hindex : w.index < symbols) (hcode : b.codeWord = w.value)
    (h : Placed cnt symbols rev w.index b) :
    Ends (placeCode d rev w.len w.index b)
      (fun b' => Placed cnt symbols rev (w.index + 1) b' ∧ b'.codeWord = w.value + 1)
      (fun e => e = .failed ∧ ¬ Fits cnt) := by
  have hstore := store_of_lt Stop.fault (a := b.codeLength) w.len
    (by rw [h.length_codeLength]; exact hindex)
  rw [placeCode, hd, if_neg (Nat.not_le_of_lt hindex), hstore, ok_bind, hcode]
  by_cases hvalue : w.value < 2 ^ w.len
  · rw [if_neg (Nat.not_le_of_lt hvalue)]
    have hlengths : ∀ w' : CodeWord cnt, w'.index < w.index + 1 →
        (b.codeLength.set w.index w.len)[w'.index]? = some w'.len := by
      intro w' hlt
      rcases index_lt_succ_iff.mp hlt with hbefore | rfl
      · rw [List.getElem?_set_ne (Nat.ne_of_gt hbefore), h.codeLength w' hbefore]
      · rw [List.getElem?_set_self (by rw [h.length_codeLength]; exact hindex)]
    have hfits : ∀ w' : CodeWord cnt, w'.index < w.index + 1 → w'.value < 2 ^ w'.len := by
      intro w' hlt
      rcases index_lt_succ_iff.mp hlt with hbefore | rfl
      · exact h.fits w' hbefore
      · exact hvalue
    by_cases hlen : w.len ≤ nFastSymbolBits
    · obtain ⟨sym, hsym⟩ : ∃ sym, rev[w.index]? = some sym :=
        ⟨_, List.getElem?_eq_getElem (by rw [hrev]; exact hindex)⟩
      obtain ⟨fast', hfill, hlength, hright⟩ :=
        fillSlots_codeWord hlen hvalue hsym h.length_fast h.fast
      rw [fastEntry] at hfill
      rw [if_pos hlen, fetch_of_some hsym, ok_bind, hfill, ok_bind]
      exact ⟨⟨by rw [List.length_set, h.length_codeLength], hlengths, hlength, hright, hfits⟩, rfl⟩
    · rw [if_neg hlen, ok_bind]
      refine ⟨⟨by rw [List.length_set, h.length_codeLength], hlengths, h.length_fast, ?_, hfits⟩,
        rfl⟩
      intro x hx
      obtain ⟨v, hv, hv'⟩ := h.fast x hx
      exact ⟨v, hv, hv'.mono fun hle => absurd hle hlen⟩
  · rw [if_pos (Nat.le_of_not_lt hvalue)]
    exact ⟨rfl, fun hfits => hvalue (CodeWord.value_lt hfits)⟩

/-! ## All lengths -/

/-- `nStartIndex` for a length. -/
def startOf (cnt : Nat → Nat) (l : Nat) : Nat := (shorter cnt l + 2 ^ 32 - firstCode cnt l) % 2 ^ 32

structure Indexed (cnt : Nat → Nat) (len : Nat) (startIndex : List Nat) : Prop where
  length : startIndex.length = 16
  start : ∀ l, 1 ≤ l → l < len → startIndex[l]? = some (startOf cnt l)

/-- What `placeCodes` leaves when it has reached a length. -/
structure Reached (cnt : Nat → Nat) (symbols : Nat) (rev : List Nat) (len : Nat)
    (s : Nat × List Nat × Building) : Prop where
  place : s.1 = shorter cnt len
  indexed : Indexed cnt len s.2.1
  placed : Placed cnt symbols rev s.1 s.2.2

/-- The codewords of one length. -/
theorem placeLength_ends {d : HuffmanDecoder} {b : Building} {len : Nat} (hd : d.symbols = symbols)
    (hrev : rev.length = symbols) (hsymbols : shorter cnt (len + 1) ≤ symbols)
    (hcode : b.codeWord = firstCode cnt len) (h : Placed cnt symbols rev (shorter cnt len) b) :
    Ends (loop (placeCode d rev len) (shorter cnt len) (cnt len) b)
      (fun b' => Placed cnt symbols rev (shorter cnt (len + 1)) b' ∧
        b'.codeWord = firstCode cnt len + cnt len)
      (fun e => e = .failed ∧ ¬ Fits cnt) := by
  have hloop := loop_ends (placeCode d rev len) (i := shorter cnt len) (n := cnt len) (s := b)
    (I := fun j b => Placed cnt symbols rev j b ∧ b.codeWord
      = firstCode cnt len + (j - shorter cnt len))
    (E := fun e => e = .failed ∧ ¬ Fits cnt) ?_ ⟨h, by rw [hcode, Nat.sub_self, Nat.add_zero]⟩
  · rwa [Nat.add_sub_cancel_left] at hloop
  · intro j b hj hlt hb
    rw [shorter] at hsymbols
    let w : CodeWord cnt := ⟨len, j - shorter cnt len, by omega⟩
    have hw : w.index = j := Nat.add_sub_of_le hj
    have hstep := placeCode_ends (w := w) hd hrev (by omega) hb.2 (by rw [hw]; exact hb.1)
    rw [hw] at hstep
    refine hstep.imp (fun b' hb' => ⟨hb'.1, ?_⟩) fun _ he => he
    rw [hb'.2, CodeWord.value]
    show firstCode cnt len + (j - shorter cnt len) + 1 = _
    omega

theorem placeCodes_ends {d : HuffmanDecoder} (hd : d.symbols = symbols)
    (hrev : rev.length = symbols) (hnum : d.numSorted = shorter cnt 16)
    (hsymbols : shorter cnt 16 ≤ symbols)
    (hstarting : ∀ l, 1 ≤ l → l < 16 → d.startingPos[l]? = some (shorter cnt (l + 1))) :
    ∀ (fuel : Nat) {len : Nat} {startIndex : List Nat} {b : Building}, 1 ≤ len → len ≤ 16 →
      18 ≤ fuel + len → b.codeWord = firstCode cnt len →
      Reached cnt symbols rev len (shorter cnt len, startIndex, b) →
      Ends (placeCodes d rev fuel len (shorter cnt len) (startIndex, b))
        (fun s => ∃ len' ≤ 16, d.numSorted ≤ s.1 ∧ Reached cnt symbols rev len' s)
        (fun e => e = .failed ∧ ¬ Fits cnt)
  | 0, len, _, _, _, hle, hfuel, _, _ => absurd hfuel (by omega)
  | fuel + 1, len, startIndex, b, hone, hle, hfuel, hcode, h => by
    rw [placeCodes]
    by_cases hmore : shorter cnt len < d.numSorted
    · have hlt : len < 16 := by
        by_contra hge
        have hlen : len = 16 := by omega
        rw [hnum, hlen] at hmore
        exact Nat.lt_irrefl _ hmore
      have hstep : shorter cnt (len + 1) ≤ symbols := Nat.le_trans (shorter_mono hlt) hsymbols
      have hcount : shorter cnt (len + 1) - shorter cnt len = cnt len :=
        Nat.add_sub_cancel_left _ _
      have hnext : shorter cnt len + cnt len = shorter cnt (len + 1) := rfl
      rw [if_pos hmore, if_neg (by omega), store_of_lt _ _ (by rw [h.indexed.length]; exact hlt),
        ok_bind, fetch_of_some (hstarting len hone hlt), ok_bind, hcount, hnext]
      refine (placeLength_ends hd hrev hstep hcode h.placed).bind fun b' hb' => ?_
      refine placeCodes_ends hd hrev hnum hsymbols hstarting fuel (by omega) (by omega)
        (by omega) ?_ ⟨rfl, ⟨by rw [List.length_set, h.indexed.length], ?_⟩, ?_⟩
      · rw [firstCode]
        show b'.codeWord * 2 = _
        rw [hb'.2, Nat.mul_comm]
      · intro l hl hlast
        by_cases heq : len = l
        · subst heq
          rw [List.getElem?_set_self (by rw [h.indexed.length]; exact hlt), hcode, startOf]
        · rw [List.getElem?_set_ne heq, h.indexed.start l hl (by omega)]
      · exact ⟨hb'.1.length_codeLength, hb'.1.codeLength, hb'.1.length_fast, hb'.1.fast, hb'.1.fits⟩
    · rw [if_neg hmore]
      exact ⟨len, hle, Nat.le_of_not_lt hmore, h⟩

end

/-! ## The rest of the tables -/

structure Cleared (i : Nat) (t₀ : RevSymbolTable) (j : Nat) (t : RevSymbolTable) : Prop where
  length_symbol : t.symbol.length = t₀.symbol.length
  length_codeLength : t.codeLength.length = t₀.codeLength.length
  symbol : ∀ x < i, t.symbol[x]? = t₀.symbol[x]?
  codeLength : ∀ x < i, t.codeLength[x]? = t₀.codeLength[x]?
  cleared : ∀ x, i ≤ x → x < j → t.codeLength[x]? = some 0

theorem clearSymbols {i : Nat} {t : RevSymbolTable}
    (hlength : t.codeLength.length = t.symbol.length) (hi : i ≤ t.symbol.length) :
    ∃ t', loop clearSymbol i (t.symbol.length - i) t = .ok t' ∧ Cleared i t t.symbol.length t' := by
  have hinit : Cleared i t i t :=
    ⟨rfl, rfl, fun _ _ => rfl, fun _ _ => rfl, fun x hle hlt => absurd hle (Nat.not_le_of_lt hlt)⟩
  have hloop := loop_ok clearSymbol (i := i) (n := t.symbol.length - i)
    (fun j u hj hlt hu => ?_) hinit
  · rwa [Nat.add_sub_of_le hi] at hloop
  · have hsymbol : j < u.symbol.length := by
      rw [hu.length_symbol]
      omega
    have hcode : j < u.codeLength.length := by
      rw [hu.length_codeLength, hlength]
      omega
    refine ⟨⟨u.symbol.set j unset, u.codeLength.set j 0⟩, ?_, ?_, ?_, ?_, ?_, ?_⟩
    · rw [clearSymbol, store_of_lt _ _ hsymbol, ok_bind, store_of_lt _ _ hcode, ok_bind]
    · rw [List.length_set, hu.length_symbol]
    · rw [List.length_set, hu.length_codeLength]
    · exact fun x hx => by rw [List.getElem?_set_ne (by omega), hu.symbol x hx]
    · exact fun x hx => by rw [List.getElem?_set_ne (by omega), hu.codeLength x hx]
    · intro x hle hlt
      by_cases heq : j = x
      · subst heq
        rw [List.getElem?_set_self hcode]
      · rw [List.getElem?_set_ne heq, hu.cleared x hle (by omega)]

/-! ## The tables -/

/-- The tables decode the code with these lengths, and `val` is what stands in them for a symbol. -/
structure Decoder (lens : List Nat) (val : Nat → Nat) (d : HuffmanDecoder) (t : RevSymbolTable) :
    Prop where
  lens_lt : ∀ l ∈ lens, l < 16
  val_lt : ∀ s < lens.length, val s < 2 ^ 24
  symbols_le : d.symbols ≤ maxSymbols
  fits : Fits (lenCount lens)
  fast : ∀ x < 2 ^ nFastSymbolBits, ∃ v, d.fastSymbol[x]? = some v ∧
    ((v = 0 ∧ ∀ w : CodeWord (lenCount lens), w.len ≤ nFastSymbolBits →
      ¬ w.bits <+: toBits nFastSymbolBits x) ∨
    ∃ s, ∃ h : symLen lens s ≠ 0, (codeOf s h).len ≤ nFastSymbolBits ∧
      (codeOf s h).bits <+: toBits nFastSymbolBits x ∧ v = fastEntry (val s) (codeOf s h).len)
  length_startIndex : d.startIndex.length = 16
  startIndex : ∀ w : CodeWord (lenCount lens), d.startIndex[w.len]?
    = some (startOf (lenCount lens) w.len)
  length_codeLength : t.codeLength.length = d.symbols
  codeLength : ∀ w : CodeWord (lenCount lens), t.codeLength[w.index]? = some w.len
  codeWord : ∀ i l, t.codeLength[i]? = some l → l ≠ 0 →
    ∃ w : CodeWord (lenCount lens), w.index = i ∧ w.len = l
  symbol : ∀ s (h : symLen lens s ≠ 0), t.symbol[(codeOf s h).index]? = some (val s)

variable {lens : List Nat} {symbols : Nat} {val : Nat → Nat} {d : HuffmanDecoder} {rev : List Nat}

theorem decoder_of_reached {i len : Nat} {startIndex : List Nat} {b : Building} {t : RevSymbolTable}
    (hlens : ∀ l ∈ lens, l < 16) (hval : ∀ s < lens.length, val s < 2 ^ 24)
    (hmax : symbols ≤ maxSymbols) (h : Sorted lens symbols val d rev)
    (hreached : Reached (lenCount lens) symbols rev len (i, startIndex, b))
    (hi : i = shorter (lenCount lens) 16) (ht : Cleared i ⟨rev, b.codeLength⟩ rev.length t) :
    Decoder lens val { d with fastSymbol := b.fastSymbol, startIndex := startIndex } t := by
  have hbefore : ∀ w : CodeWord (lenCount lens), w.index < i := fun w => by
    rw [hi]
    exact Nat.lt_of_lt_of_le CodeWord.index_lt (shorter_mono (w.len_lt hlens))
  have hlength : t.codeLength.length = symbols :=
    ht.length_codeLength.trans hreached.placed.length_codeLength
  have hcodeLength : ∀ w : CodeWord (lenCount lens), t.codeLength[w.index]? = some w.len :=
    fun w => by
    rw [ht.codeLength _ (hbefore w)]
    exact hreached.placed.codeLength w (hbefore w)
  refine ⟨hlens, hval, by rw [h.symbols_eq]; exact hmax, ?_, ?_, hreached.indexed.length, ?_,
    hlength.trans h.symbols_eq.symm, hcodeLength, ?_, ?_⟩
  · exact fits_of_value_lt (fun w => hreached.placed.fits w (hbefore w)) rfl
  · intro x hx
    obtain ⟨v, hv, hright⟩ := hreached.placed.fast x hx
    refine ⟨v, hv, ?_⟩
    rcases hright with ⟨rfl, hempty⟩ | ⟨w, sym, -, hshort, hprefix, hsym, rfl⟩
    · exact .inl ⟨rfl, fun w => hempty w (hbefore w)⟩
    · obtain ⟨s, hs, rfl⟩ := w.exists_codeOf
      rw [h.symbol s hs, Option.some_inj] at hsym
      exact .inr ⟨s, hs, hshort, hprefix, by rw [hsym]⟩
  · intro w
    have hplace : i = shorter (lenCount lens) len := hreached.place
    have hwlen : w.len < len := CodeWord.len_lt_of_index_lt (by rw [← hplace]; exact hbefore w)
    exact hreached.indexed.start w.len (Nat.one_le_iff_ne_zero.mpr w.len_ne_zero) hwlen
  · intro j l hj hl
    -- the places from `i` on have been cleared
    have hlt : j < i := by
      by_contra hge
      obtain ⟨hin, -⟩ := List.getElem?_eq_some_iff.mp hj
      have hcleared := ht.cleared j (Nat.le_of_not_lt hge)
        (by rw [h.length_rev, ← hlength]; exact hin)
      rw [hj, Option.some_inj] at hcleared
      exact hl hcleared
    rw [hi] at hlt
    obtain ⟨w, rfl⟩ := CodeWord.exists_index hlt
    rw [hcodeLength w, Option.some_inj] at hj
    exact ⟨w, rfl, hj⟩
  · intro s hs
    rw [ht.symbol _ (hbefore (codeOf s hs))]
    exact h.symbol s hs

/-- **`finalizeTable` makes the tables of the code**, and fails exactly if there is no room for
    it. -/
theorem finalizeTable_ends (hlens : ∀ l ∈ lens, l < 16) (hsymbols : lens.length ≤ symbols)
    (hmax : symbols ≤ maxSymbols) (hval : ∀ s < lens.length, val s < 2 ^ 24)
    (h : Sorted lens symbols val d rev) :
    Ends (finalizeTable d rev) (fun s => Decoder lens val s.1 s.2)
      (fun e => e = .failed ∧ ¬ Fits (lenCount lens)) := by
  have hroom : shorter (lenCount lens) 16 ≤ symbols := Nat.le_trans (shorter_le_length 16) hsymbols
  have hone : shorter (lenCount lens) 1 = 0 := by simp [shorter, lenCount]
  have hnone : ∀ w : CodeWord (lenCount lens), ¬ w.index < 0 := fun w => Nat.not_lt_zero _
  have hstart : Reached (lenCount lens) symbols rev 1
      (shorter (lenCount lens) 1, List.replicate 16 0,
        ⟨List.replicate (2 ^ nFastSymbolBits) 0, 0, List.replicate d.symbols 0⟩) := by
    rw [hone]
    refine ⟨hone.symm, ⟨rfl, fun l hl hlt => absurd hl (by omega)⟩, ?_,
      fun w hw => absurd hw (hnone w), List.length_replicate, fun x hx => ?_, fun w hw =>
        absurd hw (hnone w)⟩
    · rw [List.length_replicate, h.symbols_eq]
    · exact ⟨0, List.getElem?_replicate_of_lt hx, .inl ⟨rfl, fun w hw => absurd hw (hnone w)⟩⟩
  have hplace := placeCodes_ends h.symbols_eq h.length_rev h.numSorted hroom h.startingPos
    17 (Nat.le_refl 1) (by decide) (by decide) (by simp [firstCode, lenCount]) hstart
  rw [hone] at hplace
  rw [finalizeTable]
  refine hplace.bind fun s hs => ?_
  obtain ⟨i, startIndex, b⟩ := s
  obtain ⟨len, hlen, hdone, hreached⟩ := hs
  have hi : i = shorter (lenCount lens) 16 := by
    have hle : i ≤ shorter (lenCount lens) 16 :=
      calc i = shorter (lenCount lens) len := hreached.place
        _ ≤ shorter (lenCount lens) 16 := shorter_mono hlen
    rw [h.numSorted] at hdone
    exact Nat.le_antisymm hle hdone
  obtain ⟨t, hclear, ht⟩ := clearSymbols (i := i) (t := ⟨rev, b.codeLength⟩)
    (by rw [hreached.placed.length_codeLength, h.length_rev])
      (by rw [h.length_rev, hi]; exact hroom)
  rw [h.length_rev, ← h.symbols_eq] at hclear
  show Ends (loop clearSymbol i (d.symbols - i) ⟨rev, b.codeLength⟩ >>= _) _ _
  rw [hclear, ok_bind, ends_ok]
  exact decoder_of_reached hlens hval hmax h hreached hi ht

end Umka.Inflate
