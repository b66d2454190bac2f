import Umka.Proof.Inflate.BitReader
import Umka.Proof.Inflate.Codes

/-!
# `readValue` reads a codeword

With the tables of a code, the sixteen bits that are looked at begin with one codeword at most. If
there is one, its symbol is the value, on the fast path and on the slow one (`readValue_found`); if
there is none, the value is -1 (`readValue_none`).
-/

set_option autoImplicit false

namespace Umka.Inflate

open Lib

variable {lens : List Nat} {val : Nat → Nat} {d : HuffmanDecoder} {t : RevSymbolTable}

/-! ## The slow path -/

theorem ofMsb_take_succ (p : Nat) {j : Nat} (hj : j < 16) :
    ofMsb ((toBits 16 p).take (j + 1)) = 2 * ofMsb ((toBits 16 p).take j) + p / 2 ^ j % 2 := by
  have hget := getElem?_toBits (n := p) hj
  obtain ⟨hlt, hbit⟩ := List.getElem?_eq_some_iff.mp hget
  rw [List.take_succ_eq_append_getElem hlt, ofMsb_concat, hbit, toNat_mod_two]

theorem two_mul_or (x b : Nat) (hb : b < 2) : 2 * x ||| b = 2 * x + b := by
  have := Nat.shiftLeft_add_eq_or_of_lt (i := 1) (b := b) (by simpa using hb) x
  rw [Nat.shiftLeft_eq, Nat.pow_one, Nat.mul_comm] at this
  exact this.symm

/-- Where the first `j` bits lead if they are taken for a codeword. -/
def tableIndex (lens : List Nat) (p j : Nat) : Nat :=
  (startOf (lenCount lens) j + ofMsb ((toBits 16 p).take j)) % 2 ^ 32

theorem ofMsb_take_lt (p j : Nat) (hj : j ≤ 16) : ofMsb ((toBits 16 p).take j) < 2 ^ 16 := by
  have hlt := ofBits_lt ((toBits 16 p).take j).reverse
  rw [List.length_reverse, List.length_take, length_toBits, Nat.min_eq_left hj] at hlt
  exact Nat.lt_of_lt_of_le hlt (Nat.pow_le_pow_right (by decide) hj)

theorem Decoder.value_lt (D : Decoder lens val d t) (w : CodeWord (lenCount lens)) :
    w.value < 2 ^ 15 := by
  have hlen := w.len_lt D.lens_lt
  exact Nat.lt_of_lt_of_le (CodeWord.value_lt D.fits) (Nat.pow_le_pow_right (by decide) (by omega))

theorem Decoder.index_lt (D : Decoder lens val d t) (w : CodeWord (lenCount lens)) :
    w.index < d.symbols := by
  obtain ⟨hlt, -⟩ := List.getElem?_eq_some_iff.mp (D.codeLength w)
  rwa [D.length_codeLength] at hlt

/-- A codeword leads to its place, and no other bits do. -/
theorem tableIndex_eq_iff (D : Decoder lens val d t) (p : Nat) (w : CodeWord (lenCount lens)) :
    tableIndex lens p w.len = w.index ↔ w.bits <+: toBits 16 p := by
  have hlen : w.len < 16 := w.len_lt D.lens_lt
  have hcode := ofMsb_take_lt p w.len (Nat.le_of_lt hlen)
  have hvalue := D.value_lt w
  have hindex := D.index_lt w
  have hmax : d.symbols ≤ 288 := D.symbols_le
  have htake : ((toBits 16 p).take w.len).length = w.len := by
    rw [List.length_take, length_toBits, Nat.min_eq_left (Nat.le_of_lt hlen)]
  have hsame : w.bits <+: toBits 16 p ↔ ofMsb ((toBits 16 p).take w.len) = w.value := by
    rw [List.prefix_iff_eq_take, CodeWord.length_bits]
    exact ⟨fun h => by rw [← h, CodeWord.ofMsb_bits D.fits], CodeWord.bits_eq_of_ofMsb htake⟩
  rw [hsame, tableIndex, startOf]
  rw [CodeWord.value] at hvalue ⊢
  rw [CodeWord.index] at hindex ⊢
  omega

/-- One round of the slow path. -/
theorem findCode_succ {left j p : Nat} (hj : j < 15) :
    findCode d t (left + 1) (j + 1) (p / 2 ^ j) (2 * ofMsb ((toBits 16 p).take j)) = (do
      let start ← fetch .fault d.startIndex (j + 1)
      let index := (start + ofMsb ((toBits 16 p).take (j + 1))) % 2 ^ 32
      let len ← codeLengthAt d t index
      if j + 1 = len then do
        let sym ← fetch .fault t.symbol index
        .ok (some (sym, j + 1))
      else
        findCode d t left (j + 2) (p / 2 ^ (j + 1)) (2 * ofMsb ((toBits 16 p).take (j + 1)))) := by
  have hbit : p / 2 ^ j &&& 1 = p / 2 ^ j % 2 := Nat.and_one_is_mod _
  have hcode : 2 * ofMsb ((toBits 16 p).take j) ||| (p / 2 ^ j &&& 1)
      = ofMsb ((toBits 16 p).take (j + 1)) := by
    rw [hbit, two_mul_or _ _ (Nat.mod_lt _ (by decide)), ofMsb_take_succ p (by omega)]
  have hstream : (p / 2 ^ j) >>> 1 = p / 2 ^ (j + 1) := by
    rw [Nat.shiftRight_eq_div_pow, Nat.div_div_eq_div_mul, ← Nat.pow_add]
  have hnext : ofMsb ((toBits 16 p).take (j + 1)) <<< 1
      = 2 * ofMsb ((toBits 16 p).take (j + 1)) := by
    rw [Nat.shiftLeft_eq, Nat.pow_one, Nat.mul_comm]
  rw [findCode, hcode, hstream, hnext]

theorem codeLengthAt_ok (D : Decoder lens val d t) (i : Nat) :
    ∃ len, codeLengthAt d t i = .ok len ∧ (len ≠ 0 → t.codeLength[i]? = some len) := by
  by_cases hi : i < d.symbols
  · obtain ⟨len, hlen⟩ : ∃ len, t.codeLength[i]? = some len :=
      ⟨_, List.getElem?_eq_getElem (by rw [D.length_codeLength]; exact hi)⟩
    exact ⟨len, by rw [codeLengthAt, if_pos hi, fetch_of_some hlen], fun _ => hlen⟩
  · exact ⟨0, if_neg hi, fun h => absurd rfl h⟩

/-- A round that finds something has found a codeword. -/
theorem prefix_of_codeLength (D : Decoder lens val d t) {p l start : Nat}
    (hstart : d.startIndex[l]? = some start) (hl : l ≠ 0)
    (hlen : t.codeLength[(start + ofMsb ((toBits 16 p).take l)) % 2 ^ 32]? = some l) :
    ∃ w : CodeWord (lenCount lens), w.len = l ∧ w.bits <+: toBits 16 p ∧
      w.index = (start + ofMsb ((toBits 16 p).take l)) % 2 ^ 32 := by
  obtain ⟨w, hindex, rfl⟩ := D.codeWord _ _ hlen hl
  rw [D.startIndex w, Option.some_inj] at hstart
  subst hstart
  exact ⟨w, rfl, (tableIndex_eq_iff D p w).mp hindex.symm, hindex⟩

/-- **The slow path finds the codeword**, if it is not shorter than the bits already gone
    through. -/
theorem findCode_found (D : Decoder lens val d t) {p s : Nat} (h : symLen lens s ≠ 0)
    (hpre : (codeOf s h).bits <+: toBits 16 p) :
    ∀ {left j : Nat}, left + j = 15 → j < symLen lens s →
      findCode d t left (j + 1) (p / 2 ^ j) (2 * ofMsb ((toBits 16 p).take j)) =
        .ok (some (val s, symLen lens s))
  | 0, j, hleft, hj => by
    have hlt : (codeOf s h).len < 16 := (codeOf s h).len_lt D.lens_lt
    have hlen : (codeOf s h).len = symLen lens s := rfl
    omega
  | left + 1, j, hleft, hj => by
    rw [findCode_succ (by omega)]
    obtain ⟨start, hstart⟩ : ∃ start, d.startIndex[j + 1]? = some start :=
      ⟨_, List.getElem?_eq_getElem (by rw [D.length_startIndex]; omega)⟩
    obtain ⟨len, hfetch, hlen⟩ := codeLengthAt_ok D
      ((start + ofMsb ((toBits 16 p).take (j + 1))) % 2 ^ 32)
    rw [fetch_of_some hstart, ok_bind]
    dsimp only
    rw [hfetch, ok_bind]
    by_cases hfound : j + 1 = len
    · -- what is found is a codeword that the bits begin with, and there is only one
      subst hfound
      obtain ⟨w, hwlen, hwpre, hwindex⟩ := prefix_of_codeLength D hstart (Nat.succ_ne_zero j)
        (hlen (Nat.succ_ne_zero j))
      obtain rfl := CodeWord.eq_of_prefix D.fits hwpre hpre
      have hlenS : symLen lens s = j + 1 := hwlen
      rw [if_pos rfl, ← hwindex, fetch_of_some (D.symbol s h), ok_bind, hlenS]
    · -- the codeword is longer than this
      have hlonger : j + 1 < symLen lens s := by
        rcases Nat.lt_or_eq_of_le hj with hlt | heq
        · exact hlt
        · exfalso
          apply hfound
          have hl : (codeOf s h).len = j + 1 := heq.symm
          have hstart' := D.startIndex (codeOf s h)
          rw [hl, hstart, Option.some_inj] at hstart'
          have hindex := (tableIndex_eq_iff D p (codeOf s h)).mpr hpre
          rw [tableIndex, hl, ← hstart'] at hindex
          rw [hindex, codeLengthAt, if_pos (D.index_lt _), fetch_of_some (D.codeLength _)] at hfetch
          exact hl.symm.trans (Except.ok.inj hfetch)
      rw [if_neg hfound]
      exact findCode_found D h hpre (by omega) hlonger

/-- And otherwise it finds nothing. -/
theorem findCode_none (D : Decoder lens val d t) {p : Nat}
    (hnone : ∀ w : CodeWord (lenCount lens), ¬ w.bits <+: toBits 16 p) :
    ∀ {left j : Nat}, left + j = 15 →
      findCode d t left (j + 1) (p / 2 ^ j) (2 * ofMsb ((toBits 16 p).take j)) = .ok none
  | 0, _, _ => by rw [findCode]
  | left + 1, j, hleft => by
    rw [findCode_succ (by omega)]
    obtain ⟨start, hstart⟩ : ∃ start, d.startIndex[j + 1]? = some start :=
      ⟨_, List.getElem?_eq_getElem (by rw [D.length_startIndex]; omega)⟩
    obtain ⟨len, hfetch, hlen⟩ := codeLengthAt_ok D
      ((start + ofMsb ((toBits 16 p).take (j + 1))) % 2 ^ 32)
    rw [fetch_of_some hstart, ok_bind]
    dsimp only
    rw [hfetch, ok_bind]
    have hfound : j + 1 ≠ len := by
      intro heq
      subst heq
      obtain ⟨w, -, hwpre, -⟩ := prefix_of_codeLength D hstart (Nat.succ_ne_zero j)
        (hlen (Nat.succ_ne_zero j))
      exact hnone w hwpre
    rw [if_neg hfound]
    exact findCode_none D hnone (by omega)

/-! ## The fast path -/

theorem fastEntry_eq {sym : Nat} (hsym : sym < 2 ^ 24) (len : Nat) :
    fastEntry sym len = len * 2 ^ 24 + sym := by
  have hmask : sym &&& 0xffffff = sym := by
    rw [show (0xffffff : Nat) = 2 ^ 24 - 1 from rfl, Nat.and_two_pow_sub_one_eq_mod,
      Nat.mod_eq_of_lt hsym]
  rw [fastEntry, hmask, Nat.or_comm, ← Nat.shiftLeft_add_eq_or_of_lt hsym, Nat.shiftLeft_eq]

theorem fastEntry_shift {sym : Nat} (hsym : sym < 2 ^ 24) (len : Nat) :
    fastEntry sym len >>> 24 = len := by
  rw [fastEntry_eq hsym, Nat.shiftRight_eq_div_pow, Nat.mul_comm,
    Nat.mul_add_div (Nat.two_pow_pos 24), Nat.div_eq_of_lt hsym, Nat.add_zero]

theorem fastEntry_mask {sym : Nat} (hsym : sym < 2 ^ 24) (len : Nat) :
    fastEntry sym len &&& 0xffffff = sym := by
  rw [fastEntry_eq hsym, show (0xffffff : Nat) = 2 ^ 24 - 1 from rfl,
    Nat.and_two_pow_sub_one_eq_mod, Nat.mul_comm, Nat.mul_add_mod, Nat.mod_eq_of_lt hsym]

/-- The ten bits that the fast path looks at are the first of the sixteen. -/
theorem prefix_fast_iff {p : Nat} {w : CodeWord (lenCount lens)} (hw : w.len ≤ nFastSymbolBits) :
    w.bits <+: toBits nFastSymbolBits (p &&& (2 ^ nFastSymbolBits - 1)) ↔
      w.bits <+: toBits 16 p := by
  have hlen : w.bits.length = w.len := CodeWord.length_bits
  have h16 : nFastSymbolBits ≤ 16 := by decide
  rw [isPrefix_toBits (by omega), isPrefix_toBits (by omega), Nat.and_two_pow_sub_one_eq_mod, hlen,
    Nat.mod_mod_of_dvd _ (Nat.pow_dvd_pow 2 hw)]

variable {r r' : BitReader} {p : Nat}

theorem readValue_eq (hpeek : r.peek16bits = .ok (p, r')) {fast : Nat}
    (hfast : d.fastSymbol[p &&& (2 ^ nFastSymbolBits - 1)]? = some fast) :
    readValue d t r =
      if fast ≠ 0 then r'.consumeBits (fast >>> 24) >>= fun r => .ok (fast &&& 0xffffff, r)
      else readSlow d t p r' := by
  rw [readValue, hpeek, ok_bind]
  dsimp only
  rw [fetch_of_some hfast, ok_bind]

theorem findCode_start (p : Nat) :
    findCode d t 15 1 p 0 =
      findCode d t 15 (0 + 1) (p / 2 ^ 0) (2 * ofMsb ((toBits 16 p).take 0)) := by
  rw [Nat.pow_zero, Nat.div_one, List.take_zero]
  rfl

/-- **The value is the symbol** whose codeword comes next. -/
theorem readValue_found (D : Decoder lens val d t) {s : Nat} (h : symLen lens s ≠ 0)
    (hpeek : r.peek16bits = .ok (p, r')) (hpre : (codeOf s h).bits <+: toBits 16 p) :
    readValue d t r = r'.consumeBits (symLen lens s) >>= fun r => .ok (val s, r) := by
  have hslot : p &&& (2 ^ nFastSymbolBits - 1) < 2 ^ nFastSymbolBits := by
    rw [Nat.and_two_pow_sub_one_eq_mod]
    exact Nat.mod_lt _ (Nat.two_pow_pos _)
  obtain ⟨v, hv, hright⟩ := D.fast _ hslot
  rw [readValue_eq hpeek hv]
  rcases hright with ⟨rfl, -⟩ | ⟨s', h', hshort, hprefix, rfl⟩
  · have hfind := findCode_found D h hpre (show 15 + 0 = 15 from rfl) (Nat.pos_of_ne_zero h)
    rw [if_neg (by simp), readSlow, findCode_start, hfind, ok_bind]
  · -- the slot is of a codeword that the bits begin with, and there is only one
    obtain rfl :=
      codeOf_inj (CodeWord.eq_of_prefix D.fits ((prefix_fast_iff hshort).mp hprefix) hpre)
    have hval := D.val_lt s' (lt_of_symLen h')
    have hne : fastEntry (val s') (codeOf s' h').len ≠ 0 := by
      rw [fastEntry_eq hval]
      have hpos : 0 < (codeOf s' h').len := Nat.pos_of_ne_zero h'
      omega
    rw [if_pos hne, fastEntry_shift hval, fastEntry_mask hval]
    rfl

theorem readValue_none (D : Decoder lens val d t) (hpeek : r.peek16bits = .ok (p, r'))
    (hnone : ∀ w : CodeWord (lenCount lens), ¬ w.bits <+: toBits 16 p) :
    readValue d t r = .ok (unset, r') := by
  have hslot : p &&& (2 ^ nFastSymbolBits - 1) < 2 ^ nFastSymbolBits := by
    rw [Nat.and_two_pow_sub_one_eq_mod]
    exact Nat.mod_lt _ (Nat.two_pow_pos _)
  obtain ⟨v, hv, hright⟩ := D.fast _ hslot
  rw [readValue_eq hpeek hv]
  rcases hright with ⟨rfl, -⟩ | ⟨s, h, hshort, hprefix, rfl⟩
  · rw [if_neg (by simp), readSlow, findCode_start,
      findCode_none D hnone (show 15 + 0 = 15 from rfl), ok_bind]
  · exact absurd ((prefix_fast_iff hshort).mp hprefix) (hnone _)

/-- **A codeword in the stream is read as its symbol**, and the reader goes on behind it. -/
theorem readValue_reads (D : Decoder lens val d t) {s : Nat} (h : symLen lens s ≠ 0)
    {rest : List Bool} (hr : r.Reads (symBits lens s ++ rest)) :
    ∃ r', readValue d t r = .ok (val s, r') ∧ r'.block = r.block ∧ r'.Reads rest := by
  have hlen : (symBits lens s).length = symLen lens s := (codeOf s h).length_bits
  have hlt : symLen lens s < 16 := (codeOf s h).len_lt D.lens_lt
  obtain ⟨r₁, hpeek, hblock, hpeeked⟩ := hr.peek16bits
  -- the sixteen bits begin with the codeword, also if there are not so many
  have hpre : (codeOf s h).bits <+: toBits 16 (ofBits ((symBits lens s ++ rest).take 16)) := by
    rw [isPrefix_toBits (by rw [CodeWord.length_bits]; exact Nat.le_of_lt hlt),
      CodeWord.length_bits]
    have htake : ((symBits lens s ++ rest).take 16).take (codeOf s h).len = (codeOf s h).bits := by
      have hmin : min (codeOf s h).len 16 = (symBits lens s).length := by
        rw [hlen]
        exact Nat.min_eq_left (Nat.le_of_lt hlt)
      rw [List.take_take, hmin, bits_codeOf, List.take_left]
    rw [← ofBits_take, htake]
  obtain ⟨r₂, hconsume, hblock₂, hreads⟩ := hpeeked.consumeBits (n := symLen lens s) (by omega)
    (by rw [List.length_append]; omega)
  refine ⟨r₂, ?_, hblock₂.trans hblock, ?_⟩
  · rw [readValue_found D h hpeek hpre, hconsume, ok_bind]
  · rwa [List.drop_left' hlen] at hreads

/-! ## Any code -/

/-- **The tables of any code decode it.** There are none exactly if the code has no room; otherwise
    every codeword is read as its symbol, and bits that no codeword begins are read as -1. -/
theorem huffman_tables {symbols : Nat} (hlens : ∀ l ∈ lens, l < 16)
    (hsymbols : lens.length ≤ symbols) (hmax : symbols ≤ maxSymbols) :
    ∃ d rev, prepareTable lens.length symbols lens = .ok (d, rev) ∧
      (¬ Fits (lenCount lens) → finalizeTable d rev = .error .failed) ∧
      (Fits (lenCount lens) → ∃ d' t, finalizeTable d rev = .ok (d', t) ∧
        (∀ s r rest, symLen lens s ≠ 0 → r.Reads (symBits lens s ++ rest) →
          ∃ r', readValue d' t r = .ok (s, r') ∧ r'.block = r.block ∧ r'.Reads rest) ∧
        ∀ r r' p, r.peek16bits = .ok (p, r') →
          (∀ s, symLen lens s ≠ 0 → ¬ symBits lens s <+: toBits 16 p) →
          readValue d' t r = .ok (unset, r')) := by
  obtain ⟨d, rev, hprepare, hsorted⟩ := prepareTable_sorted symbols (List.prefix_refl lens) hlens
    hsymbols hmax
  have hval : ∀ s < lens.length, id s < 2 ^ 24 := fun s hs => by
    have hsmall : maxSymbols < 2 ^ 24 := by decide
    exact Nat.lt_trans (Nat.lt_of_lt_of_le hs (Nat.le_trans hsymbols hmax)) hsmall
  have hends := finalizeTable_ends hlens hsymbols hmax hval hsorted
  refine ⟨d, rev, hprepare, fun hnot => ?_, fun hfits => ?_⟩
  · cases hfinal : finalizeTable d rev with
    | error e =>
      rw [hfinal] at hends
      rw [hends.1]
    | ok s =>
      rw [hfinal] at hends
      exact absurd hends.fits hnot
  · obtain ⟨⟨d', t⟩, hfinal, D⟩ := hends.exists_ok fun e he => he.2 hfits
    refine ⟨d', t, hfinal, fun s r rest hs hr => readValue_reads D hs hr,
      fun r r' p hpeek hnone => ?_⟩
    refine readValue_none D hpeek fun w hw => ?_
    obtain ⟨s, hs, rfl⟩ := w.exists_codeOf
    exact hnone s hs hw

/-- Three codewords of two bits, `00`, `01` and `10`: the second one is read, and `11` is not. -/
theorem huffman_tables_three : ∃ d rev d' t,
    prepareTable 3 3 [2, 2, 2] = .ok (d, rev) ∧ finalizeTable d rev = .ok (d', t) ∧
      (∃ r, readValue d' t (.init [0x02]) = .ok (1, r)) ∧
      ∃ r, readValue d' t (.init [0x03]) = .ok (unset, r) := by
  obtain ⟨d, rev, hprepare, -, hok⟩ := @huffman_tables [2, 2, 2] 3 (by decide) (by decide)
    (by decide)
  obtain ⟨d', t, hfinal, hread, hnone⟩ := hok (by decide)
  refine ⟨d, rev, d', t, hprepare, hfinal, ?_, ?_⟩
  · obtain ⟨r, hr, -⟩ := hread 1 (.init [0x02]) (List.replicate 6 false) (by decide)
      (BitReader.reads_init [0x02])
    exact ⟨r, hr⟩
  · refine ⟨_, hnone (.init [0x03]) ⟨16, 3, [0x03], 1⟩ 3 rfl fun s hs => ?_⟩
    have hlt : s < 3 := lt_of_symLen hs
    obtain rfl | rfl | rfl : s = 0 ∨ s = 1 ∨ s = 2 := by omega
    · decide
    · decide
    · decide

end Umka.Inflate
