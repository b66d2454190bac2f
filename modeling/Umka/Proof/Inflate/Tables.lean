import Umka.Proof.Inflate.Lengths

/-!
# The decoders of a block

`dynamicTables` reads the header of a block and sorts the symbols of its two codes, `staticTables`
does so for the fixed codes, and `finishTables` makes the tables, with the values that stand for
lengths and distances instead of their symbols.
-/

set_option autoImplicit false

namespace Umka.Inflate

open Lib Lib.Deflate

/-! ## Values for symbols -/

/-- What stands for a literal or a length in the table. -/
def literalValue (n : Nat) : Nat :=
  if nMatchLenSymStart ≤ n ∧ n < nLiteralSyms then
    if n - nMatchLenSymStart < nMatchLenSyms then matchlenCode.getD (n - nMatchLenSymStart) 0 else 0
  else n

/-- What stands for a distance. -/
def offsetValue (n : Nat) : Nat := if n < nOffsetSyms then offsetCode.getD n 0 else n

theorem fetch_getD {e : Stop} {a : List Nat} {i : Nat} (h : i < a.length) :
    fetch e a i = .ok (a.getD i 0) := by
  rw [fetch_of_lt _ h, List.getD_eq_getElem?_getD, List.getElem?_eq_getElem h, Option.getD_some]

theorem literalEntry_eq (n : Nat) : literalEntry n = .ok (literalValue n) := by
  unfold literalEntry literalValue
  split
  · split
    · exact fetch_getD (by assumption)
    · rfl
  · rfl

theorem offsetEntry_eq (n : Nat) : offsetEntry n = .ok (offsetValue n) := by
  unfold offsetEntry offsetValue
  split
  · exact fetch_getD (by assumption)
  · rfl

theorem literalValue_lt : ∀ n < nLiteralSyms, literalValue n < 2 ^ 24 := by decide +kernel

theorem offsetValue_lt : ∀ n < nOffsetSyms, offsetValue n < 2 ^ 24 := by decide +kernel

theorem replaceSymbols {entry : Nat → Except Stop Nat} {value : Nat → Nat}
    (hentry : ∀ n, entry n = .ok (value n)) {rev : List Nat} {n : Nat} (hn : rev.length = n) :
    loop (replaceSymbol entry) 0 n rev = .ok (rev.map value) := by
  have hreplace := loop_ok (replaceSymbol entry) (i := 0) (n := n) (s := rev)
    (I := fun j l => l = (rev.take j).map value ++ rev.drop j) ?_ rfl
  · obtain ⟨rev', hloop, rfl⟩ := hreplace
    rw [hloop, Nat.zero_add, ← hn, List.take_length, List.drop_length, List.append_nil]
  · rintro j l - hj rfl
    have hlt : j < rev.length := by omega
    have hmid : ((rev.take j).map value).length = j := by
      rw [List.length_map, List.length_take, Nat.min_eq_left (Nat.le_of_lt hlt)]
    have hdrop := List.drop_eq_getElem_cons hlt
    refine ⟨_, ?_, rfl⟩
    have hget : ((rev.take j).map value ++ rev.drop j)[j]? = some rev[j] := by
      rw [List.getElem?_append_right (Nat.le_of_eq hmid), hmid, Nat.sub_self, hdrop,
        List.getElem?_cons_zero]
    rw [replaceSymbol, fetch_of_some hget, ok_bind, hentry, ok_bind,
      store_of_lt _ _ (by rw [List.length_append, hmid, List.length_drop]; omega),
      List.set_append_right _ _ (Nat.le_of_eq hmid), hmid, Nat.sub_self, hdrop, List.set_cons_zero,
      List.take_succ_eq_append_getElem hlt, List.map_append, List.append_assoc]
    rfl

theorem Sorted.map {lens rev : List Nat} {symbols : Nat} {val : Nat → Nat} {d : HuffmanDecoder}
    (h : Sorted lens symbols val d rev) (value : Nat → Nat) :
    Sorted lens symbols (fun s => value (val s)) d (rev.map value) where
  symbols_eq := h.symbols_eq
  numSorted := h.numSorted
  startingPos := h.startingPos
  length_rev := by rw [List.length_map, h.length_rev]
  symbol := fun s hs => by rw [List.getElem?_map, h.symbol s hs, Option.map_some]

/-! ## Ready tables -/

/-- The symbols of both codes are sorted. -/
structure PreparedFor (c : Codes) (p : Prepared) : Prop where
  literals_lt : ∀ l ∈ c.literals, l < 16
  distances_lt : ∀ l ∈ c.distances, l < 16
  literals_length : c.literals.length ≤ nLiteralSyms
  distances_length : c.distances.length ≤ nOffsetSyms
  literals : Sorted c.literals nLiteralSyms id p.literals p.literalsRev
  offsets : Sorted c.distances nOffsetSyms id p.offsets p.offsetsRev

/-- The tables are those of both codes. -/
structure TablesFor (c : Codes) (t : Tables) : Prop where
  literals : Decoder c.literals literalValue t.literals t.literalsRev
  offsets : Decoder c.distances offsetValue t.offsets t.offsetsRev

variable {c : Codes} {p : Prepared}

/-- **The tables are made, unless one of the codes has no room.** -/
theorem finishTables_ends (h : PreparedFor c p) :
    Ends (finishTables p) (TablesFor c)
      (fun e => e = .failed ∧ ¬ (Fits (lenCount c.literals) ∧ Fits (lenCount c.distances))) := by
  have hliteral := finalizeTable_ends h.literals_lt h.literals_length (by decide)
    (fun s hs => literalValue_lt s (Nat.lt_of_lt_of_le hs h.literals_length))
      (h.literals.map literalValue)
  have hoffset := finalizeTable_ends h.distances_lt h.distances_length (by decide)
    (fun s hs => offsetValue_lt s (Nat.lt_of_lt_of_le hs h.distances_length))
      (h.offsets.map offsetValue)
  rw [finishTables, replaceSymbols offsetEntry_eq h.offsets.length_rev, ok_bind,
    replaceSymbols literalEntry_eq h.literals.length_rev, ok_bind]
  refine (hliteral.imp (fun _ hd => hd) fun e he => ⟨he.1, fun hfits => he.2 hfits.1⟩).bind
    fun l hl => ?_
  refine (hoffset.imp (fun _ hd => hd) fun e he => ⟨he.1, fun hfits => he.2 hfits.2⟩).bind
    fun o ho => ?_
  exact ⟨hl, ho⟩

/-! ## The fixed codes -/

theorem staticTables_prepared (r : BitReader) :
    ∃ p, staticTables r = .ok p ∧ PreparedFor fixedCodes p ∧ p.reader = r := by
  have hl : ∀ l ∈ fixedLiteralCodeLen, l < 16 := by decide +kernel
  have ho : ∀ l ∈ fixedOffsetCodeLen, l < 16 := by decide +kernel
  have hlength : fixedLiteralCodeLen.length = nLiteralSyms := by
    simp only [fixedLiteralCodeLen, List.length_append, List.length_replicate, nLiteralSyms]
  have hlength' : fixedOffsetCodeLen.length = nOffsetSyms := List.length_replicate
  obtain ⟨dl, rl, hlits, hlsorted⟩ := prepareTable_sorted nLiteralSyms
    (List.prefix_refl fixedLiteralCodeLen) hl (Nat.le_of_eq hlength) (by decide)
  obtain ⟨dd, rd, hoffs, hosorted⟩ := prepareTable_sorted nOffsetSyms
    (List.prefix_refl fixedOffsetCodeLen) ho (Nat.le_of_eq hlength') (by decide)
  refine ⟨⟨dl, rl, dd, rd, r⟩, ?_,
    ⟨hl, ho, Nat.le_of_eq hlength, Nat.le_of_eq hlength', hlsorted, hosorted⟩, rfl⟩
  rw [hlength] at hlits
  rw [hlength'] at hoffs
  rw [staticTables, hlits, ok_bind]
  dsimp only
  rw [hoffs, ok_bind]

/-! ## The codes in a header -/

variable {r : BitReader} {rest : List Bool}

theorem readCount_reads {n least x : Nat} (most : Nat) (hn : n ≤ 15) (hx : least ≤ x)
    (hmost : x ≤ most) (hroom : x - least < 2 ^ n) (hr : r.Reads (toBits n (x - least) ++ rest)) :
    ∃ r', readCount r n least most = .ok (x, r') ∧ r'.block = r.block ∧ r'.Reads rest := by
  obtain ⟨r', hget, hblock, hreads⟩ := hr.getBits_toBits hn hroom
  refine ⟨r', ?_, hblock, hreads⟩
  rw [readCount, hget, ok_bind]
  dsimp only
  rw [Nat.sub_add_cancel hx, if_neg (Nat.not_lt_of_le hmost)]

theorem apply_lt {piece : LenToken} {lens : List Nat} (hrange : piece.InRange)
    (h : ∀ l ∈ lens, l < 16) :
    ∀ l ∈ piece.apply lens, l < 16 := by
  have hlast : lens.getLastD 0 < 16 := by
    rw [List.getLastD_eq_getLast?]
    cases hlens : lens.getLast? with
    | none => decide
    | some x => exact h x (List.mem_of_getLast? hlens)
  intro l hl
  cases piece with
  | len x =>
    rcases List.mem_append.mp hl with hmem | hmem
    · exact h l hmem
    · rw [List.mem_singleton.mp hmem]
      exact hrange
  | again n =>
    rcases List.mem_append.mp hl with hmem | hmem
    · exact h l hmem
    · rw [List.eq_of_mem_replicate hmem]
      exact hlast
  | zeros3 n | zeros11 n =>
    rcases List.mem_append.mp hl with hmem | hmem
    · exact h l hmem
    · rw [List.eq_of_mem_replicate hmem]
      decide

theorem foldl_apply_lt : ∀ {pieces : List LenToken} {lens : List Nat}, (∀ p ∈ pieces, p.InRange) →
    (∀ l ∈ lens, l < 16) → ∀ l ∈ pieces.foldl LenToken.apply lens, l < 16
  | [], _, _, h => h
  | piece :: pieces, _, hrange, h => by
    have hothers : ∀ p ∈ pieces, p.InRange := fun p hp => hrange p (List.mem_cons_of_mem _ hp)
    have hall := foldl_apply_lt hothers (apply_lt (hrange piece (List.mem_cons_self ..)) h)
    exact hall

/-- **The header is read as it was written.** -/
theorem dynamicTables_prepared {h : Header} (hok : h.Ok) (hr : r.Reads (h.bits ++ rest)) :
    ∃ p, dynamicTables r = .ok p ∧ PreparedFor h.codes p ∧ p.reader.block = r.block ∧
      p.reader.Reads rest := by
  obtain ⟨hlit, hlit'⟩ := hok.literals
  obtain ⟨hdist, hdist'⟩ := hok.distances
  obtain ⟨hcount, hcount'⟩ := hok.count
  rw [Header.bits] at hr
  simp only [List.append_assoc] at hr
  obtain ⟨r₁, hread₁, hblock₁, hreads₁⟩ := readCount_reads nLiteralSyms (by decide) hlit hlit'
    (by omega) hr
  obtain ⟨r₂, hread₂, hblock₂, hreads₂⟩ := readCount_reads nOffsetSyms (by decide) hdist hdist'
    (by omega) hreads₁
  obtain ⟨r₃, hread₃, hblock₃, hreads₃⟩ := readCount_reads nCodeLenSyms (by decide) hcount
    hcount' (by omega) hreads₂
  -- the code for lengths
  obtain ⟨c₄, r₄, hread₄, hlength₄, hpre₄, hblock₄, hreads₄⟩ := readRawLengths_reads hok
    (List.length_replicate : (List.replicate (nLiteralSyms + nOffsetSyms) 0).length = _) hreads₃
  have hlens : ∀ l ∈ h.lenCode, l < 16 := fun l hl => Nat.lt_trans (hok.lens_lt l hl) (by decide)
  have hlength : h.lenCode.length = nCodeLenSyms := hok.length
  obtain ⟨d, rev, hprepare, hsorted⟩ := prepareTable_sorted nCodeLenSyms hpre₄ hlens
    (Nat.le_of_eq hlength) (by decide)
  rw [hlength] at hprepare
  have hfinalize := finalizeTable_ends hlens (Nat.le_of_eq hlength) (by decide)
    (fun s hs => by rw [hlength] at hs; exact Nat.lt_trans hs (by decide)) hsorted
  obtain ⟨⟨d', t'⟩, hfinal, D⟩ := hfinalize.exists_ok fun e he => he.2 hok.fits
  -- the lengths of both codes
  have htotal := hok.lengths
  obtain ⟨c₅, r₅, hread₅, hlength₅, hpre₅, hblock₅, hreads₅⟩ :=
    readVarLengths_reads D hok.pieces htotal
      (by rw [List.length_append]; exact Nat.add_le_add hlit' hdist')
    hlength₄ hreads₄
  rw [List.length_append] at hread₅
  have hnil : ∀ l ∈ ([] : List Nat), l < 16 := fun l hl => absurd hl List.not_mem_nil
  have hall := foldl_apply_lt (fun p hp => (hok.pieces p hp).1) hnil
  rw [htotal] at hall
  have hl : ∀ l ∈ h.codes.literals, l < 16 := fun l hl => hall l (List.mem_append_left _ hl)
  have ho : ∀ l ∈ h.codes.distances, l < 16 := fun l hl => hall l (List.mem_append_right _ hl)
  obtain ⟨dl, rl, hlits, hlsorted⟩ := prepareTable_sorted nLiteralSyms
    ((List.prefix_append _ _).trans hpre₅) hl hlit' (by decide)
  have hdrop : h.codes.distances <+: c₅.drop h.codes.literals.length := by
    obtain ⟨tail, rfl⟩ := hpre₅
    rw [List.append_assoc, List.drop_left]
    exact List.prefix_append _ _
  obtain ⟨dd, rd, hoffs, hosorted⟩ := prepareTable_sorted nOffsetSyms hdrop ho hdist'
    (by decide)
  refine ⟨⟨dl, rl, dd, rd, r₅⟩, ?_, ⟨hl, ho, hlit', hdist', hlsorted, hosorted⟩,
    hblock₅.trans (hblock₄.trans (hblock₃.trans (hblock₂.trans hblock₁))), hreads₅⟩
  simp only [dynamicTables, hread₁, hread₂, hread₃, hread₄, hprepare, hfinal, hread₅, hlits,
    hoffs, ok_bind]

/-- The header of any block, and then its tables. -/
theorem tables_ready {header : Option Header} (hheader : ∀ h ∈ header, h.Ok)
    (hliterals : Fits (lenCount (headerCodes header).literals))
    (hdistances : Fits (lenCount (headerCodes header).distances))
    (hr : r.Reads (headerBits header ++ rest)) :
    ∃ p t, blockTables r header.isSome = .ok p ∧
      finishTables p = .ok t ∧ TablesFor (headerCodes header) t ∧ p.reader.block = r.block ∧
      p.reader.Reads rest := by
  have hfinish : ∀ p, PreparedFor (headerCodes header) p →
      ∃ t, finishTables p = .ok t ∧ TablesFor (headerCodes header) t := fun p hp =>
    (finishTables_ends hp).exists_ok fun e he => he.2 ⟨hliterals, hdistances⟩
  cases header with
  | none =>
    obtain ⟨p, hp, hprepared, rfl⟩ := staticTables_prepared r
    obtain ⟨t, ht, hfor⟩ := hfinish p hprepared
    exact ⟨p, t, hp, ht, hfor, rfl, hr⟩
  | some h =>
    obtain ⟨p, hp, hprepared, hblock, hreads⟩ := dynamicTables_prepared (hheader h rfl) hr
    obtain ⟨t, ht, hfor⟩ := hfinish p hprepared
    exact ⟨p, t, hp, ht, hfor, hblock, hreads⟩

end Umka.Inflate
