import Umka.Inflate.Block
import Umka.Lib.Deflate
import Umka.Proof.Inflate.Decode

/-!
# The codes of a block are read as they were written

A block that brings its codes begins with the code for lengths, and the lengths follow, written with
it. `readRawLengths` and `readVarLengths` get back the lists that the header has, and the two
decoders of the block are made for them.
-/

set_option autoImplicit false

namespace Umka.Inflate

open Lib Lib.Deflate

variable {r : BitReader} {rest : List Bool}

/-! ## The code for lengths -/

/-- The lengths of the code for lengths, as far as they have been read. -/
def RawRead (lenCode : List Nat) (j : Nat) (codeLength : List Nat) : Prop :=
  codeLength.length = nLiteralSyms + nOffsetSyms ∧
    ∀ s ∈ nCodeLenSymIndex.take j, codeLength[s]? = some (symLen lenCode s)

variable {lenCode codeLength : List Nat}

theorem nCodeLenSymIndex_lt : ∀ s ∈ nCodeLenSymIndex, s < nLiteralSyms + nOffsetSyms := by decide

theorem rawRead_succ {j : Nat} (hj : j < nCodeLenSymIndex.length)
    (h : RawRead lenCode j codeLength) :
    store Stop.fault codeLength nCodeLenSymIndex[j] (symLen lenCode nCodeLenSymIndex[j]) =
        .ok (codeLength.set nCodeLenSymIndex[j] (symLen lenCode nCodeLenSymIndex[j])) ∧
      RawRead lenCode (j + 1)
        (codeLength.set nCodeLenSymIndex[j] (symLen lenCode nCodeLenSymIndex[j])) := by
  have hlt : nCodeLenSymIndex[j] < codeLength.length := by
    rw [h.1]
    exact nCodeLenSymIndex_lt _ (List.getElem_mem hj)
  refine ⟨store_of_lt _ _ hlt, by rw [List.length_set, h.1], fun s hs => ?_⟩
  by_cases heq : nCodeLenSymIndex[j] = s
  · subst heq
    rw [List.getElem?_set_self hlt]
  · rw [List.getElem?_set_ne heq]
    rw [List.take_succ_eq_append_getElem hj, List.mem_append, List.mem_singleton] at hs
    exact h.2 s (hs.resolve_right fun hsame => heq hsame.symm)

theorem readRawLength_reads {j : Nat} (hlens : ∀ l ∈ lenCode, l < 8)
    (hj : j < nCodeLenSymIndex.length) (h : RawRead lenCode j codeLength)
    (hr : r.Reads (toBits 3 (symLen lenCode nCodeLenSymIndex[j]) ++ rest)) :
    ∃ codeLength' r', readRawLength nCodeLenBits j (codeLength, r) = .ok (codeLength', r') ∧
      RawRead lenCode (j + 1) codeLength' ∧ r'.block = r.block ∧ r'.Reads rest := by
  have hlt : symLen lenCode nCodeLenSymIndex[j] < 2 ^ 3 := by
    by_cases hzero : symLen lenCode nCodeLenSymIndex[j] = 0
    · rw [hzero]
      decide
    · exact hlens _ (symLen_mem (lt_of_symLen hzero))
  obtain ⟨r', hget, hblock, hreads⟩ := hr.getBits_toBits (by decide) hlt
  obtain ⟨hstore, hraw⟩ := rawRead_succ hj h
  refine ⟨_, r', ?_, hraw, hblock, hreads⟩
  rw [readRawLength, nCodeLenBits, hget, ok_bind]
  dsimp only
  rw [fetch_of_lt _ hj, ok_bind, hstore, ok_bind]

/-- The lengths that are given are read, one after the other. -/
theorem readRawLengths_loop (hlens : ∀ l ∈ lenCode, l < 8) :
    ∀ {n j : Nat} {codeLength : List Nat} {r : BitReader}, j + n ≤ nCodeLenSymIndex.length →
      RawRead lenCode j codeLength →
      r.Reads (((nCodeLenSymIndex.drop j).take n).flatMap
        (fun s => toBits 3 (symLen lenCode s)) ++ rest) →
      ∃ codeLength' r', loop (readRawLength nCodeLenBits) j n
        (codeLength, r) = .ok (codeLength', r') ∧ RawRead lenCode (j + n) codeLength' ∧
          r'.block = r.block ∧ r'.Reads rest
  | 0, j, codeLength, r, _, h, hr => ⟨codeLength, r, rfl, h, rfl, by simpa using hr⟩
  | n + 1, j, codeLength, r, hj, h, hr => by
    have hlt : j < nCodeLenSymIndex.length := by omega
    rw [List.drop_eq_getElem_cons hlt, List.take_succ_cons, List.flatMap_cons,
      List.append_assoc] at hr
    obtain ⟨c₁, r₁, hread, hraw, hblock, hreads⟩ := readRawLength_reads hlens hlt h hr
    obtain ⟨c₂, r₂, hloop, hraw₂, hblock₂, hreads₂⟩ :=
      readRawLengths_loop hlens (by omega) hraw hreads
    refine ⟨c₂, r₂, ?_, ?_, hblock₂.trans hblock, hreads₂⟩
    · rw [loop, hread, ok_bind, hloop]
    · rw [← Nat.add_right_comm, Nat.add_assoc] at hraw₂
      exact hraw₂

/-- The others are zero. -/
theorem clearRawLengths_loop {j : Nat} (hj : j ≤ nCodeLenSyms)
    (hrest : ∀ s ∈ nCodeLenSymIndex.drop j, symLen lenCode s = 0)
    (h : RawRead lenCode j codeLength) :
    ∃ codeLength', loop clearRawLength j (nCodeLenSyms - j) codeLength = .ok codeLength' ∧
      RawRead lenCode nCodeLenSyms codeLength' := by
  have hloop := loop_ok clearRawLength (i := j) (n := nCodeLenSyms - j)
    (I := RawRead lenCode) (fun k c hk hlt hc => ?_) h
  · rwa [Nat.add_sub_of_le hj] at hloop
  · have hin : k < nCodeLenSymIndex.length := by
      have hlen : nCodeLenSymIndex.length = nCodeLenSyms := rfl
      omega
    have hzero : symLen lenCode nCodeLenSymIndex[k] = 0 := by
      refine hrest _ (List.mem_iff_getElem?.mpr ⟨k - j, ?_⟩)
      rw [List.getElem?_drop, Nat.add_sub_of_le hk, List.getElem?_eq_getElem hin]
    obtain ⟨hstore, hraw⟩ := rawRead_succ hin hc
    rw [hzero] at hstore
    exact ⟨_, by rw [clearRawLength, fetch_of_lt _ hin, ok_bind, hstore], by
      rw [hzero] at hraw; exact hraw⟩

/-- All nineteen have been read. -/
theorem RawRead.isPrefix (hlength : lenCode.length = nCodeLenSyms)
    (h : RawRead lenCode nCodeLenSyms codeLength) : lenCode <+: codeLength := by
  have hall : ∀ s < nCodeLenSyms, s ∈ nCodeLenSymIndex.take nCodeLenSyms := by decide
  rw [List.prefix_iff_eq_take, hlength]
  refine List.ext_getElem? fun s => ?_
  by_cases hs : s < nCodeLenSyms
  · rw [List.getElem?_take_of_lt hs, h.2 s (hall s hs)]
    have hs' : s < lenCode.length := by rw [hlength]; exact hs
    rw [symLen, List.getD_eq_getElem?_getD, List.getElem?_eq_getElem hs', Option.getD_some]
  · rw [List.getElem?_take_eq_none (Nat.le_of_not_lt hs),
      List.getElem?_eq_none (by rw [hlength]; exact Nat.le_of_not_lt hs)]

theorem readRawLengths_reads {h : Header} (hok : h.Ok)
    (hlength : codeLength.length = nLiteralSyms + nOffsetSyms)
    (hr : r.Reads ((lenOrder.take h.count).flatMap (fun s => toBits 3 (symLen h.lenCode s)) ++
      rest)) :
    ∃ codeLength' r', readRawLengths nCodeLenBits h.count nCodeLenSyms codeLength r
      = .ok (codeLength', r') ∧ codeLength'.length = nLiteralSyms + nOffsetSyms ∧
        h.lenCode <+: codeLength' ∧
      r'.block = r.block ∧ r'.Reads rest := by
  have hcount : h.count ≤ nCodeLenSyms := hok.count.2
  have hmax : nCodeLenSyms ≤ maxSymbols := by decide
  have hinit : RawRead h.lenCode 0 codeLength := ⟨hlength, fun s hs => absurd hs (by simp)⟩
  have hr' : r.Reads (((nCodeLenSymIndex.drop 0).take h.count).flatMap
      (fun s => toBits 3 (symLen h.lenCode s)) ++ rest) := hr
  obtain ⟨c₁, r₁, hloop, hraw, hblock, hreads⟩ := readRawLengths_loop hok.lens_lt
    (by rw [Nat.zero_add]; exact hcount) hinit hr'
  rw [Nat.zero_add] at hraw
  obtain ⟨c₂, hclear, hraw₂⟩ := clearRawLengths_loop hcount hok.rest hraw
  refine ⟨c₂, r₁, ?_, hraw₂.1, hraw₂.isPrefix hok.length, hblock, hreads⟩
  rw [readRawLengths, if_neg (by omega), hloop, ok_bind]
  dsimp only
  rw [hclear, ok_bind]

/-! ## The lengths -/

variable {d : HuffmanDecoder} {t : RevSymbolTable}

/-- A piece: the length and how often it comes. -/
theorem readRunLen_reads {piece : LenToken} (lens : List Nat) (hrange : piece.InRange)
    (hr : r.Reads (piece.extra ++ rest)) :
    ∃ v n r', readRunLen piece.symbol (lens.getLastD 0) r = .ok (v, n, r') ∧
      piece.apply lens = lens ++ List.replicate n v ∧ 1 ≤ n ∧ r'.block = r.block ∧
      r'.Reads rest := by
  cases piece with
  | len l => exact ⟨l, 1, r, if_pos hrange, rfl, Nat.le_refl 1, rfl, hr⟩
  | again n =>
    obtain ⟨r', hget, hblock, hreads⟩ := hr.getBits_toBits (by decide) hrange
    refine ⟨_, 3 + n, r', ?_, rfl, by omega, hblock, hreads⟩
    rw [LenToken.symbol, readRunLen, if_neg (by decide), if_pos rfl, hget, ok_bind]
  | zeros3 n =>
    obtain ⟨r', hget, hblock, hreads⟩ := hr.getBits_toBits (by decide) hrange
    refine ⟨0, 3 + n, r', ?_, rfl, by omega, hblock, hreads⟩
    rw [LenToken.symbol, readRunLen, if_neg (by decide), if_neg (by decide), if_pos rfl,
      hget, ok_bind]
  | zeros11 n =>
    obtain ⟨r', hget, hblock, hreads⟩ := hr.getBits_toBits (by decide) hrange
    refine ⟨0, 11 + n, r', ?_, rfl, by omega, hblock, hreads⟩
    rw [LenToken.symbol, readRunLen, if_neg (by decide), if_neg (by decide),
      if_neg (by decide), if_pos rfl, hget, ok_bind]

theorem symbol_ne_unset {piece : LenToken} (hrange : piece.InRange) : piece.symbol ≠ unset := by
  cases piece with
  | len l => exact Nat.ne_of_lt (Nat.lt_trans hrange (by decide))
  | again n => exact (by decide : 16 ≠ unset)
  | zeros3 n => exact (by decide : 17 ≠ unset)
  | zeros11 n => exact (by decide : 18 ≠ unset)

theorem prefix_apply (piece : LenToken) (lens : List Nat) : lens <+: piece.apply lens := by
  cases piece <;> exact List.prefix_append _ _

theorem prefix_foldl_apply : ∀ (pieces : List LenToken) (lens : List Nat),
    lens <+: pieces.foldl LenToken.apply lens
  | [], lens => List.prefix_refl lens
  | piece :: pieces, lens => (prefix_apply piece lens).trans (prefix_foldl_apply pieces _)

theorem lt_length_apply (piece : LenToken) (lens : List Nat) :
    lens.length < (piece.apply lens).length := by
  cases piece <;> simp [LenToken.apply]

theorem length_le_foldl_apply : ∀ (pieces : List LenToken) (lens : List Nat),
    lens.length + pieces.length ≤ (pieces.foldl LenToken.apply lens).length
  | [], lens => by simp
  | piece :: pieces, lens => by
    have hfirst := lt_length_apply piece lens
    have hothers := length_le_foldl_apply pieces (piece.apply lens)
    rw [List.foldl_cons, List.length_cons]
    omega

/-- `prevLength` after a run. -/
theorem getLastD_append_replicate (lens : List Nat) {n : Nat} (v : Nat) (hn : 1 ≤ n) :
    (lens ++ List.replicate n v).getLastD 0 = v := by
  obtain ⟨n, rfl⟩ := Nat.exists_eq_add_of_le' hn
  rw [List.replicate_succ', ← List.append_assoc, List.getLastD_concat]

/-- **The pieces are read and put together.** `lens` is what has been read. -/
theorem readVarLoop_reads (D : Decoder lenCode id d t) {total : List Nat} :
    ∀ {pieces : List LenToken} {lens codeLength : List Nat} {r : BitReader} {fuel : Nat},
      (∀ piece ∈ pieces, piece.InRange ∧ symLen lenCode piece.symbol ≠ 0) →
      pieces.foldl LenToken.apply lens = total → total.length ≤ codeLength.length →
      codeLength.take lens.length = lens → pieces.length < fuel →
      r.Reads (pieces.flatMap (LenToken.bits lenCode) ++ rest) →
      ∃ codeLength' r',
        readVarLoop d t total.length fuel lens.length (lens.getLastD 0) codeLength r =
          .ok (codeLength', r') ∧
        codeLength'.length = codeLength.length ∧ total <+: codeLength' ∧ r'.block = r.block ∧
        r'.Reads rest
  | [], lens, codeLength, r, fuel, _, htotal, _, htake, hfuel, hr => by
    obtain ⟨fuel, rfl⟩ : ∃ f, fuel = f + 1 := ⟨fuel - 1, by simp at hfuel; omega⟩
    obtain rfl : lens = total := htotal
    refine ⟨codeLength, r, ?_, rfl, ?_, rfl, by simpa using hr⟩
    · rw [readVarLoop, if_neg (Nat.lt_irrefl _)]
    · exact List.prefix_iff_eq_take.mpr htake.symm
  | piece :: pieces, lens, codeLength, r, fuel, hpieces, htotal, hroom, htake, hfuel, hr => by
    obtain ⟨fuel, rfl⟩ : ∃ f, fuel = f + 1 := ⟨fuel - 1, by omega⟩
    obtain ⟨hrange, hcode⟩ := hpieces piece (List.mem_cons_self ..)
    have hothers : ∀ p ∈ pieces, p.InRange ∧ symLen lenCode p.symbol ≠ 0 := fun p hp =>
      hpieces p (List.mem_cons_of_mem _ hp)
    rw [List.flatMap_cons, LenToken.bits, List.append_assoc, List.append_assoc] at hr
    obtain ⟨r₁, hread, hblock₁, hreads₁⟩ := readValue_reads D hcode hr
    obtain ⟨v, n, r₂, hrun, happly, hn, hblock₂, hreads₂⟩ := readRunLen_reads lens hrange hreads₁
    -- the piece fits
    have hlen : (piece.apply lens).length = lens.length + n := by
      rw [happly, List.length_append, List.length_replicate]
    have hlonger := (prefix_foldl_apply pieces (piece.apply lens)).length_le
    rw [← List.foldl_cons, htotal, hlen] at hlonger
    have hmin : min n (total.length - lens.length) = n := by omega
    have hfill := loop_store Stop.fault v (n := n) (i := lens.length) (a := codeLength) (by omega)
    rw [htake, ← happly] at hfill
    have hlength : (piece.apply lens ++ codeLength.drop (lens.length + n)).length
        = codeLength.length := by
      rw [List.length_append, hlen, List.length_drop]
      omega
    have htotal' : pieces.foldl LenToken.apply (piece.apply lens) = total := htotal
    have hfuel' : pieces.length < fuel := by
      rw [List.length_cons] at hfuel
      omega
    obtain ⟨c', r', hok, hlen', hpre, hblock', hreads'⟩ := readVarLoop_reads D hothers htotal'
      (by rw [hlength]; exact hroom) List.take_left hfuel' hreads₂
    refine ⟨c', r', ?_, hlen'.trans hlength, hpre, hblock'.trans (hblock₂.trans hblock₁), hreads'⟩
    rw [hlen, happly, getLastD_append_replicate _ _ hn, ← happly] at hok
    rw [readVarLoop, if_pos (by omega), hread, ok_bind]
    dsimp only [id]
    rw [if_neg (symbol_ne_unset hrange), hrun, ok_bind]
    dsimp only
    rw [hmin, hfill, ok_bind, hok]

theorem readVarLengths_reads (D : Decoder lenCode id d t) {pieces : List LenToken}
    {total : List Nat} {symbols : Nat} (hpieces : ∀ piece ∈ pieces, piece.InRange ∧
      symLen lenCode piece.symbol ≠ 0)
    (htotal : pieces.foldl LenToken.apply [] = total) (hsymbols : total.length ≤ symbols)
    (hlength : codeLength.length = symbols)
    (hr : r.Reads (pieces.flatMap (LenToken.bits lenCode) ++ rest)) :
    ∃ codeLength' r', readVarLengths d t total.length symbols codeLength r = .ok (codeLength', r') ∧
      codeLength'.length = symbols ∧ total <+: codeLength' ∧ r'.block = r.block ∧
      r'.Reads rest := by
  have hcount := length_le_foldl_apply pieces []
  rw [htotal, List.length_nil, Nat.zero_add] at hcount
  obtain ⟨c, r', hloop, hlen, hpre, hblock, hreads⟩ := readVarLoop_reads D hpieces htotal
    (by rw [hlength]; exact hsymbols) rfl (Nat.lt_succ_of_le hcount) hr
  obtain ⟨tail, rfl⟩ := hpre
  have hfill := loop_store Stop.fault 0 (n := symbols - total.length) (i := total.length)
    (a := total ++ tail) (by omega)
  rw [List.take_left, List.append_assoc] at hfill
  have hstart : readVarLoop d t total.length (total.length + 1) 0 0 codeLength r =
      .ok (total ++ tail, r') := hloop
  refine ⟨total ++ (List.replicate (symbols - total.length) 0 ++
    (total ++ tail).drop (total.length + (symbols - total.length))), r', ?_, ?_,
    List.prefix_append _ _, hblock, hreads⟩
  · rw [readVarLengths, if_neg (by omega), hstart, ok_bind]
    dsimp only
    rw [hfill, ok_bind]
  · rw [List.length_append, List.length_append, List.length_replicate, List.length_drop]
    omega

end Umka.Inflate
