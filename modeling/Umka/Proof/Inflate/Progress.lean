import Umka.Proof.Inflate.Tables

/-!
# What any input does to the reader and the tables

Nothing is known about the bits here. The reader stays where the shifts are defined (`Sound`), it
never goes back (`used`), and the count of bits gets smaller by at most what is asked for (`Goes`),
which is what keeps it from an overflow at the end of the input. The code lengths that are read are
always below 16, so the tables are either made or refused.
-/

set_option autoImplicit false

namespace Umka.Inflate

open Lib Lib.Deflate

theorem failed_ne_fault : Stop.failed ≠ .fault := by decide

namespace BitReader

/-- The bits that are gone. At the end of the block the eight zeros that may have been put behind
    the last byte are counted as read. -/
def used (r : BitReader) : Int := 8 * r.pos + (if r.pos = r.block.length then 8 else 0) - r.bitCount

structure Sound (r : BitReader) : Prop where
  pos_le : r.pos ≤ r.block.length
  count_lt : r.bitCount < 32
  count_nonneg : r.pos < r.block.length → 0 ≤ r.bitCount

/-- From `r` to `r'`, for `n` bits at most. -/
structure Goes (n : Nat) (r r' : BitReader) : Prop where
  block : r'.block = r.block
  sound : r'.Sound
  used_le : r.used ≤ r'.used
  count_le : r.bitCount - n ≤ r'.bitCount

variable {r r' r'' : BitReader} {m n : Nat}

theorem Sound.goes (h : r.Sound) (n : Nat) : Goes n r r := ⟨rfl, h, Int.le_refl _, by omega⟩

theorem Goes.trans (h : Goes m r r') (h' : Goes n r' r'') : Goes (m + n) r r'' where
  block := h'.block.trans h.block
  sound := h'.sound
  used_le := Int.le_trans h.used_le h'.used_le
  count_le := by
    have h₁ := h.count_le
    have h₂ := h'.count_le
    omega

theorem Goes.mono (h : Goes m r r') (hmn : m ≤ n) : Goes n r r' where
  block := h.block
  sound := h.sound
  used_le := h.used_le
  count_le := by
    have hcount := h.count_le
    omega

theorem sound_init (block : List UInt8) : (init block).Sound :=
  ⟨Nat.zero_le _, (by decide : (0 : Int) < 32), fun _ => Int.le_refl 0⟩

theorem used_init (block : List UInt8) : 0 ≤ (init block).used := by
  show 0 ≤ 8 * ((0 : Nat) : Int) + (if 0 = block.length then 8 else 0) - 0
  by_cases hend : 0 = block.length
  · rw [if_pos hend]
    decide
  · rw [if_neg hend]
    decide

/-! ## Bits -/

theorem load_ok (r : BitReader) (count : Int) (hpos : r.pos < r.block.length) (h0 : 0 ≤ count)
    (h32 : count < 32) :
    ∃ data, r.load count = .ok { r with data := data, pos := r.pos + 1 } := by
  rw [load, fetch_of_lt _ hpos, ok_bind, if_pos ⟨h0, h32⟩]
  exact ⟨_, rfl⟩

/-- The reader after more bytes are in the shifter. -/
structure Loaded (r r' : BitReader) : Prop where
  block : r'.block = r.block
  pos_le : r'.pos ≤ r'.block.length
  count_lt : r'.bitCount < 32
  count_add : r.bitCount + 8 ≤ r'.bitCount
  enough : r'.pos < r'.block.length → 16 ≤ r'.bitCount
  used_le : r.used ≤ r'.used

theorem addBytes_loaded (h : r.Sound) (hcount : r.bitCount < 16) (hpos : r.pos < r.block.length) :
    ∃ r', r.addBytes = .ok r' ∧ Loaded r r' := by
  have h0 := h.count_nonneg hpos
  obtain ⟨data, hload⟩ := load_ok r r.bitCount hpos h0 h.count_lt
  have hused : r.used = 8 * r.pos - r.bitCount := by
    rw [used, if_neg (Nat.ne_of_lt hpos), Int.add_zero]
  rw [addBytes, hload, ok_bind]
  dsimp only
  by_cases hmore : r.pos + 1 < r.block.length
  · obtain ⟨data', hload'⟩ := load_ok ⟨r.bitCount + 8, data, r.block, r.pos + 1⟩
      (r.bitCount + 8) hmore (by omega) (by omega)
    rw [if_pos hmore, hload', ok_bind]
    refine ⟨_, rfl, rfl, hmore, ?_, ?_, fun _ => ?_, ?_⟩
    · show r.bitCount + 8 + 8 < 32
      omega
    · show r.bitCount + 8 ≤ r.bitCount + 8 + 8
      omega
    · show 16 ≤ r.bitCount + 8 + 8
      omega
    · rw [hused, used]
      dsimp only
      split <;> omega
  · rw [if_neg hmore]
    have hend : r.pos + 1 = r.block.length := by omega
    refine ⟨_, rfl, rfl, hpos, ?_, Int.le_refl _, fun hlt => absurd hlt hmore, ?_⟩
    · show r.bitCount + 8 < 32
      omega
    · rw [hused, used]
      dsimp only
      rw [if_pos hend]
      omega

theorem consumeBits_goes (h : r.Sound) (hn : n ≤ 15) (hlow : -(2 ^ 31) + 15 ≤ r.bitCount)
    (henough : r.pos < r.block.length → n ≤ r.bitCount) :
    ∃ r', r.consumeBits n = .ok r' ∧ Goes n r r' ∧ r'.used = r.used + n ∧
      r'.bitCount = r.bitCount - n := by
  have hcount := h.count_lt
  refine ⟨_, if_pos ⟨by omega, by omega⟩, ⟨rfl, ⟨h.pos_le, ?_, fun hpos => ?_⟩, ?_, Int.le_refl _⟩,
    ?_, rfl⟩
  · show r.bitCount - n < 32
    omega
  · have := henough hpos
    show 0 ≤ r.bitCount - n
    omega
  · simp only [used]
    omega
  · simp only [used]
    omega

theorem takeBits_goes (h : r.Sound) (hn : n ≤ 15) (hlow : -7 + n ≤ r.bitCount)
    (henough : r.pos < r.block.length → n ≤ r.bitCount) :
    ∃ x r', r.takeBits n = .ok (some x, r') ∧ x < 2 ^ n ∧ Goes n r r' ∧ r'.used = r.used + n ∧
      -7 ≤ r'.bitCount := by
  obtain ⟨r', hconsume, hgoes, hused, hcount⟩ := consumeBits_goes h hn (by omega) henough
  refine ⟨r.data &&& (2 ^ n - 1), r', ?_, ?_, hgoes, hused, by omega⟩
  · rw [takeBits, hconsume, ok_bind]
  · rw [Nat.and_two_pow_sub_one_eq_mod]
    exact Nat.mod_lt _ (Nat.two_pow_pos n)

/-- **Some bits**, or none at all. -/
theorem getBits_goes (h : r.Sound) (hn : n ≤ 15) :
    ∃ v r', r.getBits n = .ok (v, r') ∧ Goes n r r' ∧
      ∀ x ∈ v, x < 2 ^ n ∧ r.used + n ≤ r'.used ∧ -7 ≤ r'.bitCount := by
  rw [getBits]
  by_cases hcount : r.bitCount < n
  · rw [if_pos hcount]
    by_cases hpos : r.pos < r.block.length
    · have h0 := h.count_nonneg hpos
      obtain ⟨r₁, hadd, hloaded⟩ := addBytes_loaded h (by omega) hpos
      have hmore := hloaded.count_add
      have hsound : r₁.Sound :=
        ⟨hloaded.pos_le, hloaded.count_lt, fun hlt => Int.le_trans (by decide) (hloaded.enough hlt)⟩
      obtain ⟨x, r₂, htake, hx, hgoes, hused, hlow⟩ :=
        takeBits_goes hsound hn (by omega) fun hlt => by
        have := hloaded.enough hlt
        omega
      have hle := hloaded.used_le
      refine ⟨some x, r₂, ?_, ⟨hgoes.block.trans hloaded.block, hgoes.sound, by omega, ?_⟩, ?_⟩
      · rw [if_pos hpos, hadd, ok_bind, htake]
      · have := hgoes.count_le
        omega
      · rintro y ⟨⟩
        exact ⟨hx, by omega, hlow⟩
    · rw [if_neg hpos]
      exact ⟨none, r, rfl, h.goes n, fun x hx => absurd hx (by simp)⟩
  · obtain ⟨x, r', htake, hx, hgoes, hused, hlow⟩ := takeBits_goes h hn (by omega) fun _ => by omega
    rw [if_neg hcount]
    refine ⟨some x, r', htake, hgoes, ?_⟩
    rintro y ⟨⟩
    exact ⟨hx, by omega, hlow⟩

theorem peek16bits_goes (h : r.Sound) :
    ∃ p r', r.peek16bits = .ok (p, r') ∧ Goes 0 r r' ∧
      (r'.pos < r'.block.length → 16 ≤ r'.bitCount) := by
  have hlt := h.count_lt
  rw [peek16bits]
  by_cases hcount : r.bitCount < 16
  · rw [if_pos hcount]
    by_cases hpos : r.pos < r.block.length
    · have h0 := h.count_nonneg hpos
      obtain ⟨data, hload⟩ := load_ok r r.bitCount hpos h0 hlt
      have hused : r.used = 8 * r.pos - r.bitCount := by
        rw [used, if_neg (Nat.ne_of_lt hpos), Int.add_zero]
      rw [if_pos hpos]
      dsimp only
      rw [hload, ok_bind]
      dsimp only
      by_cases hmore : r.pos + 1 < r.block.length
      · obtain ⟨data', hload'⟩ := load_ok ⟨r.bitCount, data, r.block, r.pos + 1⟩
          (r.bitCount + 8) hmore (by omega) (by omega)
        rw [if_pos hmore, hload', ok_bind]
        refine ⟨_, _, rfl, ⟨rfl, ⟨hmore, ?_, fun _ => ?_⟩, ?_, ?_⟩, fun _ => ?_⟩
        · show r.bitCount + 16 < 32
          omega
        · show 0 ≤ r.bitCount + 16
          omega
        · rw [hused, used]
          dsimp only
          split <;> omega
        · show r.bitCount - 0 ≤ r.bitCount + 16
          omega
        · show 16 ≤ r.bitCount + 16
          omega
      · have hend : r.pos + 1 = r.block.length := by omega
        rw [if_neg hmore, ok_bind]
        refine ⟨_, _, rfl, ⟨rfl, ⟨hpos, ?_, fun hl => absurd hl hmore⟩, ?_, ?_⟩,
          fun hl => absurd hl hmore⟩
        · show r.bitCount + 16 < 32
          omega
        · rw [hused, used]
          dsimp only
          rw [if_pos hend]
          omega
        · show r.bitCount - 0 ≤ r.bitCount + 16
          omega
    · rw [if_neg hpos]
      exact ⟨_, r, rfl, h.goes 0, fun hl => absurd hl hpos⟩
  · rw [if_neg hcount]
    exact ⟨_, r, rfl, h.goes 0, fun _ => by omega⟩

end BitReader

open BitReader

/-! ## Values -/

variable {r : BitReader} {lens : List Nat} {val : Nat → Nat} {d : HuffmanDecoder}
    {t : RevSymbolTable}

/-- **A value**, which is that of a symbol or -1. -/
theorem readValue_goes (D : Decoder lens val d t) (h : r.Sound)
    (hlow : -(2 ^ 31) + 15 ≤ r.bitCount) :
    ∃ v r', readValue d t r = .ok (v, r') ∧ Goes 15 r r' ∧
      (v = unset ∨ ∃ s, symLen lens s ≠ 0 ∧ v = val s) := by
  obtain ⟨p, r₁, hpeek, hgoes, henough⟩ := peek16bits_goes h
  have hcount := hgoes.count_le
  by_cases hfound : ∃ w : CodeWord (lenCount lens), w.bits <+: toBits 16 p
  · obtain ⟨w, hw⟩ := hfound
    obtain ⟨s, hs, rfl⟩ := w.exists_codeOf
    have hlen : symLen lens s < 16 := (codeOf s hs).len_lt D.lens_lt
    obtain ⟨r₂, hconsume, hgoes₂, -, -⟩ := consumeBits_goes hgoes.sound (Nat.le_of_lt_succ hlen)
      (by omega) fun hlt => by
        have := henough hlt
        omega
    refine ⟨val s, r₂, ?_, (hgoes.trans hgoes₂).mono (by omega), .inr ⟨s, hs, rfl⟩⟩
    rw [readValue_found D hs hpeek hw, hconsume, ok_bind]
  · exact ⟨unset, r₁, readValue_none D hpeek fun w hw => hfound ⟨w, hw⟩,
      hgoes.mono (Nat.zero_le 15), .inl rfl⟩

/-! ## Code lengths -/

/-- As many code lengths as there are places. -/
structure Lens (n : Nat) (codeLength : List Nat) : Prop where
  length : codeLength.length = n
  lt : ∀ l ∈ codeLength, l < 16

theorem Lens.set {n : Nat} {codeLength : List Nat} (h : Lens n codeLength) (i : Nat) {l : Nat}
    (hl : l < 16) :
    Lens n (codeLength.set i l) where
  length := by rw [List.length_set, h.length]
  lt := fun x hx => by
    rcases List.mem_or_eq_of_mem_set hx with hmem | rfl
    · exact h.lt x hmem
    · exact hl

/-- A run of one length. -/
theorem Lens.run {n : Nat} {codeLength : List Nat} (h : Lens n codeLength) {i k l : Nat}
    (hk : i + k ≤ n) (hl : l < 16) :
    ∃ c, loop (fun j c => store Stop.fault c j l) i k codeLength = .ok c ∧ Lens n c := by
  have hloop := loop_ok (fun j c => store Stop.fault c j l) (I := fun _ c => Lens n c)
    (i := i) (n := k)
      (fun j c _ hj hc => ⟨c.set j l, store_of_lt _ _ (by rw [hc.length]; omega), hc.set j hl⟩) h
  exact hloop

theorem readRawLengths_ends {n count : Nat} {codeLength : List Nat} (hcount : count ≤ nCodeLenSyms)
    (hn : nCodeLenSyms ≤ n) (hc : Lens n codeLength) (h : r.Sound) :
    Ends (readRawLengths nCodeLenBits count nCodeLenSyms codeLength r)
      (fun s => Lens n s.1 ∧ Goes (3 * count) r s.2) (· ≠ .fault) := by
  have hmax : nCodeLenSyms ≤ maxSymbols := by decide
  have hindex : nCodeLenSymIndex.length = nCodeLenSyms := rfl
  have hplace : ∀ s ∈ nCodeLenSymIndex, s < nCodeLenSyms := by decide
  have hread := loop_ends (readRawLength nCodeLenBits) (i := 0) (n := count) (s := (codeLength, r))
    (I := fun j s => Lens n s.1 ∧ Goes (3 * j) r s.2) (E := (· ≠ .fault)) ?_ ⟨hc, h.goes 0⟩
  · rw [readRawLengths, if_neg (by omega)]
    refine hread.bind fun s hs => ?_
    obtain ⟨c, r'⟩ := s
    obtain ⟨hlens, hgoes⟩ := hs
    rw [Nat.zero_add] at hgoes
    have hclear := loop_ok clearRawLength (i := count) (n := nCodeLenSyms - count) (s := c)
      (I := fun _ c => Lens n c) ?_ hlens
    · obtain ⟨c', hloop, hlens'⟩ := hclear
      dsimp only
      rw [hloop, ok_bind]
      exact ⟨hlens', hgoes⟩
    · intro j c hj hlt hc
      have hin : j < nCodeLenSymIndex.length := by omega
      have hsym := hplace _ (List.getElem_mem hin)
      refine ⟨c.set nCodeLenSymIndex[j] 0, ?_, hc.set _ (by decide)⟩
      rw [clearRawLength, fetch_of_lt _ hin, ok_bind, store_of_lt _ _ (by rw [hc.length]; omega)]
  · intro j s _ hj hs
    obtain ⟨c, r₁⟩ := s
    obtain ⟨hlens, hgoes⟩ := hs
    have hin : j < nCodeLenSymIndex.length := by omega
    have hsym := hplace _ (List.getElem_mem hin)
    obtain ⟨v, r₂, hget, hgoes₂, hv⟩ := getBits_goes hgoes.sound (show 3 ≤ 15 by decide)
    rw [readRawLength, nCodeLenBits, hget, ok_bind]
    cases v with
    | none => exact failed_ne_fault
    | some x =>
      have hx : x < 2 ^ 3 := (hv x rfl).1
      dsimp only
      rw [fetch_of_lt _ hin, ok_bind, store_of_lt _ _ (by rw [hlens.length]; omega), ok_bind]
      exact ⟨hlens.set _ (by omega), hgoes.trans hgoes₂⟩

/-- A run of lengths, which is never empty. -/
theorem readRunLen_ends {len prevLength : Nat} (hlen : len < nCodeLenSyms) (hprev : prevLength < 16)
    (h : r.Sound) :
    Ends (readRunLen len prevLength r) (fun s => s.1 < 16 ∧ 1 ≤ s.2.1 ∧ Goes 7 r s.2.2)
      (· ≠ .fault) := by
  have hsyms : nCodeLenSyms = 19 := rfl
  rw [readRunLen]
  by_cases h16 : len < 16
  · rw [if_pos h16]
    exact ⟨h16, Nat.le_refl 1, h.goes 7⟩
  · rw [if_neg h16]
    by_cases h1 : len = 16
    · obtain ⟨v, r', hget, hgoes, -⟩ := getBits_goes h (show 2 ≤ 15 by decide)
      rw [if_pos h1, hget, ok_bind]
      cases v with
      | none => exact failed_ne_fault
      | some x =>
        exact ⟨hprev, Nat.le_trans (by decide) (Nat.le_add_right 3 x), hgoes.mono (by decide)⟩
    · rw [if_neg h1]
      by_cases h2 : len = 17
      · obtain ⟨v, r', hget, hgoes, -⟩ := getBits_goes h (show 3 ≤ 15 by decide)
        rw [if_pos h2, hget, ok_bind]
        cases v with
        | none => exact failed_ne_fault
        | some x =>
          exact ⟨(by decide : 0 < 16), Nat.le_trans (by decide) (Nat.le_add_right 3 x),
            hgoes.mono (by decide)⟩
      · obtain ⟨v, r', hget, hgoes, -⟩ := getBits_goes h (show 7 ≤ 15 by decide)
        rw [if_neg h2, if_pos (by omega), hget, ok_bind]
        cases v with
        | none => exact failed_ne_fault
        | some x =>
          exact ⟨(by decide : 0 < 16), Nat.le_trans (by decide) (Nat.le_add_right 11 x), hgoes⟩

theorem readVarLoop_ends (D : Decoder lens id d t) (hlens : lens.length ≤ nCodeLenSyms)
    {n readSymbols : Nat} (hread : readSymbols ≤ n) :
    ∀ {fuel i prevLength : Nat} {codeLength : List Nat} {r : BitReader}, i ≤ readSymbols →
      readSymbols < fuel + i → prevLength < 16 → Lens n codeLength → r.Sound →
      -(2 ^ 31) + 22 * fuel ≤ r.bitCount →
      Ends (readVarLoop d t readSymbols fuel i prevLength codeLength r)
        (fun s => Lens n s.1 ∧ Goes (22 * fuel) r s.2) (· ≠ .fault)
  | 0, i, _, _, _, hi, hfuel, _, _, _, _ => by omega
  | fuel + 1, i, prevLength, codeLength, r, hi, hfuel, hprev, hc, h, hlow => by
    rw [readVarLoop]
    by_cases hmore : i < readSymbols
    · obtain ⟨v, r₁, hvalue, hgoes₁, hv⟩ := readValue_goes D h (by omega)
      rw [if_pos hmore, hvalue, ok_bind]
      dsimp only
      by_cases hunset : v = unset
      · rw [if_pos hunset]
        exact failed_ne_fault
      · rw [if_neg hunset]
        obtain ⟨s, hs, hvs⟩ := hv.resolve_left hunset
        have hsym : v < nCodeLenSyms := by
          rw [hvs]
          exact Nat.lt_of_lt_of_le (lt_of_symLen hs) hlens
        refine (readRunLen_ends hsym hprev hgoes₁.sound).bind fun run hrun => ?_
        obtain ⟨l, k, r₂⟩ := run
        obtain ⟨hl, hk, hgoes₂⟩ := hrun
        have hgoes := hgoes₁.trans hgoes₂
        have hcount := hgoes.count_le
        obtain ⟨c, hrun, hc'⟩ := hc.run (i := i) (k := min k (readSymbols - i)) (by omega) hl
        dsimp only at hl hk ⊢
        rw [hrun, ok_bind]
        have hrest := readVarLoop_ends D hlens hread (i := i + min k (readSymbols - i)) (by omega)
          (show readSymbols < fuel + (i + min k (readSymbols - i)) by omega) hl hc'
            hgoes.sound (by omega)
        exact hrest.imp (fun s hs => ⟨hs.1, (hgoes.trans hs.2).mono (by omega)⟩) fun _ he => he
    · rw [if_neg hmore]
      exact ⟨hc, h.goes _⟩

theorem readVarLengths_ends (D : Decoder lens id d t) (hlens : lens.length ≤ nCodeLenSyms)
    {n readSymbols : Nat} (hread : readSymbols ≤ n) {codeLength : List Nat} (hc : Lens n codeLength)
    (h : r.Sound) (hlow : -(2 ^ 31) + 22 * (n + 1) ≤ r.bitCount) :
    Ends (readVarLengths d t readSymbols n codeLength r)
      (fun s => Lens n s.1 ∧ Goes (22 * (n + 1)) r s.2) (· ≠ .fault) := by
  rw [readVarLengths, if_neg (Nat.not_lt_of_le hread)]
  have hloop := readVarLoop_ends D hlens hread (Nat.zero_le readSymbols)
    (show readSymbols < readSymbols + 1 + 0 by omega) (show 0 < 16 by decide) hc h (by omega)
  refine hloop.bind fun s hs => ?_
  obtain ⟨c, r'⟩ := s
  obtain ⟨hc', hgoes⟩ := hs
  obtain ⟨c', hrun, hlens'⟩ := hc'.run (i := readSymbols) (k := n - readSymbols) (by omega)
    (show 0 < 16 by decide)
  dsimp only
  rw [hrun, ok_bind]
  exact ⟨hlens', hgoes.mono (by omega)⟩

/-! ## Tables -/

/-- Any lengths can be sorted. -/
theorem prepareTable_lens (readSymbols : Nat) {symbols : Nat} {codeLength : List Nat}
    (hc : ∀ l ∈ codeLength, l < 16) (hread : readSymbols ≤ codeLength.length)
    (hsymbols : readSymbols ≤ symbols) (hmax : symbols ≤ maxSymbols) :
    ∃ d rev, prepareTable readSymbols symbols codeLength = .ok (d, rev) ∧
      Sorted (codeLength.take readSymbols) symbols id d rev := by
  have hlength : (codeLength.take readSymbols).length = readSymbols := List.length_take_of_le hread
  obtain ⟨d, rev, hprepare, hsorted⟩ := prepareTable_sorted symbols
    (List.take_prefix readSymbols codeLength) (fun l hl => hc l (List.mem_of_mem_take hl))
      (by rw [hlength]; exact hsymbols) hmax
  rw [hlength] at hprepare
  exact ⟨d, rev, hprepare, hsorted⟩

theorem readCount_ends {n least most : Nat} (hn : n ≤ 15) (h : r.Sound) :
    Ends (readCount r n least most) (fun s => least ≤ s.1 ∧ s.1 ≤ most ∧ Goes n r s.2)
      (· ≠ .fault) := by
  obtain ⟨v, r', hget, hgoes, -⟩ := getBits_goes h hn
  rw [readCount, hget, ok_bind]
  cases v with
  | none => exact failed_ne_fault
  | some x =>
    dsimp only
    by_cases hmost : most < x + least
    · rw [if_pos hmost]
      exact failed_ne_fault
    · rw [if_neg hmost]
      exact ⟨Nat.le_add_left _ _, Nat.le_of_not_lt hmost, hgoes⟩

/-- The bits that a header can take at most. -/
def headerBudget : Nat := 8000

/-- **The header of a dynamic block**, whatever it is. -/
theorem dynamicTables_ends (h : r.Sound) (hlow : -(2 ^ 31) + headerBudget ≤ r.bitCount) :
    Ends (dynamicTables r) (fun p => (∃ c, PreparedFor c p) ∧ Goes headerBudget r p.reader)
      (· ≠ .fault) := by
  have hlits : nLiteralSyms = 288 := rfl
  have hoffs : nOffsetSyms = 32 := rfl
  have hsyms : nCodeLenSyms = 19 := rfl
  have hbudget : headerBudget = 8000 := rfl
  rw [dynamicTables]
  refine (readCount_ends (by decide) h).bind fun s₁ hs₁ => ?_
  obtain ⟨literalSyms, r₁⟩ := s₁
  obtain ⟨hlit, hlit', hgoes₁⟩ := hs₁
  refine (readCount_ends (by decide) hgoes₁.sound).bind fun s₂ hs₂ => ?_
  obtain ⟨offsetSyms, r₂⟩ := s₂
  obtain ⟨hoff, hoff', hgoes₂⟩ := hs₂
  refine (readCount_ends (by decide) hgoes₂.sound).bind fun s₃ hs₃ => ?_
  obtain ⟨codeLenSyms, r₃⟩ := s₃
  obtain ⟨-, hcode, hgoes₃⟩ := hs₃
  dsimp only at hlit hlit' hoff hoff' hcode ⊢
  have hstart : Lens (nLiteralSyms + nOffsetSyms) (List.replicate (nLiteralSyms + nOffsetSyms) 0) :=
    ⟨List.length_replicate, fun l hl => by rw [List.eq_of_mem_replicate hl]; decide⟩
  -- the code for lengths
  refine (readRawLengths_ends hcode (by omega) hstart hgoes₃.sound).bind fun s₄ hs₄ => ?_
  obtain ⟨c₄, r₄⟩ := s₄
  obtain ⟨hc₄, hgoes₄⟩ := hs₄
  dsimp only at hc₄ ⊢
  obtain ⟨d, rev, hprepare, hsorted⟩ := prepareTable_lens nCodeLenSyms hc₄.lt
    (by rw [hc₄.length]; omega) (Nat.le_refl nCodeLenSyms) (by decide)
  rw [hprepare, ok_bind]
  have hlength : (c₄.take nCodeLenSyms).length = nCodeLenSyms :=
    List.length_take_of_le (by rw [hc₄.length]; omega)
  have hfinalize := finalizeTable_ends (fun l hl => hc₄.lt l (List.mem_of_mem_take hl))
    (Nat.le_of_eq hlength) (by decide) (fun s hs => Nat.lt_of_lt_of_le hs (by rw [hlength]; decide))
      hsorted
  refine (hfinalize.imp (fun _ hd => hd) fun e he => by rw [he.1]; decide).bind fun s₅ D => ?_
  obtain ⟨d', t'⟩ := s₅
  -- the lengths of both codes
  have hall := (hgoes₁.trans hgoes₂).trans (hgoes₃.trans hgoes₄)
  have hcount := hall.count_le
  refine (readVarLengths_ends D (Nat.le_of_eq hlength) (by omega) hc₄ hgoes₄.sound (by omega)).bind
    fun s₆ hs₆ => ?_
  obtain ⟨c₆, r₆⟩ := s₆
  obtain ⟨hc₆, hgoes₆⟩ := hs₆
  dsimp only at hc₆ ⊢
  have hlen₆ := hc₆.length
  have hdrop : ∀ l ∈ c₆.drop literalSyms, l < 16 := fun l hl => hc₆.lt l (List.mem_of_mem_drop hl)
  obtain ⟨dl, rl, hl, hlsorted⟩ := prepareTable_lens literalSyms hc₆.lt (by omega) hlit'
    (by decide)
  obtain ⟨dd, rd, ho, hosorted⟩ := prepareTable_lens offsetSyms hdrop
    (by rw [List.length_drop]; omega) hoff' (by decide)
  rw [hl, ok_bind, ho, ok_bind]
  refine ⟨⟨⟨c₆.take literalSyms, (c₆.drop literalSyms).take offsetSyms⟩,
    ⟨?_, ?_, ?_, ?_, hlsorted, hosorted⟩⟩, (hall.trans hgoes₆).mono (by omega)⟩
  · exact fun l hl => hc₆.lt l (List.mem_of_mem_take hl)
  · exact fun l hl => hdrop l (List.mem_of_mem_take hl)
  · exact Nat.le_trans (List.length_take_le _ _) hlit'
  · exact Nat.le_trans (List.length_take_le _ _) hoff'

/-- **The tables of a block** are made, or the block is refused. -/
theorem blockTables_ends (dynamicBlock : Bool) (h : r.Sound)
    (hlow : -(2 ^ 31) + headerBudget ≤ r.bitCount) :
    Ends (blockTables r dynamicBlock) (fun p => (∃ c, PreparedFor c p) ∧
      Goes headerBudget r p.reader) (· ≠ .fault) := by
  obtain ⟨p, hp, hprepared, hreader⟩ := staticTables_prepared r
  cases dynamicBlock with
  | true =>
    rw [blockTables, if_pos rfl]
    exact dynamicTables_ends h hlow
  | false =>
    rw [blockTables, if_neg (by simp), hp, ends_ok, hreader]
    exact ⟨⟨_, hprepared⟩, h.goes _⟩

end Umka.Inflate
