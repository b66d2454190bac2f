import Umka.Proof.Inflate.Progress
import Umka.Proof.Inflate.Streams

/-!
# No input makes `em_inflate` go astray

Whatever the compressed data are, every access stays inside its array and the buffer, every loop
ends and no shift is too wide; and what comes out has the checksum that was stored. What is left is
the read past the end of the input by a stored block, and the block type that is not set when the
input ends too early.
-/

set_option autoImplicit false

namespace Umka.Inflate

open Lib Lib.Deflate BitReader

variable {outDataEnd max : Nat} {out₀ out data : List UInt8} {r : BitReader} {c : Codes}
    {t : Tables}

/-! ## Matches -/

/-- A match at no distance at all copies every byte onto itself. -/
theorem copyByte_same {cur len : Nat} (hroom : cur + len ≤ out.length) :
    loop (copyByte cur cur) 0 len out = .ok out := by
  have hloop := loop_ok (copyByte cur cur) (i := 0) (n := len) (s := out)
    (I := fun _ o => o = out) ?_ rfl
  · obtain ⟨o, hok, rfl⟩ := hloop
    exact hok
  · rintro j o - hj rfl
    have hlt : cur + j < o.length := by omega
    refine ⟨o, ?_, rfl⟩
    rw [copyByte, fetch_of_lt _ hlt, ok_bind, store_of_lt _ _ hlt, List.set_getElem_self]

theorem Filled.longer (h : Filled outDataEnd out₀ data out) {len : Nat}
    (hroom : data.length + len ≤ outDataEnd) (hend : outDataEnd ≤ out₀.length) :
    ∃ new, new.length = len ∧ Filled outDataEnd out₀ (data ++ new) out := by
  have hlength := h.length
  have hnew : ((out.drop data.length).take len).length = len :=
    List.length_take_of_le (by rw [List.length_drop]; omega)
  refine ⟨(out.drop data.length).take len, hnew, h.length, ?_, h.beyond⟩
  rw [List.length_append, hnew, List.take_add, h.bytes]

/-- **A match** from anywhere. -/
theorem copyMatch_ends {len dist : Nat} (h : Filled outDataEnd out₀ data out)
    (hend : outDataEnd ≤ out₀.length) (hlen : 1 ≤ len) :
    Ends (copyMatch outDataEnd data.length len dist out)
      (fun out' => ∃ new, new.length = len ∧ data.length + len ≤ outDataEnd ∧
        Filled outDataEnd out₀ (data ++ new) out') (· ≠ .fault) := by
  by_cases hback : data.length < dist
  · rw [copyMatch, if_pos hback]
    exact failed_ne_fault
  · by_cases hroom : data.length + len ≤ outDataEnd
    · by_cases hzero : dist = 0
      · subst hzero
        obtain ⟨new, hnew, hfilled⟩ := h.longer hroom hend
        rw [copyMatch, if_neg hback, if_neg (by omega), if_neg (by omega), Nat.sub_zero,
          copyByte_same (by rw [h.length]; omega)]
        exact ⟨new, hnew, hroom, hfilled⟩
      · obtain ⟨out', hcopy, hfilled⟩ := h.copy len dist hlen (Nat.pos_of_ne_zero hzero)
          (Nat.le_of_not_lt hback) hroom hend
        obtain ⟨new, hnew⟩ : data <+: copyBack dist len data := prefix_copyBack len data
        have hlength := congrArg List.length hnew
        rw [List.length_append, length_copyBack] at hlength
        rw [hcopy]
        exact ⟨new, by omega, hroom, by rw [hnew]; exact hfilled⟩
    · rw [copyMatch, if_neg hback, if_neg (by omega), if_pos (by omega)]
      exact failed_ne_fault

/-! ## Compressed blocks -/

/-- The symbols of both codes are those of the format. -/
structure Small (c : Codes) : Prop where
  literals : c.literals.length ≤ nLiteralSyms
  distances : c.distances.length ≤ nOffsetSyms

theorem three_le_literalValue :
    ∀ s < nLiteralSyms, 256 < literalValue s → 3 ≤ literalValue s &&& 0x7fff := by
  decide +kernel

theorem readMatch_ends (T : TablesFor c t) {v : Nat} (hv : 3 ≤ v &&& 0x7fff) (h : r.Sound)
    (hlow : -(2 ^ 31) + 45 ≤ r.bitCount) :
    Ends (readMatch t v r) (fun s => 3 ≤ s.1 ∧ Goes 45 r s.2.2) (· ≠ .fault) := by
  have hextra : ∀ x : Nat, x &&& 15 ≤ 15 := fun x => Nat.and_le_right
  obtain ⟨e₁, r₁, hget₁, hgoes₁, -⟩ := getBits_goes h (hextra (v >>> 16))
  have hgoes₁' := hgoes₁.mono (hextra (v >>> 16))
  have hcount₁ := hgoes₁'.count_le
  rw [readMatch, hget₁, ok_bind]
  cases e₁ with
  | none => exact failed_ne_fault
  | some extraLen =>
    obtain ⟨o, r₂, hvalue, hgoes₂, -⟩ := readValue_goes T.offsets hgoes₁.sound (by omega)
    dsimp only
    rw [hvalue, ok_bind]
    dsimp only
    by_cases hunset : o = unset
    · rw [if_pos hunset]
      exact failed_ne_fault
    · obtain ⟨e₃, r₃, hget₃, hgoes₃, -⟩ := getBits_goes hgoes₂.sound (hextra (o >>> 16))
      rw [if_neg hunset, hget₃, ok_bind]
      cases e₃ with
      | none => exact failed_ne_fault
      | some extraOffset =>
        exact ⟨Nat.le_trans hv (Nat.le_add_left _ _),
          (hgoes₁'.trans hgoes₂).trans (hgoes₃.mono (hextra (o >>> 16)))⟩

/-- **The loop over the symbols of a block** ends, since every one of them makes a byte. -/
theorem inflateLoop_ends (T : TablesFor c t) (hsmall : Small c) (hend : outDataEnd ≤ out₀.length) :
    ∀ {fuel : Nat} {data out : List UInt8} {r : BitReader}, data.length ≤ outDataEnd →
      outDataEnd < fuel + data.length → Filled outDataEnd out₀ data out → r.Sound →
      -(2 ^ 31) + 60 * fuel ≤ r.bitCount →
      Ends (inflateLoop t outDataEnd fuel out data.length r)
        (fun s => ∃ new, s.1 = (data ++ new).length ∧ (data ++ new).length ≤ outDataEnd ∧
          Filled outDataEnd out₀ (data ++ new) s.2.1 ∧ Goes (60 * fuel) r s.2.2) (· ≠ .fault)
  | 0, data, _, _, hdata, hfuel, _, _, _ => by omega
  | fuel + 1, data, out, r, hdata, hfuel, hfilled, h, hlow => by
    obtain ⟨v, r₁, hvalue, hgoes₁, hv⟩ := readValue_goes T.literals h (by omega)
    have hcount₁ := hgoes₁.count_le
    -- what is left of the loop, after `new` has come out
    have hnext : ∀ {new out' : List UInt8} {r' : BitReader}, 1 ≤ new.length →
        (data ++ new).length ≤ outDataEnd → Filled outDataEnd out₀ (data ++ new) out' →
          Goes 60 r r' →
        Ends (inflateLoop t outDataEnd fuel out' (data ++ new).length r')
          (fun s => ∃ new, s.1 = (data ++ new).length ∧ (data ++ new).length ≤ outDataEnd ∧
            Filled outDataEnd out₀ (data ++ new) s.2.1 ∧ Goes (60 * (fuel + 1)) r s.2.2)
            (· ≠ .fault) := by
      intro new out' r' hnew hle hfilled' hgoes
      have hcount := hgoes.count_le
      have hlength : (data ++ new).length = data.length + new.length := List.length_append
      have hrest := inflateLoop_ends T hsmall hend hle
        (show outDataEnd < fuel + (data ++ new).length by omega) hfilled' hgoes.sound (by omega)
      refine hrest.imp (fun s hs => ?_) fun _ he => he
      obtain ⟨more, hcur, hroom, hfilled'', hgoes'⟩ := hs
      rw [List.append_assoc] at hcur hroom hfilled''
      exact ⟨new ++ more, hcur, hroom, hfilled'', (hgoes.trans hgoes').mono (by omega)⟩
    rw [inflateLoop, hvalue, ok_bind]
    dsimp only
    by_cases hliteral : v < 256
    · rw [if_pos hliteral]
      by_cases hroom : data.length < outDataEnd
      · obtain ⟨hstore, hfilled'⟩ := hfilled.literal hroom hend (UInt8.ofNat v)
        rw [UInt8.ofNat_toNat] at hstore
        rw [if_pos hroom, hstore, ok_bind]
        have hone : (data ++ [UInt8.ofNat v]).length = data.length + 1 := List.length_append
        have hgo := hnext (show 1 ≤ [UInt8.ofNat v].length from Nat.le_refl 1)
          (by rw [hone]; exact hroom) hfilled' (hgoes₁.mono (by decide))
        rw [hone] at hgo
        exact hgo
      · rw [if_neg hroom]
        exact failed_ne_fault
    · rw [if_neg hliteral]
      by_cases heod : v = nEodMarkerSym
      · rw [if_pos heod]
        exact ⟨[], by rw [List.append_nil], by rw [List.append_nil]; exact hdata,
          by rw [List.append_nil]; exact hfilled, hgoes₁.mono (by omega)⟩
      · rw [if_neg heod]
        by_cases hunset : v = unset
        · rw [if_pos hunset]
          exact failed_ne_fault
        · obtain ⟨s, hs, hvs⟩ := hv.resolve_left hunset
          have heod256 : nEodMarkerSym = 256 := rfl
          have hthree : 3 ≤ v &&& 0x7fff := by
            rw [hvs]
            exact three_le_literalValue s (Nat.lt_of_lt_of_le (lt_of_symLen hs) hsmall.literals)
              (by omega)
          rw [if_neg hunset]
          refine (readMatch_ends T hthree hgoes₁.sound (by omega)).bind fun m hm => ?_
          obtain ⟨len, dist, r₂⟩ := m
          obtain ⟨hlen, hgoes₂⟩ := hm
          dsimp only at hlen ⊢
          refine (copyMatch_ends hfilled hend (Nat.le_trans (by decide) hlen)).bind
            fun out' hout => ?_
          obtain ⟨new, hnew, hroom, hfilled'⟩ := hout
          have hlength : (data ++ new).length = data.length + len := by
            rw [List.length_append, hnew]
          have hgo := hnext (by omega) (by rw [hlength]; exact hroom) hfilled' (hgoes₁.trans hgoes₂)
          rw [hlength] at hgo
          exact hgo

/-! ## Blocks -/

/-- What a block leaves: some bytes more, and a reader that has not gone back. -/
def Inflates (max : Nat) (out₀ data : List UInt8) (r : BitReader)
    (s : Nat × List UInt8 × BitReader) : Prop :=
  ∃ new, s.1 = new.length ∧ (data ++ new).length ≤ max ∧ Filled max out₀ (data ++ new) s.2.1 ∧
    s.2.2.block = r.block ∧ s.2.2.Sound ∧ r.used ≤ s.2.2.used

/-- The largest buffer for which the count of bits cannot overflow. -/
def SizeOk (max : Nat) : Prop := headerBudget + 60 * (max + 1) + 7 ≤ 2 ^ 31

theorem decompressBlock_ends (dynamicBlock : Bool) (h : r.Sound) (hlow : -7 ≤ r.bitCount)
    (hdata : data.length ≤ max) (hmax : max ≤ out₀.length) (hsize : SizeOk max)
    (hfilled : Filled max out₀ data out) :
    Ends (decompressBlock r dynamicBlock out data.length (max - data.length))
      (Inflates max out₀ data r) (· ≠ .fault) := by
  rw [SizeOk] at hsize
  rw [decompressBlock]
  refine (blockTables_ends dynamicBlock h (by omega)).bind fun p hp => ?_
  obtain ⟨⟨c, hprepared⟩, hgoes⟩ := hp
  have hcount := hgoes.count_le
  refine ((finishTables_ends hprepared).imp (fun _ ht => ht) fun e he => by
    rw [he.1]
    exact failed_ne_fault).bind fun t T => ?_
  have hsum : data.length + (max - data.length) = max := by omega
  have hloop := inflateLoop_ends T ⟨hprepared.literals_length, hprepared.distances_length⟩ hmax
    hdata (show max < max - data.length + 1 + data.length by omega) hfilled hgoes.sound (by omega)
  rw [hsum]
  refine hloop.bind fun s hs => ?_
  obtain ⟨cur, out', r'⟩ := s
  obtain ⟨new, hcur, hroom, hfilled', hgoes'⟩ := hs
  dsimp only at hcur
  have hlength : (data ++ new).length = data.length + new.length := List.length_append
  exact ⟨new, show cur - data.length = new.length by omega, hroom, hfilled',
    hgoes'.block.trans hgoes.block, hgoes'.sound, Int.le_trans hgoes.used_le hgoes'.used_le⟩

theorem short_ok (block : List UInt8) (pos : Nat) (h : pos + 2 ≤ block.length) :
    ∃ n, short block pos = .ok n := by
  have h0 : pos < block.length := by omega
  have h1 : pos + 1 < block.length := by omega
  rw [short, fetch_of_lt _ h0, ok_bind, fetch_of_lt _ h1, ok_bind]
  exact ⟨_, rfl⟩

/-- A stored block goes on from whole bytes; that is behind what was read before, since four bytes
    are still to come and there are never so many in the shifter. -/
theorem copyStored_ends (h : r.Sound) (hdata : data.length ≤ max) (hmax : max ≤ out₀.length)
    (hfilled : Filled max out₀ data out) :
    Ends (copyStored r out data.length (max - data.length)) (Inflates max out₀ data r)
      (· ≠ .fault) := by
  have hcount := h.count_lt
  rw [copyStored, byteAlign, rewind_eq]
  by_cases hback : r.bitCount.toNat / 8 ≤ r.pos
  · rw [if_pos hback]
    dsimp only
    rw [ok_bind]
    dsimp only
    by_cases hroom : r.block.length < r.pos - r.bitCount.toNat / 8 + 4
    · rw [if_pos hroom]
      exact failed_ne_fault
    · have hpos : r.pos < r.block.length := by omega
      have h0 := h.count_nonneg hpos
      obtain ⟨len, hlen⟩ := short_ok r.block (r.pos - r.bitCount.toNat / 8) (by omega)
      obtain ⟨neg, hneg⟩ := short_ok r.block (r.pos - r.bitCount.toNat / 8 + 2) (by omega)
      rw [if_neg hroom, hlen, ok_bind, hneg, ok_bind]
      by_cases hcheck : len ≠ neg ^^^ 0xffff
      · rw [if_pos hcheck]
        exact failed_ne_fault
      · rw [if_neg hcheck]
        by_cases hbig : max - data.length < len
        · rw [if_pos hbig]
          exact failed_ne_fault
        · rw [if_neg hbig]
          by_cases hover : r.block.length < r.pos - r.bitCount.toNat / 8 + 4 + len
          · rw [if_pos hover]
            exact (by decide : Stop.overread ≠ .fault)
          · have hbytes : ((r.block.drop (r.pos - r.bitCount.toNat / 8 + 4)).take len).length
                = len :=
              List.length_take_of_le (by rw [List.length_drop]; omega)
            obtain ⟨out', hcopy, hfilled'⟩ := hfilled.append
              (show data.length +
                ((r.block.drop (r.pos - r.bitCount.toNat / 8 + 4)).take len).length ≤ max by
                rw [hbytes]
                omega) hmax
            rw [if_neg hover, hcopy, ok_bind]
            refine ⟨_, hbytes.symm, by rw [List.length_append, hbytes]; omega, hfilled', rfl,
              ⟨Nat.le_of_not_lt hover, (by decide : (0 : Int) < 32), fun _ => Int.le_refl 0⟩, ?_⟩
            rw [used, used, if_neg (Nat.ne_of_lt hpos)]
            dsimp only
            split <;> omega
  · rw [if_neg hback]
    exact failed_ne_fault

theorem inflateBlock_ends (blockType : Option Nat) (h : r.Sound) (hlow : -7 ≤ r.bitCount)
    (hdata : data.length ≤ max) (hmax : max ≤ out₀.length) (hsize : SizeOk max)
    (hfilled : Filled max out₀ data out) :
    Ends (inflateBlock blockType r out data.length max) (Inflates max out₀ data r)
      (· ≠ .fault) := by
  have hcoded : ∀ (dynamicBlock : Bool) {m : Except Stop (Nat × List UInt8 × BitReader)},
      decompressBlock r dynamicBlock out data.length (max - data.length) = m →
      Ends m (Inflates max out₀ data r) (· ≠ .fault) := by
    rintro dynamicBlock m rfl
    exact decompressBlock_ends dynamicBlock h hlow hdata hmax hsize hfilled
  have hstored := copyStored_ends h hdata hmax hfilled
  -- so that nothing tries to evaluate the fixed tables
  generalize hm : inflateBlock blockType r out data.length max = m
  rcases blockType with - | - | - | - | n
  · rw [← hm]
    exact (by decide : Stop.uninit ≠ .fault)
  · rw [← hm]
    exact hstored
  · exact hcoded false hm
  · exact hcoded true hm
  · rw [← hm]
    exact failed_ne_fault

/-- What the last block leaves. -/
structure Done (type : CheckSumType) (max : Nat) (out₀ data : List UInt8) (r : BitReader)
    (s : Inflated) :
    Prop where
  cur_le : s.curOutOffset ≤ max
  filled : ∃ new, s.curOutOffset = (data ++ new).length ∧ Filled max out₀ (data ++ new) s.out ∧
    s.checkSum = checkSumOf type (data ++ new)
  block : s.reader.block = r.block
  sound : s.reader.Sound
  used : r.used + 2 ≤ s.reader.used

theorem used_le (h : r.Sound) (hlow : -7 ≤ r.bitCount) : r.used ≤ 8 * r.block.length + 15 := by
  have hpos := h.pos_le
  rw [used]
  split <;> omega

/-- **All blocks.** Every one takes some bits, and there are not more of them than the input has,
    and a few that only look like some. -/
theorem inflateBlocks_ends (type : CheckSumType) (hmax : max ≤ out₀.length) (hsize : SizeOk max) :
    ∀ {fuel : Nat} {data out : List UInt8} {r : BitReader}, 1 ≤ fuel →
      8 * r.block.length + 16 ≤ r.used + fuel → data.length ≤ max →
        Filled max out₀ data out → r.Sound →
      Ends (inflateBlocks type max fuel out data.length (checkSumOf type data) r)
        (Done type max out₀ data r) (· ≠ .fault)
  | 0, _, _, _, hfuel, _, _, _, _ => by omega
  | fuel + 1, data, out, r, _, hused, hdata, hfilled, h => by
    obtain ⟨final, r₁, hget₁, hgoes₁, -⟩ := getBits_goes h (show 1 ≤ 15 by decide)
    obtain ⟨blockType, r₂, hget₂, hgoes₂, hsome⟩ :=
      getBits_goes hgoes₁.sound (show 2 ≤ 15 by decide)
    rw [inflateBlocks, hget₁, ok_bind]
    dsimp only
    rw [hget₂, ok_bind]
    dsimp only
    cases blockType with
    | none => exact (by decide : Stop.uninit ≠ .fault)
    | some n =>
      obtain ⟨-, hmore, hlow⟩ := hsome n rfl
      have hbits := used_le hgoes₂.sound hlow
      have hsame : r₂.block = r.block := hgoes₂.block.trans hgoes₁.block
      have hfirst := hgoes₁.used_le
      rw [hsame] at hbits
      refine (inflateBlock_ends (some n) hgoes₂.sound hlow hdata hmax hsize hfilled).bind
        fun s hs => ?_
      obtain ⟨k, out', r₃⟩ := s
      obtain ⟨new, hk, hroom, hfilled', hblock, hsound, hgone⟩ := hs
      dsimp only at hk hfilled' hblock hsound hgone ⊢
      have hlength : (data ++ new).length = data.length + new.length := List.length_append
      have hnew : data ++ (out'.drop data.length).take k = data ++ new := by
        have hbytes := hfilled'.new_bytes (List.prefix_append data new)
        rwa [hlength, Nat.add_sub_cancel_left, ← hk] at hbytes
      rw [updateCheckSum_eq, hnew, hk, ← hlength]
      by_cases hfinal : final = some 0
      · rw [if_pos hfinal]
        have hrest := inflateBlocks_ends type hmax hsize (show 1 ≤ fuel by omega)
          (by rw [hblock, hsame]; omega) hroom hfilled' hsound
        refine hrest.imp (fun s hs => ?_) fun _ he => he
        obtain ⟨more, hcur, hfilled'', hsum⟩ := hs.filled
        rw [List.append_assoc] at hcur hfilled'' hsum
        have hlast := hs.used
        exact ⟨hs.cur_le, ⟨new ++ more, hcur, hfilled'', hsum⟩,
          hs.block.trans (hblock.trans hsame), hs.sound, by omega⟩
      · rw [if_neg hfinal]
        exact ⟨hroom, ⟨new, rfl, hfilled', rfl⟩, hblock.trans hsame, hsound,
          show r.used + 2 ≤ r₃.used by omega⟩

/-! ## The whole stream -/

theorem skipText_ends {input : List UInt8} :
    ∀ {fuel pos : Nat}, input.length < fuel + pos → 1 ≤ fuel →
      Ends (skipText input fuel pos) (fun _ => True) (· ≠ .fault)
  | 0, _, _, hfuel => by omega
  | fuel + 1, pos, hlen, _ => by
    rw [skipText]
    by_cases hend : input.length ≤ pos
    · rw [if_pos hend]
      exact failed_ne_fault
    · have hpos : pos < input.length := Nat.lt_of_not_le hend
      rw [if_neg hend, fetch_of_lt _ hpos, ok_bind]
      by_cases hzero : input[pos] = 0
      · rw [if_pos hzero]
        exact trivial
      · rw [if_neg hzero]
        exact skipText_ends (by omega) (by omega)

theorem skipBytes_ends (input : List UInt8) (pos n : Nat) :
    Ends (skipBytes input pos n) (fun _ => True) (· ≠ .fault) := by
  rw [skipBytes]
  split
  · exact failed_ne_fault
  · exact trivial

theorem skipExtra_ends (input : List UInt8) (flags : UInt8) (pos : Nat) :
    Ends (skipExtra input flags pos) (fun _ => True) (· ≠ .fault) := by
  rw [skipExtra]
  split
  · by_cases hroom : input.length < pos + 2
    · rw [if_pos hroom]
      exact failed_ne_fault
    · obtain ⟨n, hn⟩ := short_ok input pos (by omega)
      rw [if_neg hroom, hn, ok_bind]
      exact skipBytes_ends input (pos + 2) n
  · exact trivial

theorem gzipHeader_ends (input : List UInt8) :
    Ends (gzipHeader input) (fun _ => True) (· ≠ .fault) := by
  have htext : ∀ pos, Ends (skipText input (input.length + 1) pos) (fun _ => True) (· ≠ .fault) :=
    fun pos =>
    skipText_ends (by omega) (by omega)
  rw [gzipHeader]
  by_cases hroom : input.length < 2 + 8
  · rw [if_pos hroom]
    exact failed_ne_fault
  · rw [if_neg hroom, fetch_of_lt _ (show 2 < input.length by omega), ok_bind]
    split
    · exact failed_ne_fault
    · rw [fetch_of_lt _ (show 3 < input.length by omega), ok_bind]
      refine Ends.bind (P := fun _ => True) ?_ fun pos₁ _ => ?_
      · rw [skipPart]
        split
        · exact skipBytes_ends input 10 2
        · exact trivial
      refine (skipExtra_ends input _ pos₁).bind fun pos₂ _ => ?_
      refine Ends.bind (P := fun _ => True) ?_ fun pos₃ _ => ?_
      · rw [skipName]
        split
        · exact htext pos₂
        · exact trivial
      refine Ends.bind (P := fun _ => True) ?_ fun pos₄ _ => ?_
      · rw [skipComment]
        split
        · exact htext pos₃
        · exact trivial
      split
      · exact failed_ne_fault
      · exact trivial

theorem readHeader_ends (input : List UInt8) :
    Ends (readHeader input) (fun _ => True) (· ≠ .fault) := by
  rw [readHeader]
  by_cases hroom : input.length < 2
  · rw [if_pos hroom]
    exact failed_ne_fault
  · rw [if_neg hroom, fetch_of_lt _ (show 0 < input.length by omega), ok_bind,
      fetch_of_lt _ (show 1 < input.length by omega), ok_bind]
    split
    · exact (gzipHeader_ends input).bind fun _ _ => trivial
    · split
      · refine Ends.bind (P := fun _ => True) ?_ fun _ _ => trivial
        rw [zlibHeader]
        split
        · split
          · exact skipBytes_ends input 2 4
          · exact trivial
        · exact trivial
      · exact trivial

/-- The first whole byte that no bit has been read of. -/
def BitReader.wholeByte (r : BitReader) : Nat := ((r.used + 7) / 8).toNat

/-- After a block there is always a place to go back to; with four bytes behind it, it is the first
    whole byte, since no zeros have been put behind the last one then. -/
theorem finalAlign_ends (h : r.Sound) (hused : 2 ≤ r.used) :
    ∃ r', finalAlign r = .ok r' ∧ r'.block = r.block ∧
      (r'.pos + 4 ≤ r'.block.length → r'.pos = r.wholeByte) := by
  have hcount := h.count_lt
  have hback : r.bitCount.toNat / 8 ≤ r.pos := by
    rw [used] at hused
    split at hused <;> omega
  refine ⟨{ r with bitCount := 0, data := 0, pos := r.pos - r.bitCount.toNat / 8 },
    by rw [finalAlign, byteAlign_eq hback], rfl, fun hroom => ?_⟩
  have hpos : r.pos < r.block.length := by
    dsimp only at hroom
    omega
  have h0 := h.count_nonneg hpos
  rw [wholeByte, used, if_neg (Nat.ne_of_lt hpos)]
  dsimp only
  omega

theorem verifyCheckSum_ends (type : CheckSumType) (x : UInt32) (r : BitReader) :
    Ends (verifyCheckSum type x r)
      (fun _ => type ≠ .none →
        r.pos + 4 ≤ r.block.length ∧ storedCheckSum type r.block r.pos = .ok x) (· ≠ .fault) := by
  rw [verifyCheckSum]
  by_cases hnone : type = .none
  · rw [if_pos hnone]
    exact fun h => absurd hnone h
  · rw [if_neg hnone]
    by_cases hroom : r.block.length < r.pos + 4
    · rw [if_pos hroom]
      exact failed_ne_fault
    · obtain ⟨b0, b1, b2, b3, rest, hdrop⟩ : ∃ b0 b1 b2 b3 rest,
          r.block.drop r.pos = b0 :: b1 :: b2 :: b3 :: rest := by
        rw [List.drop_eq_getElem_cons (show r.pos < r.block.length by omega),
          List.drop_eq_getElem_cons (show r.pos + 1 < r.block.length by omega),
          List.drop_eq_getElem_cons (show r.pos + 1 + 1 < r.block.length by omega),
          List.drop_eq_getElem_cons (show r.pos + 1 + 1 + 1 < r.block.length by omega)]
        exact ⟨_, _, _, _, _, rfl⟩
      obtain ⟨y, hy⟩ : ∃ y, storedCheckSum type r.block r.pos = .ok y :=
        ⟨_, storedCheckSum_ok hdrop⟩
      rw [if_neg hroom, hy, ok_bind]
      by_cases hsame : y = x
      · rw [if_neg (not_not_intro hsame), hsame]
        exact fun _ => ⟨Nat.le_of_not_lt hroom, rfl⟩
      · rw [if_pos hsame]
        exact failed_ne_fault

/-- The bytes `data` have come out of the blocks of `input`, and the checksum is in the input, at
    the first whole byte behind the last block. -/
def Checked (input out : List UInt8) (max : Nat) (type : CheckSumType) (pos : Nat)
    (data : List UInt8) : Prop :=
  ∃ s, inflateBlocks type max (8 * input.length + 16) out 0 (initCheckSum type)
      (.init (input.drop pos)) = .ok s ∧
    s.out.take s.curOutOffset = data ∧
    storedCheckSum type (input.drop pos) s.reader.wholeByte = .ok (checkSumOf type data)

/-- What is known of a result: the data are in the buffer and nothing else is, and they are checked
    if there is to be a checksum. -/
structure Result (input out : List UInt8) (max : Nat) (s : Nat × List UInt8) : Prop where
  size_le : s.1 ≤ max
  filled : Filled max out (s.2.take s.1) s.2
  checked : ∀ type pos, readHeader input = .ok (type, pos) → type ≠ .none →
    Checked input out max type pos (s.2.take s.1)

theorem emInflate_ends (input : List UInt8) (hmax : max ≤ out.length) (hsize : SizeOk max) :
    Ends (emInflate input out max) (Result input out max) (· ≠ .fault) := by
  rw [emInflate]
  refine (readHeader_ends input).and_eq.bind fun header hheader => ?_
  obtain ⟨type, pos⟩ := header
  dsimp only
  have hused : 8 * (init (input.drop pos)).block.length + 16 ≤
      (init (input.drop pos)).used + (8 * input.length + 16 : Nat) := by
    have hzero := used_init (input.drop pos)
    have hle : (init (input.drop pos)).block.length = input.length - pos := List.length_drop
    omega
  have hblocks := inflateBlocks_ends type hmax hsize (show 1 ≤ 8 * input.length + 16 by omega) hused
    (show ([] : List UInt8).length ≤ max from Nat.zero_le max) ⟨rfl, rfl, rfl⟩ (sound_init _)
  rw [← initCheckSum_eq, List.length_nil] at hblocks
  refine hblocks.and_eq.bind fun s hs => ?_
  obtain ⟨hrun, hs⟩ := hs
  obtain ⟨new, hcur, hfilled, hsum⟩ := hs.filled
  have htwo : 2 ≤ s.reader.used := by
    have h₁ := hs.used
    have h₂ := used_init (input.drop pos)
    omega
  obtain ⟨r', halign, hblock, hplace⟩ := finalAlign_ends hs.sound htwo
  rw [halign, ok_bind]
  refine (verifyCheckSum_ends type s.checkSum r').bind fun _ hchecked => ?_
  rw [List.nil_append] at hcur hfilled hsum
  have htake : s.out.take s.curOutOffset = new := by rw [hcur, hfilled.bytes]
  refine ⟨hs.cur_le, by rw [htake]; exact hfilled, fun type' pos' hread hsome => ?_⟩
  rw [hheader.1] at hread
  obtain ⟨rfl, rfl⟩ := Prod.mk.inj (Except.ok.inj hread)
  refine ⟨s, hrun, rfl, ?_⟩
  obtain ⟨hroom, hstored⟩ := hchecked hsome
  rwa [hplace hroom, hblock, hs.block, hsum, ← htake] at hstored

theorem sizeOk_of_le (h : max ≤ 2 ^ 25) : SizeOk max := by
  have hbudget : headerBudget = 8000 := rfl
  rw [SizeOk]
  omega

/-- **No input leads outside the arrays and the buffer**, or into a loop without an end, and what
    comes out stays in the room it was given. -/
theorem emInflate_never_faults (input : List UInt8) (hmax : max ≤ out.length)
    (hsize : max ≤ 2 ^ 25) :
    emInflate input out max ≠ .error .fault ∧
      ∀ n out', emInflate input out max = .ok (n, out') →
        n ≤ max ∧ out'.length = out.length ∧ out'.drop max = out.drop max := by
  have hends := emInflate_ends input hmax (sizeOk_of_le hsize)
  constructor
  · intro hfault
    rw [hfault] at hends
    exact hends rfl
  · intro n out' hok
    rw [hok] at hends
    exact ⟨hends.size_le, hends.filled.length, hends.filled.beyond⟩

theorem emInflate_never_faults_short :
    emInflate [0x78, 0x9c, 0x05, 0xe0] (List.replicate 9 0) 8 ≠ .error .fault ∧
      ∀ n out', emInflate [0x78, 0x9c, 0x05, 0xe0] (List.replicate 9 0) 8 = .ok (n, out') →
        n ≤ 8 ∧ out'.length = 9 ∧ out'.drop 8 = [0] :=
  emInflate_never_faults _ (by decide) (by decide)

/-- **Data that come out of zlib or gzip have the checksum that is behind the last block.** -/
theorem emInflate_checked {input out' : List UInt8} {n pos : Nat} {type : CheckSumType}
    (hmax : max ≤ out.length) (hsize : max ≤ 2 ^ 25)
    (hok : emInflate input out max = .ok (n, out'))
    (hheader : readHeader input = .ok (type, pos)) (htype : type ≠ .none) :
    Checked input out max type pos (out'.take n) := by
  have hends := emInflate_ends input hmax (sizeOk_of_le hsize)
  rw [hok] at hends
  exact hends.checked type pos hheader htype

theorem emInflate_checked_ab :
    Checked [0x78, 0x01, 1, 2, 0, 253, 255, 0x61, 0x62, 0x01, 0x26, 0x00, 0xc4] [9, 9, 9] 3 .zlib 2
      [0x61, 0x62] :=
  @emInflate_checked 3 [9, 9, 9] [0x78, 0x01, 1, 2, 0, 253, 255, 0x61, 0x62, 0x01, 0x26, 0x00, 0xc4]
    [0x61, 0x62, 9] 2 2 .zlib (by decide) (by decide) (by decide +kernel) (by decide +kernel)
    (by decide)

end Umka.Inflate
