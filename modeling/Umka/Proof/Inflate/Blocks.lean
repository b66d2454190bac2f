import Umka.Proof.Inflate.Copy
import Umka.Proof.Inflate.Tables

/-!
# Blocks are inflated to what they stand for

The tokens of a compressed block, one after the other, and the bytes of a stored one. Both go behind
what is already in the buffer, and a copy may reach back into it.
-/

set_option autoImplicit false

namespace Umka.Inflate

open Lib Lib.Deflate

/-- The buffer begins with `data`; from `outDataEnd` on it is as it was. -/
structure Filled (outDataEnd : Nat) (out₀ : List UInt8) (data out : List UInt8) : Prop where
  length : out.length = out₀.length
  bytes : out.take data.length = data
  beyond : out.drop outDataEnd = out₀.drop outDataEnd

variable {outDataEnd : Nat} {out₀ out data : List UInt8} {rest : List Bool}
    {r : BitReader} {c : Codes}
  {t : Tables}

/-! ## Tokens -/

theorem literalValue_length : ∀ lenCode < 29,
    256 < literalValue (257 + lenCode) ∧ literalValue (257 + lenCode) ≠ unset ∧
      (literalValue (257 + lenCode) >>> 16) &&& 15 = lenExtra lenCode ∧
      literalValue (257 + lenCode) &&& 0x7fff = lenBase lenCode := by
  decide +kernel

theorem offsetValue_distance : ∀ distCode < 30,
    offsetValue distCode ≠ unset ∧ (offsetValue distCode >>> 16) &&& 15 = distExtra distCode ∧
      offsetValue distCode &&& 0x7fff = distBase distCode := by
  decide +kernel

theorem literalValue_byte (byte : UInt8) : literalValue byte.toNat = byte.toNat := by
  have hlt : byte.toNat < 256 := byte.toNat_lt
  exact if_neg fun h => absurd (h.1 : 257 ≤ byte.toNat) (by omega)

theorem extra_le :
    (∀ lenCode < 29, lenExtra lenCode ≤ 15) ∧ ∀ distCode < 30, distExtra distCode ≤ 15 := by
  decide

/-- The length and the distance of a match. -/
theorem readMatch_reads (T : TablesFor c t) {lenCode lenBits distCode distBits : Nat}
    (hok : (Token.copy lenCode lenBits distCode distBits).Ok c)
    (hr : r.Reads (toBits (lenExtra lenCode) lenBits ++ (symBits c.distances distCode ++
      (toBits (distExtra distCode) distBits ++ rest)))) :
    ∃ r', readMatch t (literalValue (257 + lenCode)) r =
        .ok (lenBase lenCode + lenBits, distBase distCode + distBits, r') ∧
      r'.block = r.block ∧ r'.Reads rest := by
  obtain ⟨hlen, hlenBits, hdist, hdistBits, -, hsym⟩ := hok
  obtain ⟨-, -, hextra, hbase⟩ := literalValue_length lenCode hlen
  obtain ⟨hset, hextra', hbase'⟩ := offsetValue_distance distCode hdist
  obtain ⟨r₁, hget₁, hblock₁, hreads₁⟩ := hr.getBits_toBits (extra_le.1 lenCode hlen) hlenBits
  obtain ⟨r₂, hread₂, hblock₂, hreads₂⟩ := readValue_reads T.offsets hsym hreads₁
  obtain ⟨r₃, hget₃, hblock₃, hreads₃⟩ := hreads₂.getBits_toBits
    (extra_le.2 distCode hdist) hdistBits
  refine ⟨r₃, ?_, hblock₃.trans (hblock₂.trans hblock₁), hreads₃⟩
  rw [readMatch, hextra, hget₁, ok_bind]
  dsimp only
  rw [hread₂, ok_bind]
  dsimp only
  rw [if_neg hset, hextra', hget₃, ok_bind]
  dsimp only
  rw [hbase, hbase', Nat.add_comm lenBits, Nat.add_comm distBits]

theorem Filled.literal (h : Filled outDataEnd out₀ data out) (hroom : data.length < outDataEnd)
    (hend : outDataEnd ≤ out₀.length) (byte : UInt8) :
    store Stop.fault out data.length (UInt8.ofNat byte.toNat) = .ok (out.set data.length byte) ∧
      Filled outDataEnd out₀ (data ++ [byte]) (out.set data.length byte) := by
  have hlt : data.length < out.length := by
    rw [h.length]
    omega
  refine ⟨by rw [UInt8.ofNat_toNat, store_of_lt _ _ hlt], ?_, ?_, ?_⟩
  · rw [List.length_set, h.length]
  · rw [List.length_append, List.length_singleton,
      List.take_succ_eq_append_getElem (by rw [List.length_set]; exact hlt),
      List.take_set_of_le (Nat.le_refl _), List.getElem_set_self, h.bytes]
  · rw [List.drop_set_of_lt hroom, h.beyond]

theorem Filled.copy (h : Filled outDataEnd out₀ data out) (len dist : Nat) (hlen : 1 ≤ len)
    (hone : 1 ≤ dist) (hback : dist ≤ data.length) (hroom : data.length + len ≤ outDataEnd)
    (hend : outDataEnd ≤ out₀.length) :
    ∃ out', copyMatch outDataEnd data.length len dist out = .ok out' ∧
      Filled outDataEnd out₀ (copyBack dist len data) out' := by
  obtain ⟨out', hok, hlength, hbytes, hbeyond⟩ := copyMatch_ok hlen hone hback hroom
    (by rw [h.length]; exact hend)
  refine ⟨out', hok, hlength.trans h.length, ?_, hbeyond.trans h.beyond⟩
  rw [length_copyBack, hbytes, h.bytes]

/-- **The tokens of a block are read and carried out.** -/
theorem inflateLoop_reads (T : TablesFor c t) (heob : symLen c.literals endOfBlock ≠ 0)
    (hend : outDataEnd ≤ out₀.length) :
    ∀ {tokens : List Token} {data data' out : List UInt8} {r : BitReader} {fuel : Nat},
      (∀ token ∈ tokens, token.Ok c) → applyTokens tokens data = some data' →
      data'.length ≤ outDataEnd → Filled outDataEnd out₀ data out → tokens.length < fuel →
      r.Reads (tokens.flatMap (Token.bits c) ++ (symBits c.literals endOfBlock ++ rest)) →
      ∃ out' r', inflateLoop t outDataEnd fuel out data.length r = .ok (data'.length, out', r') ∧
        Filled outDataEnd out₀ data' out' ∧ r'.block = r.block ∧ r'.Reads rest
  | [], data, data', out, r, fuel, _, happly, _, hfilled, hfuel, hr => by
    obtain ⟨fuel, rfl⟩ : ∃ f, fuel = f + 1 := ⟨fuel - 1, by simp at hfuel; omega⟩
    obtain rfl := Option.some.inj happly
    obtain ⟨r₁, hread, hblock, hreads⟩ := readValue_reads T.literals heob hr
    refine ⟨out, r₁, ?_, hfilled, hblock, hreads⟩
    have hvalue : literalValue endOfBlock = nEodMarkerSym := by decide
    rw [inflateLoop, hread, ok_bind]
    dsimp only
    rw [hvalue, if_neg (by decide), if_pos rfl]
  | token :: tokens, data, data', out, r, fuel, htokens, happly, hroom, hfilled, hfuel, hr => by
    obtain ⟨fuel, rfl⟩ : ∃ f, fuel = f + 1 := ⟨fuel - 1, by omega⟩
    have hfuel' : tokens.length < fuel := by
      rw [List.length_cons] at hfuel
      omega
    have hothers : ∀ t ∈ tokens, t.Ok c := fun t ht => htokens t (List.mem_cons_of_mem _ ht)
    have htoken := htokens token (List.mem_cons_self ..)
    obtain ⟨mid, hmid, hrest⟩ := Option.bind_eq_some_iff.mp happly
    have hgrows := length_applyTokens hrest
    rw [List.flatMap_cons, List.append_assoc] at hr
    cases token with
    | literal byte =>
      obtain rfl := Option.some.inj hmid
      obtain ⟨r₁, hread, hblock₁, hreads₁⟩ := readValue_reads T.literals htoken hr
      have hlt : data.length < outDataEnd := by
        rw [List.length_append, List.length_singleton] at hgrows
        omega
      obtain ⟨hstore, hfilled₁⟩ := hfilled.literal hlt hend byte
      obtain ⟨out', r', hloop, hfilled', hblock', hreads'⟩ :=
        inflateLoop_reads T heob hend hothers hrest hroom hfilled₁ hfuel' hreads₁
      refine ⟨out', r', ?_, hfilled', hblock'.trans hblock₁, hreads'⟩
      rw [List.length_append, List.length_singleton] at hloop
      rw [inflateLoop, hread, ok_bind]
      dsimp only
      rw [literalValue_byte, if_pos byte.toNat_lt, if_pos hlt, hstore, ok_bind, hloop]
    | copy lenCode lenBits distCode distBits =>
      rw [Token.apply] at hmid
      by_cases hback : distBase distCode + distBits ≤ data.length
      · rw [if_pos hback] at hmid
        obtain rfl := Option.some.inj hmid
        rw [length_copyBack] at hgrows
        have hlen := three_le_lenBase lenCode
        have hdist := one_le_distBase distCode
        rw [Token.bits, List.append_assoc, List.append_assoc, List.append_assoc] at hr
        obtain ⟨r₁, hread₁, hblock₁, hreads₁⟩ := readValue_reads T.literals htoken.2.2.2.2.1 hr
        obtain ⟨r₂, hread₂, hblock₂, hreads₂⟩ := readMatch_reads T htoken hreads₁
        obtain ⟨out₂, hcopy, hfilled₂⟩ := hfilled.copy (lenBase lenCode + lenBits) _ (by omega)
          (by omega) hback (by omega) hend
        obtain ⟨out', r', hloop, hfilled', hblock', hreads'⟩ :=
          inflateLoop_reads T heob hend hothers hrest hroom hfilled₂ hfuel' hreads₂
        refine ⟨out', r', ?_, hfilled', hblock'.trans (hblock₂.trans hblock₁), hreads'⟩
        obtain ⟨hbig, hset, -, -⟩ := literalValue_length lenCode htoken.1
        have heod : nEodMarkerSym = 256 := rfl
        rw [length_copyBack] at hloop
        rw [inflateLoop, hread₁, ok_bind]
        dsimp only
        rw [if_neg (by omega), if_neg (by omega), if_neg hset, hread₂, ok_bind]
        dsimp only
        rw [hcopy, ok_bind, hloop]
      · rw [if_neg hback] at hmid
        exact absurd hmid (by simp)

/-- **A compressed block.** -/
theorem decompressBlock_reads {header : Option Header} {tokens : List Token} {pos : Nat}
    {data' : List UInt8} (hok : (Block.coded header tokens).Ok pos)
    (happly : applyTokens tokens data = some data') (hroom : data'.length ≤ outDataEnd)
    (hend : outDataEnd ≤ out₀.length) (hfilled : Filled outDataEnd out₀ data out)
    (hr : r.Reads ((Block.coded header tokens).body ++ rest)) :
    ∃ out' r', decompressBlock r header.isSome out data.length (outDataEnd - data.length) =
        .ok (data'.length - data.length, out', r') ∧
      Filled outDataEnd out₀ data' out' ∧ r'.block = r.block ∧ r'.Reads rest := by
  cases hok with
  | coded hheader hliterals hdistances htokens heob =>
    have hgrows := length_applyTokens happly
    rw [Block.body, List.append_assoc, List.append_assoc] at hr
    obtain ⟨p, t, hp, ht, T, hblock, hreads⟩ := tables_ready hheader hliterals hdistances hr
    obtain ⟨out', r', hloop, hfilled', hblock', hreads'⟩ := inflateLoop_reads T heob hend
      htokens happly hroom hfilled (show tokens.length < outDataEnd - data.length + 1 by omega)
        hreads
    refine ⟨out', r', ?_, hfilled', hblock'.trans hblock, hreads'⟩
    have hsum : data.length + (outDataEnd - data.length) = outDataEnd := by omega
    rw [decompressBlock, hp, ok_bind, ht, ok_bind, hsum, hloop, ok_bind]

/-! ## Stored blocks -/

/-- Sixteen bits at a whole byte are two bytes. -/
theorem short_of_bits {block : List UInt8} {pos n : Nat} (hn : n < 2 ^ 16)
    (h : bitsOf (block.drop pos) = toBits 16 n ++ rest) :
    short block pos = .ok n ∧ pos + 2 ≤ block.length ∧ bitsOf (block.drop (pos + 2)) = rest := by
  have hlen := congrArg List.length h
  simp only [length_bitsOf, List.length_drop, List.length_append, length_toBits] at hlen
  have h0 : pos < block.length := by omega
  have h1 : pos + 1 < block.length := by omega
  rw [List.drop_eq_getElem_cons h0, List.drop_eq_getElem_cons h1, bitsOf_cons, bitsOf_cons,
    ← List.append_assoc] at h
  have hsplit := List.append_inj h (by simp)
  have hvalue := congrArg ofBits hsplit.1
  rw [ofBits_append, ofBits_toBits, ofBits_toBits, ofBits_toBits, length_toBits,
    Nat.mod_eq_of_lt block[pos].toNat_lt, Nat.mod_eq_of_lt block[pos + 1].toNat_lt,
    Nat.mod_eq_of_lt hn, Nat.mul_comm, ← Nat.shiftLeft_eq, Nat.add_comm,
    Nat.shiftLeft_add_eq_or_of_lt block[pos].toNat_lt, Nat.or_comm] at hvalue
  refine ⟨?_, h1, hsplit.2⟩
  rw [short, fetch_of_lt _ h0, ok_bind, fetch_of_lt _ h1, ok_bind, hvalue]

theorem sub_xor_ffff {n : Nat} (hn : n ≤ 0xffff) : (0xffff - n) ^^^ 0xffff = n := by
  have hnot : (~~~ BitVec.ofNat 16 n).toNat = 0xffff - n := by
    rw [BitVec.toNat_not, BitVec.toNat_ofNat, Nat.mod_eq_of_lt (by omega)]
  have htwice : (~~~ ~~~ BitVec.ofNat 16 n).toNat = n := by
    rw [BitVec.not_not, BitVec.toNat_ofNat, Nat.mod_eq_of_lt (by omega)]
  rwa [← BitVec.xor_allOnes, BitVec.toNat_xor, hnot] at htwice

theorem Filled.append (h : Filled outDataEnd out₀ data out) {bytes : List UInt8}
    (hroom : data.length + bytes.length ≤ outDataEnd) (hend : outDataEnd ≤ out₀.length) :
    ∃ out', memcpyTo out data.length bytes = .ok out' ∧
      Filled outDataEnd out₀ (data ++ bytes) out' := by
  have hfits : data.length + bytes.length ≤ out.length := by
    rw [h.length]
    omega
  have hlen : (data ++ bytes).length = data.length + bytes.length := List.length_append
  refine ⟨data ++ bytes ++ out.drop (data.length + bytes.length), ?_, ?_, ?_, ?_⟩
  · rw [memcpyTo, if_pos hfits, h.bytes]
  · rw [List.length_append, hlen, List.length_drop, ← h.length]
    omega
  · rw [List.take_left]
  · rw [List.drop_append, List.drop_eq_nil_of_le (by rw [hlen]; exact hroom), List.nil_append, hlen,
      List.drop_drop, Nat.add_sub_of_le hroom, h.beyond]

/-- The length of a stored block and its complement, at the next whole byte. -/
theorem copyStored_start {pad : List Bool} {n : Nat} (hn : n ≤ 0xffff)
    (hpad : (pad ++ (toBits 16 n ++ (toBits 16 (0xffff - n) ++ rest))).length % 8 = pad.length)
    (hr : r.Reads (pad ++ (toBits 16 n ++ (toBits 16 (0xffff - n) ++ rest)))) :
    ∃ r' : BitReader, r'.block = r.block ∧ r'.bitCount = 0 ∧ r'.data = 0 ∧
      r'.pos + 4 ≤ r'.block.length ∧ bitsOf (r'.block.drop (r'.pos + 4)) = rest ∧
      rest <:+ bitsOf r'.block ∧ ∀ out cur size, copyStored r out cur size =
        (if size < n then .error .failed
        else if r'.block.length < r'.pos + 4 + n then .error .overread
        else do
          let out ← memcpyTo out cur ((r'.block.drop (r'.pos + 4)).take n)
          .ok (n, out, { r' with pos := r'.pos + 4 + n })) := by
  obtain ⟨r', halign, hblock, hreads, hcount, hshift, hbits⟩ := hr.byteAlign (by simp; omega)
  rw [hpad, List.drop_left] at hreads hbits
  obtain ⟨hlen, -, hbits₁⟩ := short_of_bits (by omega) hbits
  obtain ⟨hneg, hin, hbits₂⟩ := short_of_bits (by omega) hbits₁
  rw [Nat.add_assoc r'.pos] at hin hbits₂
  have hsuffix : rest <:+ bitsOf r'.block :=
    ((List.suffix_append _ _).trans (List.suffix_append _ _)).trans hreads.suffix
  refine ⟨r', hblock, hcount, hshift, hin, hbits₂, hsuffix, fun out cur size => ?_⟩
  rw [copyStored, halign, ok_bind, if_neg (by omega), hlen, ok_bind, hneg, ok_bind, sub_xor_ffff hn,
    if_neg (by simp)]

/-- **A stored block.** -/
theorem copyStored_reads {pad : List Bool} {bytes : List UInt8} (hdata : bytes.length ≤ 0xffff)
    (hpad : ((Block.stored pad bytes).body ++ rest).length % 8 = pad.length)
    (hroom : data.length + bytes.length ≤ outDataEnd) (hend : outDataEnd ≤ out₀.length)
    (hfilled : Filled outDataEnd out₀ data out)
    (hr : r.Reads ((Block.stored pad bytes).body ++ rest)) :
    ∃ out' r', copyStored r out data.length (outDataEnd - data.length)
      = .ok (bytes.length, out', r') ∧ Filled outDataEnd out₀ (data ++ bytes) out' ∧
        r'.block = r.block ∧ r'.Reads rest := by
  rw [Block.body, List.append_assoc, List.append_assoc, List.append_assoc] at hr hpad
  obtain ⟨r₁, hblock, hcount, hshift, hin, hbits, hsuffix, hcopied⟩ :=
    copyStored_start hdata hpad hr
  have hall := congrArg List.length hbits
  rw [length_bitsOf, List.length_append, length_bitsOf, List.length_drop] at hall
  have hbytes : (r₁.block.drop (r₁.pos + 4)).take bytes.length = bytes := by
    refine bitsOf_inj ?_
    rw [bitsOf_take, hbits, List.take_left' (length_bitsOf bytes)]
  have hrest : bitsOf (r₁.block.drop (r₁.pos + 4 + bytes.length)) = rest := by
    rw [← List.drop_drop, bitsOf_drop, hbits, List.drop_left' (length_bitsOf bytes)]
  obtain ⟨out', hcopy, hfilled'⟩ := hfilled.append hroom hend
  refine ⟨out', { r₁ with pos := r₁.pos + 4 + bytes.length }, ?_, hfilled', hblock,
    (List.suffix_append _ _).trans hsuffix, [], 0, ⟨hcount, hshift⟩, by decide, by decide,
    by rw [List.nil_append, hrest]; simp, fun _ => rfl⟩
  rw [hcopied, if_neg (by omega), if_neg (by omega), hbytes, hcopy, ok_bind]

end Umka.Inflate
