import Umka.Lib.Containers
import Umka.Proof.Inflate.Blocks
import Umka.Proof.Inflate.Checksum
import Umka.Inflate.Stream

/-!
# Streams are inflated to what they stand for

One block after the other, with the checksum of all that has come out, and then the checksum that is
stored. What comes in front of the blocks says which one it is.
-/

set_option autoImplicit false

namespace Umka.Inflate

open Lib Lib.Deflate

variable {max : Nat} {out₀ out data data' : List UInt8} {rest : List Bool} {r : BitReader}
  {type : CheckSumType}

/-! ## Checksums -/

/-- The checksum of some data. -/
def checkSumOf : CheckSumType → List UInt8 → UInt32
  | .none, _ => 0
  | .gzip, data => .ofBitVec (crc32 data)
  | .zlib, data => UInt32.ofNat (adler32 data)

/-- How it is stored. -/
def checkSumBytes : CheckSumType → UInt32 → List UInt8
  | .none, _ => []
  | .gzip, x => leBytes x
  | .zlib, x => beBytes x

theorem initCheckSum_eq (type : CheckSumType) : initCheckSum type = checkSumOf type [] := by
  cases type <;> rfl

theorem updateCheckSum_eq (type : CheckSumType) (data bytes : List UInt8) :
    updateCheckSum type (checkSumOf type data) bytes = checkSumOf type (data ++ bytes) := by
  cases type with
  | none => rfl
  | gzip => exact crc32_4bytes_append data bytes
  | zlib => exact adler32Z_append data bytes

/-- Four bytes that are there. -/
theorem storedCheckSum_ok {block rest : List UInt8} {pos : Nat} {b0 b1 b2 b3 : UInt8}
    (h : block.drop pos = b0 :: b1 :: b2 :: b3 :: rest) :
    storedCheckSum type block pos = .ok (if type = .gzip then
      b0.toUInt32 ||| b1.toUInt32 <<< 8 ||| b2.toUInt32 <<< 16 ||| b3.toUInt32 <<< 24
      else b0.toUInt32 <<< 24 ||| b1.toUInt32 <<< 16 ||| b2.toUInt32 <<< 8 ||| b3.toUInt32) := by
  have hget : ∀ i, block[pos + i]? = (b0 :: b1 :: b2 :: b3 :: rest)[i]? := fun i => by
    rw [← h, List.getElem?_drop]
  have h0 : block[pos]? = some b0 := hget 0
  rw [storedCheckSum, fetch_of_some h0, ok_bind, fetch_of_some (hget 1), ok_bind,
    fetch_of_some (hget 2), ok_bind, fetch_of_some (hget 3), ok_bind]
  split <;> rfl

theorem verifyCheckSum_ok {x : UInt32} {trailing : List UInt8}
    (h : r.block.drop r.pos = checkSumBytes type x ++ trailing) :
    verifyCheckSum type x r = .ok () := by
  have hlen := congrArg List.length h
  rw [List.length_drop, List.length_append] at hlen
  cases type with
  | none => rfl
  | gzip =>
    have hroom : ¬ r.block.length < r.pos + 4 := by
      simp only [checkSumBytes, leBytes, List.length_cons, List.length_nil] at hlen
      omega
    rw [verifyCheckSum, if_neg (by simp), if_neg hroom, storedCheckSum_ok h, ok_bind, if_pos rfl,
      word_byteAt, if_neg (by simp)]
  | zlib =>
    have hroom : ¬ r.block.length < r.pos + 4 := by
      simp only [checkSumBytes, beBytes, List.length_cons, List.length_nil] at hlen
      omega
    rw [verifyCheckSum, if_neg (by simp), if_neg hroom, storedCheckSum_ok h, ok_bind,
      if_neg (by decide : CheckSumType.zlib ≠ .gzip), word_byteAt_rev, if_neg (by simp)]

/-! ## Blocks -/

/-- A block of either kind, behind the bits for its type. -/
theorem inflateBlock_reads {b : Block} {pos : Nat} (hok : b.Ok pos)
    (happly : b.apply data = some data')
    (hpos : 8 * r.block.length = pos + 3 + (b.body ++ rest).length) (hroom : data'.length ≤ max)
    (hmax : max ≤ out₀.length) (hfilled : Filled max out₀ data out)
    (hr : r.Reads (b.body ++ rest)) :
    ∃ out' r', inflateBlock (some b.type) r out data.length max
      = .ok (data'.length - data.length, out', r') ∧ Filled max out₀ data' out' ∧
        r'.block = r.block ∧ r'.Reads rest := by
  cases b with
  | stored pad bytes =>
    cases hok with
    | stored hpad halign hdata =>
      obtain rfl := Option.some.inj happly
      rw [List.length_append] at hroom
      have hlen : ((Block.stored pad bytes).body ++ rest).length % 8 = pad.length := by omega
      obtain ⟨out', r', hcopy, hfilled', hblock, hreads⟩ :=
        copyStored_reads hdata hlen hroom hmax hfilled hr
      refine ⟨out', r', ?_, hfilled', hblock, hreads⟩
      rw [List.length_append, Nat.add_sub_cancel_left]
      exact hcopy
  | coded header tokens =>
    obtain ⟨out', r', hdecompress, hfilled', hblock, hreads⟩ :=
      decompressBlock_reads hok happly hroom hmax hfilled hr
    refine ⟨out', r', ?_, hfilled', hblock, hreads⟩
    cases header with
    | none => exact hdecompress
    | some h => exact hdecompress

/-- The bytes of a block are those between what was there and what is there. -/
theorem Filled.new_bytes (h : Filled max out₀ data' out) (hpre : data <+: data') :
    data ++ (out.drop data.length).take (data'.length - data.length) = data' := by
  rw [← List.drop_take, h.bytes]
  obtain ⟨new, rfl⟩ := hpre
  rw [List.drop_left]

/-- **All blocks**, up to the last one. -/
theorem inflateBlocks_reads (type : CheckSumType) (hmax : max ≤ out₀.length) :
    ∀ {blocks : List Block} {pos fuel : Nat} {data data' out : List UInt8} {r : BitReader},
      blocks ≠ [] → BlocksOk pos blocks → applyBlocks blocks data = some data' →
        data'.length ≤ max →
      Filled max out₀ data out → blocks.length ≤ fuel →
      8 * r.block.length = pos + (bits blocks ++ rest).length → r.Reads (bits blocks ++ rest) →
      ∃ s, inflateBlocks type max fuel out data.length (checkSumOf type data) r = .ok s ∧
        s.curOutOffset = data'.length ∧ Filled max out₀ data' s.out ∧
        s.checkSum = checkSumOf type data' ∧ s.reader.block = r.block ∧ s.reader.Reads rest
  | [], _, _, _, _, _, _, hne, _, _, _, _, _, _, _ => absurd rfl hne
  | b :: bs, pos, fuel, data, data', out, r, _, hok, happly, hroom, hfilled, hfuel, hpos, hr => by
    obtain ⟨fuel, rfl⟩ : ∃ f, fuel = f + 1 := ⟨fuel - 1, by rw [List.length_cons] at hfuel; omega⟩
    obtain ⟨hb, hbs⟩ := hok
    obtain ⟨mid, hmid, hrest⟩ := Option.bind_eq_some_iff.mp happly
    have hgrows := (prefix_applyBlocks hrest).length_le
    rw [bits_cons, List.append_assoc] at hr hpos
    rw [List.length_append, length_bits] at hpos
    rw [length_bits] at hbs
    -- three bits and the block
    have hfinal : [bs.isEmpty] = toBits 1 bs.isEmpty.toNat := by cases bs <;> rfl
    have hbits : b.bits bs.isEmpty = toBits 1 bs.isEmpty.toNat ++ (toBits 2 b.type ++ b.body) := by
      rw [← hfinal]
      rfl
    rw [hbits, List.append_assoc, List.append_assoc] at hr
    obtain ⟨r₁, hget₁, hblock₁, hreads₁⟩ := hr.getBits_toBits (by decide) (Bool.toNat_lt _)
    obtain ⟨r₂, hget₂, hblock₂, hreads₂⟩ :=
      hreads₁.getBits_toBits (by decide) (Nat.lt_succ_of_le (Nat.le_succ_of_le b.type_le))
    have hpos₂ : 8 * r₂.block.length = pos + 3 + (b.body ++ (bits bs ++ rest)).length := by
      have hsplit : (b.body ++ (bits bs ++ rest)).length
          = b.body.length + (bits bs ++ rest).length :=
        List.length_append
      rw [hblock₂, hblock₁, hpos, hsplit]
      omega
    obtain ⟨out₃, r₃, hblock, hfilled₃, hblock₃, hreads₃⟩ := inflateBlock_reads hb hmid hpos₂
      (Nat.le_trans hgrows hroom) hmax hfilled hreads₂
    have hmidpre := Block.prefix_apply hmid
    have hcur : data.length + (mid.length - data.length) = mid.length :=
      Nat.add_sub_of_le hmidpre.length_le
    have hall : r₃.block = r.block := hblock₃.trans (hblock₂.trans hblock₁)
    rw [inflateBlocks, hget₁, ok_bind]
    dsimp only
    rw [hget₂, ok_bind]
    dsimp only
    rw [hblock, ok_bind]
    dsimp only
    rw [updateCheckSum_eq, hfilled₃.new_bytes hmidpre, hcur]
    cases bs with
    | nil =>
      obtain rfl := Option.some.inj hrest
      rw [if_neg (by simp)]
      exact ⟨_, rfl, rfl, hfilled₃, rfl, hall, hreads₃⟩
    | cons c bs =>
      rw [List.length_cons] at hfuel
      obtain ⟨s, hloop, hs⟩ := inflateBlocks_reads type hmax (List.cons_ne_nil c bs) hbs hrest
        hroom hfilled₃ (Nat.le_of_succ_le_succ hfuel) (by rw [hall, hpos]; omega) hreads₃
      rw [if_pos (show some (c :: bs).isEmpty.toNat = some 0 from rfl), hloop]
      rw [hall] at hs
      exact ⟨s, rfl, hs⟩

/-! ## The whole stream -/

/-- After the last block, behind the bits that say nothing, is the checksum. -/
theorem finalAlign_verify {pad : List Bool} {x : UInt32} {trailing : List UInt8}
    (hpad : pad.length < 8) (hr : r.Reads (pad ++ bitsOf (checkSumBytes type x ++ trailing)))
    (hread : (pad ++ bitsOf (checkSumBytes type x ++ trailing)).length < 8 * r.block.length) :
    ∃ r', finalAlign r = .ok r' ∧ verifyCheckSum type x r' = .ok () := by
  by_cases hnone : type = .none
  · obtain ⟨r', halign⟩ := hr.byteAlign_ok hread
    refine ⟨r', by rw [finalAlign, halign], ?_⟩
    rw [verifyCheckSum, if_pos hnone]
  · have hfour : 4 ≤ (checkSumBytes type x).length := by
      cases type with
      | none => exact absurd rfl hnone
      | gzip | zlib => exact Nat.le_refl 4
    have hlength : (pad ++ bitsOf (checkSumBytes type x ++ trailing)).length =
        pad.length + 8 * ((checkSumBytes type x).length + trailing.length) := by
      rw [List.length_append, length_bitsOf, List.length_append]
    obtain ⟨r', halign, -, -, -, -, hbits⟩ := hr.byteAlign (by omega)
    rw [List.drop_left' (by omega)] at hbits
    exact ⟨r', by rw [finalAlign, halign], verifyCheckSum_ok (bitsOf_inj hbits)⟩

/-- **The blocks behind a header**, whichever it is. -/
theorem emInflate_reads {input bytes trailing : List UInt8} {pos : Nat}
    (hheader : readHeader input = .ok (type, pos))
    (hinput : input.drop pos = bytes ++ (checkSumBytes type (checkSumOf type data) ++ trailing))
    (h : Deflated bytes data) (hroom : data.length ≤ max) (hmax : max ≤ out.length) :
    ∃ out', emInflate input out max = .ok (data.length, out') ∧ Filled max out data out' := by
  obtain ⟨blocks, pad, hne, hok, happly, hpad, hbits⟩ := h
  have hfew := length_le_bits blocks
  have hstream : bitsOf (input.drop pos) =
      bits blocks ++ (pad ++ bitsOf (checkSumBytes type (checkSumOf type data) ++ trailing)) := by
    rw [hinput, bitsOf_append, hbits, List.append_assoc]
  have hlength := congrArg List.length hstream
  rw [length_bitsOf, List.length_append, List.length_drop] at hlength
  have hreads := BitReader.reads_init (input.drop pos)
  rw [hstream] at hreads
  have hwhole : 8 * (BitReader.init (input.drop pos)).block.length =
      0 +
        (bits blocks ++
          (pad ++ bitsOf (checkSumBytes type (checkSumOf type data) ++ trailing))).length := by
    rw [Nat.zero_add, ← hstream, length_bitsOf]
    rfl
  obtain ⟨s, hloop, hcur, hfilled, hsum, hblock, hrest⟩ :=
    inflateBlocks_reads type hmax hne hok happly hroom ⟨rfl, rfl, rfl⟩
      (show blocks.length ≤ 8 * input.length + 16 by omega) hwhole hreads
  refine ⟨s.out, ?_, hfilled⟩
  have hsome : blocks.length ≠ 0 := fun h => hne (List.length_eq_zero_iff.mp h)
  have hread : (pad ++ bitsOf (checkSumBytes type (checkSumOf type data) ++ trailing)).length <
      8 * s.reader.block.length := by
    rw [hblock, hwhole, Nat.zero_add]
    simp only [List.length_append]
    omega
  obtain ⟨r', halign, hverify⟩ := finalAlign_verify hpad hrest hread
  rw [emInflate, hheader, ok_bind]
  dsimp only
  rw [initCheckSum_eq, show (0 : Nat) = ([] : List UInt8).length from rfl, hloop, ok_bind,
    halign, ok_bind, hsum, hverify, ok_bind, hcur]

/-! ## Headers -/

variable {input field rest' bytes trailing : List UInt8} {flags : UInt8} {pos : Nat}

theorem lt_of_drop {b : UInt8} (h : input.drop pos = b :: rest') : pos < input.length := by
  refine Nat.lt_of_not_le fun hle => ?_
  rw [List.drop_eq_nil_of_le hle] at h
  exact absurd h (by simp)

theorem getElem?_of_drop {b : UInt8} (h : input.drop pos = b :: rest') : input[pos]? = some b := by
  rw [← Nat.add_zero pos, ← List.getElem?_drop, h, List.getElem?_cons_zero]

theorem drop_succ {b : UInt8} (h : input.drop pos = b :: rest') : input.drop (pos + 1) = rest' := by
  rw [← List.drop_drop, h, List.drop_one, List.tail_cons]

theorem drop_behind (h : input.drop pos = field ++ rest') :
    input.drop (pos + field.length) = rest' := by
  rw [← List.drop_drop, h, List.drop_left]

theorem skipText_ok : ∀ {text : List UInt8} {pos fuel : Nat}, 0 ∉ text →
    input.drop pos = text ++ 0 :: rest' → text.length < fuel →
    skipText input fuel pos = .ok (pos + (text ++ [0]).length)
  | [], pos, fuel, _, hdrop, hfuel => by
    obtain ⟨fuel, rfl⟩ : ∃ f, fuel = f + 1 := ⟨fuel - 1, by rw [List.length_nil] at hfuel; omega⟩
    rw [skipText, if_neg (Nat.not_le_of_lt (lt_of_drop hdrop)),
      fetch_of_some (getElem?_of_drop hdrop), ok_bind, if_pos rfl]
    rfl
  | b :: text, pos, fuel, htext, hdrop, hfuel => by
    obtain ⟨fuel, rfl⟩ : ∃ f, fuel = f + 1 := ⟨fuel - 1, by omega⟩
    rw [List.length_cons] at hfuel
    have hb : b ≠ 0 := fun h => htext (h ▸ List.mem_cons_self)
    rw [skipText, if_neg (Nat.not_le_of_lt (lt_of_drop hdrop)),
      fetch_of_some (getElem?_of_drop hdrop), ok_bind, if_neg hb,
      skipText_ok (fun h => htext (List.mem_cons_of_mem _ h)) (drop_succ hdrop) (by omega)]
    rw [List.cons_append, List.length_cons, Nat.add_assoc, Nat.add_comm 1]

/-- A text that is there if the flag is set. -/
theorem skipText_optional {p : Prop} [Decidable p] (h : if p then IsText field else field = [])
    (hdrop : input.drop pos = field ++ rest') :
    (if p then skipText input (input.length + 1) pos else .ok pos) = .ok (pos + field.length) := by
  by_cases hp : p
  · rw [if_pos hp] at h
    obtain ⟨text, htext, rfl⟩ := h
    rw [List.append_assoc] at hdrop
    have hlen := congrArg List.length hdrop
    simp only [List.length_drop, List.length_append] at hlen
    rw [if_pos hp, skipText_ok htext hdrop (by omega)]
  · rw [if_neg hp] at h
    rw [if_neg hp, h]
    rfl

theorem skipExtra_ok (h : if flags &&& 0x04 ≠ 0 then IsExtra field else field = [])
    (hdrop : input.drop pos = field ++ rest') : skipExtra input flags pos
      = .ok (pos + field.length) := by
  rw [skipExtra]
  by_cases hp : flags &&& 0x04 ≠ 0
  · rw [if_pos hp] at h
    obtain ⟨lo, hi, body, rfl, hbody⟩ := h
    have hlen := congrArg List.length hdrop
    simp only [List.length_drop, List.length_append, List.length_cons] at hlen
    have hlo : input[pos]? = some lo := getElem?_of_drop hdrop
    have hhi : input[pos + 1]? = some hi := getElem?_of_drop (drop_succ hdrop)
    have hvalue : lo.toNat ||| hi.toNat <<< 8 = body.length := by
      rw [or_shift lo.toNat_lt, hbody]
    rw [if_pos hp, if_neg (by omega), short, fetch_of_some hlo, ok_bind, fetch_of_some hhi,
      ok_bind, ok_bind, hvalue, skipBytes, if_neg (by omega), List.length_cons, List.length_cons,
      Nat.add_assoc, Nat.add_comm 2]
  · rw [if_neg hp] at h
    rw [if_neg hp, h]
    rfl

theorem skipPart_ok (h : field.length = if flags &&& 0x02 ≠ 0 then 2 else 0)
    (hdrop : input.drop pos = field ++ rest') : skipPart input flags pos
      = .ok (pos + field.length) := by
  have hlen := congrArg List.length hdrop
  rw [List.length_drop, List.length_append] at hlen
  rw [skipPart]
  by_cases hp : flags &&& 0x02 ≠ 0
  · rw [if_pos hp] at h
    rw [if_pos hp, skipBytes, if_neg (by omega), h]
  · rw [if_neg hp] at h
    rw [if_neg hp, h]
    rfl

theorem and_eq_zero_of_and {m : UInt8} (h : flags &&& m = 0) {k : UInt8} (hk : m &&& k = k) :
    flags &&& k = 0 := by
  rw [← hk, ← UInt8.and_assoc, h, UInt8.zero_and]

/-- The checksum of the header is last, but the source looks for it first, so it has to be alone. -/
theorem gzip_fields (h : GzipHeader) (hcrc16 : h.flags &&& 0x02 = 0 ∨ h.flags &&& 0x1c = 0) :
    h.extra ++ (h.name ++ (h.comment ++ h.crc16)) = h.crc16 ++
      (h.extra ++ (h.name ++ h.comment)) := by
  rcases hcrc16 with hnone | hothers
  · have hlen := h.length_crc16
    rw [if_neg (not_not_intro hnone)] at hlen
    rw [List.length_eq_zero_iff.mp hlen, List.append_nil, List.nil_append]
  · have hextra := h.isExtra
    have hname := h.isName
    have hcomment := h.isComment
    rw [if_neg (not_not_intro (and_eq_zero_of_and hothers rfl))] at hextra hname hcomment
    rw [hextra, hname, hcomment]
    simp only [List.nil_append, List.append_nil]

theorem gzipHeader_ok (h : GzipHeader) (hcrc16 : h.flags &&& 0x02 = 0 ∨ h.flags &&& 0x1c = 0)
    (rest' : List UInt8) : gzipHeader (h.bytes ++ rest') = .ok h.bytes.length := by
  have hstamp := h.length_stamp
  have hlen : h.bytes.length =
      10 + h.crc16.length + h.extra.length + h.name.length + h.comment.length := by
    simp only [GzipHeader.bytes, List.length_cons, List.length_append, hstamp]
    omega
  have hdrop : (h.bytes ++ rest').drop 10 =
      h.crc16 ++ (h.extra ++ (h.name ++ (h.comment ++ rest'))) := by
    rw [GzipHeader.bytes, gzip_fields h hcrc16]
    simp only [List.cons_append, List.append_assoc, List.drop_succ_cons]
    rw [List.drop_left' hstamp]
  have hmethod : (h.bytes ++ rest')[2]? = some 0x08 := rfl
  have hflags : (h.bytes ++ rest')[3]? = some h.flags := rfl
  have hreserved : h.flags &&& 0x20 = 0 := and_eq_zero_of_and h.reserved rfl
  have hdrop₁ := drop_behind hdrop
  have hdrop₂ := drop_behind hdrop₁
  have hdrop₃ := drop_behind hdrop₂
  rw [gzipHeader, if_neg (by rw [List.length_append]; omega), fetch_of_some hmethod, ok_bind,
    if_neg (by simp), fetch_of_some hflags, ok_bind, skipPart_ok h.length_crc16 hdrop, ok_bind,
    skipExtra_ok h.isExtra hdrop₁, ok_bind, skipName, skipText_optional h.isName hdrop₂, ok_bind,
    skipComment, skipText_optional h.isComment hdrop₃, ok_bind,
    if_neg (not_not_intro hreserved), hlen]

theorem readHeader_gzip (h : GzipHeader) (hcrc16 : h.flags &&& 0x02 = 0 ∨ h.flags &&& 0x1c = 0)
    (rest' : List UInt8) : readHeader (h.bytes ++ rest') = .ok (.gzip, h.bytes.length) := by
  have hlen : ¬ (h.bytes ++ rest').length < 2 := by
    rw [List.length_append, GzipHeader.bytes, List.length_cons, List.length_cons]
    omega
  have h0 : (h.bytes ++ rest')[0]? = some 0x1f := rfl
  have h1 : (h.bytes ++ rest')[1]? = some 0x8b := rfl
  rw [readHeader, if_neg hlen, fetch_of_some h0, ok_bind, fetch_of_some h1, ok_bind,
    if_pos ⟨rfl, rfl⟩, gzipHeader_ok h hcrc16, ok_bind]

theorem readHeader_zlib (h : ZlibHeader) (rest' : List UInt8) :
    readHeader (h.bytes ++ rest') = .ok (.zlib, h.bytes.length) := by
  have hlen : (h.bytes ++ rest').length = 2 + h.dictionary.length + rest'.length := by
    rw [List.length_append, ZlibHeader.bytes, List.length_cons, List.length_cons]
    omega
  have hcmf : (h.bytes ++ rest')[0]? = some h.cmf := rfl
  have hflg : (h.bytes ++ rest')[1]? = some h.flg := rfl
  have hgzip : ¬ (h.cmf = 0x1f ∧ h.flg = 0x8b) := by
    rintro ⟨hsame, -⟩
    have hmethod := h.method
    rw [hsame] at hmethod
    exact absurd hmethod (by decide)
  have hcheck : (h.flg.toNat ||| h.cmf.toNat <<< 8) % 31 = 0 := by
    rw [or_shift h.flg.toNat_lt, Nat.add_comm, h.check]
  have hheader : zlibHeader (h.bytes ++ rest') h.cmf h.flg = .ok h.bytes.length := by
    have hdict := h.length_dictionary
    rw [zlibHeader, if_pos ⟨h.window, hcheck⟩, ZlibHeader.bytes, List.length_cons, List.length_cons]
    by_cases hflag : h.flg &&& 0x20 ≠ 0
    · rw [if_pos hflag] at hdict
      rw [if_pos hflag, skipBytes, if_neg (by rw [← ZlibHeader.bytes, hlen]; omega), hdict]
    · rw [if_neg hflag] at hdict
      rw [if_neg hflag, hdict]
  rw [readHeader, if_neg (by omega), fetch_of_some hcmf, ok_bind, fetch_of_some hflg, ok_bind,
    if_neg hgzip, if_pos h.method, hheader, ok_bind]

/-- Two bytes, stored, and then a copy of them twice over and one byte more. -/
theorem deflated_ababab :
    Deflated [0, 2, 0, 253, 255, 97, 98, 3, 193, 100, 0] [97, 98, 97, 98, 97, 98, 99] := by
  refine .blocks [.stored (List.replicate 5 false) [97, 98],
    .coded none [.copy 1 0 1 0, .literal 99]] [false, false] (by simp)
    ⟨.stored (by decide) (by decide) (by decide), ?_, trivial⟩ (by decide +kernel) (by decide)
      (by decide +kernel)
  exact .coded (by simp) (by decide +kernel) (by decide +kernel) (by decide +kernel)
    (by decide +kernel)

/-- **Compressed data by themselves.** The first block must not be a stored one that fills its byte
    with a set bit, which looks like the first byte of zlib. -/
theorem emInflate_raw (h : Deflated bytes data) (hplain : ∀ b ∈ bytes.head?, b &&& 0x0f ≠ 0x08)
    (hroom : data.length ≤ max) (hmax : max ≤ out.length) (trailing : List UInt8) :
    ∃ out', emInflate (bytes ++ trailing) out max = .ok (data.length, out') ∧
      Filled max out data out' := by
  obtain ⟨b0, b1, rest', rfl⟩ := h.two_le
  have hheader : readHeader (b0 :: b1 :: rest' ++ trailing) = .ok (.none, 0) := by
    have h0 : (b0 :: b1 :: rest' ++ trailing)[0]? = some b0 := rfl
    have h1 : (b0 :: b1 :: rest' ++ trailing)[1]? = some b1 := rfl
    have hlen : ¬ (b0 :: b1 :: rest' ++ trailing).length < 2 := by
      rw [List.length_append, List.length_cons, List.length_cons]
      omega
    rw [readHeader, if_neg hlen, fetch_of_some h0, ok_bind, fetch_of_some h1, ok_bind,
      if_neg fun hgzip => h.first_byte_ne hgzip.1, if_neg (hplain b0 rfl)]
  exact emInflate_reads hheader rfl h hroom hmax

theorem emInflate_raw_ababab : ∃ out',
    emInflate ([0, 2, 0, 253, 255, 97, 98, 3, 193, 100, 0] ++ [0, 0]) (List.replicate 9 0) 8
      = .ok (7, out') ∧ Filled 8 (List.replicate 9 0) [97, 98, 97, 98, 97, 98, 99] out' :=
  emInflate_raw deflated_ababab (by rintro b ⟨⟩; decide) (by decide) (by decide) [0, 0]

/-- **A zlib stream.** -/
theorem emInflate_zlib (header : ZlibHeader) (h : Deflated bytes data) (hroom : data.length ≤ max)
    (hmax : max ≤ out.length) (trailing : List UInt8) :
    ∃ out', emInflate (zlib header bytes data ++ trailing) out max = .ok (data.length, out') ∧
      Filled max out data out' := by
  rw [zlib, List.append_assoc, List.append_assoc]
  exact emInflate_reads (readHeader_zlib header _) List.drop_left h hroom hmax

theorem emInflate_zlib_ababab : ∃ out',
    emInflate (zlib ⟨0x78, 0x9c, [], rfl, by decide, rfl, rfl⟩
      [0, 2, 0, 253, 255, 97, 98, 3, 193, 100, 0] [97, 98, 97, 98, 97, 98, 99] ++ [0, 0])
      (List.replicate 9 0) 8 = .ok (7, out') ∧ Filled 8 (List.replicate 9 0)
        [97, 98, 97, 98, 97, 98, 99] out' :=
  emInflate_zlib _ deflated_ababab (by decide) (by decide) [0, 0]

/-- **A gzip member.** -/
theorem emInflate_gzip (header : GzipHeader)
    (hcrc16 : header.flags &&& 0x02 = 0 ∨ header.flags &&& 0x1c = 0) (h : Deflated bytes data)
    (hroom : data.length ≤ max) (hmax : max ≤ out.length) (trailing : List UInt8) :
    ∃ out', emInflate (gzip header bytes data ++ trailing) out max = .ok (data.length, out') ∧
      Filled max out data out' := by
  rw [gzip, List.append_assoc, List.append_assoc, List.append_assoc]
  exact emInflate_reads (readHeader_gzip header hcrc16 _) List.drop_left h hroom hmax

theorem emInflate_gzip_ababab : ∃ out',
    emInflate
      (gzip ⟨0x08, List.replicate 6 0, [], [97, 0], [], [], rfl, rfl, ⟨[97], by decide, rfl⟩, rfl,
        rfl, rfl⟩ [0, 2, 0, 253, 255, 97, 98, 3, 193, 100, 0] [97, 98, 97, 98, 97, 98, 99] ++ [])
      (List.replicate 9 0) 8 = .ok (7, out') ∧
      Filled 8 (List.replicate 9 0) [97, 98, 97, 98, 97, 98, 99] out' :=
  emInflate_gzip _ (.inl rfl) deflated_ababab (by decide) (by decide) []

/-! ## Too little input -/

/-- The two bytes of a number, the lower one first. -/
def le16 (n : Nat) : List UInt8 := [UInt8.ofNat n, UInt8.ofNat (n / 2 ^ 8)]

theorem bitsOf_le16 {n : Nat} (hn : n ≤ 0xffff) : bitsOf (le16 n) = toBits 16 n := by
  have hlow : (UInt8.ofNat n).toNat = n % 2 ^ 8 := UInt8.toNat_ofNat'
  have hhigh : (UInt8.ofNat (n / 2 ^ 8)).toNat = n / 2 ^ 8 := by
    rw [UInt8.toNat_ofNat', Nat.mod_eq_of_lt (by omega)]
  refine ofBits_inj (by simp [le16]) ?_
  rw [le16, bitsOf_cons, bitsOf_cons, bitsOf_nil, List.append_nil, ofBits_append, ofBits_toBits,
    ofBits_toBits, ofBits_toBits, length_toBits, hlow, hhigh]
  omega

/-- The first byte of a stored block: the bit for the last block, two for the type, and whatever
    fills the byte. -/
theorem toBits_stored {b : UInt8} (h : b &&& 6 = 0) :
    toBits 8 b.toNat = toBits 1 (b.toNat % 2) ++ (toBits 2 0 ++ toBits 5 (b.toNat / 8)) := by
  have hlt : b.toNat < 2 ^ 8 := b.toNat_lt
  have htype : b.toNat / 2 % 4 = 0 := by
    have hand : b.toNat &&& 6 = 0 := congrArg UInt8.toNat h
    have hshift : (b.toNat &&& 6) >>> 1 = b.toNat >>> 1 &&& 3 := Nat.shiftRight_and_distrib
    rw [hand, Nat.shiftRight_eq_div_pow] at hshift
    exact (Nat.and_two_pow_sub_one_eq_mod _ 2).symm.trans hshift.symm
  refine ofBits_inj (by simp) ?_
  simp only [ofBits_append, ofBits_toBits, length_toBits]
  omega

/-- **A stored block that is longer than the input is read past its end**, whatever the header
    before it and the bits that fill its first byte: the length is compared with the room in the
    buffer only. -/
theorem emInflate_overreads {b : UInt8} {n : Nat} (hheader : readHeader input = .ok (type, pos))
    (hinput : input.drop pos = b :: (le16 n ++ (le16 (0xffff - n) ++ bytes))) (hb : b &&& 6 = 0)
    (hn : n ≤ 0xffff) (hshort : bytes.length < n) (hroom : n ≤ max) :
    emInflate input out max = .error .overread := by
  have hreads := BitReader.reads_init (input.drop pos)
  rw [hinput, bitsOf_cons, bitsOf_append, bitsOf_append, bitsOf_le16 hn, bitsOf_le16 (by omega),
    toBits_stored hb, List.append_assoc, List.append_assoc] at hreads
  obtain ⟨r₁, hget₁, hblock₁, hreads₁⟩ :=
    hreads.getBits_toBits (by decide) (Nat.mod_lt _ (by decide))
  obtain ⟨r₂, hget₂, hblock₂, hreads₂⟩ := hreads₁.getBits_toBits (by decide) (by decide)
  obtain ⟨r₃, -, -, -, hin, hbits, -, hcopied⟩ := copyStored_start hn (by
    simp only [List.length_append, length_toBits, length_bitsOf]
    omega) hreads₂
  have hall := congrArg List.length hbits
  rw [length_bitsOf, length_bitsOf, List.length_drop] at hall
  rw [emInflate, hheader, ok_bind]
  dsimp only
  rw [hinput, inflateBlocks, hget₁, ok_bind]
  dsimp only
  rw [hget₂, ok_bind]
  dsimp only
  rw [inflateBlock, hcopied, if_neg (by omega), if_pos (by omega), error_bind, error_bind]

/-- By itself with set bits in the first byte, and behind a header of zlib. -/
theorem emInflate_overreads_two :
    emInflate [0xf1, 2, 0, 253, 255, 0x61] [0, 0, 0] 3 = .error .overread ∧
      emInflate [0x78, 0x01, 0xa9, 2, 0, 253, 255, 0x61] [0, 0, 0] 3 = .error .overread :=
  ⟨@emInflate_overreads 3 [0, 0, 0] .none [0xf1, 2, 0, 253, 255, 0x61] [0x61] 0 0xf1 2 (by rfl)
      (by rfl) (by decide) (by decide) (by decide) (by decide),
    @emInflate_overreads 3 [0, 0, 0] .zlib [0x78, 0x01, 0xa9, 2, 0, 253, 255, 0x61] [0x61] 2 0xa9 2
      (by rfl) (by rfl) (by decide) (by decide) (by decide) (by decide)⟩

end Umka.Inflate
