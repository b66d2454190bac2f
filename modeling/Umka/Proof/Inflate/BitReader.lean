import Umka.Inflate.BitReader
import Umka.Lib.Bits

/-!
# The bit reader reads the bits of the block

`Reads r s` says that the bits still to come are `s`. The shifter holds the first of them, and what
is behind them in the shifter is zero: `peek16bits` may have counted a byte that is not there, but
then the block is at its end.
-/

set_option autoImplicit false

namespace Umka.Inflate

open Lib

namespace BitReader

/-- The shifter has these bits. -/
structure Holds (r : BitReader) (bits : List Bool) : Prop where
  count : r.bitCount = bits.length
  data : r.data = ofBits bits

/-- The bits `s` are still to come. -/
structure Reads (r : BitReader) (s : List Bool) : Prop where
  suffix : s <:+ bitsOf r.block
  shifter : ∃ bits k, r.Holds bits ∧ bits.length < 32 ∧ k ≤ 8 ∧
    bits ++ bitsOf (r.block.drop r.pos) = s ++ List.replicate k false ∧
    (r.pos < r.block.length → k = 0)

variable {r : BitReader} {bits s : List Bool} {b : UInt8} {n : Nat}

theorem reads_init (block : List UInt8) : (init block).Reads (bitsOf block) where
  suffix := List.suffix_refl _
  shifter := ⟨[], 0, ⟨rfl, rfl⟩, by decide, by decide, by simp [init], fun _ => rfl⟩

/-! ## The shifter -/

theorem or_shift_byte (bits : List Bool) (b : UInt8) (h : bits.length ≤ 24) :
    ofBits bits ||| b.toNat <<< bits.length % 2 ^ 32 = ofBits (bits ++ toBits 8 b.toNat) := by
  have hb : b.toNat < 2 ^ 8 := b.toNat_lt
  have hlt : b.toNat <<< bits.length < 2 ^ 32 := by
    rw [Nat.shiftLeft_eq]
    calc b.toNat * 2 ^ bits.length < 2 ^ 8 * 2 ^ bits.length :=
          Nat.mul_lt_mul_of_pos_right hb (Nat.two_pow_pos _)
      _ ≤ 2 ^ 8 * 2 ^ 24 := Nat.mul_le_mul_left _ (Nat.pow_le_pow_right (by decide) h)
      _ = 2 ^ 32 := rfl
  rw [Nat.mod_eq_of_lt hlt, Nat.or_comm, ← Nat.shiftLeft_add_eq_or_of_lt (ofBits_lt bits),
    Nat.shiftLeft_eq, ofBits_append, ofBits_toBits, Nat.mod_eq_of_lt hb, Nat.add_comm, Nat.mul_comm]

theorem load_of_holds (h : r.Holds bits) (hlen : bits.length ≤ 24) (hb : r.block[r.pos]? = some b) :
    r.load r.bitCount
      = .ok { r with data := ofBits (bits ++ toBits 8 b.toNat), pos := r.pos + 1 } := by
  have hcount : (0 : Int) ≤ bits.length ∧ (bits.length : Int) < 32 := by omega
  rw [load, fetch_of_some hb, ok_bind, h.count, if_pos hcount, Int.toNat_natCast, h.data,
    or_shift_byte bits b hlen]

theorem drop_pos (hb : r.block[r.pos]? = some b) :
    bitsOf (r.block.drop r.pos) = toBits 8 b.toNat ++ bitsOf (r.block.drop (r.pos + 1)) := by
  obtain ⟨hlt, rfl⟩ := List.getElem?_eq_some_iff.mp hb
  rw [List.drop_eq_getElem_cons hlt, bitsOf_cons]

/-- Bytes have gone into the shifter, and it may count some zeros behind the last one. -/
structure Added (r r' : BitReader) (bits added : List Bool) (k : Nat) : Prop where
  block : r'.block = r.block
  holds : r'.Holds (bits ++ added)
  stream : added ++ bitsOf (r'.block.drop r'.pos) =
    bitsOf (r.block.drop r.pos) ++ List.replicate k false
  ends : r'.pos < r'.block.length → k = 0

theorem addBytes_of_holds (h : r.Holds bits) (hlen : bits.length ≤ 16)
    (hpos : r.pos < r.block.length) :
    ∃ r' added, r.addBytes = .ok r' ∧ Added r r' bits added 0 ∧ added.length ≤ 16 ∧
      (added.length = 16 ∨ r'.block.length ≤ r'.pos) := by
  obtain ⟨b, hb⟩ : ∃ b, r.block[r.pos]? = some b := ⟨_, List.getElem?_eq_getElem hpos⟩
  have hload := load_of_holds h (by omega) hb
  have hfirst : r.addBytes = if r.pos + 1 < r.block.length then do
      let r ← BitReader.load ⟨r.bitCount + 8, ofBits (bits ++ toBits 8 b.toNat), r.block, r.pos + 1⟩
        (r.bitCount + 8)
      .ok { r with bitCount := r.bitCount + 8 }
      else .ok ⟨r.bitCount + 8, ofBits (bits ++ toBits 8 b.toNat), r.block, r.pos + 1⟩ := by
    rw [addBytes, hload, ok_bind]
  have hholds : Holds ⟨r.bitCount + 8, ofBits (bits ++ toBits 8 b.toNat), r.block, r.pos + 1⟩
      (bits ++ toBits 8 b.toNat) := ⟨by simp [h.count], rfl⟩
  by_cases hmore : r.pos + 1 < r.block.length
  · obtain ⟨b', hb'⟩ : ∃ b', r.block[r.pos + 1]? = some b' := ⟨_, List.getElem?_eq_getElem hmore⟩
    have hload' := load_of_holds hholds (by simp; omega) hb'
    refine ⟨⟨r.bitCount + 8 + 8, ofBits (bits ++ toBits 8 b.toNat ++ toBits 8 b'.toNat), r.block,
      r.pos + 1 + 1⟩, toBits 8 b.toNat ++ toBits 8 b'.toNat, ?_, ⟨rfl, ⟨?_, ?_⟩, ?_, fun _ => rfl⟩,
      by simp, .inl (by simp)⟩
    · rw [hfirst, if_pos hmore, hload', ok_bind]
    · simp only [h.count, List.length_append, length_toBits]
      omega
    · rw [List.append_assoc]
    · rw [drop_pos hb, drop_pos (r := ⟨0, 0, r.block, r.pos + 1⟩) hb', List.replicate_zero,
        List.append_nil, List.append_assoc]
  · refine ⟨⟨r.bitCount + 8, ofBits (bits ++ toBits 8 b.toNat), r.block, r.pos + 1⟩,
      toBits 8 b.toNat, by rw [hfirst, if_neg hmore], ⟨rfl, hholds, ?_, fun _ => rfl⟩, by simp,
      .inr (Nat.le_of_not_lt hmore)⟩
    rw [drop_pos hb, List.replicate_zero, List.append_nil]

theorem Added.reads {r r' : BitReader} {added : List Bool} {k : Nat} (ha : Added r r' bits added k)
    (hs : s <:+ bitsOf r.block) (hlen : (bits ++ added).length < 32) (hk : k ≤ 8)
    (hstream : bits ++ bitsOf (r.block.drop r.pos) = s) : r'.Reads s where
  suffix := by rw [ha.block]; exact hs
  shifter := by
    refine ⟨bits ++ added, k, ha.holds, hlen, hk, ?_, ha.ends⟩
    rw [List.append_assoc, ha.stream, ← List.append_assoc, hstream]

/-! ## Values -/

theorem consumeBits_of_holds (h : r.Holds bits) (hn : n ≤ bits.length) (hlt : n < 32) :
    ∃ r', r.consumeBits n = .ok r' ∧ r'.block = r.block ∧ r'.pos = r.pos ∧
      r'.Holds (bits.drop n) := by
  have hok : n < 32 ∧ -(2 ^ 31) ≤ r.bitCount - n := by
    rw [h.count]
    omega
  refine ⟨{ r with data := r.data >>> n, bitCount := r.bitCount - n }, if_pos hok, rfl, rfl, ?_, ?_⟩
  · simp only [h.count, List.length_drop]
    omega
  · rw [h.data, Nat.shiftRight_eq_div_pow, ofBits_drop]

/-- Bits that are in the shifter are taken off. -/
theorem Reads.consumeBits {k : Nat} (hs : s <:+ bitsOf r.block) (h : r.Holds bits)
    (hlen : bits.length < 32) (hk : k ≤ 8)
    (hstream : bits ++ bitsOf (r.block.drop r.pos) = s ++ List.replicate k false)
    (hend : r.pos < r.block.length → k = 0) (hn : n ≤ bits.length) (hns : n ≤ s.length) :
    ∃ r', r.consumeBits n = .ok r' ∧ r'.block = r.block ∧ r'.Reads (s.drop n) := by
  obtain ⟨r', hok, hblock, hpos, hholds⟩ := consumeBits_of_holds h hn (by omega)
  refine ⟨r', hok, hblock, ?_, bits.drop n, k, hholds, ?_, hk, ?_, ?_⟩
  · rw [hblock]
    exact (List.drop_suffix n s).trans hs
  · rw [List.length_drop]
    omega
  · rw [hblock, hpos, ← List.drop_append_of_le_length hn, hstream,
      List.drop_append_of_le_length hns]
  · rw [hblock, hpos]
    exact hend

theorem takeBits_eq (h : r.Holds bits) (hn : n ≤ bits.length) {tail : List Bool} {k : Nat}
    (hstream : bits ++ tail = s ++ List.replicate k false) (hns : n ≤ s.length) :
    r.data &&& (2 ^ n - 1) = ofBits (s.take n) := by
  have htake : bits.take n = s.take n := by
    rw [← List.take_append_of_le_length hn, hstream, List.take_append_of_le_length hns]
  rw [Nat.and_two_pow_sub_one_eq_mod, h.data, ← ofBits_take, htake]

/-- **`getBits` takes the next bits.** -/
theorem Reads.getBits (h : r.Reads s) (hn : n ≤ 15) (hns : n ≤ s.length) :
    ∃ r', r.getBits n = .ok (some (ofBits (s.take n)), r') ∧ r'.block = r.block ∧
      r'.Reads (s.drop n) := by
  obtain ⟨bits, k, hholds, hlen, hk, hstream, hend⟩ := h.shifter
  by_cases hcount : r.bitCount < n
  · -- there are not enough in the shifter, so the block is not at its end
    have hpos : r.pos < r.block.length := by
      by_contra hge
      have hall := congrArg List.length hstream
      rw [List.drop_eq_nil_of_le (Nat.le_of_not_lt hge)] at hall
      simp only [bitsOf_nil, List.append_nil, List.length_append, List.length_replicate] at hall
      rw [hholds.count] at hcount
      omega
    obtain rfl := hend hpos
    rw [List.replicate_zero, List.append_nil] at hstream
    rw [hholds.count] at hcount
    obtain ⟨r₁, added, hadd, ha, hadded, hmuch⟩ := addBytes_of_holds hholds (by omega) hpos
    have hstream₁ : bits ++ added ++ bitsOf (r₁.block.drop r₁.pos)
        = s ++ List.replicate 0 false := by
      rw [List.append_assoc, ha.stream, List.replicate_zero, List.append_nil,
        List.append_nil, hstream]
    have henough : n ≤ (bits ++ added).length := by
      rcases hmuch with h16 | hlast
      · rw [List.length_append]
        omega
      · have hall := congrArg List.length hstream₁
        rw [List.drop_eq_nil_of_le hlast] at hall
        simp only [bitsOf_nil, List.append_nil, List.replicate_zero] at hall
        omega
    obtain ⟨r', hok, hblock, hreads⟩ := Reads.consumeBits
      (by rw [ha.block]; exact h.suffix) ha.holds (by rw [List.length_append]; omega)
        (by omega) hstream₁ (fun _ => rfl) henough hns
    refine ⟨r', ?_, hblock.trans ha.block, hreads⟩
    rw [BitReader.getBits, if_pos (by rw [hholds.count]; omega), if_pos hpos, hadd, ok_bind,
      takeBits, hok, ok_bind, takeBits_eq ha.holds henough hstream₁ hns]
  · have henough : n ≤ bits.length := by
      rw [hholds.count] at hcount
      omega
    obtain ⟨r', hok, hblock, hreads⟩ := Reads.consumeBits h.suffix hholds hlen hk hstream
      hend henough hns
    refine ⟨r', ?_, hblock, hreads⟩
    rw [BitReader.getBits, if_neg hcount, takeBits, hok, ok_bind,
      takeBits_eq hholds henough hstream hns]

theorem Reads.getBits_toBits {v : Nat} (h : r.Reads (toBits n v ++ s)) (hn : n ≤ 15)
    (hv : v < 2 ^ n) :
    ∃ r', r.getBits n = .ok (some v, r') ∧ r'.block = r.block ∧ r'.Reads s := by
  have hlen : (toBits n v).length = n := length_toBits n v
  obtain ⟨r', hok, hblock, hreads⟩ := h.getBits hn (by rw [List.length_append, hlen]; omega)
  rw [List.take_left' hlen, ofBits_toBits, Nat.mod_eq_of_lt hv] at hok
  rw [List.drop_left' hlen] at hreads
  exact ⟨r', hok, hblock, hreads⟩

/-! ## Looking ahead -/

theorem ofBits_mod_of_stream {tail : List Bool} {k m : Nat}
    (hstream : bits ++ tail = s ++ List.replicate k false) (hmuch : m ≤ bits.length ∨ tail = []) :
    ofBits bits % 2 ^ m = ofBits (s.take m) := by
  rw [ofBits_take, ← ofBits_append_zeros s k, ← hstream]
  rcases hmuch with hm | rfl
  · rw [← ofBits_take, ← ofBits_take, List.take_append_of_le_length hm]
  · rw [List.append_nil]

/-- What `peek16bits` leaves: sixteen bits, or all that there are. -/
structure Peeked (r : BitReader) (s : List Bool) : Prop where
  reads : r.Reads s
  much : ∃ bits, r.Holds bits ∧ (16 ≤ bits.length ∨ r.block.length ≤ r.pos)

theorem Holds.length_eq {bits' : List Bool} (h : r.Holds bits) (h' : r.Holds bits') :
    bits.length = bits'.length := by
  have := h.count.symm.trans h'.count
  omega

theorem Peeked.data_eq (h : r.Peeked s) : r.data &&& 0xffff = ofBits (s.take 16) := by
  obtain ⟨bits, k, hholds, hlen, hk, hstream, hend⟩ := h.reads.shifter
  obtain ⟨bits', hholds', hmuch⟩ := h.much
  have hmask : r.data &&& 0xffff = ofBits bits % 2 ^ 16 := by
    rw [hholds.data]
    exact Nat.and_two_pow_sub_one_eq_mod _ 16
  rw [hmask]
  refine ofBits_mod_of_stream hstream ?_
  rcases hmuch with h16 | hlast
  · exact .inl (by rw [hholds.length_eq hholds']; exact h16)
  · exact .inr (by rw [List.drop_eq_nil_of_le hlast, bitsOf_nil])

theorem Peeked.consumeBits (h : r.Peeked s) (hn : n ≤ 16) (hns : n ≤ s.length) :
    ∃ r', r.consumeBits n = .ok r' ∧ r'.block = r.block ∧ r'.Reads (s.drop n) := by
  obtain ⟨bits, k, hholds, hlen, hk, hstream, hend⟩ := h.reads.shifter
  obtain ⟨bits', hholds', hmuch⟩ := h.much
  have henough : n ≤ bits.length := by
    rcases hmuch with h16 | hlast
    · rw [hholds.length_eq hholds']
      omega
    · have hall := congrArg List.length hstream
      rw [List.drop_eq_nil_of_le hlast] at hall
      simp only [bitsOf_nil, List.append_nil, List.length_append, List.length_replicate] at hall
      omega
  exact Reads.consumeBits h.reads.suffix hholds hlen hk hstream hend henough hns

/-- The bytes that `peek16bits` takes; if there is one only, eight zeros come after it. -/
theorem peek16bits_of_holds (h : r.Holds bits) (hlen : bits.length < 16)
    (hpos : r.pos < r.block.length) :
    ∃ r' added k, r.peek16bits = .ok (r'.data &&& 0xffff, r') ∧ Added r r' bits added k ∧
      added.length = 16 ∧ k ≤ 8 := by
  obtain ⟨b, hb⟩ : ∃ b, r.block[r.pos]? = some b := ⟨_, List.getElem?_eq_getElem hpos⟩
  have hload := load_of_holds h (by omega) hb
  have hlt : r.bitCount < 16 := by
    rw [h.count]
    omega
  by_cases hmore : r.pos + 1 < r.block.length
  · obtain ⟨b', hb'⟩ : ∃ b', r.block[r.pos + 1]? = some b' := ⟨_, List.getElem?_eq_getElem hmore⟩
    have hload' : BitReader.load ⟨r.bitCount, ofBits (bits ++ toBits 8 b.toNat), r.block, r.pos + 1⟩
        (r.bitCount + 8) = .ok ⟨r.bitCount, ofBits (bits ++ toBits 8 b.toNat ++ toBits 8 b'.toNat),
          r.block, r.pos + 1 + 1⟩ := by
      have hcount : 0 ≤ r.bitCount + 8 ∧ r.bitCount + 8 < 32 := by
        rw [h.count]
        omega
      have hnat : (r.bitCount + 8).toNat = (bits ++ toBits 8 b.toNat).length := by
        rw [h.count, List.length_append, length_toBits]
        omega
      rw [load, fetch_of_some hb', ok_bind, if_pos hcount, hnat, or_shift_byte _ _ (by simp; omega)]
    refine ⟨⟨r.bitCount + 16, ofBits (bits ++ toBits 8 b.toNat ++ toBits 8 b'.toNat), r.block,
      r.pos + 1 + 1⟩, toBits 8 b.toNat ++ toBits 8 b'.toNat, 0, ?_,
      ⟨rfl, ⟨?_, ?_⟩, ?_, fun _ => rfl⟩, by simp, by omega⟩
    · simp only [peek16bits, if_pos hlt, if_pos hpos, hload, ok_bind, if_pos hmore, hload']
    · simp [h.count]
    · rw [List.append_assoc]
    · rw [drop_pos hb, drop_pos (r := ⟨0, 0, r.block, r.pos + 1⟩) hb', List.replicate_zero,
        List.append_nil, List.append_assoc]
  · refine ⟨⟨r.bitCount + 16, ofBits (bits ++ toBits 8 b.toNat), r.block, r.pos + 1⟩,
      toBits 8 b.toNat ++ List.replicate 8 false, 8, ?_,
      ⟨rfl, ⟨?_, ?_⟩, ?_, fun hlt => absurd hlt hmore⟩, by simp, by omega⟩
    · simp only [peek16bits, if_pos hlt, if_pos hpos, hload, ok_bind, if_neg hmore]
    · simp [h.count]
    · rw [← List.append_assoc, ofBits_append_zeros]
    · rw [drop_pos hb, List.drop_eq_nil_of_le (Nat.le_of_not_lt hmore), bitsOf_nil, List.append_nil,
        List.append_nil]

/-- **`peek16bits` shows the next sixteen bits**, with zeros for those that are not there. -/
theorem Reads.peek16bits (h : r.Reads s) :
    ∃ r', r.peek16bits = .ok (ofBits (s.take 16), r') ∧ r'.block = r.block ∧ r'.Peeked s := by
  obtain ⟨bits, k, hholds, hlen, hk, hstream, hend⟩ := h.shifter
  have hstay : (16 ≤ bits.length ∨ r.block.length ≤ r.pos) →
      r.peek16bits = .ok (r.data &&& 0xffff, r) →
      ∃ r', r.peek16bits = .ok (ofBits (s.take 16), r') ∧ r'.block = r.block ∧ r'.Peeked s := by
    intro hmuch hpeek
    have hp : r.Peeked s := ⟨h, bits, hholds, hmuch⟩
    exact ⟨r, by rw [hpeek, hp.data_eq], rfl, hp⟩
  by_cases h16 : r.bitCount < 16
  · by_cases hpos : r.pos < r.block.length
    · obtain rfl := hend hpos
      rw [List.replicate_zero, List.append_nil] at hstream
      have hshort : bits.length < 16 := by
        rw [hholds.count] at h16
        omega
      obtain ⟨r', added, k', hpeek, ha, hadded, hk'⟩ := peek16bits_of_holds hholds hshort hpos
      have hp : r'.Peeked s :=
        ⟨ha.reads h.suffix (by rw [List.length_append]; omega) hk' hstream, bits ++ added, ha.holds,
          .inl (by rw [List.length_append]; omega)⟩
      exact ⟨r', by rw [hpeek, hp.data_eq], ha.block, hp⟩
    · refine hstay (.inr (Nat.le_of_not_lt hpos)) ?_
      rw [BitReader.peek16bits, if_pos h16, if_neg hpos]
  · refine hstay (.inl ?_) (by rw [BitReader.peek16bits, if_neg h16])
    rw [hholds.count] at h16
    omega

/-! ## Alignment -/

theorem rewind_eq : ∀ count pos : Nat,
    rewind count pos = if count / 8 ≤ pos then some (pos - count / 8) else none := by
  intro count
  induction count using Nat.strongRecOn with
  | _ count ih =>
    intro pos
    by_cases h8 : 8 ≤ count
    · obtain ⟨c, rfl⟩ := Nat.exists_eq_add_of_le' h8
      have hdiv : (c + 8) / 8 = c / 8 + 1 := Nat.add_div_right c (by decide)
      cases pos with
      | zero => rw [rewind, hdiv, if_neg (by omega)]
      | succ pos =>
        rw [rewind, ih c (by omega), hdiv, Nat.add_sub_add_right]
        simp only [Nat.add_le_add_iff_right]
    · have hdiv : count / 8 = 0 := Nat.div_eq_of_lt (Nat.lt_of_not_le h8)
      rw [hdiv, if_pos (Nat.zero_le _), Nat.sub_zero, rewind]
      · intro c p hc
        omega
      · intro c hc
        omega

theorem byteAlign_eq (h : r.bitCount.toNat / 8 ≤ r.pos) :
    r.byteAlign =
      .ok { r with bitCount := 0, data := 0, pos := r.pos - r.bitCount.toNat / 8 } := by
  rw [byteAlign, rewind_eq, if_pos h]

/-- After the first bit there is always a place to go back to. -/
theorem Reads.byteAlign_ok (h : r.Reads s) (hs : s.length < 8 * r.block.length) :
    ∃ r', r.byteAlign = .ok r' := by
  obtain ⟨bits, k, hholds, hlen, hk, hstream, hend⟩ := h.shifter
  have hall := congrArg List.length hstream
  simp only [List.length_append, length_bitsOf, List.length_drop, List.length_replicate] at hall
  have hle : r.bitCount.toNat / 8 ≤ r.pos := by
    rw [hholds.count, Int.toNat_natCast]
    omega
  exact ⟨_, byteAlign_eq hle⟩

/-- **`byteAlign` goes to the next whole byte** if four bytes are left. -/
theorem Reads.byteAlign (h : r.Reads s) (hs : 32 ≤ s.length) :
    ∃ r', r.byteAlign = .ok r' ∧ r'.block = r.block ∧ r'.Reads (s.drop (s.length % 8)) ∧
      r'.bitCount = 0 ∧ r'.data = 0 ∧ bitsOf (r'.block.drop r'.pos) = s.drop (s.length % 8) := by
  obtain ⟨bits, k, hholds, hlen, hk, hstream, hend⟩ := h.shifter
  obtain ⟨done, hdone⟩ := h.suffix
  have hall := congrArg List.length hstream
  have htotal := congrArg List.length hdone
  simp only [List.length_append, length_bitsOf, List.length_drop,
    List.length_replicate] at hall htotal
  have hpos : r.pos < r.block.length := by
    by_contra hge
    omega
  obtain rfl := hend hpos
  have hle : bits.length / 8 ≤ r.pos := by omega
  have hrest : bitsOf (r.block.drop (r.pos - bits.length / 8)) = s.drop (s.length % 8) := by
    rw [bitsOf_drop, ← hdone]
    have hplace : 8 * (r.pos - bits.length / 8) = done.length + s.length % 8 := by omega
    rw [hplace, List.drop_append]
    simp
  refine ⟨_, byteAlign_eq (by rw [hholds.count]; simpa using hle), rfl,
    ⟨?_, [], 0, ⟨rfl, rfl⟩, by decide, by decide, ?_, fun _ => rfl⟩, rfl, rfl, ?_⟩
  · exact (List.drop_suffix _ _).trans h.suffix
  · simp [hholds.count, hrest]
  · simp [hholds.count, hrest]

end BitReader

end Umka.Inflate
