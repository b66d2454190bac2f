import Umka.Inflate.Checksum
import Umka.Lib.Checksum

/-!
# The checksums are Adler-32 and CRC-32

`adler32Z` adds up 5552 bytes before it divides: that is as far as 32 bits go. `crc32_4bytes` takes
four bytes at a time, with one table for each place of a byte in a word.
-/

set_option autoImplicit false

namespace Umka.Inflate

open Lib

/-! ## Adler-32 -/

/-- The sums in one number of 32 bits. -/
def packSums (s : Nat × Nat) : UInt32 := UInt32.ofNat (s.2 * 2 ^ 16 + s.1)

/-- The sums of a number are in range. -/
def Reduced (s : Nat × Nat) : Prop := s.1 < adlerBase ∧ s.2 < adlerBase

/-- Both sums, as the two halves of the state. -/
def natSums (s : UInt32 × UInt32) : Nat × Nat := (s.1.toNat, s.2.toNat)

theorem natSums_do1 (s : UInt32 × UInt32) (byte : UInt8) :
    natSums (do1 s byte) = ((s.1.toNat + byte.toNat) % 2 ^ 32,
      (s.2.toNat + (s.1.toNat + byte.toNat)) % 2 ^ 32) := by
  simp only [natSums, do1, UInt32.toNat_add, UInt8.toNat_toUInt32, Nat.add_mod_mod]

/-- The sums in 32 bits are the sums, as far as 32 bits go. -/
theorem natSums_foldl (bytes : List UInt8) :
    ∀ s : UInt32 × UInt32, natSums (bytes.foldl do1 s) =
      ((adlerRaw (natSums s) bytes).1 % 2 ^ 32, (adlerRaw (natSums s) bytes).2 % 2 ^ 32) := by
  have hmod : ∀ (bytes : List UInt8) (a b : Nat × Nat), a.1 % 2 ^ 32 = b.1 % 2 ^ 32 →
      a.2 % 2 ^ 32 = b.2 % 2 ^ 32 → (adlerRaw a bytes).1 % 2 ^ 32 = (adlerRaw b bytes).1 % 2 ^ 32 ∧
        (adlerRaw a bytes).2 % 2 ^ 32 = (adlerRaw b bytes).2 % 2 ^ 32 := by
    intro bytes
    induction bytes with
    | nil => exact fun a b h1 h2 => ⟨h1, h2⟩
    | cons x bytes ih =>
      intro a b h1 h2
      refine ih (adlerRawStep a x) (adlerRawStep b x) ?_ ?_
      · simp only [adlerRawStep]
        omega
      · simp only [adlerRawStep]
        omega
  induction bytes with
  | nil =>
    intro s
    have h1 := s.1.toNat_lt
    have h2 := s.2.toNat_lt
    simp only [List.foldl_nil, adlerRaw, natSums, Nat.mod_eq_of_lt h1, Nat.mod_eq_of_lt h2]
  | cons x bytes ih =>
    intro s
    rw [List.foldl_cons, ih, natSums_do1]
    obtain ⟨h1, h2⟩ := hmod bytes ((s.1.toNat + x.toNat) % 2 ^ 32,
      (s.2.toNat + (s.1.toNat + x.toNat)) % 2 ^ 32) (adlerRawStep (natSums s) x)
      (Nat.mod_mod _ _) (Nat.mod_mod _ _)
    rw [h1, h2]
    rfl

/-- **5552 bytes fit**: nothing is lost before the division. -/
theorem natSums_foldl_of_le {s : UInt32 × UInt32} {bytes : List UInt8} (hs : Reduced (natSums s))
    (hlen : bytes.length ≤ nmax) : natSums (bytes.foldl do1 s) = adlerRaw (natSums s) bytes := by
  obtain ⟨h1, h2⟩ := adlerRaw_le (natSums s) bytes
  obtain ⟨hs1, hs2⟩ := hs
  have hbase : adlerBase = 65521 := rfl
  have hn : nmax = 5552 := rfl
  have hprod : bytes.length * (natSums s).1 ≤ 5552 * 65520 := Nat.mul_le_mul (by omega) (by omega)
  have hsquare : bytes.length * (bytes.length + 1) ≤ 5552 * 5553 :=
    Nat.mul_le_mul (by omega) (by omega)
  rw [natSums_foldl, Nat.mod_eq_of_lt (by omega),
    Nat.mod_eq_of_lt (by rw [Nat.mul_assoc] at h2; omega)]

/-- The division at the end of a stretch. -/
theorem natSums_mod {s : UInt32 × UInt32} {bytes : List UInt8} (hs : Reduced (natSums s))
    (hlen : bytes.length ≤ nmax) :
    natSums ((bytes.foldl do1 s).1 % base, (bytes.foldl do1 s).2 % base)
      = adlerSums (natSums s) bytes := by
  have hraw := natSums_foldl_of_le hs hlen
  have h1 : (bytes.foldl do1 s).1.toNat = (adlerRaw (natSums s) bytes).1 := congrArg Prod.fst hraw
  have h2 : (bytes.foldl do1 s).2.toNat = (adlerRaw (natSums s) bytes).2 := congrArg Prod.snd hraw
  have hmod := adlerRaw_mod (natSums s) bytes
  rw [Nat.mod_eq_of_lt hs.1, Nat.mod_eq_of_lt hs.2] at hmod
  rw [← hmod, natSums, UInt32.toNat_mod, UInt32.toNat_mod, h1, h2]
  rfl

theorem do16s_eq (n : Nat) : ∀ (s : UInt32 × UInt32) (buf : List UInt8),
    do16s n s buf = ((buf.take (16 * n)).foldl do1 s, buf.drop (16 * n)) := by
  induction n with
  | zero => exact fun s buf => rfl
  | succ n ih =>
    intro s buf
    have hsplit : buf.take (16 * (n + 1)) = buf.take 16 ++ (buf.drop 16).take (16 * n) := by
      rw [Nat.mul_succ, Nat.add_comm, List.take_add]
    rw [do16s, ih, hsplit, List.foldl_append, List.drop_drop, Nat.mul_succ, Nat.add_comm (16 * n)]

/-- The whole stretches of 5552 bytes. -/
theorem adlerBlocks_eq (n : Nat) : ∀ (s : UInt32 × UInt32) (buf : List UInt8), Reduced (natSums s) →
    n * nmax ≤ buf.length →
    ∃ s', adlerBlocks n s buf = (s', buf.drop (n * nmax)) ∧
      natSums s' = adlerSums (natSums s) (buf.take (n * nmax)) := by
  induction n with
  | zero => exact fun s buf _ _ => ⟨s, by simp [adlerBlocks], by simp [adlerSums]⟩
  | succ n ih =>
    intro s buf hs hlen
    have hblock : 16 * (nmax / 16) = nmax := by decide
    have htake : (buf.take nmax).length = nmax := by
      rw [List.length_take]
      rw [Nat.succ_mul] at hlen
      omega
    have hsums := natSums_mod hs (Nat.le_of_eq htake)
    have hreduced : Reduced (natSums (((buf.take nmax).foldl do1 s).1 % base,
        ((buf.take nmax).foldl do1 s).2 % base)) := by
      rw [hsums]
      exact adlerSums_lt hs _
    obtain ⟨s', hblocks, hs'⟩ := ih _ (buf.drop nmax) hreduced
      (by rw [List.length_drop]; rw [Nat.succ_mul] at hlen; omega)
    refine ⟨s', ?_, ?_⟩
    · rw [adlerBlocks, do16s_eq, hblock]
      dsimp only
      rw [hblocks, List.drop_drop, Nat.succ_mul, Nat.add_comm nmax]
    · have hsplit : buf.take ((n + 1) * nmax) = buf.take nmax ++ (buf.drop nmax).take
          (n * nmax) := by
        rw [Nat.succ_mul, Nat.add_comm, List.take_add]
      rw [hs', hsums, hsplit, adlerSums_append]

/-- Two halves below 65536 side by side. -/
theorem or_shift_sums {s : UInt32 × UInt32} (h : Reduced (natSums s)) :
    s.1 ||| s.2 <<< 16 = packSums (natSums s) := by
  obtain ⟨h1, h2⟩ := h
  have hbase : adlerBase = 65521 := rfl
  rw [hbase] at h1 h2
  have h1' : s.1.toNat < 2 ^ 16 := by
    have : (natSums s).1 = s.1.toNat := rfl
    omega
  have h2' : s.2.toNat < 2 ^ 16 := by
    have : (natSums s).2 = s.2.toNat := rfl
    omega
  apply UInt32.toNat_inj.mp
  have hshift : s.2.toNat <<< 16 % 2 ^ 32 = s.2.toNat <<< 16 := by
    rw [Nat.shiftLeft_eq]
    exact Nat.mod_eq_of_lt (by omega)
  have hpack : s.2.toNat * 2 ^ 16 + s.1.toNat < 2 ^ 32 := by omega
  rw [UInt32.toNat_or, UInt32.toNat_shiftLeft]
  show s.1.toNat ||| s.2.toNat <<< 16 % 2 ^ 32 = _
  rw [hshift, Nat.or_comm, ← Nat.shiftLeft_add_eq_or_of_lt h1', Nat.shiftLeft_eq, packSums, natSums,
    UInt32.toNat_ofNat', Nat.mod_eq_of_lt hpack]

theorem natSums_unpack {s : Nat × Nat} (h : Reduced s) :
    natSums (packSums s &&& 0xffff, (packSums s >>> 16) &&& 0xffff) = s := by
  obtain ⟨h1, h2⟩ := h
  have hbase : adlerBase = 65521 := rfl
  rw [hbase] at h1 h2
  have hpack : (packSums s).toNat = s.2 * 2 ^ 16 + s.1 := by
    rw [packSums, UInt32.toNat_ofNat', Nat.mod_eq_of_lt (by omega)]
  have hmask : ∀ x : Nat, x &&& (0xffff : UInt32).toNat = x % 2 ^ 16 := fun x =>
    Nat.and_two_pow_sub_one_eq_mod x 16
  have hshift : (packSums s >>> 16).toNat = (s.2 * 2 ^ 16 + s.1) / 2 ^ 16 := by
    rw [UInt32.toNat_shiftRight, hpack, ← Nat.shiftRight_eq_div_pow]
    rfl
  rw [natSums, UInt32.toNat_and, UInt32.toNat_and, hmask, hmask, hshift, hpack]
  refine Prod.ext ?_ ?_
  · show (s.2 * 2 ^ 16 + s.1) % 2 ^ 16 = s.1
    omega
  · show (s.2 * 2 ^ 16 + s.1) / 2 ^ 16 % 2 ^ 16 = s.2
    omega

/-- One subtraction is enough. -/
theorem toNat_subBase {x : UInt32} (h : x.toNat < 2 * adlerBase) :
    (subBase x).toNat = x.toNat % adlerBase := by
  have hbase : base.toNat = adlerBase := rfl
  have hval : adlerBase = 65521 := rfl
  unfold subBase
  by_cases hle : base ≤ x
  · have hge : adlerBase ≤ x.toNat := UInt32.le_iff_toNat_le.mp hle
    rw [if_pos hle, UInt32.toNat_sub_of_le _ _ hle, hbase, Nat.mod_eq_sub_mod hge,
      Nat.mod_eq_of_lt (by omega)]
  · rw [if_neg hle, Nat.mod_eq_of_lt]
    exact Nat.lt_of_not_le fun hge => hle (UInt32.le_iff_toNat_le.mpr hge)

/-- A single byte. -/
theorem natSums_single {s : UInt32 × UInt32} (h : Reduced (natSums s)) (byte : UInt8) :
    natSums (subBase (s.1 + byte.toUInt32), subBase (s.2 + subBase (s.1 + byte.toUInt32))) =
      adlerStep (natSums s) byte := by
  have h1 : s.1.toNat < adlerBase := h.1
  have h2 : s.2.toNat < adlerBase := h.2
  have hval : adlerBase = 65521 := rfl
  have hb := byte.toNat_lt
  have hsum : (s.1 + byte.toUInt32).toNat = s.1.toNat + byte.toNat := by
    rw [UInt32.toNat_add, UInt8.toNat_toUInt32, Nat.mod_eq_of_lt (by omega)]
  have hfirst : (subBase (s.1 + byte.toUInt32)).toNat = (s.1.toNat + byte.toNat) % adlerBase := by
    rw [toNat_subBase (by omega), hsum]
  have hlt : (s.1.toNat + byte.toNat) % adlerBase < adlerBase := Nat.mod_lt _ (by decide)
  have hsum2 : (s.2 + subBase (s.1 + byte.toUInt32)).toNat =
      s.2.toNat + (s.1.toNat + byte.toNat) % adlerBase := by
    rw [UInt32.toNat_add, hfirst, Nat.mod_eq_of_lt (by omega)]
  have hsecond : (subBase (s.2 + subBase (s.1 + byte.toUInt32))).toNat =
      (s.2.toNat + (s.1.toNat + byte.toNat) % adlerBase) % adlerBase := by
    rw [toNat_subBase (by omega), hsum2]
  exact Prod.ext hfirst hsecond

/-- Up to fifteen bytes. -/
theorem natSums_short {s : UInt32 × UInt32} {buf : List UInt8} (h : Reduced (natSums s))
    (hlen : buf.length < 16) :
    natSums (subBase (buf.foldl do1 s).1, (buf.foldl do1 s).2 % base)
      = adlerSums (natSums s) buf := by
  have hn : nmax = 5552 := rfl
  have hraw := natSums_foldl_of_le h (show buf.length ≤ nmax by omega)
  have hsums := natSums_mod h (show buf.length ≤ nmax by omega)
  have h1 : (buf.foldl do1 s).1.toNat = (adlerRaw (natSums s) buf).1 := congrArg Prod.fst hraw
  obtain ⟨hle, -⟩ := adlerRaw_le (natSums s) buf
  have hval : adlerBase = 65521 := rfl
  have hone := h.1
  rw [← hsums, natSums, natSums, toNat_subBase (by omega), UInt32.toNat_mod]
  rfl

/-- Sixteen bytes and more. -/
theorem natSums_long {s : UInt32 × UInt32} (buf : List UInt8) (h : Reduced (natSums s)) :
    ∃ s', adlerBlocks (buf.length / nmax) s buf = (s', buf.drop (buf.length / nmax * nmax)) ∧
      natSums (if (buf.drop (buf.length / nmax * nmax)).length = 0 then s' else
        ((((buf.drop (buf.length / nmax * nmax)).foldl do1 s').1 % base),
          ((buf.drop (buf.length / nmax * nmax)).foldl do1 s').2 % base)) =
        adlerSums (natSums s) buf := by
  obtain ⟨s', hblocks, hs'⟩ := adlerBlocks_eq (buf.length / nmax) s buf h (Nat.div_mul_le_self _ _)
  refine ⟨s', hblocks, ?_⟩
  have hreduced : Reduced (natSums s') := by
    rw [hs']
    exact adlerSums_lt h _
  have hsplit := List.take_append_drop (buf.length / nmax * nmax) buf
  have hrest : (buf.drop (buf.length / nmax * nmax)).length ≤ nmax := by
    have hmod := Nat.mod_add_div buf.length nmax
    have hlt := Nat.mod_lt buf.length (show 0 < nmax by decide)
    rw [List.length_drop, Nat.mul_comm]
    omega
  have hwhole : adlerSums (natSums s') (buf.drop (buf.length / nmax * nmax))
      = adlerSums (natSums s) buf := by
    rw [hs', ← adlerSums_append, hsplit]
  by_cases hempty : (buf.drop (buf.length / nmax * nmax)).length = 0
  · rw [if_pos hempty, ← hwhole, List.length_eq_zero_iff.mp hempty]
    rfl
  · rw [if_neg hempty, natSums_mod hreduced hrest, hwhole]

theorem do16s_rest (s : UInt32 × UInt32) (buf : List UInt8) :
    (do16s (buf.length / 16) s buf).2.foldl do1 (do16s (buf.length / 16) s buf).1
      = buf.foldl do1 s := by
  rw [do16s_eq]
  show (buf.drop _).foldl do1 ((buf.take _).foldl do1 s) = _
  rw [← List.foldl_append, List.take_append_drop]

/-- **`adler32Z` adds bytes to the sums.** -/
theorem adler32Z_eq {s : Nat × Nat} (h : Reduced s) (buf : List UInt8) :
    adler32Z (packSums s) (some buf) = packSums (adlerSums s buf) := by
  have hunpack := natSums_unpack h
  have hred : Reduced (natSums (packSums s &&& 0xffff, (packSums s >>> 16) &&& 0xffff)) := by
    rw [hunpack]
    exact h
  -- every path ends with two sums side by side
  have hends : ∀ s' : UInt32 × UInt32, natSums s' = adlerSums s buf →
      s'.1 ||| s'.2 <<< 16 = packSums (adlerSums s buf) := by
    intro s' hs'
    rw [or_shift_sums (by rw [hs']; exact adlerSums_lt h buf), hs']
  by_cases hone : ∃ byte, buf = [byte]
  · obtain ⟨byte, rfl⟩ := hone
    have hsingle := natSums_single hred byte
    rw [hunpack] at hsingle
    exact hends _ hsingle
  · have hmany : ∀ byte, buf = [byte] → False := fun byte hbuf => hone ⟨byte, hbuf⟩
    rw [adler32Z]
    · by_cases hlen : buf.length < 16
      · have hshort := natSums_short hred hlen
        rw [hunpack] at hshort
        rw [if_pos hlen]
        exact hends _ hshort
      · obtain ⟨s', hblocks, hsums⟩ := natSums_long buf hred
        rw [hunpack] at hsums
        rw [if_neg hlen, hblocks]
        dsimp only
        rw [do16s_rest]
        exact hends _ hsums
    · exact hmany

/-! ## CRC-32 -/

/-- The table of `n` bits of the check for every byte. -/
def crcTable (n : Nat) : List (BitVec 32) :=
  (List.range 256).map fun i => crcBits crc32Poly n (BitVec.ofNat 32 i)

theorem map_crcTable (n : Nat) : (crcTable n).map (crcBits crc32Poly 8) = crcTable (8 + n) := by
  rw [crcTable, List.map_map]
  exact List.map_congr_left fun i _ => (crcBits_add 8 n (BitVec.ofNat 32 i)).symm

theorem getD_crcTable (n : Nat) (x : BitVec 32) :
    (crcTable n).getD (x &&& 0xff#32).toNat 0 = crcBits crc32Poly n (x &&& 0xff#32) := by
  have hlt : (x &&& 0xff#32).toNat < 256 := by
    rw [BitVec.toNat_and]
    exact Nat.lt_of_le_of_lt Nat.and_le_right (by decide)
  rw [crcTable, List.getD_eq_getElem?_getD, List.getElem?_map, List.getElem?_range hlt,
    Option.map_some, Option.getD_some, BitVec.ofNat_toNat, BitVec.setWidth_eq]

theorem crc32Lookup0_eq : crc32Lookup0 = crcTable 8 := by decide +kernel

theorem crc32Lookup1_eq : crc32Lookup1 = crcTable 16 := by
  have hnext : crc32Lookup1 = crc32Lookup0.map (crcBits crc32Poly 8) := by decide +kernel
  rw [hnext, crc32Lookup0_eq, map_crcTable]

theorem crc32Lookup2_eq : crc32Lookup2 = crcTable 24 := by
  have hnext : crc32Lookup2 = crc32Lookup1.map (crcBits crc32Poly 8) := by decide +kernel
  rw [hnext, crc32Lookup1_eq, map_crcTable]

theorem crc32Lookup3_eq : crc32Lookup3 = crcTable 32 := by
  have hnext : crc32Lookup3 = crc32Lookup2.map (crcBits crc32Poly 8) := by decide +kernel
  rw [hnext, crc32Lookup2_eq, map_crcTable]

/-- The bytes of a word at their places. -/
theorem word32_eq (b0 b1 b2 b3 : UInt8) :
    word32 b0 b1 b2 b3 = b0.toBitVec.setWidth 32 ^^^ b1.toBitVec.setWidth 32 <<< 8 ^^^
      b2.toBitVec.setWidth 32 <<< 16 ^^^ b3.toBitVec.setWidth 32 <<< 24 := by
  have hover : ∀ (b : UInt8) (j : Nat), 8 ≤ j → b.toBitVec.getLsbD j = false := fun b j hj =>
    BitVec.getLsbD_of_ge _ _ hj
  refine BitVec.eq_of_getLsbD_eq fun i hi => ?_
  simp only [word32, BitVec.getLsbD_append, BitVec.getLsbD_xor, BitVec.getLsbD_shiftLeft,
    BitVec.getLsbD_setWidth, hi, decide_true, Bool.true_and, Nat.sub_sub]
  -- the bit is in one of the four bytes
  by_cases h1 : i < 8
  · simp [h1, show i < 16 by omega, show i < 24 by omega]
  · by_cases h2 : i < 16
    · simp [h1, h2, hover b0 i (by omega), show i < 24 by omega, show i - 8 < 8 by omega,
        show i - 8 < 32 by omega]
    · by_cases h3 : i < 24
      · simp [h1, h2, h3, hover b0 i (by omega), hover b1 (i - 8) (by omega),
          show ¬ i - 8 < 8 by omega, show i - 16 < 8 by omega, show i - 16 < 32 by omega]
      · simp [h1, h2, h3, hover b0 i (by omega), hover b1 (i - 8) (by omega),
          hover b2 (i - 16) (by omega), show ¬ i - 8 < 8 by omega, show ¬ i - 16 < 8 by omega,
          show i - 24 < 32 by omega]

/-- A byte, by the table. -/
theorem crc32Byte_eq (crc : BitVec 32) (byte : UInt8) :
    crc32Byte crc byte = crcByte crc32Poly crc byte := by
  have hlt : byte.toBitVec.toNat < 2 ^ 8 := byte.toBitVec.isLt
  have hsmall : (byte.toBitVec.setWidth 32).toNat = byte.toBitVec.toNat := by
    rw [BitVec.toNat_setWidth, Nat.mod_eq_of_lt (by omega)]
  have hlow : byte.toBitVec.setWidth 32 &&& 0xff#32 = byte.toBitVec.setWidth 32 := by
    refine BitVec.eq_of_toNat_eq ?_
    rw [BitVec.toNat_and, hsmall]
    exact (Nat.and_two_pow_sub_one_eq_mod _ 8).trans (Nat.mod_eq_of_lt hlt)
  have hhigh : byte.toBitVec.setWidth 32 >>> 8 = 0#32 := by
    refine BitVec.eq_of_toNat_eq ?_
    rw [BitVec.toNat_ushiftRight, hsmall, Nat.shiftRight_eq_div_pow, Nat.div_eq_of_lt hlt]
    rfl
  have hindex : crc &&& 0xff#32 ^^^ byte.toBitVec.setWidth 32 =
      (crc ^^^ byte.toBitVec.setWidth 32) &&& 0xff#32 := by
    refine BitVec.eq_of_getLsbD_eq fun i _ => ?_
    have hbit := congrArg (fun x : BitVec 32 => x.getLsbD i) hlow
    simp only [BitVec.getLsbD_and] at hbit
    rw [BitVec.getLsbD_xor, BitVec.getLsbD_and, BitVec.getLsbD_and, BitVec.getLsbD_xor, ← hbit]
    cases crc.getLsbD i <;> cases (byte.toBitVec.setWidth 32).getLsbD i <;>
      cases (0xff#32).getLsbD i <;> rfl
  have hsplit := crcBits_add_eight crc32Poly 0 (crc ^^^ byte.toBitVec.setWidth 32)
  rw [BitVec.ushiftRight_xor_distrib, hhigh, BitVec.xor_zero] at hsplit
  rw [crc32Byte, hindex, crc32Lookup0_eq, getD_crcTable, BitVec.xor_comm]
  exact hsplit.symm

/-- Four bytes at once, by the four tables. -/
theorem crc32FourBytes_eq (crc : BitVec 32) (b0 b1 b2 b3 : UInt8) :
    crc32FourBytes crc b0 b1 b2 b3 = [b0, b1, b2, b3].foldl (crcByte crc32Poly) crc := by
  have hbytes : [b0, b1, b2, b3].foldl (crcByte crc32Poly) crc =
      crcBits crc32Poly 32 (word32 b0 b1 b2 b3 ^^^ crc) := by
    have h0 : crcByte crc32Poly crc b0 = crcBits crc32Poly 8 (crc ^^^ b0.toBitVec.setWidth 32) :=
      rfl
    simp only [List.foldl_cons, List.foldl_nil]
    rw [h0, crcByte_crcBits (by decide), crcByte_crcBits (by decide),
      crcByte_crcBits (by decide), word32_eq, BitVec.xor_comm _ crc]
    simp only [BitVec.xor_assoc]
  rw [hbytes, crc32FourBytes]
  generalize word32 b0 b1 b2 b3 ^^^ crc = one
  -- one byte of the word after the other
  have h3 := crcBits_add_eight crc32Poly 24 one
  have h2 := crcBits_add_eight crc32Poly 16 (one >>> 8)
  have h1 := crcBits_add_eight crc32Poly 8 (one >>> 8 >>> 8)
  have h0 := crcBits_add_eight crc32Poly 0 (one >>> 8 >>> 8 >>> 8)
  have hnone : crcBits crc32Poly 0 (one >>> 8 >>> 8 >>> 8 >>> 8) = 0#32 := by
    rw [← BitVec.shiftRight_add, ← BitVec.shiftRight_add, ← BitVec.shiftRight_add]
    exact BitVec.eq_of_toNat_eq (by
      show (one >>> 32).toNat = 0
      rw [BitVec.toNat_ushiftRight, Nat.shiftRight_eq_div_pow, Nat.div_eq_of_lt one.isLt])
  rw [hnone, BitVec.xor_zero] at h0
  have hword : crcBits crc32Poly 32 one = crcBits crc32Poly 32 (one &&& 0xff#32) ^^^
      (crcBits crc32Poly 24 (one >>> 8 &&& 0xff#32) ^^^
        (crcBits crc32Poly 16 (one >>> 8 >>> 8 &&& 0xff#32) ^^^
          crcBits crc32Poly 8 (one >>> 8 >>> 8 >>> 8 &&& 0xff#32))) :=
    h3.trans (congrArg _ (h2.trans (congrArg _ (h1.trans (congrArg _ h0)))))
  rw [hword, ← BitVec.shiftRight_add, ← BitVec.shiftRight_add, crc32Lookup0_eq, crc32Lookup1_eq,
    crc32Lookup2_eq, crc32Lookup3_eq, getD_crcTable, getD_crcTable, getD_crcTable, getD_crcTable,
    BitVec.xor_comm, BitVec.xor_comm _ (crcBits crc32Poly 24 _),
    BitVec.xor_comm _ (crcBits crc32Poly 16 _)]

theorem crc32Loop_eq (data : List UInt8) (crc : BitVec 32) :
    crc32Loop data crc = data.foldl (crcByte crc32Poly) crc := by
  have hbytes : crc32Byte = crcByte crc32Poly := funext fun crc => funext fun byte =>
    crc32Byte_eq crc byte
  induction data, crc using crc32Loop.induct with
  | case1 b0 b1 b2 b3 rest crc ih =>
    rw [crc32Loop, ih, crc32FourBytes_eq, ← List.foldl_append]
    rfl
  | case2 rest crc hshort => rw [crc32Loop, hbytes]; exact hshort

/-! ## Data in pieces -/

/-- More data after some for which the checksum is known. -/
theorem adler32Z_append (as bs : List UInt8) :
    adler32Z (UInt32.ofNat (adler32 as)) (some bs) = UInt32.ofNat (adler32 (as ++ bs)) := by
  have hreduced : Reduced (adlerSums (1, 0) as) := adlerSums_lt (by decide) as
  have hsums := adler32Z_eq hreduced bs
  rw [← adlerSums_append] at hsums
  exact hsums

theorem crc32_4bytes_append (as bs : List UInt8) :
    crc32_4bytes bs ⟨crc32 as⟩ = ⟨crc32 (as ++ bs)⟩ := by
  rw [crc32_4bytes, crc32Loop_eq, crc32, BitVec.not_not, crc32, crc32Register, crc32Register,
    List.foldl_append]

/-- **The zlib checksum is Adler-32 of all the blocks**, however the data are cut into blocks. -/
theorem adler32Z_blocks (blocks : List (List UInt8)) :
    blocks.foldl (fun checkSum block => adler32Z checkSum (some block)) (adler32Z 0 none) =
      UInt32.ofNat (adler32 blocks.flatten) :=
  foldl_pieces (fun data => UInt32.ofNat (adler32 data)) adler32Z_append blocks []

/-- **The gzip checksum is CRC-32 of all the blocks.** -/
theorem crc32_4bytes_blocks (blocks : List (List UInt8)) :
    blocks.foldl (fun checkSum block => crc32_4bytes block checkSum) 0 = ⟨crc32 blocks.flatten⟩ :=
  foldl_pieces (fun data => UInt32.ofBitVec (crc32 data)) crc32_4bytes_append blocks []

end Umka.Inflate
