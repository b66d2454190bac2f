import Umka.Proof.Qcow2.Init

/-!
# Images from headers and words

The inverse of the decoding in `vdisk/qcow2.c`: a header laid out in 104 bytes, and an image
made of a header followed by 64-bit big-endian words. The two round trips (`headerOf_image`,
`be64_span_image`) are what the concrete images of the following files rest on, so that an
image can be given by what it *says* and not by its bytes.
-/

set_option autoImplicit false

namespace Umka.Proof.Qcow2

open Lib Vdisk

/-- Byte `i` of a number, counted from the low end. -/
def byteOf (n i : Nat) : UInt8 := UInt8.ofNat (n / 256 ^ i % 256)

theorem toNat_byteOf (n i : Nat) : (byteOf n i).toNat = n / 256 ^ i % 256 := by
  unfold byteOf
  rw [UInt8.toNat_ofNat']
  omega

def beBytes32 (n : Nat) : List UInt8 := [byteOf n 3, byteOf n 2, byteOf n 1, byteOf n 0]

def beBytes64 (n : Nat) : List UInt8 :=
  [byteOf n 7, byteOf n 6, byteOf n 5, byteOf n 4, byteOf n 3, byteOf n 2, byteOf n 1, byteOf n 0]

theorem be32_beBytes32 {n : Nat} (h : n < 2 ^ 32) (rest : List UInt8) :
    be32 (beBytes32 n ++ rest) = n := by
  unfold be32 byteNat beBytes32
  simp only [List.cons_append, List.nil_append, List.getD_cons_zero, List.getD_cons_succ,
    toNat_byteOf, Nat.shiftLeft_eq]
  omega

theorem be64_beBytes64 {n : Nat} (h : n < 2 ^ 64) (rest : List UInt8) :
    be64 (beBytes64 n ++ rest) = n := by
  unfold be64 byteNat beBytes64
  simp only [List.cons_append, List.nil_append, List.getD_cons_zero, List.getD_cons_succ,
    toNat_byteOf, Nat.shiftLeft_eq]
  omega

/-- `struct qcow2_header` in memory, field by field. The fields the model leaves out are zero. -/
def headerFields (h : Qcow2Header) : List (List UInt8) :=
  [h.magic, beBytes32 h.version, beBytes64 h.backFileOffset, beBytes32 0, beBytes32 h.clusterBits,
    beBytes64 h.size, beBytes32 h.cryptMethod, beBytes32 h.l1Size, beBytes64 h.l1TableOffset,
    beBytes64 0, beBytes32 0, beBytes32 0, beBytes64 0, beBytes64 h.incompatibleFeatures,
    beBytes64 0, beBytes64 0, beBytes32 h.refcountOrder, beBytes32 104]

def encodeHeader (h : Qcow2Header) : List UInt8 := (headerFields h).flatten

/-- Every field fits the width it has in the file. -/
structure FieldsFit (h : Qcow2Header) : Prop where
  magic : h.magic.length = 4
  version : h.version < 2 ^ 32
  backFileOffset : h.backFileOffset < 2 ^ 64
  clusterBits : h.clusterBits < 2 ^ 32
  size : h.size < 2 ^ 64
  cryptMethod : h.cryptMethod < 2 ^ 32
  l1Size : h.l1Size < 2 ^ 32
  l1TableOffset : h.l1TableOffset < 2 ^ 64
  incompatibleFeatures : h.incompatibleFeatures < 2 ^ 64
  refcountOrder : h.refcountOrder < 2 ^ 32

theorem length_encodeHeader {h : Qcow2Header} (hf : FieldsFit h) :
    (encodeHeader h).length = headerSize := by
  simp [encodeHeader, headerFields, beBytes32, beBytes64, hf.magic, headerSize]

/-- Field `i` starts where the fields before it end. -/
theorem drop_encodeHeader {h : Qcow2Header} (i : Nat) {k : Nat}
    (hk : ((headerFields h).take i).flatten.length = k) :
    (encodeHeader h).drop k = ((headerFields h).drop i).flatten := by
  have hsplit : encodeHeader h
      = ((headerFields h).take i).flatten ++ ((headerFields h).drop i).flatten := by
    rw [← List.flatten_append, List.take_append_drop]
    rfl
  rw [hsplit]
  exact List.drop_left' hk

/-- **A header survives being written and read back.** -/
theorem ofBlock_encodeHeader {h : Qcow2Header} (hf : FieldsFit h) (b : Block headerSize)
    (hb : b.bytes = encodeHeader h) : Qcow2Header.ofBlock b = h := by
  have hlen : ∀ i k, ((headerFields h).take i).flatten.length = k →
      b.bytes.drop k = ((headerFields h).drop i).flatten := by
    intro i k hk
    rw [hb, drop_encodeHeader i hk]
  have hmag : b.bytes.take 4 = h.magic := by
    rw [hb, ← hf.magic]
    exact List.take_left
  unfold Qcow2Header.ofBlock
  rw [hmag, hlen 1 4 (by simp [headerFields, hf.magic]),
    hlen 2 8 (by simp [headerFields, hf.magic, beBytes32]),
    hlen 4 20 (by simp [headerFields, hf.magic, beBytes32, beBytes64]),
    hlen 5 24 (by simp [headerFields, hf.magic, beBytes32, beBytes64]),
    hlen 6 32 (by simp [headerFields, hf.magic, beBytes32, beBytes64]),
    hlen 7 36 (by simp [headerFields, hf.magic, beBytes32, beBytes64]),
    hlen 8 40 (by simp [headerFields, hf.magic, beBytes32, beBytes64]),
    hlen 13 72 (by simp [headerFields, hf.magic, beBytes32, beBytes64]),
    hlen 16 96 (by simp [headerFields, hf.magic, beBytes32, beBytes64])]
  simp only [headerFields, List.drop_succ_cons, List.drop_zero, List.flatten_cons]
  rw [be32_beBytes32 hf.version, be64_beBytes64 hf.backFileOffset, be32_beBytes32 hf.clusterBits,
    be64_beBytes64 hf.size, be32_beBytes32 hf.cryptMethod, be32_beBytes32 hf.l1Size,
    be64_beBytes64 hf.l1TableOffset, be64_beBytes64 hf.incompatibleFeatures,
    be32_beBytes32 hf.refcountOrder]

/-! ## Images -/

/-- The file that starts with the header `h` and holds `words k` at byte `8 * k` after it. -/
def image (h : Qcow2Header) (words : Nat → Nat) (size : Nat) (hs : size < 2 ^ 63) : HostFile where
  size := size
  byte := fun p => if p < headerSize then (encodeHeader h).getD p 0
    else byteOf (words (p / 8)) (7 - p % 8)
  size_lt := hs

section Image

variable {h : Qcow2Header} {words : Nat → Nat} {size : Nat} {hs : size < 2 ^ 63}

theorem headerOf_image (hf : FieldsFit h) (hin : headerSize ≤ size) :
    headerOf (image h words size hs) = h := by
  refine ofBlock_encodeHeader hf _ ?_
  apply List.ext_getElem
  · rw [HostFile.length_span, length_encodeHeader hf]
  · intro i h₁ h₂
    rw [length_encodeHeader hf] at h₂
    simp [HostFile.span, HostFile.byteAt, image, h₂, Nat.lt_of_lt_of_le h₂ hin,
      List.getElem?_eq_getElem (length_encodeHeader hf ▸ h₂)]

/-- The words of an image read back as they were given. -/
theorem be64_span_image {k : Nat} (hk : headerSize ≤ 8 * k) (hin : 8 * k + 8 ≤ size)
    (hw : words k < 2 ^ 64) : be64 ((image h words size hs).span (8 * k) 8) = words k := by
  have hbyte : ∀ i, i < 8 → (image h words size hs).byteAt (8 * k + i) = byteOf (words k)
      (7 - i) := by
    intro i hi
    have h1 : ¬ (8 * k + i < headerSize) := by omega
    have h2 : (8 * k + i) / 8 = k := by omega
    have h3 : (8 * k + i) % 8 = i := by omega
    have h4 : 8 * k + i < size := by omega
    simp [HostFile.byteAt, image, h1, h2, h3, h4]
  have hspan : (image h words size hs).span (8 * k) 8 = beBytes64 (words k) := by
    unfold HostFile.span beBytes64
    simp only [List.range_succ, List.range_zero, List.nil_append, List.cons_append,
      List.map_cons, List.map_nil]
    rw [hbyte 0 (by decide), hbyte 1 (by decide), hbyte 2 (by decide), hbyte 3 (by decide),
      hbyte 4 (by decide), hbyte 5 (by decide), hbyte 6 (by decide), hbyte 7 (by decide)]
  have hround := be64_beBytes64 hw []
  rw [List.append_nil] at hround
  rw [hspan, hround]

end Image

/-! ## One sector

A disk of one 512-byte sector: the L1 table at 512 has one entry, the L2 table at 1024 has
one, and host clusters may lie at 0, 512, ... up to the end of the file at 4096. -/

def smallHeader : Qcow2Header where
  magic := qcow2Magic
  version := 3
  backFileOffset := 0
  clusterBits := 9
  size := 512
  cryptMethod := 0
  l1Size := 1
  l1TableOffset := 512
  incompatibleFeatures := 0
  refcountOrder := 4

def smallWords (l1Entry l2Entry k : Nat) : Nat :=
  if k = 64 then l1Entry else if k = 128 then l2Entry else 0

def smallImage (l1Entry l2Entry : Nat) : HostFile :=
  image smallHeader (smallWords l1Entry l2Entry) 4096 (by decide)

def smallGeometry : Geometry := ⟨9, 512, by decide, by decide, by decide⟩

section SmallImage

variable {l1Entry l2Entry : Nat}

theorem headerOf_smallImage : headerOf (smallImage l1Entry l2Entry) = smallHeader :=
  headerOf_image (by constructor <;> decide) (by decide)

theorem checkHeader_smallHeader : checkHeader smallHeader [] = some smallGeometry := rfl

theorem size_smallImage : (smallImage l1Entry l2Entry).size = 4096 := rfl

theorem tablesInFile_smallImage : TablesInFile (smallImage l1Entry l2Entry) := by
  constructor
  · rw [size_smallImage]
    decide
  · rw [headerOf_smallImage, size_smallImage]
    decide

theorem l1EntryAt_smallImage (h : l1Entry < 2 ^ 64) :
    l1EntryAt (smallImage l1Entry l2Entry) smallHeader 0 = l1Entry :=
  be64_span_image (k := 64) (by decide) (by decide) h

theorem l2Entry_smallImage (h : l2Entry < 2 ^ 64) :
    be64 ((smallImage l1Entry l2Entry).span 1024 8) = l2Entry :=
  be64_span_image (k := 128) (by decide) (by decide) h

theorem entryAt_smallImage_noTable :
    entryAt (smallImage 0 l2Entry) smallHeader smallGeometry 0 = .noTable := by
  unfold entryAt entryOf
  rw [show smallGeometry.l1Index 0 = 0 from rfl, l1EntryAt_smallImage (by decide)]
  rfl

theorem entryAt_smallImage (h : l2Entry < 2 ^ 64) :
    entryAt (smallImage 1024 l2Entry) smallHeader smallGeometry 0 = decodeL2 l2Entry := by
  unfold entryAt entryOf
  rw [show smallGeometry.l1Index 0 = 0 from rfl, l1EntryAt_smallImage (by decide),
    if_neg (by decide), show l2EntryPos 1024 (smallGeometry.l2Index 0) = 1024 from rfl,
    l2Entry_smallImage h]

theorem exists_freshDisk_smallImage (l1Entry l2Entry : Nat) (v : UInt8) :
    ∃ o, FreshDisk ⟨.never⟩ (smallImage l1Entry l2Entry) [] o ∧ o.disk.geom = smallGeometry ∧
      o.cache.cluster.bytes = List.replicate o.disk.geom.clusterSize v := by
  have ht : TablesInFile (smallImage l1Entry l2Entry) := tablesInFile_smallImage
  obtain ⟨o, ho, hv⟩ := exists_freshDisk ⟨.never⟩ ht
    (by rw [headerOf_smallImage]; exact checkHeader_smallHeader)
    (by rw [headerOf_smallImage]; decide) v
  obtain ⟨hg, -⟩ := ho.spec ht
  rw [headerOf_smallImage, checkHeader_smallHeader, Option.some.injEq] at hg
  exact ⟨o, ho, hg.symm, hv⟩

end SmallImage

end Umka.Proof.Qcow2
