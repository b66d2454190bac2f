import Umka.Inflate.Huffman

/-!
# `deps/em_inflate/em_inflate.c`: blocks

A stored block is copied; a compressed one is read symbol by symbol with the tables of the block.
The symbols in the tables are replaced by the base value and the number of extra bits, so that the
loop does not look them up. A match that is far enough away and not too close to the end of the
buffer is copied sixteen bytes at a time.

The buffer is a list, and pointers into it are places in it.
-/

set_option autoImplicit false

namespace Umka.Inflate

open Lib

/-- A `memcpy` to `dst` in the buffer. -/
def memcpyTo (out : List UInt8) (dst : Nat) (bytes : List UInt8) : Except Stop (List UInt8) :=
  if dst + bytes.length ≤ out.length then
    .ok (out.take dst ++ bytes ++ out.drop (dst + bytes.length))
  else .error .fault

/-- An `unsigned short` from two bytes, the lower one first. -/
def short (block : List UInt8) (pos : Nat) : Except Stop Nat := do
  let lo ← fetch .fault block pos
  let hi ← fetch .fault block (pos + 1)
  .ok (lo.toNat ||| hi.toNat <<< 8)

def copyStored (r : BitReader) (out : List UInt8) (outDataOffset blockMaxSize : Nat) :
    Except Stop (Nat × List UInt8 × BitReader) := do
  let r ← r.byteAlign
  if r.block.length < r.pos + 4 then .error .failed
  else do
    let storedLen ← short r.block r.pos
    let negStoredLen ← short r.block (r.pos + 2)
    if storedLen ≠ negStoredLen ^^^ 0xffff then .error .failed
    else if blockMaxSize < storedLen then .error .failed
    -- nobody has looked whether there is so much
    else if r.block.length < r.pos + 4 + storedLen then .error .overread
    else do
      let out ← memcpyTo out outDataOffset ((r.block.drop (r.pos + 4)).take storedLen)
      .ok (storedLen, out, { r with pos := r.pos + 4 + storedLen })

/-! ## The tables of a compressed block -/

def nCodeLenBits : Nat := 3

def nLiteralSyms : Nat := 288

def nEodMarkerSym : Nat := 256

def nMatchLenSymStart : Nat := 257

def nMatchLenSyms : Nat := 29

def nOffsetSyms : Nat := 32

def minMatchSize : Nat := 3

def matchlenPair (base dispbits : Nat) : Nat := base ||| dispbits <<< 16 ||| 0x8000

def offsetPair (base dispbits : Nat) : Nat := base ||| dispbits <<< 16

def matchlenCode : List Nat := [
  matchlenPair (minMatchSize + 0) 0, matchlenPair (minMatchSize + 1) 0,
  matchlenPair (minMatchSize + 2) 0, matchlenPair (minMatchSize + 3) 0,
  matchlenPair (minMatchSize + 4) 0, matchlenPair (minMatchSize + 5) 0,
  matchlenPair (minMatchSize + 6) 0, matchlenPair (minMatchSize + 7) 0,
  matchlenPair (minMatchSize + 8) 1, matchlenPair (minMatchSize + 10) 1,
  matchlenPair (minMatchSize + 12) 1, matchlenPair (minMatchSize + 14) 1,
  matchlenPair (minMatchSize + 16) 2, matchlenPair (minMatchSize + 20) 2,
  matchlenPair (minMatchSize + 24) 2, matchlenPair (minMatchSize + 28) 2,
  matchlenPair (minMatchSize + 32) 3, matchlenPair (minMatchSize + 40) 3,
  matchlenPair (minMatchSize + 48) 3, matchlenPair (minMatchSize + 56) 3,
  matchlenPair (minMatchSize + 64) 4, matchlenPair (minMatchSize + 80) 4,
  matchlenPair (minMatchSize + 96) 4, matchlenPair (minMatchSize + 112) 4,
  matchlenPair (minMatchSize + 128) 5, matchlenPair (minMatchSize + 160) 5,
  matchlenPair (minMatchSize + 192) 5, matchlenPair (minMatchSize + 224) 5,
  matchlenPair (minMatchSize + 255) 0]

/-- The last two of the thirty-two have no initializer. -/
def offsetCode : List Nat := [
  offsetPair 1 0, offsetPair 2 0, offsetPair 3 0, offsetPair 4 0, offsetPair 5 1, offsetPair 7 1,
  offsetPair 9 2, offsetPair 13 2, offsetPair 17 3, offsetPair 25 3, offsetPair 33 4,
  offsetPair 49 4, offsetPair 65 5, offsetPair 97 5, offsetPair 129 6, offsetPair 193 6,
  offsetPair 257 7, offsetPair 385 7, offsetPair 513 8, offsetPair 769 8, offsetPair 1025 9,
  offsetPair 1537 9, offsetPair 2049 10, offsetPair 3073 10, offsetPair 4097 11, offsetPair 6145 11,
  offsetPair 8193 12, offsetPair 12289 12, offsetPair 16385 13, offsetPair 24577 13, 0, 0]

/-- A count of the header of a dynamic block. -/
def readCount (r : BitReader) (nBits least most : Nat) : Except Stop (Nat × BitReader) := do
  match ← r.getBits nBits with
  | (none, _) => .error .failed
  | (some n, r) => if most < n + least then .error .failed else .ok (n + least, r)

/-- The two decoders of a block, with the symbols sorted, and the reader behind its header. -/
structure Prepared where
  literals : HuffmanDecoder
  literalsRev : List Nat
  offsets : HuffmanDecoder
  offsetsRev : List Nat
  reader : BitReader

def dynamicTables (r : BitReader) : Except Stop Prepared := do
  let (literalSyms, r) ← readCount r 5 257 nLiteralSyms
  let (offsetSyms, r) ← readCount r 5 1 nOffsetSyms
  let (codeLenSyms, r) ← readCount r 4 4 nCodeLenSyms
  let (codeLength, r) ← readRawLengths nCodeLenBits codeLenSyms nCodeLenSyms
    (List.replicate (nLiteralSyms + nOffsetSyms) 0) r
  let (tables, tablesRev) ← prepareTable nCodeLenSyms nCodeLenSyms codeLength
  let (tables, tablesRev) ← finalizeTable tables tablesRev
  let (codeLength, r) ← readVarLengths tables tablesRev (literalSyms + offsetSyms)
    (nLiteralSyms + nOffsetSyms) codeLength r
  let (literals, literalsRev) ← prepareTable literalSyms nLiteralSyms codeLength
  let (offsets, offsetsRev) ← prepareTable offsetSyms nOffsetSyms (codeLength.drop literalSyms)
  .ok ⟨literals, literalsRev, offsets, offsetsRev, r⟩

def fixedLiteralCodeLen : List Nat :=
  List.replicate 144 8 ++ List.replicate 112 9 ++ List.replicate 24 7 ++ List.replicate 8 8

def fixedOffsetCodeLen : List Nat := List.replicate 32 5

def staticTables (r : BitReader) : Except Stop Prepared := do
  let (literals, literalsRev) ← prepareTable nLiteralSyms nLiteralSyms fixedLiteralCodeLen
  let (offsets, offsetsRev) ← prepareTable nOffsetSyms nOffsetSyms fixedOffsetCodeLen
  .ok ⟨literals, literalsRev, offsets, offsetsRev, r⟩

def blockTables (r : BitReader) (dynamicBlock : Bool) : Except Stop Prepared :=
  if dynamicBlock then dynamicTables r else staticTables r

/-- What takes the place of an offset symbol in the table. -/
def offsetEntry (n : Nat) : Except Stop Nat :=
  if n < nOffsetSyms then fetch .fault offsetCode n else .ok n

/-- What takes the place of a literal or match length symbol in the table: 286 and 287 are not
    used. -/
def literalEntry (n : Nat) : Except Stop Nat :=
  if nMatchLenSymStart ≤ n ∧ n < nLiteralSyms then
    if n - nMatchLenSymStart < nMatchLenSyms then fetch .fault matchlenCode (n - nMatchLenSymStart)
    else .ok 0
  else .ok n

def replaceSymbol (entry : Nat → Except Stop Nat) (i : Nat) (rev : List Nat) :
    Except Stop (List Nat) := do
  let n ← fetch .fault rev i
  let value ← entry n
  store .fault rev i value

/-- The two decoders, ready. -/
structure Tables where
  literals : HuffmanDecoder
  literalsRev : RevSymbolTable
  offsets : HuffmanDecoder
  offsetsRev : RevSymbolTable

def finishTables (p : Prepared) : Except Stop Tables := do
  let offsetsRev ← loop (replaceSymbol offsetEntry) 0 nOffsetSyms p.offsetsRev
  let literalsRev ← loop (replaceSymbol literalEntry) 0 nLiteralSyms p.literalsRev
  let (literals, literalsRev) ← finalizeTable p.literals literalsRev
  let (offsets, offsetsRev) ← finalizeTable p.offsets offsetsRev
  .ok ⟨literals, literalsRev, offsets, offsetsRev⟩

/-! ## Matches -/

/-- `nMatchLen` and `nMatchOffset`, after the codeword of the length. -/
def readMatch (t : Tables) (literalsCodeword : Nat) (r : BitReader) :
    Except Stop (Nat × Nat × BitReader) := do
  match ← r.getBits ((literalsCodeword >>> 16) &&& 15) with
  | (none, _) => .error .failed
  | (some extraLen, r) => do
    let (offsetCodeword, r) ← readValue t.offsets t.offsetsRev r
    if offsetCodeword = unset then .error .failed
    else do
      match ← r.getBits ((offsetCodeword >>> 16) &&& 15) with
      | (none, _) => .error .failed
      | (some extraOffset, r) =>
        .ok (extraLen + (literalsCodeword &&& 0x7fff), extraOffset + (offsetCodeword &&& 0x7fff), r)

/-- `memcpy` of sixteen bytes inside the buffer. -/
def memcpy16 (out : List UInt8) (dst src : Nat) : Except Stop (List UInt8) :=
  if (src + 16 ≤ dst ∨ dst + 16 ≤ src) ∧ src + 16 ≤ out.length then
    memcpyTo out dst ((out.drop src).take 16)
  else .error .fault

/-- `do … while (pCopyDst < pCopyEndDst)`. -/
def copyChunks (endDst : Nat) : Nat → Nat → Nat → List UInt8 → Except Stop (List UInt8)
  | 0, _, _, _ => .error .fault
  | fuel + 1, dst, src, out => do
    let out ← memcpy16 out dst src
    if dst + 16 < endDst then copyChunks endDst fuel (dst + 16) (src + 16) out else .ok out

/-- `*pCurOutData++ = *pSrc++`, `i` bytes from where it began. -/
def copyByte (dst src i : Nat) (out : List UInt8) : Except Stop (List UInt8) := do
  let byte ← fetch .fault out (src + i)
  store .fault out (dst + i) byte

def copyMatch (outDataEnd cur matchLen matchOffset : Nat) (out : List UInt8) :
    Except Stop (List UInt8) :=
  if cur < matchOffset then .error .failed
  else if 16 ≤ matchOffset ∧ cur + matchLen + 15 ≤ outDataEnd then
    copyChunks (cur + matchLen) (matchLen + 1) cur (cur - matchOffset) out
  else if outDataEnd < cur + matchLen then .error .failed
  else loop (copyByte cur (cur - matchOffset)) 0 matchLen out

/-! ## The loop -/

/-- `while (1)`. -/
def inflateLoop (t : Tables) (outDataEnd : Nat) :
    Nat → List UInt8 → Nat → BitReader → Except Stop (Nat × List UInt8 × BitReader)
  | 0, _, _, _ => .error .fault
  | fuel + 1, out, cur, r => do
    let (literalsCodeword, r) ← readValue t.literals t.literalsRev r
    if literalsCodeword < 256 then
      if cur < outDataEnd then do
        let out ← store .fault out cur (UInt8.ofNat literalsCodeword)
        inflateLoop t outDataEnd fuel out (cur + 1) r
      else .error .failed
    else if literalsCodeword = nEodMarkerSym then .ok (cur, out, r)
    else if literalsCodeword = unset then .error .failed
    else do
      let (matchLen, matchOffset, r) ← readMatch t literalsCodeword r
      let out ← copyMatch outDataEnd cur matchLen matchOffset out
      inflateLoop t outDataEnd fuel out (cur + matchLen) r

def decompressBlock (r : BitReader) (dynamicBlock : Bool) (out : List UInt8)
    (outDataOffset blockMaxSize : Nat) : Except Stop (Nat × List UInt8 × BitReader) := do
  let p ← blockTables r dynamicBlock
  let t ← finishTables p
  let (cur, out, r) ← inflateLoop t (outDataOffset + blockMaxSize) (blockMaxSize + 1) out
    outDataOffset p.reader
  .ok (cur - outDataOffset, out, r)

end Umka.Inflate
