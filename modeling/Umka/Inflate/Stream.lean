import Umka.Inflate.Block
import Umka.Inflate.Checksum

/-!
# `deps/em_inflate/em_inflate.c`: the whole stream

The header of gzip or zlib, if there is one, the blocks up to the final one, and the checksum.
-/

set_option autoImplicit false

namespace Umka.Inflate

open Lib

inductive CheckSumType where
  | none
  | gzip
  | zlib
deriving DecidableEq, Repr

/-! ## Headers -/

/-- Behind a text with a zero at its end. -/
def skipText (input : List UInt8) : Nat → Nat → Except Stop Nat
  | 0, _ => .error .fault
  | fuel + 1, pos =>
    if input.length ≤ pos then .error .failed
    else do
      let byte ← fetch .fault input pos
      if byte = 0 then .ok (pos + 1) else skipText input fuel (pos + 1)

/-- Behind `n` bytes. -/
def skipBytes (input : List UInt8) (pos n : Nat) : Except Stop Nat :=
  if input.length < pos + n then .error .failed else .ok (pos + n)

/-- The part number, as the source calls it. -/
def skipPart (input : List UInt8) (flags : UInt8) (pos : Nat) : Except Stop Nat :=
  if flags &&& 0x02 ≠ 0 then skipBytes input pos 2 else .ok pos

def skipExtra (input : List UInt8) (flags : UInt8) (pos : Nat) : Except Stop Nat :=
  if flags &&& 0x04 ≠ 0 then
    if input.length < pos + 2 then .error .failed
    else do
      let extraFieldLen ← short input pos
      skipBytes input (pos + 2) extraFieldLen
  else .ok pos

def skipName (input : List UInt8) (flags : UInt8) (pos : Nat) : Except Stop Nat :=
  if flags &&& 0x08 ≠ 0 then skipText input (input.length + 1) pos else .ok pos

def skipComment (input : List UInt8) (flags : UInt8) (pos : Nat) : Except Stop Nat :=
  if flags &&& 0x10 ≠ 0 then skipText input (input.length + 1) pos else .ok pos

/-- Where the compressed data begin, behind the header of gzip. -/
def gzipHeader (input : List UInt8) : Except Stop Nat :=
  if input.length < 2 + 8 then .error .failed
  else do
    let method ← fetch .fault input 2
    if method ≠ 0x08 then .error .failed
    else do
      let flags ← fetch .fault input 3
      let pos ← skipPart input flags 10
      let pos ← skipExtra input flags pos
      let pos ← skipName input flags pos
      let pos ← skipComment input flags pos
      if flags &&& 0x20 ≠ 0 then .error .failed else .ok pos

/-- Where the compressed data begin, if the first byte is as that of zlib. -/
def zlibHeader (input : List UInt8) (cmf flg : UInt8) : Except Stop Nat :=
  if cmf >>> 4 ≤ 7 ∧ (flg.toNat ||| cmf.toNat <<< 8) % 31 = 0 then
    if flg &&& 0x20 ≠ 0 then skipBytes input 2 4 else .ok 2
  else .ok 0

def readHeader (input : List UInt8) : Except Stop (CheckSumType × Nat) :=
  if input.length < 2 then .error .failed
  else do
    let byte0 ← fetch .fault input 0
    let byte1 ← fetch .fault input 1
    if byte0 = 0x1f ∧ byte1 = 0x8b then do
      let pos ← gzipHeader input
      .ok (.gzip, pos)
    else if byte0 &&& 0x0f = 0x08 then do
      let pos ← zlibHeader input byte0 byte1
      .ok (.zlib, pos)
    else .ok (.none, 0)

/-! ## Checksums -/

def initCheckSum : CheckSumType → UInt32
  | .zlib => adler32Z 0 none
  | _ => 0

def updateCheckSum (type : CheckSumType) (checkSum : UInt32) (bytes : List UInt8) : UInt32 :=
  match type with
  | .gzip => crc32_4bytes bytes checkSum
  | .zlib => adler32Z checkSum (some bytes)
  | .none => checkSum

/-- The 32 bits of the checksum that is stored at `pos`. -/
def storedCheckSum (type : CheckSumType) (block : List UInt8) (pos : Nat) : Except Stop UInt32 := do
  let b0 ← fetch .fault block pos
  let b1 ← fetch .fault block (pos + 1)
  let b2 ← fetch .fault block (pos + 2)
  let b3 ← fetch .fault block (pos + 3)
  if type = .gzip then
    .ok (b0.toUInt32 ||| b1.toUInt32 <<< 8 ||| b2.toUInt32 <<< 16 ||| b3.toUInt32 <<< 24)
  else .ok (b0.toUInt32 <<< 24 ||| b1.toUInt32 <<< 16 ||| b2.toUInt32 <<< 8 ||| b3.toUInt32)

def verifyCheckSum (type : CheckSumType) (checkSum : UInt32) (r : BitReader) : Except Stop Unit :=
  if type = .none then .ok ()
  else if r.block.length < r.pos + 4 then .error .failed
  else do
    let stored ← storedCheckSum type r.block r.pos
    if stored ≠ checkSum then .error .failed else .ok ()

/-! ## Blocks -/

def inflateBlock (blockType : Option Nat) (r : BitReader) (out : List UInt8) (cur max : Nat) :
    Except Stop (Nat × List UInt8 × BitReader) :=
  match blockType with
  | some 0 => copyStored r out cur (max - cur)
  | some 1 => decompressBlock r false out cur (max - cur)
  | some 2 => decompressBlock r true out cur (max - cur)
  | some _ => .error .failed
  -- no case of the switch, and `nBlockResult` is not set
  | none => .error .uninit

/-- `nCurOutOffset`, the buffer, the checksum and the reader after the last block. -/
structure Inflated where
  curOutOffset : Nat
  out : List UInt8
  checkSum : UInt32
  reader : BitReader

/-- `do … while (!nIsFinalBlock)`. -/
def inflateBlocks (type : CheckSumType) (max : Nat) :
    Nat → List UInt8 → Nat → UInt32 → BitReader → Except Stop Inflated
  | 0, _, _, _, _ => .error .fault
  | fuel + 1, out, cur, checkSum, r => do
    let (isFinalBlock, r) ← r.getBits 1
    let (blockType, r) ← r.getBits 2
    let (n, out, r) ← inflateBlock blockType r out cur max
    let checkSum := updateCheckSum type checkSum ((out.drop cur).take n)
    if isFinalBlock = some 0 then inflateBlocks type max fuel out (cur + n) checkSum r
    else .ok ⟨cur + n, out, checkSum, r⟩

/-- The result of `em_lsb_bitreader_byte_align` is not looked at here, so that the checksum would be
    read from before the block. -/
def finalAlign (r : BitReader) : Except Stop BitReader :=
  match r.byteAlign with
  | .ok r => .ok r
  | .error _ => .error .fault

/-- `em_inflate`: the size of the data and the buffer. -/
def emInflate (input out : List UInt8) (maxOutDataSize : Nat) : Except Stop (Nat × List UInt8) := do
  let (type, pos) ← readHeader input
  let s ← inflateBlocks type maxOutDataSize (8 * input.length + 16) out 0 (initCheckSum type)
    (.init (input.drop pos))
  let r ← finalAlign s.reader
  verifyCheckSum type s.checkSum r
  .ok (s.curOutOffset, s.out)

end Umka.Inflate
