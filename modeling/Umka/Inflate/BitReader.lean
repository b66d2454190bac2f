import Umka.Lib.Checked

/-!
# `deps/em_inflate/em_inflate.c`: the bit reader

Bytes go above the bits that are already in the shifter and values are taken off below. The count of
bits can get below zero at the end of the input, where values come out with zeros for the bits that
are missing; `peek16bits` counts sixteen bits even if there was only one byte left.

As umka is built for 32 bits, the shifter has 32 bits and `em_lsb_bitreader_refill_32` does nothing.
-/

set_option autoImplicit false

namespace Umka.Inflate

open Lib

/-- How a function of `em_inflate.c` ends when it does not return a value. -/
inductive Stop where
  /-- It returns -1. -/
  | failed
  /-- An access outside an array or a buffer, a shift by too much, an overflow, a `memcpy` onto
      itself, or a loop that goes on for ever. -/
  | fault
  /-- `memcpy` reads behind the end of the compressed data. -/
  | overread
  /-- A variable is read that was never set. -/
  | uninit
deriving DecidableEq, Repr

/-- `em_lsb_bitreader_t`, with the block from `pInBlockStart` to `pInBlockEnd` and `pInBlock` as a
    place in it. -/
structure BitReader where
  bitCount : Int
  data : Nat
  block : List UInt8
  pos : Nat
deriving DecidableEq, Repr

namespace BitReader

def init (block : List UInt8) : BitReader := ⟨0, 0, block, 0⟩

/-- `nDecShifterData |= *pInBlock++ << n`. -/
def load (r : BitReader) (n : Int) : Except Stop BitReader := do
  let byte ← fetch .fault r.block r.pos
  if 0 ≤ n ∧ n < 32 then
    .ok { r with data := r.data ||| byte.toNat <<< n.toNat % 2 ^ 32, pos := r.pos + 1 }
  else .error .fault

def consumeBits (r : BitReader) (nBits : Nat) : Except Stop BitReader :=
  if nBits < 32 ∧ -(2 ^ 31) ≤ r.bitCount - nBits then
    .ok { r with data := r.data >>> nBits, bitCount := r.bitCount - nBits }
  else .error .fault

/-- What `getBits` adds to the shifter: a byte, and one more if there is one. -/
def addBytes (r : BitReader) : Except Stop BitReader := do
  let r ← r.load r.bitCount
  let r := { r with bitCount := r.bitCount + 8 }
  if r.pos < r.block.length then do
    let r ← r.load r.bitCount
    .ok { r with bitCount := r.bitCount + 8 }
  else .ok r

/-- The end of `getBits`. -/
def takeBits (r : BitReader) (nBits : Nat) : Except Stop (Option Nat × BitReader) := do
  let value := r.data &&& (2 ^ nBits - 1)
  let r ← r.consumeBits nBits
  .ok (some value, r)

/-- A value of some bits, `none` for -1. -/
def getBits (r : BitReader) (nBits : Nat) : Except Stop (Option Nat × BitReader) :=
  if r.bitCount < nBits then
    if r.pos < r.block.length then do
      let r ← r.addBytes
      r.takeBits nBits
    else .ok (none, r)
  else r.takeBits nBits

def peek16bits (r : BitReader) : Except Stop (Nat × BitReader) :=
  if r.bitCount < 16 then
    if r.pos < r.block.length then do
      let count := r.bitCount
      let r ← r.load count
      let r ← if r.pos < r.block.length then r.load (count + 8) else .ok r
      .ok (r.data &&& 0xffff, { r with bitCount := count + 16 })
    else .ok (r.data &&& 0xffff, r)
  else .ok (r.data &&& 0xffff, r)

/-- The loop of `byteAlign`: the place to go back to, `none` if that is before the block. -/
def rewind : Nat → Nat → Option Nat
  | count + 8, pos + 1 => rewind count pos
  | _ + 8, 0 => none
  | _, pos => some pos

def byteAlign (r : BitReader) : Except Stop BitReader :=
  match rewind r.bitCount.toNat r.pos with
  | some pos => .ok { r with bitCount := 0, data := 0, pos := pos }
  | none => .error .failed

end BitReader

end Umka.Inflate
