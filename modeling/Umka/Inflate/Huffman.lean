import Umka.Inflate.BitReader

/-!
# `deps/em_inflate/em_inflate.c`: the Huffman decoder

`prepareTable` sorts the symbols by the lengths of their codewords, `finalizeTable` goes through
them in that order and hands out the codewords. Codewords of up to ten bits are put into a table of
all values of the next ten bits; the longer ones are looked for bit by bit.

`pRevSymbolTable` has two halves, the symbols and the lengths, which are two lists here. What is on
the stack before it is written is zero.
-/

set_option autoImplicit false

namespace Umka.Inflate

open Lib

def maxSymbols : Nat := 288

def nCodeLenSyms : Nat := 19

def nFastSymbolBits : Nat := 10

/-- An `unsigned int` of -1. -/
def unset : Nat := 2 ^ 32 - 1

structure HuffmanDecoder where
  fastSymbol : List Nat
  startIndex : List Nat
  symbols : Nat
  numSorted : Nat
  startingPos : List Nat
deriving DecidableEq, Repr

structure RevSymbolTable where
  symbol : List Nat
  codeLength : List Nat
deriving DecidableEq, Repr

/-! ## Tables -/

/-- `nNumSymbolsPerLen[pCodeLength[i]]++`. -/
def countSymbol (codeLength : List Nat) (i : Nat) (perLen : List Nat) : Except Stop (List Nat) := do
  let len ← fetch .fault codeLength i
  if 16 ≤ len then .error .failed
  else do
    let count ← fetch .fault perLen len
    store .fault perLen len (count + 1)

/-- Where the symbols of length `i` start. -/
def startLength (perLen : List Nat) (i : Nat) (s : List Nat × Nat) :
    Except Stop (List Nat × Nat) := do
  let startingPos ← store .fault s.1 i s.2
  let count ← fetch .fault perLen i
  .ok (startingPos, s.2 + count)

/-- `pRevSymbolTable[nStartingPos[pCodeLength[i]]++] = i`, if there is a code length. -/
def sortSymbol (codeLength : List Nat) (i : Nat) (s : List Nat × List Nat) :
    Except Stop (List Nat × List Nat) := do
  let len ← fetch .fault codeLength i
  if len = 0 then .ok s
  else do
    let pos ← fetch .fault s.1 len
    let rev ← store .fault s.2 pos i
    let startingPos ← store .fault s.1 len (pos + 1)
    .ok (startingPos, rev)

def prepareTable (readSymbols symbols : Nat) (codeLength : List Nat) :
    Except Stop (HuffmanDecoder × List Nat) :=
  if maxSymbols < readSymbols ∨ maxSymbols < symbols ∨ symbols < readSymbols then .error .failed
  else do
    let perLen ← loop (countSymbol codeLength) 0 readSymbols (List.replicate 16 0)
    let starts ← loop (startLength perLen) 1 15 (List.replicate 16 0, 0)
    let sorted ← loop (sortSymbol codeLength) 0 readSymbols (starts.1, List.replicate symbols unset)
    .ok (⟨[], [], symbols, starts.2, sorted.1⟩, sorted.2)

/-- The sixteen bits of a word upside down, and of those the highest `len`. -/
def reverseWord (word len : Nat) : Nat :=
  let word := (word &&& 0x5555) <<< 1 ||| (word &&& 0xaaaa) >>> 1
  let word := (word &&& 0x3333) <<< 2 ||| (word &&& 0xcccc) >>> 2
  let word := (word &&& 0x0f0f) <<< 4 ||| (word &&& 0xf0f0) >>> 4
  let word := (word &&& 0x00ff) <<< 8 ||| (word &&& 0xff00) >>> 8
  word >>> (16 - len)

/-- `while (nSlots)`. -/
def fillSlots (entry step : Nat) : Nat → Nat → List Nat → Except Stop (List Nat)
  | 0, _, fastSymbol => .ok fastSymbol
  | slots + 1, word, fastSymbol => do
    let fastSymbol ← store .fault fastSymbol word entry
    fillSlots entry step slots (word + step) fastSymbol

/-- What `finalizeTable` writes while it goes through the symbols. -/
structure Building where
  fastSymbol : List Nat
  codeWord : Nat
  codeLength : List Nat
deriving DecidableEq, Repr

/-- The body of the inner loop: the codeword of symbol `i` in the order. -/
def placeCode (d : HuffmanDecoder) (rev : List Nat) (len i : Nat) (b : Building) :
    Except Stop Building :=
  if d.symbols ≤ i then .error .failed
  else do
    let codeLength ← store .fault b.codeLength i len
    if 2 ^ len ≤ b.codeWord then .error .failed
    else do
      let fastSymbol ←
        if len ≤ nFastSymbolBits then do
          let sym ← fetch .fault rev i
          fillSlots ((sym &&& 0xffffff) ||| len <<< 24) (2 ^ len) (2 ^ (nFastSymbolBits - len))
            (reverseWord b.codeWord len) b.fastSymbol
        else .ok b.fastSymbol
      .ok ⟨fastSymbol, b.codeWord + 1, codeLength⟩

/-- `while (i < nNumSorted)`, one length after the other. -/
def placeCodes (d : HuffmanDecoder) (rev : List Nat) :
    Nat → Nat → Nat → List Nat × Building → Except Stop (Nat × List Nat × Building)
  | 0, _, _, _ => .error .fault
  | fuel + 1, len, i, (startIndex, b) =>
    if i < d.numSorted then
      if 16 ≤ len then .error .failed
      else do
        let startIndex ← store .fault startIndex len ((i + 2 ^ 32 - b.codeWord) % 2 ^ 32)
        let next ← fetch .fault d.startingPos len
        let b ← loop (placeCode d rev len) i (next - i) b
        placeCodes d rev fuel (len + 1) (i + (next - i))
          (startIndex, { b with codeWord := b.codeWord * 2 })
    else .ok (i, startIndex, b)

/-- `pRevSymbolTable[i] = -1` and a length of zero. -/
def clearSymbol (i : Nat) (t : RevSymbolTable) : Except Stop RevSymbolTable := do
  let symbol ← store .fault t.symbol i unset
  let codeLength ← store .fault t.codeLength i 0
  .ok ⟨symbol, codeLength⟩

def finalizeTable (d : HuffmanDecoder) (rev : List Nat) :
    Except Stop (HuffmanDecoder × RevSymbolTable) := do
  let (i, startIndex, b) ← placeCodes d rev 17 1 0
    (List.replicate 16 0, ⟨List.replicate (2 ^ nFastSymbolBits) 0, 0, List.replicate d.symbols 0⟩)
  let t ← loop clearSymbol i (d.symbols - i) ⟨rev, b.codeLength⟩
  .ok ({ d with fastSymbol := b.fastSymbol, startIndex := startIndex }, t)

/-! ## Reading -/

/-- The length at a place, zero if there is no such place. -/
def codeLengthAt (d : HuffmanDecoder) (t : RevSymbolTable) (tableIndex : Nat) : Except Stop Nat :=
  if tableIndex < d.symbols then fetch .fault t.codeLength tableIndex else .ok 0

/-- The slow path, for the lengths from `nBits` on: the symbol and the length of its codeword. -/
def findCode (d : HuffmanDecoder) (t : RevSymbolTable) :
    Nat → Nat → Nat → Nat → Except Stop (Option (Nat × Nat))
  | 0, _, _, _ => .ok none
  | left + 1, nBits, stream, codeWord => do
    let codeWord := codeWord ||| (stream &&& 1)
    let start ← fetch .fault d.startIndex nBits
    let tableIndex := (start + codeWord) % 2 ^ 32
    let len ← codeLengthAt d t tableIndex
    if nBits = len then do
      let sym ← fetch .fault t.symbol tableIndex
      .ok (some (sym, nBits))
    else findCode d t left (nBits + 1) (stream >>> 1) (codeWord <<< 1)

/-- The end of the slow path. -/
def readSlow (d : HuffmanDecoder) (t : RevSymbolTable) (stream : Nat) (r : BitReader) :
    Except Stop (Nat × BitReader) := do
  match ← findCode d t 15 1 stream 0 with
  | some (sym, nBits) => do
    let r ← r.consumeBits nBits
    .ok (sym, r)
  | none => .ok (unset, r)

def readValue (d : HuffmanDecoder) (t : RevSymbolTable) (r : BitReader) :
    Except Stop (Nat × BitReader) := do
  let (stream, r) ← r.peek16bits
  let fast ← fetch .fault d.fastSymbol (stream &&& (2 ^ nFastSymbolBits - 1))
  if fast ≠ 0 then do
    let r ← r.consumeBits (fast >>> 24)
    .ok (fast &&& 0xffffff, r)
  else readSlow d t stream r

/-! ## Code lengths -/

/-- The order in which code lengths are stored. -/
def nCodeLenSymIndex : List Nat :=
  [16, 17, 18, 0, 8, 7, 9, 6, 10, 5, 11, 4, 12, 3, 13, 2, 14, 1, 15]

def readRawLength (lenBits i : Nat) (s : List Nat × BitReader) :
    Except Stop (List Nat × BitReader) := do
  match ← s.2.getBits lenBits with
  | (none, _) => .error .failed
  | (some len, r) => do
    let sym ← fetch .fault nCodeLenSymIndex i
    let codeLength ← store .fault s.1 sym len
    .ok (codeLength, r)

def clearRawLength (i : Nat) (codeLength : List Nat) : Except Stop (List Nat) := do
  let sym ← fetch .fault nCodeLenSymIndex i
  store .fault codeLength sym 0

def readRawLengths (lenBits readSymbols symbols : Nat) (codeLength : List Nat) (r : BitReader) :
    Except Stop (List Nat × BitReader) :=
  if maxSymbols < readSymbols ∨ maxSymbols < symbols ∨ symbols < readSymbols then .error .failed
  else do
    let (codeLength, r) ← loop (readRawLength lenBits) 0 readSymbols (codeLength, r)
    let codeLength ← loop clearRawLength readSymbols (symbols - readSymbols) codeLength
    .ok (codeLength, r)

/-- The length that a code stands for and how often it comes: a code below 16 is a length by itself,
    which comes once, and the others are runs. -/
def readRunLen (len prevLength : Nat) (r : BitReader) : Except Stop (Nat × Nat × BitReader) :=
  if len < 16 then .ok (len, 1, r)
  else if len = 16 then do
    match ← r.getBits 2 with
    | (none, _) => .error .failed
    | (some extra, r) => .ok (prevLength, 3 + extra, r)
  else if len = 17 then do
    match ← r.getBits 3 with
    | (none, _) => .error .failed
    | (some extra, r) => .ok (0, 3 + extra, r)
  else if len = 18 then do
    match ← r.getBits 7 with
    | (none, _) => .error .failed
    | (some extra, r) => .ok (0, 11 + extra, r)
  else .ok (prevLength, 0, r)

/-- `while (i < nReadSymbols)`. -/
def readVarLoop (d : HuffmanDecoder) (t : RevSymbolTable) (readSymbols : Nat) :
    Nat → Nat → Nat → List Nat → BitReader → Except Stop (List Nat × BitReader)
  | 0, _, _, _, _ => .error .fault
  | fuel + 1, i, prevLength, codeLength, r =>
    if i < readSymbols then do
      let (len, r) ← readValue d t r
      if len = unset then .error .failed
      else do
        let (prevLength, runLen, r) ← readRunLen len prevLength r
        let n := min runLen (readSymbols - i)
        let codeLength ← loop (fun j c => store .fault c j prevLength) i n codeLength
        readVarLoop d t readSymbols fuel (i + n) prevLength codeLength r
    else .ok (codeLength, r)

def readVarLengths (d : HuffmanDecoder) (t : RevSymbolTable) (readSymbols symbols : Nat)
    (codeLength : List Nat) (r : BitReader) : Except Stop (List Nat × BitReader) :=
  if symbols < readSymbols then .error .failed
  else do
    let (codeLength, r) ← readVarLoop d t readSymbols (readSymbols + 1) 0 0 codeLength r
    let codeLength ← loop (fun j c => store .fault c j 0) readSymbols
      (symbols - readSymbols) codeLength
    .ok (codeLength, r)

end Umka.Inflate
