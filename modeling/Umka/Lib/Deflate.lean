import Umka.Lib.Canonical

/-!
# The deflate format

Compressed data are a sequence of blocks, and a block is stored or is a sequence of tokens, written
with two codes, one for literals and lengths and one for distances. A token is a byte, or a piece of
what has come before. The codes are fixed ones, or the block begins with the lengths of their
codewords, which are themselves written with a code.

Here a block is what its bits say, and `bits` are those bits; what the blocks stand for is
`Block.apply`. The last bit of a stored block's header is followed by bits up to the end of the byte
that say nothing.
-/

set_option autoImplicit false

namespace Umka.Lib.Deflate

/-! ## Lengths and distances -/

/-- The number of extra bits of a length code. -/
def lenExtra (c : Nat) : Nat := if c < 8 ∨ c = 28 then 0 else c / 4 - 1

/-- The least length of a length code. -/
def lenBase (c : Nat) : Nat :=
  if c < 8 then 3 + c else if c = 28 then 258 else 3 + (4 + c % 4) * 2 ^ (c / 4 - 1)

/-- The number of extra bits of a distance code. -/
def distExtra (c : Nat) : Nat := if c < 4 then 0 else c / 2 - 1

/-- The least distance of a distance code. -/
def distBase (c : Nat) : Nat := if c < 4 then 1 + c else 1 + (2 + c % 2) * 2 ^ (c / 2 - 1)

theorem three_le_lenBase (c : Nat) : 3 ≤ lenBase c := by
  unfold lenBase
  split
  · omega
  · split <;> omega

theorem one_le_distBase (c : Nat) : 1 ≤ distBase c := by
  unfold distBase
  split <;> omega

/-! ## Copies -/

/-- `n` more bytes, each the one that is `dist` bytes before it. -/
def copyBack (dist : Nat) : Nat → List UInt8 → List UInt8
  | 0, out => out
  | n + 1, out => copyBack dist n (out ++ [out.getD (out.length - dist) 0])

section

variable {dist : Nat}

@[simp] theorem length_copyBack (n : Nat) :
    ∀ out : List UInt8, (copyBack dist n out).length = out.length + n := by
  induction n with
  | zero => exact fun _ => rfl
  | succ n ih =>
    intro out
    rw [copyBack, ih, List.length_append, List.length_singleton]
    omega

theorem copyBack_add (m n : Nat) :
    ∀ out : List UInt8, copyBack dist (m + n) out = copyBack dist n (copyBack dist m out) := by
  induction m with
  | zero => exact fun out => by rw [Nat.zero_add, copyBack]
  | succ m ih => exact fun out => by rw [Nat.succ_add, copyBack, ih, copyBack]

/-- The last byte of a copy. -/
theorem copyBack_succ (n : Nat) (out : List UInt8) :
    copyBack dist (n + 1) out =
      copyBack dist n out ++ [(copyBack dist n out).getD (out.length + n - dist) 0] := by
  rw [copyBack_add n 1, copyBack, copyBack, length_copyBack]

theorem prefix_copyBack (n : Nat) (out : List UInt8) : out <+: copyBack dist n out := by
  induction n with
  | zero => exact List.prefix_refl out
  | succ n ih =>
    rw [copyBack_succ]
    exact ih.trans (List.prefix_append _ _)

/-- A part of a copy. -/
theorem take_copyBack {m n : Nat} (h : m ≤ n) (out : List UInt8) :
    (copyBack dist n out).take (out.length + m) = copyBack dist m out := by
  obtain ⟨k, rfl⟩ := Nat.exists_eq_add_of_le h
  have hpre : copyBack dist m out <+: copyBack dist k (copyBack dist m out) := prefix_copyBack k _
  rw [← copyBack_add] at hpre
  rw [List.prefix_iff_eq_take.mp hpre, length_copyBack]

/-- A copy that does not reach its own bytes takes them all at once. -/
theorem copyBack_eq_append {n : Nat} {out : List UInt8} (hn : n ≤ dist)
    (hdist : dist ≤ out.length) :
    copyBack dist n out = out ++ (out.drop (out.length - dist)).take n := by
  induction n with
  | zero => rw [copyBack, List.take_zero, List.append_nil]
  | succ n ih =>
    have hlt : n < (out.drop (out.length - dist)).length := by
      rw [List.length_drop]
      omega
    have hplace : out.length + n - dist < out.length := by omega
    have hbyte : (copyBack dist n out).getD (out.length + n - dist) 0 =
        (out.drop (out.length - dist))[n] := by
      rw [ih (by omega), List.getD_eq_getElem?_getD, List.getElem?_append_left hplace,
        List.getElem?_eq_getElem hplace, Option.getD_some, List.getElem_drop]
      congr 1
      omega
    rw [copyBack_succ, hbyte, ih (by omega), List.take_succ_eq_append_getElem hlt,
      List.append_assoc]

end

/-! ## Tokens -/

/-- A byte, or a copy: the two codes, each with the value of its extra bits. -/
inductive Token where
  | literal (byte : UInt8)
  | copy (lenCode lenBits distCode distBits : Nat)
deriving DecidableEq, Repr

/-- The lengths of the codewords of a block. -/
structure Codes where
  literals : List Nat
  distances : List Nat
deriving DecidableEq, Repr

/-- The symbol that ends a block. -/
def endOfBlock : Nat := 256

def Token.bits (c : Codes) : Token → List Bool
  | .literal byte => symBits c.literals byte.toNat
  | .copy lenCode lenBits distCode distBits =>
    symBits c.literals (257 + lenCode) ++ toBits (lenExtra lenCode) lenBits ++
      symBits c.distances distCode ++ toBits (distExtra distCode) distBits

/-- The token can be written with these codes. -/
def Token.Ok (c : Codes) : Token → Prop
  | .literal byte => symLen c.literals byte.toNat ≠ 0
  | .copy lenCode lenBits distCode distBits =>
    lenCode < 29 ∧ lenBits < 2 ^ lenExtra lenCode ∧ distCode < 30 ∧
      distBits < 2 ^ distExtra distCode ∧ symLen c.literals (257 + lenCode) ≠ 0 ∧
      symLen c.distances distCode ≠ 0

instance (c : Codes) : (t : Token) → Decidable (t.Ok c)
  | .literal _ => inferInstanceAs (Decidable (_ ≠ _))
  | .copy _ _ _ _ => inferInstanceAs (Decidable (_ ∧ _ ∧ _ ∧ _ ∧ _ ∧ _))

/-- What comes out after a token; a copy from before the beginning is not possible. -/
def Token.apply (out : List UInt8) : Token → Option (List UInt8)
  | .literal byte => some (out ++ [byte])
  | .copy lenCode lenBits distCode distBits =>
    if distBase distCode + distBits ≤ out.length then
      some (copyBack (distBase distCode + distBits) (lenBase lenCode + lenBits) out)
    else none

def applyTokens : List Token → List UInt8 → Option (List UInt8)
  | [], out => some out
  | t :: ts, out => (t.apply out).bind (applyTokens ts)

theorem Token.lt_length {t : Token} {out out' : List UInt8} (h : t.apply out = some out') :
    out.length < out'.length := by
  cases t with
  | literal byte =>
    obtain rfl := Option.some.inj h
    simp
  | copy lenCode lenBits distCode distBits =>
    rw [Token.apply] at h
    split at h
    · obtain rfl := Option.some.inj h
      have hlen := three_le_lenBase lenCode
      rw [length_copyBack]
      omega
    · simp at h

/-- Every token makes at least one byte. -/
theorem length_applyTokens : ∀ {ts : List Token} {out out' : List UInt8},
    applyTokens ts out = some out' → out.length + ts.length ≤ out'.length
  | [], _, _, h => by
    obtain rfl := Option.some.inj h
    simp
  | t :: ts, out, out', h => by
    obtain ⟨mid, hmid, hrest⟩ := Option.bind_eq_some_iff.mp h
    have hfirst := Token.lt_length hmid
    have hothers := length_applyTokens hrest
    rw [List.length_cons]
    omega

/-! ## The codes of a block -/

/-- A piece of the list of lengths: one length, the last one 3 to 6 times more, 3 to 10 zeros, or 11
    to 138 zeros. -/
inductive LenToken where
  | len (l : Nat)
  | again (n : Nat)
  | zeros3 (n : Nat)
  | zeros11 (n : Nat)
deriving DecidableEq, Repr

def LenToken.symbol : LenToken → Nat
  | .len l => l
  | .again _ => 16
  | .zeros3 _ => 17
  | .zeros11 _ => 18

def LenToken.extra : LenToken → List Bool
  | .len _ => []
  | .again n => toBits 2 n
  | .zeros3 n => toBits 3 n
  | .zeros11 n => toBits 7 n

def LenToken.bits (lens : List Nat) (t : LenToken) : List Bool := symBits lens t.symbol ++ t.extra

def LenToken.InRange : LenToken → Prop
  | .len l => l < 16
  | .again n => n < 4
  | .zeros3 n => n < 8
  | .zeros11 n => n < 128

instance : (t : LenToken) → Decidable t.InRange
  | .len _ => inferInstanceAs (Decidable (_ < _))
  | .again _ => inferInstanceAs (Decidable (_ < _))
  | .zeros3 _ => inferInstanceAs (Decidable (_ < _))
  | .zeros11 _ => inferInstanceAs (Decidable (_ < _))

/-- The lengths after a piece. -/
def LenToken.apply (lens : List Nat) : LenToken → List Nat
  | .len l => lens ++ [l]
  | .again n => lens ++ List.replicate (3 + n) (lens.getLastD 0)
  | .zeros3 n => lens ++ List.replicate (3 + n) 0
  | .zeros11 n => lens ++ List.replicate (11 + n) 0

/-- The order in which the lengths of the code for lengths come. -/
def lenOrder : List Nat := [16, 17, 18, 0, 8, 7, 9, 6, 10, 5, 11, 4, 12, 3, 13, 2, 14, 1, 15]

/-- The beginning of a block that brings its codes: the code for lengths, of which the first `count`
    in their order are given, and the lengths written with it. -/
structure Header where
  count : Nat
  lenCode : List Nat
  pieces : List LenToken
  codes : Codes
deriving DecidableEq, Repr

def Header.bits (h : Header) : List Bool :=
  toBits 5 (h.codes.literals.length - 257) ++ toBits 5 (h.codes.distances.length - 1) ++
    toBits 4 (h.count - 4) ++ (lenOrder.take h.count).flatMap
      (fun s => toBits 3 (symLen h.lenCode s)) ++
    h.pieces.flatMap (LenToken.bits h.lenCode)

structure Header.Ok (h : Header) : Prop where
  count : 4 ≤ h.count ∧ h.count ≤ 19
  length : h.lenCode.length = 19
  lens_lt : ∀ l ∈ h.lenCode, l < 8
  rest : ∀ s ∈ lenOrder.drop h.count, symLen h.lenCode s = 0
  fits : Fits (lenCount h.lenCode)
  pieces : ∀ t ∈ h.pieces, t.InRange ∧ symLen h.lenCode t.symbol ≠ 0
  literals : 257 ≤ h.codes.literals.length ∧ h.codes.literals.length ≤ 288
  distances : 1 ≤ h.codes.distances.length ∧ h.codes.distances.length ≤ 32
  lengths : h.pieces.foldl LenToken.apply [] = h.codes.literals ++ h.codes.distances

/-- The codes of blocks that do not bring any. -/
def fixedCodes : Codes where
  literals :=
    List.replicate 144 8 ++ List.replicate 112 9 ++ List.replicate 24 7 ++ List.replicate 8 8
  distances := List.replicate 32 5

/-! ## Blocks -/

inductive Block where
  | stored (pad : List Bool) (data : List UInt8)
  | coded (header : Option Header) (tokens : List Token)
deriving DecidableEq, Repr

def headerCodes : Option Header → Codes
  | none => fixedCodes
  | some h => h.codes

def headerBits : Option Header → List Bool
  | none => []
  | some h => h.bits

def Block.type : Block → Nat
  | .stored _ _ => 0
  | .coded none _ => 1
  | .coded (some _) _ => 2

theorem Block.type_le (b : Block) : b.type ≤ 2 := by
  rcases b with - | ⟨- | -, -⟩
  · exact Nat.zero_le 2
  · exact Nat.le_succ 1
  · exact Nat.le_refl 2

/-- What comes after the three bits for the last block and the type. -/
def Block.body : Block → List Bool
  | .stored pad data =>
    pad ++ toBits 16 data.length ++ toBits 16 (0xffff - data.length) ++ bitsOf data
  | .coded header tokens =>
    headerBits header ++ tokens.flatMap (Token.bits (headerCodes header)) ++
      symBits (headerCodes header).literals endOfBlock

def Block.bits (final : Bool) (b : Block) : List Bool := final :: toBits 2 b.type ++ b.body

/-- The block can begin at bit `pos`. -/
inductive Block.Ok (pos : Nat) : Block → Prop where
  | stored {pad : List Bool} {data : List UInt8} (hpad : pad.length < 8)
      (halign : (pos + 3 + pad.length) % 8 = 0) (hdata : data.length ≤ 0xffff) :
      Block.Ok pos (.stored pad data)
  | coded {header : Option Header} {tokens : List Token} (hheader : ∀ h ∈ header, h.Ok)
      (hliterals : Fits (lenCount (headerCodes header).literals))
      (hdistances : Fits (lenCount (headerCodes header).distances))
      (htokens : ∀ t ∈ tokens, t.Ok (headerCodes header))
      (hend : symLen (headerCodes header).literals endOfBlock ≠ 0) :
      Block.Ok pos (.coded header tokens)

def Block.apply (out : List UInt8) : Block → Option (List UInt8)
  | .stored _ data => some (out ++ data)
  | .coded _ tokens => applyTokens tokens out

/-! ## Sequences of blocks -/

/-- The bits of some blocks; the last one says that it is the last. -/
def bits : List Block → List Bool
  | [] => []
  | [b] => b.bits true
  | b :: bs => b.bits false ++ bits bs

/-- The blocks can begin at bit `pos`. -/
def BlocksOk : Nat → List Block → Prop
  | _, [] => True
  | pos, b :: bs => b.Ok pos ∧ BlocksOk (pos + (b.bits false).length) bs

def applyBlocks : List Block → List UInt8 → Option (List UInt8)
  | [], out => some out
  | b :: bs, out => (b.apply out).bind (applyBlocks bs)

theorem bits_cons (b : Block) (bs : List Block) :
    bits (b :: bs) = b.bits bs.isEmpty ++ bits bs := by
  cases bs with
  | nil => exact (List.append_nil _).symm
  | cons c bs => rfl

theorem length_bits (final : Bool) (b : Block) : (b.bits final).length = 3 + b.body.length := by
  rw [Block.bits, List.cons_append, List.length_cons, List.length_append, length_toBits]
  omega

theorem length_le_bits (blocks : List Block) : blocks.length ≤ (bits blocks).length := by
  induction blocks with
  | nil => exact Nat.le_refl 0
  | cons b bs ih =>
    rw [bits_cons, List.length_append, length_bits, List.length_cons]
    omega

/-- Even a block of nothing has ten bits. -/
theorem Block.Ok.ten_le {pos : Nat} {b : Block} (h : b.Ok pos) (final : Bool) :
    10 ≤ (b.bits final).length := by
  rw [length_bits]
  cases h with
  | stored hpad halign hdata =>
    simp only [Block.body, List.length_append, length_toBits]
    omega
  | @coded header tokens hheader hliterals hdistances htokens hend =>
    cases header with
    | none =>
      have hseven : (symBits fixedCodes.literals endOfBlock).length = 7 := by decide +kernel
      simp only [Block.body, headerCodes, List.length_append, hseven]
      omega
    | some h =>
      simp only [Block.body, headerBits, Header.bits, List.length_append, length_toBits]
      omega

theorem prefix_applyTokens : ∀ {ts : List Token} {out out' : List UInt8},
    applyTokens ts out = some out' → out <+: out'
  | [], _, _, h => by
    obtain rfl := Option.some.inj h
    exact List.prefix_refl _
  | t :: ts, out, out', h => by
    obtain ⟨mid, hmid, hrest⟩ := Option.bind_eq_some_iff.mp h
    refine List.IsPrefix.trans ?_ (prefix_applyTokens hrest)
    cases t with
    | literal byte =>
      obtain rfl := Option.some.inj hmid
      exact List.prefix_append _ _
    | copy lenCode lenBits distCode distBits =>
      rw [Token.apply] at hmid
      split at hmid
      · obtain rfl := Option.some.inj hmid
        exact prefix_copyBack _ _
      · simp at hmid

/-- A block leaves what is there. -/
theorem Block.prefix_apply {b : Block} {out out' : List UInt8} (h : b.apply out = some out') :
    out <+: out' := by
  cases b with
  | stored pad data =>
    obtain rfl := Option.some.inj h
    exact List.prefix_append _ _
  | coded header tokens => exact prefix_applyTokens h

theorem prefix_applyBlocks : ∀ {bs : List Block} {out out' : List UInt8},
    applyBlocks bs out = some out' → out <+: out'
  | [], _, _, h => by
    obtain rfl := Option.some.inj h
    exact List.prefix_refl _
  | b :: bs, out, out', h => by
    obtain ⟨mid, hmid, hrest⟩ := Option.bind_eq_some_iff.mp h
    exact (Block.prefix_apply hmid).trans (prefix_applyBlocks hrest)

end Umka.Lib.Deflate
