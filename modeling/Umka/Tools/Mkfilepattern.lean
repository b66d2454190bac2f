import Umka.Lib.Drv
import Umka.Lib.Records
import Umka.Lib.Sweep

/-!
# `tools/mkfilepattern.c`

The tool writes numbers into a part of a file: each word is its own position, in one, two, four or
eight bytes. It fills a buffer of 16 bytes at a time; the last word of a round may end behind these,
in the 7 bytes that the buffer has more. Offset and length are not negative and their sum is an
`off_t`, so that no sum below leaves 64 bits. Loops have a number of rounds here; the source has
none.
-/

set_option autoImplicit false

namespace Umka.Tools

open Lib

def patternBufLen : Nat := 0x10

/-- The store of the `w` bytes of `v` at `off` in the buffer; `none` when they do not all lie in
    it. -/
def storeWord (buf : ByteMem) (off w v : Nat) : Option ByteMem :=
  if off + w ≤ patternBufLen + 7 then
    some fun i => if off ≤ i ∧ i < off + w then (toLE w v).getD (i - off) 0 else buf i
  else none

/-- The loop that fills the buffer. -/
def fillLoop (pos count : Nat) : Nat → Nat → ByteMem → Option ByteMem
  | 0, off, buf => if off < count then none else some buf
  | rounds + 1, off, buf =>
    if off < count then
      if pos + off < 0x100 then
        (storeWord buf off 1 ((pos + off) % 2 ^ 8)).bind (fillLoop pos count rounds (off + 1))
      else if pos + off < 0x10000 then
        (storeWord buf off 2 ((pos + off) % 2 ^ 16)).bind (fillLoop pos count rounds (off + 2))
      else if pos + off < 0x100000000 then
        (storeWord buf off 4 ((pos + off) % 2 ^ 32)).bind (fillLoop pos count rounds (off + 4))
      else
        (storeWord buf off 8 ((pos + off) % 2 ^ 64)).bind (fillLoop pos count rounds (off + 8))
    else some buf

/-- The open file, and where the next `write` goes. -/
structure Out where
  file : HostFile
  pos : Nat

/-- `write`, of all it is given. -/
def Out.write (out : Out) (data : List UInt8) : Option Out :=
  (out.file.splice out.pos data).map fun file => ⟨file, out.pos + data.length⟩

/-- The loop over the part, up to `stop`. -/
def patternLoop (stop : Nat) : Nat → Nat → Nat → ByteMem → Out → Option Out
  | 0, pos, _, _, out => if pos < stop then none else some out
  | rounds + 1, pos, count, buf, out =>
    if pos < stop then
      let count := if count > stop - pos then stop - pos else count
      (fillLoop pos count count 0 buf).bind fun buf =>
        (out.write ((List.range count).map buf)).bind fun out =>
          patternLoop stop rounds (pos + count) count buf out
    else some out

/-- `main`, once the file is open; `buf` is what is in the buffer at the start. -/
def mkfilepattern (buf : ByteMem) (file : HostFile) (offset len : Nat) : Option Out :=
  patternLoop (offset + len) len offset patternBufLen buf ⟨file, offset⟩

end Umka.Tools
