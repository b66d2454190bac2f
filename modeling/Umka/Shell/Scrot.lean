import Umka.Lib.Sweep

/-!
# `umkart.c`, `shell.c`: screenshots

`copy_display_to_rgb888` copies the framebuffer into a buffer of 32-bit words, one word per pixel,
with one loop for each depth. `cmd_scrot` allocates the buffer, copies, and then exchanges red and
blue in place for the PNG encoder. The program is a 32-bit one: all indices are `size_t` numbers,
and an offset is one modulo `2^32`.
-/

set_option autoImplicit false

namespace Umka.Shell

open Lib

/-- `kos_display`, as far as it describes the framebuffer. -/
structure Screen where
  width : UInt32
  height : UInt32
  bitsPerPixel : UInt32
  lfbPitch : UInt32
deriving DecidableEq, Repr

/-- The `size_t` that `n` becomes. -/
def sizeT (n : Nat) : Nat := n % 2 ^ 32

section Copy

variable (d : Screen) (lfb : ByteMem)

def copyDisplayBpp16ToRgb888 (dst : ByteMem) : ByteMem :=
  forPixels d.width.toNat d.height.toNat
    (fun y x dst =>
      let p := lfb.load16 (sizeT (2 * sizeT (y * d.width.toNat + x)))
      let p := ((p &&& 0xf800) <<< 8) + ((p &&& 0x7e0) <<< 5) + ((p &&& 0x1f) <<< 3)
      dst.store32 (sizeT (4 * sizeT (sizeT (y * d.lfbPitch.toNat) / 2 + x))) p)
    dst

def copyDisplayBpp24ToRgb888 (dst : ByteMem) : ByteMem :=
  forPixels d.width.toNat d.height.toNat
    (fun y x dst =>
      let byte (k : Nat) := (lfb (sizeT (y * d.width.toNat * 3 + x * 3 + k))).toUInt32
      let p := (byte 0 <<< 0) + (byte 1 <<< 8) + (byte 2 <<< 16)
      dst.store32 (sizeT (4 * sizeT (y * d.width.toNat + x))) p)
    dst

def copyDisplayBpp32ToRgb888 (dst : ByteMem) : ByteMem :=
  dst.memcpy lfb (sizeT (d.width.toNat * d.height.toNat * 4))

/-- `copy_display_to_rgb888`; another depth is only reported. -/
def copyDisplayToRgb888 (dst : ByteMem) : ByteMem :=
  if d.bitsPerPixel = 16 then copyDisplayBpp16ToRgb888 d lfb dst
  else if d.bitsPerPixel = 24 then copyDisplayBpp24ToRgb888 d lfb dst
  else if d.bitsPerPixel = 32 then copyDisplayBpp32ToRgb888 d lfb dst
  else dst

/-- The bytes that `cmd_scrot` allocates. -/
def scrotSize : Nat := sizeT (4 * d.width.toNat * d.height.toNat)

/-- The loop of `cmd_scrot`, over the buffer that it reads from. -/
def swapChannels (buf : ByteMem) : ByteMem :=
  forPixels d.width.toNat d.height.toNat
    (fun y x buf =>
      let byte (k : Nat) := (buf (sizeT (y * d.width.toNat * 4 + x * 4 + k))).toUInt32
      let p := (byte 0 <<< 16) + (byte 1 <<< 8) + (byte 2 <<< 0) + 0xff000000
      buf.store32 (sizeT (4 * sizeT (y * d.width.toNat + x))) p)
    buf

/-- What `cmd_scrot` hands to the encoder; `junk` is what `malloc` returned. -/
def scrotBuffer (junk : ByteMem) : ByteMem := swapChannels d (copyDisplayToRgb888 d lfb junk)

end Copy

/-- `cmd_scrot` after its test of `argc`: what it prints. `encode` is `lodepng_encode32_file`. -/
def scrot (encode : List Char → ByteMem → UInt32 → UInt32 → Nat) (errorText : Nat → String)
    (d : Screen) (lfb junk : ByteMem) (file : List Char) : Option String :=
  let error := encode file (scrotBuffer d lfb junk) d.width d.height
  if error ≠ 0 then some s!"error {error}: {errorText error}\n" else none

end Umka.Shell
