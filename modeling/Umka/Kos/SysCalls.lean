import Mathlib.Tactic.Common
import Mathlib.Algebra.Order.Ring.Nat

/-!
# `umka.h`: the drawing system calls

Each wrapper loads registers and calls `i40`. Several arguments go into one register: each is
shifted to its place, and the results are added, in 32-bit arithmetic. All arguments are 32-bit
words here, a negative `int` as its bit pattern and a pointer as its address.
-/

set_option autoImplicit false

namespace Umka.Kos

/-- The registers that a wrapper loads; `none` is one that it leaves alone. -/
structure Regs where
  eax : UInt32
  ebx : UInt32
  ecx : UInt32
  edx : UInt32
  esi : Option UInt32 := none
  edi : Option UInt32 := none
deriving DecidableEq, Repr

/-- `!n`. -/
def cNot (n : UInt32) : UInt32 := if n = 0 then 1 else 0

def umkaSysDrawWindow (x xsize y ysize color hasCaption clientRelative fillWorkarea gradientFill
    movable style caption : UInt32) : Regs where
  eax := 0
  ebx := (x <<< 16) + xsize
  ecx := (y <<< 16) + ysize
  edx := (gradientFill <<< 31) + (cNot fillWorkarea <<< 30) + (clientRelative <<< 29)
    + (hasCaption <<< 28) + (style <<< 24) + color
  esi := some (cNot movable <<< 24)
  edi := some caption

def umkaSysSetPixel (x y color invert : UInt32) : Regs where
  eax := 1
  ebx := x
  ecx := y
  edx := (invert <<< 24) + color

def umkaSysWriteText (x y color asciiz fillBackground fontAndEncoding drawToBuffer
    scaleFactor string length backgroundColorOrBuffer : UInt32) : Regs where
  eax := 4
  ebx := (x <<< 16) + y
  ecx := (asciiz <<< 31) + (fillBackground <<< 30) + (fontAndEncoding <<< 28)
    + (drawToBuffer <<< 27) + (scaleFactor <<< 24) + color
  edx := string
  esi := some length
  edi := some backgroundColorOrBuffer

def umkaSysPutImage (image xsize ysize x y : UInt32) : Regs where
  eax := 7
  ebx := image
  ecx := (xsize <<< 16) + ysize
  edx := (x <<< 16) + y

def umkaSysButton (x xsize y ysize buttonId drawButton drawFrame color : UInt32) : Regs where
  eax := 8
  ebx := (x <<< 16) + xsize
  ecx := (y <<< 16) + ysize
  edx := (cNot drawButton <<< 30) + (cNot drawFrame <<< 29) + buttonId
  esi := some color

def umkaSysDrawRect (x xsize y ysize color gradient : UInt32) : Regs where
  eax := 13
  ebx := (x <<< 16) + xsize
  ecx := (y <<< 16) + ysize
  edx := (gradient <<< 31) + color

def umkaSysDrawLine (x xend y yend color invert : UInt32) : Regs where
  eax := 38
  ebx := (x <<< 16) + xend
  ecx := (y <<< 16) + yend
  edx := (invert <<< 24) + color

def umkaSysDisplayNumber (isPointer base digitsToDisplay isQword showLeadingZeros
    numberOrPointer x y color fillBackground font drawToBuffer scaleFactor backgroundColorOrBuffer :
      UInt32) : Regs where
  eax := 47
  ebx := isPointer + (base <<< 8) + (digitsToDisplay <<< 16) + (isQword <<< 30)
    + (showLeadingZeros <<< 31)
  ecx := numberOrPointer
  edx := (x <<< 16) + y
  esi := some (color + (fillBackground <<< 30) + (font <<< 28) + (drawToBuffer <<< 27)
    + (scaleFactor <<< 24))
  edi := some backgroundColorOrBuffer

/-- The calls that pack arguments, with their arguments. -/
inductive DrawCall
  | drawWindow (x xsize y ysize color hasCaption clientRelative fillWorkarea gradientFill movable
      style caption : UInt32)
  | setPixel (x y color invert : UInt32)
  | writeText (x y color asciiz fillBackground fontAndEncoding drawToBuffer scaleFactor
      string length backgroundColorOrBuffer : UInt32)
  | putImage (image xsize ysize x y : UInt32)
  | button (x xsize y ysize buttonId drawButton drawFrame color : UInt32)
  | drawRect (x xsize y ysize color gradient : UInt32)
  | drawLine (x xend y yend color invert : UInt32)
  | displayNumber (isPointer base digitsToDisplay isQword showLeadingZeros numberOrPointer x y color
      fillBackground font drawToBuffer scaleFactor backgroundColorOrBuffer : UInt32)
deriving DecidableEq, Repr

def DrawCall.regs : DrawCall → Regs
  | .drawWindow x xsize y ysize color hasCaption clientRelative fillWorkarea gradientFill
      movable style caption =>
    umkaSysDrawWindow x xsize y ysize color hasCaption clientRelative fillWorkarea
      gradientFill movable style caption
  | .setPixel x y color invert => umkaSysSetPixel x y color invert
  | .writeText x y color asciiz fillBackground fontAndEncoding drawToBuffer scaleFactor
      string length backgroundColorOrBuffer =>
    umkaSysWriteText x y color asciiz fillBackground fontAndEncoding drawToBuffer scaleFactor string
      length backgroundColorOrBuffer
  | .putImage image xsize ysize x y => umkaSysPutImage image xsize ysize x y
  | .button x xsize y ysize buttonId drawButton drawFrame color =>
    umkaSysButton x xsize y ysize buttonId drawButton drawFrame color
  | .drawRect x xsize y ysize color gradient => umkaSysDrawRect x xsize y ysize color gradient
  | .drawLine x xend y yend color invert => umkaSysDrawLine x xend y yend color invert
  | .displayNumber isPointer base digitsToDisplay isQword showLeadingZeros numberOrPointer x y color
      fillBackground font drawToBuffer scaleFactor backgroundColorOrBuffer =>
    umkaSysDisplayNumber isPointer base digitsToDisplay isQword showLeadingZeros numberOrPointer x y
      color fillBackground font drawToBuffer scaleFactor backgroundColorOrBuffer

end Umka.Kos
