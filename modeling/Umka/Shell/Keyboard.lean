import Umka.Lib.Numeral
import Umka.Shell.CmdTable

/-!
# `shell.c`: `set_keyboard_layout`

The command takes a layout of 128 codes from a file or from its arguments. The handler can print
something and return before it makes its system call; it can also read an argument that is not
there, and `type` has no value if the first argument is not `-t`.
-/

set_option autoImplicit false

namespace Umka.Shell

open Lib

/-- `KOS_LAYOUT_SIZE`. -/
def kosLayoutSize : Nat := 128

/-- Why the handler makes no system call. -/
inductive LayoutStop
  /-- it prints and returns -/
  | returned (out : List String)
  /-- it reads `argv[j]`, which is not one of its words -/
  | pastArgv (j : Nat)
  /-- it passes a `type` without a value -/
  | uninitialised
deriving DecidableEq, Repr

/-- `umka_sys_set_keyboard_layout(type, layout)`. -/
structure LayoutCall where
  type : Int
  layout : List UInt8
deriving DecidableEq, Repr

abbrev LayoutM := Except LayoutStop

/-- What is printed before the usage, and the usage. -/
def layoutUsage {α : Type} (text : List String) : LayoutM α :=
  .error (.returned (text ++ [cmdSetKeyboardLayout.usage]))

/-- `argv[j]`. -/
def layoutArg (argv : List (List Char)) (j : Nat) : LayoutM (List Char) :=
  match argv[j]? with
  | some word => .ok word
  | none => .error (.pastArgv j)

/-- A type by its number or its name. -/
def layoutType (typeStr : List Char) : Option Int :=
  if endptr typeStr = [] then some (strtol 32 typeStr)
  else if typeStr = "normal".toList then some 1
  else if typeStr = "shift".toList then some 2
  else if typeStr = "alt".toList then some 3
  else none

def parseLayoutType (typeStr : List Char) : LayoutM (Option Int) :=
  match layoutType typeStr with
  | some type => pure (some type)
  | none => layoutUsage ["no such layout type: " ++ String.ofList typeStr ++ "\n"]

/-- `type`, if it is set. -/
def typeArg (argv : List (List Char)) : LayoutM (Option Int) := do
  let option ← layoutArg argv 1
  if option = "-t".toList then
    let typeStr ← layoutArg argv 2
    parseLayoutType typeStr
  else pure none

def fileLayout (file : List Char → Option (List UInt8)) (fname : List Char) :
    LayoutM (List UInt8) :=
  match file fname with
  | none => layoutUsage ["can't open file: " ++ String.ofList fname ++ "\n"]
  | some data =>
    let nread := (data.take kosLayoutSize).length
    if nread ≠ kosLayoutSize then
      layoutUsage [s!"can't read {kosLayoutSize} bytes of layout, only {nread}\n"]
    else pure (data.take kosLayoutSize)

/-- The loop over `ascii_codes`, which is `argv + 4`: the codes from index `i` on. -/
def codesFrom (argv : List (List Char)) : Nat → Nat → LayoutM (List UInt8)
  | 0, _ => pure []
  | n + 1, i => do
    let word ← layoutArg argv (4 + i)
    if endptr word ≠ [] ∨ strtol 32 word > 0xff then
      layoutUsage ["bad number: " ++ String.ofList word ++ "\n"]
    else
      let rest ← codesFrom argv n (i + 1)
      pure (UInt8.ofInt (strtol 32 word) :: rest)

def layoutBytes (file : List Char → Option (List UInt8)) (argv : List (List Char)) :
    LayoutM (List UInt8) := do
  let form ← layoutArg argv 3
  if form = "-f".toList ∧ argv.length = 5 then
    let fname ← layoutArg argv 4
    fileLayout file fname
  else codesFrom argv kosLayoutSize 0

/-- The arguments of the system call. -/
def passLayout (type : Option Int) (layout : List UInt8) : LayoutM LayoutCall :=
  match type with
  | some type => pure ⟨type, layout⟩
  | none => .error .uninitialised

/-- `cmd_set_keyboard_layout` up to its system call; `file` is what files contain. -/
def setKeyboardLayout (file : List Char → Option (List UInt8)) (argv : List (List Char)) :
    LayoutM LayoutCall :=
  if cmdSetKeyboardLayout.guard.rejects argv.length then layoutUsage []
  else do
    let type ← typeArg argv
    let layout ← layoutBytes file argv
    passLayout type layout

/-- What it prints in the end; `sys` is the system call. -/
def layoutOut (sys : LayoutCall → Int) : LayoutM LayoutCall → Option (List String)
  | .ok call => some [s!"status: {sys call}\n"]
  | .error (.returned out) => some out
  | .error _ => none

end Umka.Shell
