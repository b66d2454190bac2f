import Umka.Lib.Text

/-!
# `shell.c`: what a command handler does

A handler gets `argc` and `argv`, prints its usage if `argc` is not what it wants, and goes on
otherwise. All of them are one shape: a test of `argc`, the usage text, and the rest
(`CmdFunc`). The rest is modelled here for those handlers whose test lets `argc = 0` pass, as
`help` calls them, and is a parameter for the others.

A handler can print, look at and change the shell's own state, look at the kernel's memory and
make system calls. Dereferencing a NULL `argv` has no outcome.
-/

set_option autoImplicit false

namespace Umka.Shell

open Lib

/-! ## Programs of the shell -/

/-- The fields of `kos_boot` that the shell sets. -/
structure BootParams where
  xRes : UInt16
  yRes : UInt16
  bpp : UInt8
  pitch : UInt16
deriving DecidableEq, Repr

/-- `kos_display`, as far as the shell prints it. -/
structure Display where
  width : Nat
  height : Nat
  winMap : Nat → UInt8

/-- The kernel: the memory the handlers below look at, and everything else. -/
structure Kernel (κ : Type) where
  boot : BootParams
  keyCount : UInt8
  keyBuff : Nat → UInt8
  winStack : Nat → UInt16
  display : Display
  rest : κ

/-- What a handler works on: what was printed, the shell's own state, the kernel, and how many
    system calls were made. -/
structure ShellSt (σ κ : Type) where
  out : List String
  shell : σ
  kernel : Kernel κ
  sysCalls : Nat

/-- A program of the shell; `none` is undefined behaviour. -/
abbrev ShellM (σ κ : Type) := StateT (ShellSt σ κ) Option

section Programs

variable {σ κ : Type}

/-- `fputs`, `puts` and `fprintf`. -/
def fputs (text : String) : ShellM σ κ Unit :=
  modify fun st => { st with out := st.out ++ [text] }

/-- A look at kernel memory. -/
def kernelMem : ShellM σ κ (Kernel κ) := do
  return (← get).kernel

def setBoot (f : BootParams → BootParams) : ShellM σ κ Unit :=
  modify fun st => { st with kernel := { st.kernel with boot := f st.kernel.boot } }

/-- A system call: what it returns, and the kernel after it. -/
def sysCall {α : Type} (f : Kernel κ → α × Kernel κ) : ShellM σ κ α := do
  let st ← get
  set { st with kernel := (f st.kernel).2, sysCalls := st.sysCalls + 1 }
  return (f st.kernel).1

/-- `argv`: NULL, or the words and the NULL after them. -/
abbrev Argv := Option (List (List Char))

/-- `argv[i]`. -/
def argAt (argv : Argv) (i : Nat) : ShellM σ κ (Option (List Char)) :=
  match argv with
  | none => failure
  | some ws => if i ≤ ws.length then pure ws[i]? else failure

/-- The characters at a pointer that must not be NULL. -/
def deref (s : Option (List Char)) : ShellM σ κ (List Char) :=
  match s with
  | none => failure
  | some s => pure s

end Programs

/-! ## Numbers in the output -/

/-- `%*i`. -/
def decPadded (w n : Nat) : String := String.ofList ((Nat.toDigits 10 n).leftpad w ' ')

/-- `%*.*x`. -/
def hexPadded (w n : Nat) : String := String.ofList ((Nat.toDigits 16 n).leftpad w '0')

/-! ## Handlers -/

/-- The test of `argc` after which a handler prints its usage and returns. -/
inductive ArgcGuard
  | never
  /-- `!argc` -/
  | zero
  | ne (n : Int)
  | lt (n : Int)
  | gt (n : Int)
  /-- `argc < lo || argc > hi` -/
  | outside (lo hi : Int)
  /-- `argc != m && argc != n` -/
  | neither (m n : Int)
deriving DecidableEq, Repr

def ArgcGuard.rejects : ArgcGuard → Int → Bool
  | .never, _ => false
  | .zero, argc => argc = 0
  | .ne n, argc => argc ≠ n
  | .lt n, argc => argc < n
  | .gt n, argc => n < argc
  | .outside lo hi, argc => argc < lo ∨ hi < argc
  | .neither m n, argc => argc ≠ m ∧ argc ≠ n

/-- What a handler goes on to do. -/
inductive CmdBody
  /-- not modelled: no `argc` below the handler's own gets there -/
  | rest
  | setBootParams
  | acpiCall
  | boardGet
  | getKey
  | dumpKeyBuff
  | dumpWinStack
  | dumpWinMap
  | netAddDevice
deriving DecidableEq, Repr

/-- A `cmd_*` function. -/
structure CmdFunc where
  guard : ArgcGuard
  usage : String
  body : CmdBody := .rest
deriving DecidableEq, Repr

/-- `func_table_t`. -/
structure FuncTable where
  name : String
  func : CmdFunc

section Bodies

variable {σ κ : Type}

/-- `VNET_DEVTYPE_*`. -/
inductive VnetType
  | null
  | file
  | tap
deriving DecidableEq, Repr

/-- What is left to the rest of the program: the kernel's key queue, and what each handler does
    once it has looked at its arguments. -/
structure Rest (σ κ : Type) where
  getKey : Kernel κ → UInt32 × Kernel κ
  addDevice : VnetType → ShellM σ κ Unit
  run : CmdFunc → Int → Argv → ShellM σ κ Unit

/-- The loop of `cmd_umka_set_boot_params`, at the argument `argv` points to. -/
def setBootParamsLoop (usage : String) (argc : Int) : List (List Char) → ShellM σ κ Unit
  | [] => if argc = 0 then pure () else failure
  | [opt] => do
    if argc ≠ 0 then
      -- with `argc > 1` the value is read from the NULL behind the words
      if argc > 1 ∧ opt ∈ ["--x_res", "--y_res", "--bpp", "--pitch"].map String.toList then
        failure
      else
        fputs ("bad option: " ++ String.ofList opt ++ "\n")
        fputs usage
  | opt :: value :: argv => do
    let v := strtoul 32 value
    if argc = 0 then
      pure ()
    else if opt = "--x_res".toList ∧ argc > 1 then
      setBoot fun b => { b with
        xRes := v.toUInt16
        pitch := (v.toUInt16.toNat * b.bpp.toNat / 8).toUInt16 }
      setBootParamsLoop usage (argc - 2) argv
    else if opt = "--y_res".toList ∧ argc > 1 then
      setBoot fun b => { b with yRes := v.toUInt16 }
      setBootParamsLoop usage (argc - 2) argv
    else if opt = "--bpp".toList ∧ argc > 1 then
      setBoot fun b => { b with
        bpp := v.toUInt8
        pitch := (b.xRes.toNat * v.toUInt8.toNat / 8).toUInt16 }
      setBootParamsLoop usage (argc - 2) argv
    else if opt = "--pitch".toList ∧ argc > 1 then
      setBoot fun b => { b with pitch := v.toUInt16 }
      setBootParamsLoop usage (argc - 2) argv
    else
      fputs ("bad option: " ++ String.ofList opt ++ "\n")
      fputs usage

/-- The count a dump command was given, or its default. -/
def dumpCount (default : Int) (argc : Int) (argv : Argv) : ShellM σ κ Int :=
  if argc > 1 then do
    let s ← argAt argv 1
    return strtol 32 (← deref s)
  else
    pure default

/-- The words of `argv + 1`; the array itself may be missing. -/
def argvTail : Argv → List (List Char)
  | none => []
  | some ws => ws.tail

def CmdBody.run (rest : Rest σ κ) (f : CmdFunc) (argc : Int) (argv : Argv) :
    CmdBody → ShellM σ κ Unit
  | .rest => rest.run f argc argv
  | .setBootParams => setBootParamsLoop f.usage (argc - 1) (argvTail argv)
  | .acpiCall =>
    if argc > 2 then do
      fputs "arguments are not supported / not implemented!\n"
      fputs f.usage
    else
      rest.run f argc argv
  | .boardGet => do
    -- `optparse_init` reads `argv[0]`
    let _ ← argAt argv 0
    rest.run f argc argv
  | .getKey => do
    let key ← sysCall rest.getKey
    fputs ("0x" ++ hexPadded 8 key.toNat ++ "\n")
  | .dumpKeyBuff => do
    let count ← dumpCount (2 ^ 31 - 1) argc argv
    let k ← kernelMem
    fputs (String.join ((List.range (min count.toNat k.keyCount.toNat)).map fun i =>
      decPadded 3 i ++ " 0x" ++ hexPadded 2 (k.keyBuff i).toNat ++ " 0x"
        ++ hexPadded 2 (k.keyBuff (120 + 2 + i)).toNat ++ "\n"))
  | .dumpWinStack => do
    let depth ← dumpCount 5 argc argv
    let k ← kernelMem
    fputs (String.join ((List.range depth.toNat).map fun i =>
      decPadded 3 i ++ ": " ++ decPadded 3 (k.winStack i).toNat ++ "\n"))
  | .dumpWinMap => do
    let k ← kernelMem
    fputs (String.join ((List.range k.display.height).map fun y =>
      String.ofList ((List.range k.display.width).map fun x =>
        Char.ofNat ((k.display.winMap (y * k.display.width + x)).toNat + '0'.toNat)) ++ "\n"))
  | .netAddDevice => do
    let devtypestr ← argAt argv 1
    match devtypestr with
    | none => rest.addDevice .null
    | some s =>
      if s = "null".toList then rest.addDevice .null
      else if s = "file".toList then rest.addDevice .file
      else if s = "tap".toList then rest.addDevice .tap
      else fputs ("bad device type: " ++ String.ofList s ++ "\n")

/-- A call of the handler `f`. -/
def CmdFunc.call (rest : Rest σ κ) (f : CmdFunc) (argc : Int) (argv : Argv) : ShellM σ κ Unit :=
  if f.guard.rejects argc then fputs f.usage else f.body.run rest f argc argv

end Bodies

end Umka.Shell
