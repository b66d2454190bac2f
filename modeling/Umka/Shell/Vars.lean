import Umka.Lib.Text

/-!
# `shell.c`: shell variables

A command that produces a value leaves it in the store without a name; the command `var` then
names it. Later commands give a name that starts with `$` where they would give a number.

The store is a linked list with the latest value at its head. No two nodes share a tail and no
pointer to a node outlives a command, so the list itself is the model. The shell is a 32-bit
program: a node's value is 32 bits, read back as a signed number, an unsigned one or a pointer.
-/

set_option autoImplicit false

namespace Umka.Shell

open Lib

/-- `SHELL_VAR_NAME_LEN`. -/
def shellVarNameLen : Nat := 16

/-- `enum shell_var_type`. -/
inductive ShellVarType
  | sint
  | uint
  | pointer
deriving DecidableEq, Repr

/-- `struct shell_var`. The name and its NUL fit into `name`; an empty one is no name yet. -/
structure ShellVar where
  type : ShellVarType
  name : List Char
  value : UInt32
  name_lt : name.length < shellVarNameLen
deriving DecidableEq

/-- The list at `ctx->var`. -/
abbrev ShellVars := List ShellVar

/-- `shell_var_get`. -/
def shellVarGet : ShellVars → List Char → Option ShellVar
  | [], _ => none
  | var :: next, name => if var.name = name then some var else shellVarGet next name

/-- The `shell_parse_*` functions: `read` is the member of the value's union, `strto` the
    conversion of a number. -/
def shellParse {α : Type} (read : UInt32 → α) (strto : List Char → α) (vars : ShellVars)
    (s : List Char) : Option α :=
  if s.head? = some '$' then
    (shellVarGet vars s).map fun var => read var.value
  else
    some (strto s)

/-- `shell_parse_sint`. -/
def shellParseSint : ShellVars → List Char → Option Int32 :=
  shellParse UInt32.toInt32 fun s => Int32.ofInt (strtol 32 s)

/-- `shell_parse_uint`. -/
def shellParseUint : ShellVars → List Char → Option UInt32 :=
  shellParse id fun s => UInt32.ofNat (strtoul 32 s)

/-- `shell_parse_ptr`. -/
def shellParsePtr : ShellVars → List Char → Option UInt32 :=
  shellParse id fun s => UInt32.ofNat (strtoul 32 s)

/-- `shell_var_name`: whether it could, and the list. -/
def shellVarName (vars : ShellVars) (name : List Char) : Bool × ShellVars :=
  match vars with
  | [] => (false, vars)
  | var :: next =>
    if var.name ≠ [] then (false, vars)
    else if h : name.head? ≠ some '$' ∨ name.length ≥ shellVarNameLen then (false, vars)
    else (true, { var with name := name, name_lt := by omega } :: next)

/-- `shell_var_new`. Its type and its value are whatever `malloc` returned; every caller of
    `shell_var_add` overwrites both. -/
def shellVarNew : ShellVar where
  type := .sint
  name := []
  value := 0
  name_lt := by decide

/-- `shell_var_add`: the node it returns, now the head of the list, and the list behind it. -/
def shellVarAdd : ShellVars → ShellVar × ShellVars
  | [] => (shellVarNew, [])
  | var :: next => if var.name = [] then (var, next) else (shellVarNew, var :: next)

/-- The `shell_var_add_*` functions. -/
def shellVarAddValue (type : ShellVarType) (value : UInt32) (vars : ShellVars) : ShellVars :=
  let (var, next) := shellVarAdd vars
  { var with type := type, value := value } :: next

/-- `shell_var_add_sint`. -/
def shellVarAddSint (vars : ShellVars) (value : Int32) : ShellVars :=
  shellVarAddValue .sint value.toUInt32 vars

/-- `shell_var_add_uint`. -/
def shellVarAddUint (vars : ShellVars) (value : UInt32) : ShellVars :=
  shellVarAddValue .uint value vars

/-- `shell_var_add_ptr`. -/
def shellVarAddPtr (vars : ShellVars) (value : UInt32) : ShellVars :=
  shellVarAddValue .pointer value vars

/-- A call that changes the store. -/
inductive VarOp
  | addSint (value : Int32)
  | addUint (value : UInt32)
  | addPtr (value : UInt32)
  | name (name : List Char)
deriving DecidableEq

/-- What a call returns, and the list it leaves. The `add` functions return `false` only when
    there is no memory for a node. -/
def varStep (vars : ShellVars) : VarOp → Bool × ShellVars
  | .addSint value => (true, shellVarAddSint vars value)
  | .addUint value => (true, shellVarAddUint vars value)
  | .addPtr value => (true, shellVarAddPtr vars value)
  | .name name => shellVarName vars name

end Umka.Shell
