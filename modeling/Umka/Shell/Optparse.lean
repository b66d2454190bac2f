import Umka.Lib.Checked
import Umka.Lib.Options
import Umka.Lib.Text

/-!
# `deps/optparse/optparse.h`: the options of a command

`optparse` returns the next option and moves the words that are not options behind it. `argv` is the
list of the words, and the NULL behind the last one is where the list ends; a pointer into a word is
what is left of the word there.

Every program of the repository calls it in the same kind of loop, which hands an option and its
argument to a `switch` and leaves at the first one that the `switch` does not know (`options`).
-/

set_option autoImplicit false

namespace Umka.Opt

open Lib

abbrev Arg := List Char

/-- An access outside `argv` or behind the end of a word, or a loop that goes on for ever. -/
inductive Stop where
  | fault
deriving DecidableEq, Repr

/-- `enum optparse_argtype`. -/
abbrev ArgType := Options.Takes

/-- `struct optparse`. -/
structure Optparse where
  argv : List Arg
  permute : Bool
  optind : Nat
  optopt : Char
  optarg : Option Arg
  errmsg : List Char
  subopt : Nat
deriving DecidableEq, Repr

/-! ## Words -/

/-- `argv[i]`, `none` for NULL. -/
def argAt (argv : List Arg) (i : Nat) : Except Stop (Option Arg) :=
  if i ≤ argv.length then .ok argv[i]? else .error .fault

/-- `arg + n`. -/
def pointer (arg : Arg) (n : Nat) : Except Stop Arg :=
  if n ≤ arg.length then .ok (arg.drop n) else .error .fault

def isDashdash (arg : Arg) : Bool := arg = ['-', '-']

def isShortopt : Arg → Bool
  | '-' :: c :: _ => c ≠ '-'
  | _ => false

/-- The loop of `optparse_permute`. -/
def shiftArg (i : Nat) (argv : List Arg) : Except Stop (List Arg) := do
  let next ← fetch .fault argv (i + 1)
  store .fault argv i next

def permuteArgs (argv : List Arg) (index optind : Nat) : Except Stop (List Arg) := do
  let nonoption ← fetch .fault argv index
  let argv ← loop shiftArg index (optind - 1 - index) argv
  store .fault argv (optind - 1) nonoption

/-! ## Options -/

/-- `none` for -1. -/
def argtype (optstring : List Char) (c : Char) : Option ArgType :=
  if c = ':' then none
  else
    match optstring.dropWhile (· ≠ c) with
    | [] => none
    | _ :: ':' :: ':' :: _ => some .optional
    | _ :: ':' :: _ => some .required
    | _ :: _ => some .nothing

def msgInvalid : List Char := "invalid option".toList

def msgMissing : List Char := "option requires an argument".toList

def sizeofErrmsg : Nat := 64

/-- The text that `optparse_error` leaves in `errmsg`. -/
def errorText (msg data : List Char) : List Char :=
  let text := msg ++ " -- '".toList
  text ++ data.take (sizeofErrmsg - 2 - text.length) ++ "'".toList

/-- `optparse_error`. -/
def optparseError (o : Optparse) (msg data : List Char) : Option Char × Optparse :=
  (some '?', { o with errmsg := errorText msg data })

/-- `optparse_init`, in a structure that holds anything. -/
def optparseInit (o : Optparse) (argv : List Arg) : Optparse :=
  { o with
    argv := argv, permute := true, optind := if argv = [] then 0 else 1, optarg := none,
    errmsg := [], subopt := 0 }

/-- `switch (type)`: the option is `c`, the rest of its word `tail`, and the word behind it
    `next`. -/
def switchType (type : Option ArgType) (c : Char) (tail : Arg) (next : Option Arg) (o : Optparse) :
    Option Char × Optparse :=
  match type with
  | none =>
    -- `subopt` stays as it is
    optparseError { o with optind := o.optind + 1 } msgInvalid ([c].takeWhile (· ≠ nul))
  | some .nothing =>
    if tail ≠ [] then (some c, { o with subopt := o.subopt + 1 })
    else (some c, { o with subopt := 0, optind := o.optind + 1 })
  | some .required =>
    if tail ≠ [] then (some c, { o with subopt := 0, optind := o.optind + 1, optarg := some tail })
    else
      match next with
      | some arg => (some c, { o with subopt := 0, optind := o.optind + 1 + 1, optarg := some arg })
      | none =>
        optparseError { o with subopt := 0, optind := o.optind + 1, optarg := none } msgMissing [c]
  | some .optional =>
    (some c, { o with
      subopt := 0, optind := o.optind + 1, optarg := if tail ≠ [] then some tail else none })

/-- The end of `optparse`, at a word of short options. -/
def shortOption (optstring : List Char) (arg : Arg) (o : Optparse) :
    Except Stop (Option Char × Optparse) := do
  let option ← pointer arg (o.subopt + 1)
  let c := option.headD nul
  let next ← argAt o.argv (o.optind + 1)
  .ok (switchType (argtype optstring c) c option.tail next { o with optopt := c })

def optparseFrom (optstring : List Char) : Nat → Optparse → Except Stop (Option Char × Optparse)
  | 0, _ => .error .fault
  | fuel + 1, o => do
    let option ← argAt o.argv o.optind
    let o := { o with errmsg := [], optopt := nul, optarg := none }
    match option with
    | none => .ok (none, o)
    | some arg =>
      if isDashdash arg then .ok (none, { o with optind := o.optind + 1 })
      else if isShortopt arg then shortOption optstring arg o
      else if o.permute then do
        let (r, o') ← optparseFrom optstring fuel { o with optind := o.optind + 1 }
        let argv ← permuteArgs o'.argv o.optind o'.optind
        .ok (r, { o' with argv := argv, optind := o'.optind - 1 })
      else .ok (none, o)

/-- `optparse`: an option, `none` for -1. It calls itself once for every word that is not an
    option. -/
def optparse (optstring : List Char) (o : Optparse) : Except Stop (Option Char × Optparse) :=
  optparseFrom optstring (o.argv.length + 1) o

/-- `optparse_arg`. -/
def optparseArg (o : Optparse) : Except Stop (Option Arg × Optparse) := do
  match ← argAt o.argv o.optind with
  | some arg => .ok (some arg, { o with subopt := 0, optind := o.optind + 1 })
  | none => .ok (none, { o with subopt := 0 })

/-! ## The loop around it -/

/-- How the loop is left: the character at which the `switch` came to its default, `none` at the end
    of the options; what the cases have made of the values; and the parser. -/
structure Outcome (α : Type) where
  stop : Option Char
  value : α
  parser : Optparse

section

variable {α : Type} (optstring : List Char) (handle : α → Char → Option Arg → Option α)

/-- `while ((opt = optparse(…)) != -1) switch (opt) …`; `handle` is the `switch`, and `none` its
    default. -/
def optionsFrom : Nat → α → Optparse → Except Stop (Outcome α)
  | 0, _, _ => .error .fault
  | fuel + 1, a, o => do
    let (opt, o) ← optparse optstring o
    match opt with
    | none => .ok ⟨none, a, o⟩
    | some c =>
      match handle a c o.optarg with
      | some a => optionsFrom fuel a o
      | none => .ok ⟨some c, a, o⟩

/-- Every turn takes a character. -/
def options (a : α) (o : Optparse) : Except Stop (Outcome α) :=
  optionsFrom optstring handle ((o.argv.map List.length).sum + 1) a o

end

end Umka.Opt
