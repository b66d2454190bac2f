import Umka.Shell.CmdTable

/-!
# `shell.c`: reading a script

`run_test` reads its input line by line with `ic_readline`, cuts a line into words with
`split_args`, and looks the first word up in `cmd_cmds`. The input is a file, so `ic_readline`
is isocline's `ic_getline`: it reads up to a newline or the end of the file, appends each
character to a string buffer, which drops a NUL, and returns NULL for an empty buffer.

What the handlers do is not followed here; the model is the sequence of calls that are made.
`split_args` stores into the array `argv`, and a store outside it has no outcome, like a
comparison with the NULL in `argv[0]`.
-/

set_option autoImplicit false

namespace Umka.Shell

open Lib

/-- `MAX_COMMAND_ARGS`. -/
def maxCommandArgs : Nat := 42

/-! ## Words -/

/-- The characters that `split_args` hands to `strtok`. -/
def isDelim (c : Char) : Bool := c = ' ' ∨ c = '\t' ∨ c = '\n' ∨ c = '\r'

/-- `strtok`: the next word, and what is left behind the delimiter that ends it. -/
def strtok (s : List Char) : Option (List Char × List Char) :=
  match s.dropWhile isDelim with
  | [] => none
  | c :: cs =>
    let word := (c :: cs).takeWhile (! isDelim ·)
    some (word, ((c :: cs).drop word.length).drop 1)

/-- The array `argv`, which `run_test` allocates once. -/
abbrev ArgvArray := Nat → Option (List Char)

def ArgvArray.set (argv : ArgvArray) (i : Nat) (v : Option (List Char)) : ArgvArray :=
  fun j => if j = i then v else argv j

/-- The loop of `split_args` with `room` entries left in the array. -/
def splitFrom : Nat → Nat → List Char → ArgvArray → Option (Nat × ArgvArray)
  | 0, _, _, _ => none
  | room + 1, argc, s, argv =>
    match strtok s with
    | none => some (argc, argv.set argc none)
    | some (word, rest) => splitFrom room (argc + 1) rest (argv.set argc (some word))

/-- `split_args`. -/
def splitArgs (s : List Char) (argv : ArgvArray) : Option (Nat × ArgvArray) :=
  splitFrom (maxCommandArgs + 1) 0 s argv

/-! ## Lines -/

/-- `ic_getline`: the string buffer, whether the end of the file was met, and what is left. -/
def icGetline : List Char → List Char × Bool × List Char
  | [] => ([], true, [])
  | c :: cs =>
    if c = '\n' then ([], false, cs)
    else if c = nul then icGetline cs
    else (c :: (icGetline cs).1, (icGetline cs).2)

/-- `ic_readline`; `none` is NULL. -/
def icReadline (s : List Char) : Option (List Char) × Bool × List Char :=
  (if (icGetline s).1 = [] then none else some (icGetline s).1, (icGetline s).2)

/-- What `ic_readline` returns each time the condition of the loop in `run_test` lets its body
    run, in at most `fuel` rounds. -/
def readlineUpTo : Nat → List Char → List (Option (List Char))
  | 0, _ => []
  | fuel + 1, s =>
    match icReadline s with
    | (none, true, _) => []
    | (line, _, rest) => line :: readlineUpTo fuel rest

/-- The same for as many rounds as there are. -/
def readlineAll (s : List Char) : List (Option (List Char)) := readlineUpTo (s.length + 1) s

/-! ## The loop -/

/-- What `run_test` does with a line it has split. -/
inductive Dispatch
  /-- `ft->func(ctx, argc, argv)` -/
  | call (func : CmdFunc) (args : List (Option (List Char)))
  | unknown (name : List Char)
deriving DecidableEq

/-- The search of `cmd_cmds` and the call. -/
def dispatch (argc : Nat) (argv : ArgvArray) : Option Dispatch :=
  (argv 0).map fun name =>
    match cmdLookup name with
    | some ft => .call ft.func ((List.range (argc + 1)).map argv)
    | none => .unknown name

/-- The body of the loop of `run_test`, for each line that was read. -/
def runLines : List (Option (List Char)) → ArgvArray → Option (List Dispatch)
  | [], _ => some []
  | none :: ls, argv => runLines ls argv
  | some line :: ls, argv =>
    if line = [] then some []
    else if line = ['X'] ∨ line = ['q'] then some []
    else if line.head? = some '#' ∨ line.head? = some '\n' ∨ line.head? = some '\r' then
      runLines ls argv
    else do
      let (argc, argv) ← splitArgs line argv
      let d ← dispatch argc argv
      let ds ← runLines ls argv
      return d :: ds

/-- `run_test`; `calloc` has cleared the array. -/
def runTest (script : List Char) : Option (List Dispatch) :=
  runLines (readlineAll script) fun _ => none

end Umka.Shell
