import Mathlib.Logic.Function.Basic
import Umka.Lib.Text

/-!
# `runtests.c`: the workers

`main` opens the directory once and starts `-j` threads of `thread_run_test` on the one stream.
A worker locks a mutex around `readdir` only: the `struct dirent` it gets lies in the stream's
own memory, the next `readdir` of any worker may reuse that memory, and the worker looks at the
name there three more times, for the validity check, the run and the verdict. Which memory a
`readdir` uses is the host's choice and part of the step.

`run_test` forks. The child is a process with a copy of the memory, in which only the calling
thread goes on. It changes into the directory of the test, and if `execl` fails there, `run_test`
returns `-1` *in the child*, and the child's thread goes on as a worker on its copy of the stream,
from inside that directory. The copy is taken to be complete: the directory fits into the stream's
buffer.

`took`, `ran` and `judged` are not part of the program. They record which entries `readdir`
returned, under which names tests were run and judged, by which thread.
-/

set_option autoImplicit false

namespace Umka.Tools

open Lib

/-- A directory entry. -/
structure DirEnt where
  name : List Char
  noNul : nul ∉ name
deriving DecidableEq

instance : Inhabited DirEnt := ⟨⟨[], List.not_mem_nil⟩⟩

/-- The names that lead from the directory `runtests` was started in to another below it. -/
abbrev Path := List (List Char)

/-- The directories below that one, and those of them in which `run.us` can be opened. -/
structure Tree where
  dirs : List Path
  runUs : List Path
  runUs_subset : runUs ⊆ dirs

/-- `<name>/run.us` can be opened from `cwd`. -/
def Tree.opens (tree : Tree) (cwd : Path) (name : List Char) : Bool :=
  decide (cwd ++ [name] ∈ tree.runUs)

/-- The working directory after `chdir`, whose result nobody looks at. -/
def Tree.chdir (tree : Tree) (cwd : Path) (name : List Char) : Path :=
  if cwd ++ [name] ∈ tree.dirs then cwd ++ [name] else cwd

def isDigit (c : Char) : Bool := decide ('0' ≤ c ∧ c ≤ '9')

/-- The loop of `is_valid_test` with `n` rounds left; it looks at `name[1]` in each of them. -/
def digitLoop (name : List Char) : Nat → Nat → Bool
  | 0, _ => true
  | n + 1, i =>
    if name.getD i nul = nul then true
    else if isDigit (name.getD 1 nul) = false then false
    else digitLoop name n (i + 1)

def isValidTest (tree : Tree) (cwd : Path) (e : DirEnt) : Bool :=
  if e.name.getD 0 nul ≠ 't' then false
  else if digitLoop e.name 3 1 = false then false
  else tree.opens cwd e.name

/-! ## Workers -/

/-- What a thread does next; `k` is where the entry it works on lies. -/
inductive Pc
  | absent
  | fetch
  | check (k : Nat)
  | run (k : Nat)
  | judge (k : Nat) (failed : Bool)
  | finished
deriving DecidableEq, Repr

/-- The entry in use. -/
def Pc.slot? : Pc → Option Nat
  | .check k => some k
  | .run k => some k
  | .judge k _ => some k
  | _ => none

structure Thread where
  proc : Nat
  pc : Pc
deriving DecidableEq, Repr

/-- A process: what its directory stream has still to return, the stream's memory, and the working
    directory. -/
structure Proc where
  rest : List DirEnt
  slot : Nat → DirEnt
  cwd : Path

structure Runner where
  thread : Nat → Thread
  proc : Nat → Proc
  next : Nat
  took : List (Nat × DirEnt)
  ran : List (Nat × DirEnt)
  judged : List (Nat × DirEnt × Bool)

namespace Runner

/-- `main` with `-j n`: the stream at its start, and `n` threads. -/
def init (n : Nat) (listing : List DirEnt) : Runner where
  thread t := ⟨0, if t < n then .fetch else .absent⟩
  proc _ := ⟨listing, fun _ => default, []⟩
  next := n
  took := []
  ran := []
  judged := []

variable (s : Runner)

/-- The process a thread runs in. -/
def home (t : Nat) : Proc := s.proc (s.thread t).proc

/-- The entry whose name a thread looks at. -/
def entry (t k : Nat) : DirEnt := (s.home t).slot k

def setPc (t : Nat) (pc : Pc) : Runner :=
  { s with thread := Function.update s.thread t { s.thread t with pc := pc } }

end Runner

/-- A step of a thread, with what the host decides about it: the memory `readdir` uses, whether
    `execl` succeeds and whether the run fails, and whether an artefact differs. -/
inductive RunAct
  | readdir (t k : Nat)
  | check (t : Nat)
  | run (t : Nat) (exec failed : Bool)
  | judge (t : Nat) (differs : Bool)
deriving DecidableEq, Repr

def runnerStep (tree : Tree) (s : Runner) : RunAct → Option Runner
  | .readdir t k =>
    if (s.thread t).pc = .fetch then
      match (s.home t).rest with
      | [] => some (s.setPc t .finished)
      | e :: rest =>
        some { s.setPc t (.check k) with
          proc := Function.update s.proc (s.thread t).proc
            { s.home t with rest := rest, slot := Function.update (s.home t).slot k e }
          took := s.took ++ [(t, e)] }
    else none
  | .check t =>
    match (s.thread t).pc with
    | .check k =>
      some (s.setPc t (if isValidTest tree (s.home t).cwd (s.entry t k) then .run k else .fetch))
    | _ => none
  | .run t exec failed =>
    match (s.thread t).pc with
    | .run k =>
      let parent := s.setPc t (.judge k failed)
      if exec then some { parent with ran := s.ran ++ [(t, s.entry t k)] }
      -- The child goes on with the result of its `run_test`, as a thread of its own process.
      else some { parent with
        thread := Function.update parent.thread s.next ⟨s.next, .judge k true⟩
        proc := Function.update s.proc s.next
          { s.home t with cwd := tree.chdir (s.home t).cwd (s.entry t k).name }
        next := s.next + 1 }
    | _ => none
  | .judge t differs =>
    match (s.thread t).pc with
    | .judge k failed =>
      some { s.setPc t .fetch with judged := s.judged ++ [(t, s.entry t k, failed || differs)] }
    | _ => none

end Umka.Tools
