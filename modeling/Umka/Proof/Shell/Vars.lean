import Umka.Lib.Run
import Umka.Shell.Vars

/-!
# The shell's variables are a map with one pending value

`VarMap` is what the store is for: names bound to values, and the value that waits for a name.
The list keeps every node it ever named, a name may occur in it several times, and one node at
its head may be without a name. `Represents` relates the two; each call keeps it and answers
alike, so every sequence of calls does.
-/

set_option autoImplicit false

namespace Umka.Proof.Shell

open Lib Umka.Shell

/-! ## The map -/

/-- Bindings, and the value no `var` command has named yet. -/
structure VarMap where
  bound : List Char → Option UInt32
  pending : Option UInt32

namespace VarMap

def empty : VarMap := ⟨fun _ => none, none⟩

/-- A name the store can take: it starts with `$`, and there is room for it. -/
def Nameable (n : List Char) : Prop := n.head? = some '$' ∧ n.length < shellVarNameLen

instance (n : List Char) : Decidable (Nameable n) := inferInstanceAs (Decidable (_ ∧ _))

def bind (m : VarMap) (n : List Char) (v : UInt32) : VarMap where
  bound := fun n' => if n' = n then some v else m.bound n'
  pending := none

def step (m : VarMap) : VarOp → Bool × VarMap
  | .addSint v => (true, { m with pending := some v.toUInt32 })
  | .addUint v => (true, { m with pending := some v })
  | .addPtr v => (true, { m with pending := some v })
  | .name n =>
    match m.pending with
    | none => (false, m)
    | some v => if Nameable n then (true, m.bind n v) else (false, m)

end VarMap

/-! ## What the list stands for -/

/-- The value of a head without a name. -/
def pendingOf : ShellVars → Option UInt32
  | [] => none
  | var :: _ => if var.name = [] then some var.value else none

/-- The list's answers are the map's, and nothing behind its head is without a name. -/
structure Represents (vars : ShellVars) (m : VarMap) : Prop where
  bound : ∀ n, n ≠ [] → (shellVarGet vars n).map (·.value) = m.bound n
  pending : pendingOf vars = m.pending
  named : ∀ var ∈ vars.tail, var.name ≠ []

theorem represents_nil : Represents [] VarMap.empty where
  bound := fun _ _ => rfl
  pending := rfl
  named := nofun

variable {vars : ShellVars} {m : VarMap}

/-- A node without a name at the head is seen by no lookup. -/
theorem shellVarGet_unnamed {var : ShellVar} {next : ShellVars} {n : List Char}
    (hvar : var.name = []) (hn : n ≠ []) :
    shellVarGet (var :: next) n = shellVarGet next n := by
  rw [shellVarGet, if_neg]
  rw [hvar]
  exact fun h => hn h.symm

/-- The list without its pending node. -/
def settled : ShellVars → ShellVars
  | [] => []
  | var :: next => if var.name = [] then next else var :: next

theorem shellVarGet_settled {n : List Char} (hn : n ≠ []) :
    shellVarGet (settled vars) n = shellVarGet vars n := by
  cases vars with
  | nil => rfl
  | cons var next =>
    rw [settled]
    split
    · next hvar => rw [shellVarGet_unnamed hvar hn]
    · rfl

/-- Each `add` function puts a node without a name on what has names. -/
theorem shellVarAddValue_eq (type : ShellVarType) (value : UInt32) (vars : ShellVars) :
    ∃ var : ShellVar, var.name = [] ∧ var.value = value
      ∧ shellVarAddValue type value vars = var :: settled vars := by
  cases vars with
  | nil => exact ⟨{ shellVarNew with type := type, value := value }, rfl, rfl, rfl⟩
  | cons var next =>
    by_cases hvar : var.name = []
    · refine ⟨{ var with type := type, value := value }, hvar, rfl, ?_⟩
      simp [shellVarAddValue, shellVarAdd, settled, hvar]
    · refine ⟨{ shellVarNew with type := type, value := value }, rfl, rfl, ?_⟩
      simp [shellVarAddValue, shellVarAdd, settled, hvar]

theorem Represents.settled_named (h : Represents vars m) : ∀ var ∈ settled vars, var.name ≠ [] := by
  have hnamed := h.named
  cases vars with
  | nil => exact nofun
  | cons head next =>
    rw [settled]
    split
    · exact hnamed
    · next hhead =>
      intro var hvar
      rcases List.mem_cons.mp hvar with rfl | hvar
      · exact hhead
      · exact hnamed var hvar

theorem Represents.add (h : Represents vars m) (type : ShellVarType) (value : UInt32) :
    Represents (shellVarAddValue type value vars) { m with pending := some value } := by
  obtain ⟨var, hname, hvalue, heq⟩ := shellVarAddValue_eq type value vars
  rw [heq]
  constructor
  · intro n hn
    rw [shellVarGet_unnamed hname hn, shellVarGet_settled hn]
    exact h.bound n hn
  · rw [pendingOf, if_pos hname, hvalue]
  · exact h.settled_named

/-! ## Naming -/

/-- With nothing pending there is nothing to name. -/
theorem shellVarName_none {n : List Char} (h : pendingOf vars = none) :
    shellVarName vars n = (false, vars) := by
  cases vars with
  | nil => rfl
  | cons var next =>
    have hvar : var.name ≠ [] := by
      intro hvar
      rw [pendingOf, if_pos hvar] at h
      cases h
    rw [shellVarName, if_pos hvar]

/-- With a value pending the name decides, and the node that gets it is the head. -/
theorem shellVarName_some {n : List Char} {v : UInt32} (h : pendingOf vars = some v) :
    (¬ VarMap.Nameable n ∧ shellVarName vars n = (false, vars))
      ∨ (VarMap.Nameable n ∧ ∃ var : ShellVar, var.name = n ∧ var.value = v
          ∧ shellVarName vars n = (true, var :: vars.tail)) := by
  cases vars with
  | nil => cases h
  | cons head next =>
    have hhead : head.name = [] ∧ head.value = v := by
      rw [pendingOf] at h
      split at h
      · next hname => exact ⟨hname, Option.some.inj h⟩
      · cases h
    by_cases hn : VarMap.Nameable n
    · right
      refine ⟨hn, { head with name := n, name_lt := hn.2 }, rfl, hhead.2, ?_⟩
      have hgood : ¬ (n.head? ≠ some '$' ∨ n.length ≥ shellVarNameLen) := by
        rintro (hd | hl)
        · exact hd hn.1
        · exact absurd hn.2 (Nat.not_lt.mpr hl)
      rw [shellVarName, if_neg (not_not.mpr hhead.1), dif_neg hgood]
      rfl
    · left
      refine ⟨hn, ?_⟩
      have hbad : n.head? ≠ some '$' ∨ n.length ≥ shellVarNameLen := by
        by_cases hd : n.head? = some '$'
        · exact .inr (Nat.not_lt.mp fun hl => hn ⟨hd, hl⟩)
        · exact .inl hd
      rw [shellVarName, if_neg (not_not.mpr hhead.1), dif_pos hbad]

theorem VarMap.Nameable.ne_nil {n : List Char} (h : VarMap.Nameable n) : n ≠ [] := by
  rintro rfl
  cases h.1

/-- The head, given a name, hides what that name was before. -/
theorem Represents.name {n : List Char} {var : ShellVar} (h : Represents vars m)
    (hn : n ≠ []) (hname : var.name = n) (hpend : pendingOf vars ≠ none) :
    Represents (var :: vars.tail) (m.bind n var.value) := by
  have htail : ∀ n', n' ≠ [] → shellVarGet vars.tail n' = shellVarGet vars n' := by
    intro n' hn'
    cases vars with
    | nil => rfl
    | cons head next =>
      have hhead : head.name = [] := by
        by_contra hhead
        exact hpend (if_neg hhead)
      rw [shellVarGet_unnamed hhead hn', List.tail_cons]
  constructor
  · intro n' hn'
    rw [shellVarGet, hname, htail n' hn']
    by_cases heq : n = n'
    · rw [if_pos heq]
      exact (if_pos heq.symm).symm
    · rw [if_neg heq, h.bound n' hn']
      exact (if_neg fun h' => heq h'.symm).symm
  · rw [pendingOf, if_neg (by rw [hname]; exact hn)]
    rfl
  · exact h.named

/-! ## Sequences of calls -/

/-- One call keeps list and map together and gets one answer from both. -/
theorem represents_step (vars : ShellVars) (m : VarMap) (op : VarOp) (h : Represents vars m) :
    (varStep vars op).1 = (m.step op).1 ∧ Represents (varStep vars op).2 (m.step op).2 := by
  cases op with
  | addSint v => exact ⟨rfl, h.add .sint v.toUInt32⟩
  | addUint v => exact ⟨rfl, h.add .uint v⟩
  | addPtr v => exact ⟨rfl, h.add .pointer v⟩
  | name n =>
    rw [varStep, VarMap.step, ← h.pending]
    cases hp : pendingOf vars with
    | none =>
      rw [shellVarName_none hp]
      exact ⟨rfl, h⟩
    | some v =>
      rcases shellVarName_some (n := n) hp with ⟨hn, heq⟩ | ⟨hn, var, hname, hvalue, heq⟩
      · simp only [heq, if_neg hn]
        exact ⟨trivial, h⟩
      · have hpend : pendingOf vars ≠ none := by
          rw [hp]
          exact Option.some_ne_none v
        subst hvalue
        simp only [heq, if_pos hn]
        exact ⟨trivial, h.name hn.ne_nil hname hpend⟩

theorem Represents.parse {α : Type} {read : UInt32 → α} {strto : List Char → α} {n : List Char}
    (h : Represents vars m) (hn : n.head? = some '$') :
    shellParse read strto vars n = (m.bound n).map read := by
  have hne : n ≠ [] := by
    rintro rfl
    cases hn
  rw [shellParse, if_pos hn, ← h.bound n hne, Option.map_map]
  rfl

/-- **The list is the map.** Whatever calls were made, they got the answers the map gives; a
    name is found exactly when it is bound, with the value it was bound to last; and only the
    head of the list can be without a name. -/
theorem vars_refine_map (ops : List VarOp) :
    let vars := (transcript varStep [] ops).2
    let m := (transcript VarMap.step VarMap.empty ops).2
    (transcript varStep [] ops).1 = (transcript VarMap.step VarMap.empty ops).1
      ∧ (∀ n : List Char, n.head? = some '$' →
          ((shellVarGet vars n).isSome ↔ (m.bound n).isSome)
            ∧ shellParseSint vars n = (m.bound n).map UInt32.toInt32
            ∧ shellParseUint vars n = m.bound n
            ∧ shellParsePtr vars n = m.bound n)
      ∧ ∀ var ∈ vars.tail, var.name ≠ [] := by
  intro vars m
  obtain ⟨hout, hR⟩ := transcript_simulates represents_step ops [] VarMap.empty represents_nil
  refine ⟨hout, fun n hn => ⟨?_, ?_, ?_, ?_⟩, hR.named⟩
  · have hne : n ≠ [] := by
      rintro rfl
      cases hn
    rw [← hR.bound n hne, Option.isSome_map]
  · exact hR.parse hn
  · exact (hR.parse hn).trans Option.map_id_apply
  · exact (hR.parse hn).trans Option.map_id_apply

end Umka.Proof.Shell
