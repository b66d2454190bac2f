import Umka.Shell.Keyboard

/-!
# Setting a keyboard layout

The handler wants 131 words for a layout on the command line: its own name, `-t`, the type and 128
codes. It looks for the codes from the fifth word on, one too late, so the last one it reads is the
NULL behind the words. It does the same when five words do not name a file. The only way in which
such a command ends is a word that is no code.
-/

set_option autoImplicit false

namespace Umka.Proof.Shell

open Lib Umka.Shell

/-! ## What is asked for -/

section Statement

variable (file : List Char → Option (List UInt8)) (argv : List (List Char))

/-- The handler reads none but its own words, and passes nothing uninitialised. -/
def LayoutSafe {α : Type} (r : LayoutM α) : Prop := ∀ e, r = .error e → ∃ out, e = .returned out

/-- `set_keyboard_layout -t <type> c_0 ... c_127`: the words of the codes are numbers from 0 to
    255. -/
def GivesCodes (type : Int) (codes : List UInt8) : Prop :=
  ∃ name typeStr ws, argv = name :: "-t".toList :: typeStr :: ws ∧ ws.length = kosLayoutSize
    ∧ layoutType typeStr = some type
    ∧ (∀ w ∈ ws, endptr w = [] ∧ 0 ≤ strtol 32 w ∧ strtol 32 w ≤ 255)
    ∧ codes = ws.map fun w => UInt8.ofInt (strtol 32 w)

def LayoutRight : Prop :=
  LayoutSafe (setKeyboardLayout file argv)
  ∧ ∀ type codes, GivesCodes argv type codes → setKeyboardLayout file argv = .ok ⟨type, codes⟩

/-- A word that the loop over the codes stops at. -/
def BadCode (word : List Char) : Prop := endptr word ≠ [] ∨ strtol 32 word > 0xff

/-- Five words that name a file. -/
def FileForm : Prop := argv.length = 5 ∧ argv[3]? = some "-f".toList

/-- Commands that are handled well: those with another number of words, with a type that there is
    not, or with a file (and a type, unless the file cannot be read), and those that are rejected
    for one of their codes. -/
def LayoutCond : Prop :=
  (argv.length ≠ 5 ∧ argv.length ≠ 131)
  ∨ (argv[1]? = some "-t".toList ∧ ∃ typeStr ∈ argv[2]?, layoutType typeStr = none)
  ∨ (FileForm argv ∧ (argv[1]? = some "-t".toList
      ∨ ∀ fname ∈ argv[4]?, ∀ data ∈ file fname, data.length < kosLayoutSize))
  ∨ (¬ FileForm argv ∧ ∃ j, 4 ≤ j ∧ ∃ word ∈ argv[j]?, BadCode word)

end Statement

/-! ## The loop over the codes -/

section Codes

variable {file : List Char → Option (List UInt8)} {argv : List (List Char)}

theorem codesFrom_end {n i : Nat} (h : argv[4 + i]? = none) :
    codesFrom argv (n + 1) i = .error (.pastArgv (4 + i)) := by
  rw [codesFrom, layoutArg, h]
  rfl

theorem codesFrom_bad {n i : Nat} {word : List Char} (h : argv[4 + i]? = some word)
    (hbad : BadCode word) : ∃ out, codesFrom argv (n + 1) i = .error (.returned out) := by
  rw [codesFrom, layoutArg, h]
  exact ⟨_, if_pos hbad⟩

theorem codesFrom_good {n i : Nat} {word : List Char} {e : LayoutStop}
    (h : argv[4 + i]? = some word) (hgood : ¬ BadCode word)
    (hrest : codesFrom argv n (i + 1) = .error e) : codesFrom argv (n + 1) i = .error e := by
  rw [codesFrom, layoutArg, h, hrest]
  exact if_neg hgood

/-- A loop that asks for more codes than there are words ends at a bad one, or behind the last. -/
theorem codesFrom_overruns (n : Nat) : ∀ i, 4 + i ≤ argv.length → argv.length < 4 + i + n →
    (∃ j, 4 + i ≤ j ∧ ∃ word ∈ argv[j]?, BadCode word)
      ∧ (∃ out, codesFrom argv n i = .error (.returned out))
    ∨ (¬ ∃ j, 4 + i ≤ j ∧ ∃ word ∈ argv[j]?, BadCode word)
      ∧ codesFrom argv n i = .error (.pastArgv argv.length) := by
  induction n with
  | zero =>
    intro i hi hn
    omega
  | succ n ih =>
    intro i hi hn
    rcases Nat.lt_or_eq_of_le hi with hlt | heq
    · have hword := List.getElem?_eq_getElem hlt
      by_cases hbad : BadCode argv[4 + i]
      · exact .inl ⟨⟨4 + i, le_refl _, _, hword, hbad⟩, codesFrom_bad hword hbad⟩
      · obtain ⟨⟨j, hj, hbadj⟩, out, hout⟩ | ⟨hnone, hpast⟩ := ih (i + 1) hlt (by omega)
        · exact .inl ⟨⟨j, by omega, hbadj⟩, out, codesFrom_good hword hbad hout⟩
        · refine .inr ⟨?_, codesFrom_good hword hbad hpast⟩
          rintro ⟨j, hj, word, hmem, hbadj⟩
          rcases Nat.lt_or_eq_of_le hj with hlater | rfl
          · exact hnone ⟨j, hlater, word, hmem, hbadj⟩
          · rw [hword] at hmem
            cases hmem
            exact hbad hbadj
    · have hend : argv[4 + i]? = none := List.getElem?_eq_none (Nat.le_of_eq heq.symm)
      refine .inr ⟨?_, heq ▸ codesFrom_end hend⟩
      rintro ⟨j, hj, word, hmem, -⟩
      rw [List.getElem?_eq_none (heq ▸ hj)] at hmem
      cases hmem

end Codes

/-! ## The whole command -/

theorem fileLayout_cases (file : List Char → Option (List UInt8)) (fname : List Char) :
    (¬ (∀ data ∈ file fname, data.length < kosLayoutSize) ∧ ∃ layout,
      fileLayout file fname = .ok layout)
    ∨ ((∀ data ∈ file fname, data.length < kosLayoutSize)
      ∧ ∃ out, fileLayout file fname = .error (.returned out)) := by
  unfold fileLayout
  cases hfile : file fname with
  | none => exact .inr ⟨fun _ h => (nomatch h), _, rfl⟩
  | some data =>
    by_cases hlen : data.length < kosLayoutSize
    · refine .inr ⟨fun data' h => Option.some.inj h ▸ hlen, _, if_pos ?_⟩
      rw [List.length_take]
      omega
    · refine .inl ⟨fun h => hlen (h data rfl), _, if_neg ?_⟩
      rw [List.length_take, not_not]
      omega

section Command

variable {file : List Char → Option (List UInt8)} {argv : List (List Char)}

/-- `type` is set, or the command is rejected, or `type` is left alone. -/
theorem typeArg_cases {option typeStr : List Char} (h₁ : argv[1]? = some option)
    (h₂ : argv[2]? = some typeStr) :
    (option = "-t".toList ∧ ∃ type, layoutType typeStr = some type ∧ typeArg argv = .ok (some type))
    ∨ (option = "-t".toList ∧ layoutType typeStr = none
        ∧ ∃ out, typeArg argv = .error (.returned out))
    ∨ (option ≠ "-t".toList ∧ typeArg argv = .ok none) := by
  have harg₁ : layoutArg argv 1 = .ok option := by rw [layoutArg, h₁]
  have harg₂ : layoutArg argv 2 = .ok typeStr := by rw [layoutArg, h₂]
  unfold typeArg
  rw [harg₁, harg₂]
  by_cases hopt : option = "-t".toList
  · cases htype : layoutType typeStr with
    | some type =>
      have hparse : parseLayoutType typeStr = .ok (some type) := by
        unfold parseLayoutType
        rw [htype]
        rfl
      exact .inl ⟨hopt, type, rfl, (if_pos hopt).trans hparse⟩
    | none =>
      have hparse : parseLayoutType typeStr =
          layoutUsage ["no such layout type: " ++ String.ofList typeStr ++ "\n"] := by
        unfold parseLayoutType
        rw [htype]
      exact .inr (.inl ⟨hopt, rfl, _, (if_pos hopt).trans hparse⟩)
  · exact .inr (.inr ⟨hopt, if_neg hopt⟩)

theorem layoutBytes_eq (file : List Char → Option (List UInt8)) {form fifth : List Char}
    (h₃ : argv[3]? = some form) (h₄ : argv[4]? = some fifth) :
    (FileForm argv ∧ layoutBytes file argv = fileLayout file fifth)
    ∨ (¬ FileForm argv ∧ layoutBytes file argv = codesFrom argv kosLayoutSize 0) := by
  have harg₃ : layoutArg argv 3 = .ok form := by rw [layoutArg, h₃]
  have harg₄ : layoutArg argv 4 = .ok fifth := by rw [layoutArg, h₄]
  have hform : FileForm argv ↔ form = "-f".toList ∧ argv.length = 5 := by
    rw [FileForm, h₃, Option.some.injEq, and_comm]
  unfold layoutBytes
  rw [harg₃, harg₄, hform]
  by_cases h : form = "-f".toList ∧ argv.length = 5
  · exact .inl ⟨h, if_pos h⟩
  · exact .inr ⟨h, if_neg h⟩

/-- Where the words are enough, the bytes come from a file, or the loop over the codes stops. -/
theorem layoutBytes_cases (file : List Char → Option (List UInt8))
    (hlen : argv.length = 5 ∨ argv.length = 131) {form fifth : List Char}
    (h₃ : argv[3]? = some form) (h₄ : argv[4]? = some fifth) :
    (FileForm argv ∧ ¬ (∀ data ∈ file fifth, data.length < kosLayoutSize)
      ∧ ∃ layout, layoutBytes file argv = .ok layout)
    ∨ ((FileForm argv ∧ (∀ data ∈ file fifth, data.length < kosLayoutSize)
        ∨ ¬ FileForm argv ∧ ∃ j, 4 ≤ j ∧ ∃ word ∈ argv[j]?, BadCode word)
      ∧ ∃ out, layoutBytes file argv = .error (.returned out))
    ∨ ((¬ FileForm argv ∧ ¬ ∃ j, 4 ≤ j ∧ ∃ word ∈ argv[j]?, BadCode word)
      ∧ layoutBytes file argv = .error (.pastArgv argv.length)) := by
  have hsize : kosLayoutSize = 128 := rfl
  obtain ⟨hform, heq⟩ | ⟨hform, heq⟩ := layoutBytes_eq file h₃ h₄
  · obtain ⟨hdata, hok⟩ | ⟨hdata, hout⟩ := fileLayout_cases file fifth
    · exact .inl ⟨hform, hdata, heq ▸ hok⟩
    · exact .inr (.inl ⟨.inl ⟨hform, hdata⟩, heq ▸ hout⟩)
  · obtain ⟨hbad, hout⟩ | ⟨hgood, hpast⟩ :=
      codesFrom_overruns kosLayoutSize 0 (show 4 + 0 ≤ argv.length by omega) (by omega)
    · exact .inr (.inl ⟨.inr ⟨hform, hbad⟩, heq ▸ hout⟩)
    · exact .inr (.inr ⟨⟨hform, hgood⟩, heq ▸ hpast⟩)

/-- A complete command has 131 words, a type, and no bad code. -/
theorem GivesCodes.spec {type : Int} {codes : List UInt8} (h : GivesCodes argv type codes) :
    argv.length = 131 ∧ (∀ typeStr ∈ argv[2]?, layoutType typeStr ≠ none)
      ∧ ¬ ∃ j, 4 ≤ j ∧ ∃ word ∈ argv[j]?, BadCode word := by
  obtain ⟨name, typeStr, ws, rfl, hlen, htype, hcodes, -⟩ := h
  refine ⟨?_, ?_, ?_⟩
  · simp only [List.length_cons, hlen]
    rfl
  · intro typeStr' h
    cases h
    rw [htype]
    exact Option.some_ne_none type
  · rintro ⟨j, hj, word, hword, hbad⟩
    obtain ⟨k, rfl⟩ := Nat.exists_eq_add_of_le' (show 3 ≤ j by omega)
    obtain ⟨hend, -, hle⟩ := hcodes word (List.mem_of_getElem? hword)
    rcases hbad with hbad | hbad
    · exact hbad hend
    · omega

theorem guard_accepts (hlen : argv.length = 5 ∨ argv.length = 131) :
    cmdSetKeyboardLayout.guard.rejects argv.length = false :=
  decide_eq_false (by omega)

theorem setKeyboardLayout_error {e : LayoutStop} (hlen : argv.length = 5 ∨ argv.length = 131)
    (h : typeArg argv = .error e) : setKeyboardLayout file argv = .error e := by
  rw [setKeyboardLayout, guard_accepts hlen, h]
  rfl

theorem setKeyboardLayout_eq {type : Option Int} (hlen : argv.length = 5 ∨ argv.length = 131)
    (h : typeArg argv = .ok type) :
    setKeyboardLayout file argv = layoutBytes file argv >>= passLayout type := by
  rw [setKeyboardLayout, guard_accepts hlen, h]
  rfl

theorem layoutSafe_ok {α : Type} (a : α) : LayoutSafe (.ok a : LayoutM α) := fun _ h => nomatch h

theorem layoutSafe_returned {α : Type} (out : List String) :
    LayoutSafe (.error (.returned out) : LayoutM α) := by
  rintro _ ⟨⟩
  exact ⟨out, rfl⟩

theorem not_layoutSafe_pastArgv {α : Type} (j : Nat) :
    ¬ LayoutSafe (.error (.pastArgv j) : LayoutM α) := by
  intro h
  obtain ⟨out, hout⟩ := h _ rfl
  cases hout

theorem not_layoutSafe_uninitialised {α : Type} :
    ¬ LayoutSafe (.error .uninitialised : LayoutM α) := by
  intro h
  obtain ⟨out, hout⟩ := h _ rfl
  cases hout

/-- The condition in terms of the words that there are. -/
theorem layoutCond_iff (hlen : argv.length = 5 ∨ argv.length = 131)
    {option typeStr fifth : List Char} (h₁ : argv[1]? = some option) (h₂ : argv[2]? = some typeStr)
    (h₄ : argv[4]? = some fifth) :
    LayoutCond file argv ↔ (option = "-t".toList ∧ layoutType typeStr = none)
      ∨ (FileForm argv ∧ (option = "-t".toList ∨ ∀ data ∈ file fifth, data.length < kosLayoutSize))
      ∨ (¬ FileForm argv ∧ ∃ j, 4 ≤ j ∧ ∃ word ∈ argv[j]?, BadCode word) := by
  have hcount : ¬ (argv.length ≠ 5 ∧ argv.length ≠ 131) := by omega
  rw [LayoutCond, or_iff_right hcount, h₁, h₂, h₄]
  simp only [Option.some.injEq, Option.mem_def, exists_eq_left', forall_eq']

/-- Once `type` is dealt with, all depends on where the bytes come from, and a missing type matters
    only when there are any. -/
theorem layoutSafe_bytes_iff (hlen : argv.length = 5 ∨ argv.length = 131) {form fifth : List Char}
    (h₃ : argv[3]? = some form) (h₄ : argv[4]? = some fifth) (type : Option Int) :
    LayoutSafe (layoutBytes file argv >>= passLayout type) ↔
      (FileForm argv ∧ (type ≠ none ∨ ∀ data ∈ file fifth, data.length < kosLayoutSize))
      ∨ (¬ FileForm argv ∧ ∃ j, 4 ≤ j ∧ ∃ word ∈ argv[j]?, BadCode word) := by
  obtain ⟨hform, hlong, layout, hbytes⟩ | ⟨hwhy, out, hbytes⟩ | ⟨⟨hform, hgood⟩, hbytes⟩ :=
    layoutBytes_cases file hlen h₃ h₄
  · rw [hbytes]
    cases type with
    | some type =>
      exact iff_of_true (layoutSafe_ok _) (.inl ⟨hform, .inl (Option.some_ne_none type)⟩)
    | none =>
      refine iff_of_false not_layoutSafe_uninitialised ?_
      rintro (⟨-, htype | hshort⟩ | ⟨hform', -⟩)
      · exact htype rfl
      · exact hlong hshort
      · exact hform' hform
  · rw [hbytes]
    refine iff_of_true (layoutSafe_returned out) ?_
    exact hwhy.imp (fun h => ⟨h.1, .inr h.2⟩) id
  · rw [hbytes]
    refine iff_of_false (not_layoutSafe_pastArgv _) ?_
    rintro (⟨hform', -⟩ | ⟨-, hbad⟩)
    · exact hform hform'
    · exact hgood hbad

/-- The handler stays within its words exactly under the condition. -/
theorem layoutSafe_iff : LayoutSafe (setKeyboardLayout file argv) ↔ LayoutCond file argv := by
  by_cases hlen : argv.length = 5 ∨ argv.length = 131
  · have h₁ := List.getElem?_eq_getElem (show 1 < argv.length by omega)
    have h₂ := List.getElem?_eq_getElem (show 2 < argv.length by omega)
    have h₃ := List.getElem?_eq_getElem (show 3 < argv.length by omega)
    have h₄ := List.getElem?_eq_getElem (show 4 < argv.length by omega)
    rw [layoutCond_iff hlen h₁ h₂ h₄]
    obtain ⟨hopt, type, htype, htypeArg⟩ | ⟨hopt, htype, out, htypeArg⟩ | ⟨hopt, htypeArg⟩ :=
      typeArg_cases h₁ h₂
    · rw [setKeyboardLayout_eq hlen htypeArg, layoutSafe_bytes_iff hlen h₃ h₄]
      simp only [hopt, htype, ne_eq, reduceCtorEq, not_false_eq_true, and_false, false_or, true_or]
    · rw [setKeyboardLayout_error hlen htypeArg]
      exact iff_of_true (layoutSafe_returned out) (.inl ⟨hopt, htype⟩)
    · rw [setKeyboardLayout_eq hlen htypeArg, layoutSafe_bytes_iff hlen h₃ h₄]
      simp only [hopt, ne_eq, not_true_eq_false, false_and, false_or]
  · have hguard : cmdSetKeyboardLayout.guard.rejects argv.length = true := decide_eq_true (by omega)
    rw [setKeyboardLayout, hguard]
    exact iff_of_true (layoutSafe_returned _) (.inl (by omega))

/-- A complete command does not meet the condition. -/
theorem GivesCodes.not_cond {type : Int} {codes : List UInt8} (h : GivesCodes argv type codes) :
    ¬ LayoutCond file argv := by
  obtain ⟨hlen, htype, hgood⟩ := h.spec
  rintro (hcount | ⟨-, typeStr, hmem, hnone⟩ | ⟨⟨hfive, -⟩, -⟩ | ⟨-, hbad⟩)
  · omega
  · exact htype typeStr hmem hnone
  · omega
  · exact hgood hbad

end Command

/-- **A command is handled well exactly if it names a type and a file, or is rejected**; no layout
    is ever set from the command line. -/
theorem layoutRight_iff (file : List Char → Option (List UInt8)) (argv : List (List Char)) :
    LayoutRight file argv ↔ LayoutCond file argv := by
  constructor
  · rintro ⟨hsafe, -⟩
    exact layoutSafe_iff.mp hsafe
  · intro hcond
    exact ⟨layoutSafe_iff.mpr hcond, fun type codes h => absurd hcond h.not_cond⟩

/-- The command with 128 codes, one with two, and a file without `-t`. -/
theorem layouts_not_right :
    ¬ LayoutRight (fun _ => none)
        ("set_keyboard_layout".toList :: "-t".toList :: "1".toList
          :: List.replicate 128 "65".toList)
    ∧ ¬ LayoutRight (fun _ => none)
        ["set_keyboard_layout".toList, "-t".toList, "1".toList, "65".toList, "66".toList]
    ∧ ¬ LayoutRight (fun _ => some (List.replicate 128 65))
        ["set_keyboard_layout".toList, "-x".toList, "1".toList, "-f".toList,
          "a.layout".toList] := by
  have hcodes : setKeyboardLayout (fun _ => none) ("set_keyboard_layout".toList :: "-t".toList
      :: "1".toList :: List.replicate 128 "65".toList) = .error (.pastArgv 131) := by decide +kernel
  have htwo : setKeyboardLayout (fun _ => none) ["set_keyboard_layout".toList, "-t".toList,
      "1".toList, "65".toList, "66".toList] = .error (.pastArgv 5) := by decide +kernel
  have hfile : setKeyboardLayout (fun _ => some (List.replicate 128 65))
      ["set_keyboard_layout".toList, "-x".toList, "1".toList, "-f".toList, "a.layout".toList]
      = .error .uninitialised := by decide +kernel
  refine ⟨fun h => ?_, fun h => ?_, fun h => ?_⟩
  · exact not_layoutSafe_pastArgv 131 (hcodes ▸ h.1)
  · exact not_layoutSafe_pastArgv 5 (htwo ▸ h.1)
  · exact not_layoutSafe_uninitialised (hfile ▸ h.1)

end Umka.Proof.Shell
