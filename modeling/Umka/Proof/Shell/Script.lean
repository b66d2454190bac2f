import Mathlib.Data.List.TakeWhile
import Umka.Shell.Script

/-!
# Which scripts the shell runs line by line

A script should be run like this: take its lines up to the first `X` or `q`, leave out the
comments and the lines without a word, and call the command that each of the others names with
its words. `run_test` tests only the first character of a line before it splits it and looks
its first word up. So a line of blanks is looked up without a word, a line of more words than
`argv` has room for is stored behind the array, and a line with a carriage return in front is
taken for an empty one whatever follows. `scriptRight_iff` says that nothing else goes wrong.
-/

set_option autoImplicit false

namespace Umka.Proof.Shell

open Lib Umka.Shell

/-! ## What a script asks for -/

/-- The maximal runs of characters that are not delimiters. -/
def words (s : List Char) : List (List Char) := (s.splitOnP isDelim).filter (· ≠ [])

/-- The lines of a script, without the NULs that isocline drops. -/
def scriptLines (script : List Char) : List (List Char) :=
  (script.splitOn '\n').map fun l => l.filter (· ≠ nul)

def IsStop (l : List Char) : Prop := l = ['X'] ∨ l = ['q']

instance (l : List Char) : Decidable (IsStop l) := inferInstanceAs (Decidable (_ ∨ _))

def IsComment (l : List Char) : Prop := l.head? = some '#'

instance (l : List Char) : Decidable (IsComment l) := inferInstanceAs (Decidable (_ = _))

/-- The lines up to the first `X` or `q`. -/
def beforeStop (ls : List (List Char)) : List (List Char) := ls.takeWhile fun l => ¬ IsStop l

/-- The command that a line's words name. -/
def asked? (ws : List (List Char)) : Option Dispatch :=
  ws.head?.map fun name =>
    match cmdLookup name with
    | some ft => .call ft.func (ws.map some ++ [none])
    | none => .unknown name

/-- The commands of a list of lines. -/
def expected (ls : List (List Char)) : List Dispatch :=
  ((beforeStop ls).filter fun l => ¬ IsComment l).filterMap fun l => asked? (words l)

/-- A line whose first character makes `run_test` leave it alone. -/
def IsSkipped (l : List Char) : Prop :=
  l.head? = some '#' ∨ l.head? = some '\n' ∨ l.head? = some '\r'

instance (l : List Char) : Decidable (IsSkipped l) := inferInstanceAs (Decidable (_ ∨ _ ∨ _))

/-- `split_args` stores the line's words and a NULL, all of it inside the array. -/
def SplitRight (l : List Char) : Prop :=
  ∀ argv, ∃ argv', splitArgs l argv = some ((words l).length, argv')
    ∧ ∀ i, i ≤ (words l).length → argv' i = (words l)[i]?

/-- The script is run as it should be: each line that is split is split into its words, one
    without words is not looked up, and the calls are those the script asks for. -/
structure ScriptRight (script : List Char) : Prop where
  split : ∀ l ∈ beforeStop (scriptLines script), l ≠ [] → ¬ IsSkipped l → SplitRight l
  lookup : ∀ l ∈ beforeStop (scriptLines script), words l = [] →
    ∀ argv, runLines [some l] argv = some []
  calls : runTest script = some (expected (scriptLines script))

/-! ## Words -/

section Words

variable {s : List Char} {c : Char}

@[simp] theorem words_nil : words [] = [] := rfl

theorem words_cons_delim (h : isDelim c = true) : words (c :: s) = words s := by
  have hsplit : (c :: s).splitOnP isDelim = [] :: s.splitOnP isDelim :=
    List.splitOnP_append_cons_of_forall_mem (List.forall_mem_nil _) c h s
  simp [words, hsplit]

theorem words_dropWhile (s : List Char) : words (s.dropWhile isDelim) = words s := by
  induction s with
  | nil => rfl
  | cons c s ih =>
    by_cases hc : isDelim c = true
    · rw [List.dropWhile_cons_of_pos hc, ih, words_cons_delim hc]
    · rw [List.dropWhile_cons_of_neg hc]

/-- A word, and what follows the delimiter behind it. -/
theorem words_append_delim {w : List Char} (hw : ∀ x ∈ w, isDelim x = false) (hne : w ≠ [])
    (hc : isDelim c = true) : words (w ++ c :: s) = w :: words s := by
  rw [words, List.splitOnP_append_cons_of_forall_mem hw c hc s, List.filter_cons_of_pos (by simpa)]
  rfl

theorem words_eq_singleton {w : List Char} (hw : ∀ x ∈ w, isDelim x = false) (hne : w ≠ []) :
    words w = [w] := by
  rw [words, List.splitOnP_eq_singleton hw, List.filter_cons_of_pos (by simpa), List.filter_nil]

/-- A line that starts with a word. -/
theorem words_cons_char (hc : isDelim c = false) :
    words (c :: s) = (c :: s).takeWhile (! isDelim ·)
      :: words (((c :: s).dropWhile (! isDelim ·)).drop 1) := by
  have hsplit := List.takeWhile_append_dropWhile (p := fun x => ! isDelim x) (l := c :: s)
  have hw : ∀ x ∈ (c :: s).takeWhile (! isDelim ·), isDelim x = false := by
    intro x hx
    simpa using List.mem_takeWhile_imp hx
  have hne : (c :: s).takeWhile (! isDelim ·) ≠ [] := by
    rw [List.takeWhile_cons_of_pos (by simp [hc])]
    exact List.cons_ne_nil _ _
  cases hd : (c :: s).dropWhile (! isDelim ·) with
  | nil =>
    rw [hd, List.append_nil] at hsplit
    rw [hsplit] at hw hne ⊢
    exact words_eq_singleton hw hne
  | cons d ds =>
    have hdelim : isDelim d = true := by
      have := List.head?_dropWhile_not (fun x => ! isDelim x) (c :: s)
      simpa [hd] using this
    rw [hd] at hsplit
    conv_lhs => rw [← hsplit]
    exact words_append_delim hw hne hdelim

/-- `strtok` takes the first word off. -/
theorem words_strtok (s : List Char) :
    words s = match strtok s with
      | none => []
      | some (word, rest) => word :: words rest := by
  rw [← words_dropWhile]
  unfold strtok
  cases hs : s.dropWhile isDelim with
  | nil => rfl
  | cons c cs =>
    have hc : isDelim c = false := by
      have := List.head?_dropWhile_not isDelim s
      simpa [hs] using this
    rw [words_cons_char hc, ← drop_length_takeWhile]

end Words

/-! ## `split_args` -/

/-- The array after `ws` and a NULL were stored from entry `argc` on. -/
def Holds (argv argv' : ArgvArray) (argc : Nat) (ws : List (List Char)) : Prop :=
  (∀ i, i < argc → argv' i = argv i) ∧ ∀ i, i ≤ ws.length → argv' (argc + i) = ws[i]?

/-- The loop stores the words that are left if there is room for them and the NULL, and runs
    out of the array otherwise. -/
theorem splitFrom_spec (room : Nat) : ∀ (argc : Nat) (s : List Char) (argv : ArgvArray),
    if (words s).length < room then
      ∃ argv', splitFrom room argc s argv = some (argc + (words s).length, argv')
        ∧ Holds argv argv' argc (words s)
    else splitFrom room argc s argv = none := by
  induction room with
  | zero =>
    intro argc s argv
    rfl
  | succ room ih =>
    intro argc s argv
    rw [words_strtok, splitFrom]
    cases strtok s with
    | none =>
      refine ⟨argv.set argc none, rfl, fun i hi => ?_, fun i hi => ?_⟩
      · exact if_neg (Nat.ne_of_lt hi)
      · obtain rfl : i = 0 := Nat.le_zero.mp hi
        exact if_pos rfl
    | some p =>
      obtain ⟨word, rest⟩ := p
      have hrest := ih (argc + 1) rest (argv.set argc (some word))
      simp only [List.length_cons, Nat.add_lt_add_iff_right]
      split at hrest
      · next hlt =>
        obtain ⟨argv', heq, hbelow, hwords⟩ := hrest
        rw [if_pos hlt]
        refine ⟨argv', ?_, fun i hi => ?_, fun i hi => ?_⟩
        · rw [heq, Nat.add_assoc, Nat.add_comm 1]
        · rw [hbelow i (Nat.lt_succ_of_lt hi)]
          exact if_neg (Nat.ne_of_lt hi)
        · cases i with
          | zero =>
            rw [Nat.add_zero, hbelow argc (Nat.lt_succ_self _)]
            exact if_pos rfl
          | succ i =>
            rw [List.getElem?_cons_succ, ← hwords i (Nat.le_of_succ_le_succ hi), Nat.add_assoc,
              Nat.add_comm 1]
      · next hge =>
        rw [if_neg hge]
        exact hrest

theorem splitArgs_fits {l : List Char} (h : (words l).length ≤ maxCommandArgs) : SplitRight l := by
  intro argv
  have hspec := splitFrom_spec (maxCommandArgs + 1) 0 l argv
  rw [if_pos (Nat.lt_succ_of_le h)] at hspec
  obtain ⟨argv', heq, -, hwords⟩ := hspec
  refine ⟨argv', ?_, fun i hi => ?_⟩
  · rw [splitArgs, heq, Nat.zero_add]
  · rw [← hwords i hi, Nat.zero_add]

theorem splitArgs_overruns {l : List Char} (h : maxCommandArgs < (words l).length)
    (argv : ArgvArray) : splitArgs l argv = none := by
  have hspec := splitFrom_spec (maxCommandArgs + 1) 0 l argv
  rwa [if_neg (Nat.not_lt.mpr h)] at hspec

/-- What is looked up is what the words ask for; without a word it is a NULL. -/
theorem dispatch_eq {ws : List (List Char)} {argv : ArgvArray}
    (h : ∀ i, i ≤ ws.length → argv i = ws[i]?) : dispatch ws.length argv = asked? ws := by
  have hargs : (List.range (ws.length + 1)).map argv = ws.map some ++ [none] := by
    apply List.ext_getElem?
    intro i
    rcases Nat.lt_trichotomy i ws.length with hi | rfl | hi
    · rw [List.getElem?_append_left (by simpa using hi)]
      simp [h i (Nat.le_of_lt hi), hi, Nat.lt_succ_of_lt hi]
    · simp [h ws.length (Nat.le_refl _)]
    · simp [Nat.not_lt.mpr hi]
  have hname : argv 0 = ws.head? := by rw [h 0 (Nat.zero_le _), List.head?_eq_getElem?]
  rw [dispatch, hargs, hname]
  rfl

/-! ## One line -/

section Lines

variable {l : List Char} {ls : List (List Char)} {argv : ArgvArray}

/-- A line as `ic_readline` returns it. -/
def orNull (l : List Char) : Option (List Char) := if l = [] then none else some l

theorem asked?_eq_none {ws : List (List Char)} : asked? ws = none ↔ ws = [] := by
  simp [asked?]

theorem runLines_some (hne : l ≠ []) {rest : List (Option (List Char))} :
    runLines (some l :: rest) argv =
      if IsStop l then some []
      else if IsSkipped l then runLines rest argv
      else (splitArgs l argv).bind fun r => (dispatch r.1 r.2).bind fun d =>
        (runLines rest r.2).bind fun ds => some (d :: ds) := by
  rw [runLines, if_neg hne]
  rfl

/-- The line is blank for the shell: isocline returns NULL, or its first character hides it. -/
theorem runLines_skipped (hstop : ¬ IsStop l) (h : l = [] ∨ IsSkipped l) :
    runLines ((l :: ls).map orNull) argv = runLines (ls.map orNull) argv := by
  rcases h with rfl | h
  · rfl
  · have hne : l ≠ [] := by
      rintro rfl
      rcases h with h | h | h <;> cases h
    rw [List.map_cons, orNull, if_neg hne, runLines_some hne, if_neg hstop, if_pos h]

theorem runLines_stop (h : IsStop l) : runLines ((l :: ls).map orNull) argv = some [] := by
  have hne : l ≠ [] := by
    rintro rfl
    rcases h with h | h <;> cases h
  rw [List.map_cons, orNull, if_neg hne, runLines_some hne, if_pos h]

/-- The line is split and looked up. -/
theorem runLines_split (hstop : ¬ IsStop l) (hne : l ≠ []) (h : ¬ IsSkipped l) :
    runLines ((l :: ls).map orNull) argv
      = (splitArgs l argv).bind fun r => (dispatch r.1 r.2).bind fun d =>
          (runLines (ls.map orNull) r.2).bind fun ds => some (d :: ds) := by
  rw [List.map_cons, orNull, if_neg hne, runLines_some hne, if_neg hstop, if_neg h]

theorem runLines_words (ls : List (List Char)) (argv : ArgvArray) {d : Dispatch}
    (hstop : ¬ IsStop l) (hne : l ≠ []) (h : ¬ IsSkipped l)
    (hfits : (words l).length ≤ maxCommandArgs) (hd : asked? (words l) = some d) :
    ∃ argv', runLines ((l :: ls).map orNull) argv
      = (runLines (ls.map orNull) argv').bind fun ds => some (d :: ds) := by
  obtain ⟨argv', heq, hwords⟩ := splitArgs_fits hfits argv
  refine ⟨argv', ?_⟩
  rw [runLines_split hstop hne h, heq, Option.bind_some, dispatch_eq hwords, hd, Option.bind_some]

/-- A line that is split and has no words, or too many, is the end. -/
theorem runLines_fault (hstop : ¬ IsStop l) (hne : l ≠ []) (h : ¬ IsSkipped l)
    (hbad : words l = [] ∨ maxCommandArgs < (words l).length) :
    runLines ((l :: ls).map orNull) argv = none := by
  rw [runLines_split hstop hne h]
  rcases hbad with hnil | hlong
  · have hfits : (words l).length ≤ maxCommandArgs := by
      rw [hnil]
      exact Nat.zero_le _
    obtain ⟨argv', heq, hwords⟩ := splitArgs_fits hfits argv
    rw [heq, Option.bind_some, dispatch_eq hwords, asked?_eq_none.mpr hnil, Option.bind_none]
  · rw [splitArgs_overruns hlong, Option.bind_none]

/-! ## What the script should do, line by line -/

theorem beforeStop_stop (h : IsStop l) : beforeStop (l :: ls) = [] :=
  List.takeWhile_cons_of_neg (by simpa using h)

theorem beforeStop_cons (h : ¬ IsStop l) : beforeStop (l :: ls) = l :: beforeStop ls :=
  List.takeWhile_cons_of_pos (by simpa using h)

theorem expected_stop (h : IsStop l) : expected (l :: ls) = [] := by
  rw [expected, beforeStop_stop h]
  rfl

theorem expected_comment (h : IsComment l) : expected (l :: ls) = expected ls := by
  have hstop : ¬ IsStop l := by
    rintro (rfl | rfl) <;> cases h
  rw [expected, beforeStop_cons hstop, List.filter_cons_of_neg (by simpa using h)]
  rfl

theorem expected_blank (hstop : ¬ IsStop l) (h : words l = []) :
    expected (l :: ls) = expected ls := by
  rw [expected, beforeStop_cons hstop, List.filter_cons]
  split
  · rw [List.filterMap_cons, asked?_eq_none.mpr h]
    rfl
  · rfl

theorem expected_words {d : Dispatch} (hstop : ¬ IsStop l) (hc : ¬ IsComment l)
    (hd : asked? (words l) = some d) : expected (l :: ls) = d :: expected ls := by
  rw [expected, beforeStop_cons hstop, List.filter_cons_of_pos (by simpa using hc),
    List.filterMap_cons, hd]
  rfl

/-! ## The loop -/

/-- The shell can do as the line says: it takes the line for an empty one only if there is no
    word in it, and otherwise there is a word and room for all. -/
def LineOk (l : List Char) : Prop :=
  l ≠ [] → ¬ IsComment l →
    if IsSkipped l then words l = [] else words l ≠ [] ∧ (words l).length ≤ maxCommandArgs

/-- What a line does to the calls that are made, beside what it does to those that are asked
    for. -/
inductive LineCase (l : List Char) (ls : List (List Char)) (argv : ArgvArray) : Prop
  | stop (hstop : IsStop l) (hrun : runLines ((l :: ls).map orNull) argv = some [])
  /-- nothing is asked for and nothing is done -/
  | quiet (hstop : ¬ IsStop l) (hok : LineOk l)
      (hrun : runLines ((l :: ls).map orNull) argv = runLines (ls.map orNull) argv)
      (hexp : expected (l :: ls) = expected ls)
  /-- a line with words that is passed over -/
  | passed (hstop : ¬ IsStop l) (hok : ¬ LineOk l)
      (hrun : runLines ((l :: ls).map orNull) argv = runLines (ls.map orNull) argv)
      (d : Dispatch) (hexp : expected (l :: ls) = d :: expected ls)
  | fault (hstop : ¬ IsStop l) (hok : ¬ LineOk l)
      (hrun : runLines ((l :: ls).map orNull) argv = none)
  | called (hstop : ¬ IsStop l) (hok : LineOk l) (d : Dispatch) (argv' : ArgvArray)
      (hrun : runLines ((l :: ls).map orNull) argv
        = (runLines (ls.map orNull) argv').bind fun ds => some (d :: ds))
      (hexp : expected (l :: ls) = d :: expected ls)

/-- A line that the loop passes over without a look behind its first character. -/
theorem lineCase_skipped (hstop : ¬ IsStop l) (hskip : l = [] ∨ IsSkipped l) :
    LineCase l ls argv := by
  have hrun : runLines ((l :: ls).map orNull) argv = runLines (ls.map orNull) argv :=
    runLines_skipped hstop hskip
  by_cases hquiet : IsComment l ∨ words l = []
  · refine .quiet hstop (fun hne hc => ?_) hrun ?_
    · rw [if_pos (hskip.resolve_left hne)]
      exact hquiet.resolve_left hc
    · rcases hquiet with hc | hw
      · exact expected_comment hc
      · exact expected_blank hstop hw
  · rw [not_or] at hquiet
    obtain ⟨d, hd⟩ := Option.ne_none_iff_exists'.mp (mt asked?_eq_none.mp hquiet.2)
    refine .passed hstop (fun hok => ?_) hrun d (expected_words hstop hquiet.1 hd)
    have hne : l ≠ [] := by
      rintro rfl
      exact hquiet.2 words_nil
    have hw := hok hne hquiet.1
    rw [if_pos (hskip.resolve_left hne)] at hw
    exact hquiet.2 hw

/-- A line that is split: it is called if it has words and there is room for them. -/
theorem lineCase_split (hstop : ¬ IsStop l) (hne : l ≠ []) (hskip : ¬ IsSkipped l) :
    LineCase l ls argv := by
  have hc : ¬ IsComment l := fun hc => hskip (.inl hc)
  by_cases hbad : words l = [] ∨ maxCommandArgs < (words l).length
  · refine .fault hstop (fun hok => ?_) (runLines_fault hstop hne hskip hbad)
    have hw := hok hne hc
    rw [if_neg hskip] at hw
    rcases hbad with hnil | hlong
    · exact hw.1 hnil
    · exact Nat.not_le.mpr hlong hw.2
  · rw [not_or, Nat.not_lt] at hbad
    obtain ⟨d, hd⟩ := Option.ne_none_iff_exists'.mp (mt asked?_eq_none.mp hbad.1)
    obtain ⟨argv', hrun⟩ := runLines_words ls argv hstop hne hskip hbad.2 hd
    refine .called hstop (fun _ _ => ?_) d argv' hrun (expected_words hstop hc hd)
    rw [if_neg hskip]
    exact hbad

theorem lineCase (l : List Char) (ls : List (List Char)) (argv : ArgvArray) :
    LineCase l ls argv := by
  by_cases hstop : IsStop l
  · exact .stop hstop (runLines_stop hstop)
  · by_cases hskip : l = [] ∨ IsSkipped l
    · exact lineCase_skipped hstop hskip
    · rw [not_or] at hskip
      exact lineCase_split hstop hskip.1 hskip.2

/-- No line is called that the script does not ask for. -/
theorem length_runLines_le {ds : List Dispatch} (h : runLines (ls.map orNull) argv = some ds) :
    ds.length ≤ (expected ls).length := by
  induction ls generalizing argv ds with
  | nil =>
    cases h
    exact Nat.zero_le _
  | cons l ls ih =>
    cases lineCase l ls argv with
    | stop _ hrun =>
      cases hrun.symm.trans h
      exact Nat.zero_le _
    | quiet _ _ hrun hexp =>
      rw [hexp]
      exact ih (hrun.symm.trans h)
    | passed _ _ hrun d hexp =>
      rw [hexp]
      exact Nat.le_succ_of_le (ih (hrun.symm.trans h))
    | fault _ _ hrun => cases hrun.symm.trans h
    | called _ _ d argv' hrun hexp =>
      obtain ⟨ds', hds', hcons⟩ := Option.bind_eq_some_iff.mp (hrun.symm.trans h)
      cases hcons
      rw [hexp]
      exact Nat.succ_le_succ (ih hds')

/-- **The calls are those the script asks for exactly when every line up to the stop is one the
    shell can do.** -/
theorem runLines_eq_expected_iff :
    runLines (ls.map orNull) argv = some (expected ls) ↔ ∀ l ∈ beforeStop ls, LineOk l := by
  induction ls generalizing argv with
  | nil => exact ⟨fun _ => nofun, fun _ => rfl⟩
  | cons l ls ih =>
    cases lineCase l ls argv with
    | stop hstop hrun =>
      rw [hrun, expected_stop hstop, beforeStop_stop hstop]
      exact ⟨fun _ => nofun, fun _ => rfl⟩
    | quiet hstop hok hrun hexp =>
      rw [beforeStop_cons hstop, List.forall_mem_cons, hrun, hexp, ih]
      exact (and_iff_right hok).symm
    | passed hstop hok hrun d hexp =>
      -- one call too few: it cannot be made up for by a later line
      rw [beforeStop_cons hstop, List.forall_mem_cons, hrun, hexp]
      refine iff_of_false (fun h => ?_) fun h => hok h.1
      exact Nat.not_succ_le_self _ (length_runLines_le h)
    | fault hstop hok hrun =>
      rw [beforeStop_cons hstop, List.forall_mem_cons, hrun]
      exact iff_of_false nofun fun h => hok h.1
    | called hstop hok d argv' hrun hexp =>
      rw [beforeStop_cons hstop, List.forall_mem_cons, hrun, hexp, and_iff_right hok, ← @ih argv']
      constructor
      · intro h
        obtain ⟨ds, hds, hcons⟩ := Option.bind_eq_some_iff.mp h
        cases hcons
        exact hds
      · intro h
        rw [h, Option.bind_some]

end Lines

/-! ## Reading -/

/-- `ic_getline` keeps what is no newline and no NUL. -/
theorem icGetline_append {body : List Char} (h : '\n' ∉ body) (rest : List Char) :
    icGetline (body ++ rest) = (body.filter (· ≠ nul) ++ (icGetline rest).1,
      (icGetline rest).2) := by
  induction body with
  | nil => rfl
  | cons c body ih =>
    rw [List.mem_cons, not_or] at h
    rw [List.cons_append, icGetline, if_neg (Ne.symm h.1), ih h.2]
    by_cases hc : c = nul
    · rw [if_pos hc, List.filter_cons_of_neg (by simpa using hc)]
    · rw [if_neg hc, List.filter_cons_of_pos (by simpa using hc)]
      rfl

theorem icReadline_line {body rest : List Char} (h : '\n' ∉ body) :
    icReadline (body ++ '\n' :: rest) = (orNull (body.filter (· ≠ nul)), false, rest) := by
  have hnl : icGetline ('\n' :: rest) = ([], false, rest) := rfl
  rw [icReadline, icGetline_append h, hnl, List.append_nil]
  rfl

theorem icReadline_last {s : List Char} (h : '\n' ∉ s) :
    icReadline s = (orNull (s.filter (· ≠ nul)), true, []) := by
  have hget : icGetline s = (s.filter (· ≠ nul), true, []) := by
    have happ := icGetline_append h []
    rwa [List.append_nil, icGetline, List.append_nil] at happ
  rw [icReadline, hget]
  rfl

theorem beq_newline_of_notMem {s : List Char} (h : '\n' ∉ s) : ∀ c ∈ s, (c == '\n') = false := by
  intro c hc
  rw [beq_eq_false_iff_ne]
  rintro rfl
  exact h hc

theorem scriptLines_line {body rest : List Char} (h : '\n' ∉ body) :
    scriptLines (body ++ '\n' :: rest) = body.filter (· ≠ nul) :: scriptLines rest := by
  rw [scriptLines, List.splitOn,
    List.splitOnP_append_cons_of_forall_mem (beq_newline_of_notMem h) '\n' rfl rest]
  rfl

theorem scriptLines_last {s : List Char} (h : '\n' ∉ s) :
    scriptLines s = [s.filter (· ≠ nul)] := by
  rw [scriptLines, List.splitOn, List.splitOnP_eq_singleton (beq_newline_of_notMem h)]
  rfl

/-- The rounds of the loop are the lines of the script, except that an empty piece behind the
    last newline is no round. -/
theorem readlineUpTo_eq (fuel : Nat) : ∀ s : List Char, s.length < fuel →
    ∃ t, (t = [] ∨ t = [none]) ∧ readlineUpTo fuel s ++ t = (scriptLines s).map orNull := by
  induction fuel with
  | zero => exact fun s h => absurd h (Nat.not_lt_zero _)
  | succ fuel ih =>
    intro s hs
    by_cases hnl : '\n' ∈ s
    · obtain ⟨body, rest, rfl, hbody⟩ := List.eq_append_cons_of_mem hnl
      have hrest : rest.length < fuel := by
        rw [List.length_append, List.length_cons] at hs
        omega
      obtain ⟨t, ht, heq⟩ := ih rest hrest
      refine ⟨t, ht, ?_⟩
      rw [scriptLines_line hbody, List.map_cons, readlineUpTo, icReadline_line hbody, ← heq]
      cases orNull (body.filter (· ≠ nul)) with
      | none => rfl
      | some l => rfl
    · have hend : readlineUpTo fuel [] = [] := by
        cases fuel with
        | zero => rfl
        | succ fuel => rfl
      rw [scriptLines_last hnl, List.map_singleton, readlineUpTo, icReadline_last hnl]
      cases hl : orNull (s.filter (· ≠ nul)) with
      | none => exact ⟨[none], .inr rfl, rfl⟩
      | some l =>
        refine ⟨[], .inl rfl, ?_⟩
        show some l :: readlineUpTo fuel [] ++ [] = [some l]
        rw [hend]
        rfl

/-- A NULL at the end changes nothing. -/
theorem runLines_append_null (ls : List (Option (List Char))) :
    ∀ argv, runLines (ls ++ [none]) argv = runLines ls argv := by
  induction ls with
  | nil => exact fun _ => rfl
  | cons line ls ih =>
    intro argv
    cases line with
    | none => exact ih argv
    | some l =>
      by_cases hne : l = []
      · subst hne
        rfl
      · rw [List.cons_append, runLines_some hne, runLines_some hne, ih argv]
        simp only [ih]

theorem runTest_eq (script : List Char) :
    runTest script = runLines ((scriptLines script).map orNull) fun _ => none := by
  obtain ⟨t, ht, heq⟩ := readlineUpTo_eq (script.length + 1) script (Nat.lt_succ_self _)
  rw [runTest, readlineAll, ← heq]
  rcases ht with rfl | rfl
  · rw [List.append_nil]
  · rw [runLines_append_null]

/-! ## Scripts -/

/-- **A script is run as it should be exactly when each of its lines up to the first `X` or `q`
    is one the shell can do.** -/
theorem scriptRight_iff (script : List Char) :
    ScriptRight script ↔ ∀ l ∈ beforeStop (scriptLines script), LineOk l := by
  rw [← runLines_eq_expected_iff, ← runTest_eq]
  refine ⟨fun h => h.calls, fun h => ?_⟩
  have hok : ∀ l ∈ beforeStop (scriptLines script), LineOk l := by
    rwa [runTest_eq, runLines_eq_expected_iff] at h
  refine ⟨fun l hl hne hskip => ?_, fun l hl hw argv => ?_, h⟩
  · have hline := hok l hl hne fun hc => hskip (.inl hc)
    rw [if_neg hskip] at hline
    exact splitArgs_fits hline.2
  · by_cases hne : l = []
    · subst hne
      rfl
    · have hstop : ¬ IsStop l := by simpa using List.mem_takeWhile_imp hl
      have hskip : IsSkipped l := by
        by_contra hskip
        have hline := hok l hl hne fun hc => hskip (.inl hc)
        rw [if_neg hskip] at hline
        exact hline.1 hw
      rw [runLines_some hne, if_neg hstop, if_pos hskip]
      rfl

/-- A script with a line of one blank is looked up without a word. -/
theorem blank_line_not_right : ¬ ScriptRight " \n".toList := by
  intro h
  have hcalls := h.calls
  rw [runTest_eq] at hcalls
  revert hcalls
  decide

end Umka.Proof.Shell
