import Mathlib.Data.List.Basic
import Mathlib.Tactic.Common
import Mathlib.Algebra.Order.Ring.Nat

/-!
# Options and arguments of a command line

The words of a command line are options, their arguments, and plain words. `parse` says which are
which, reading from the left, without moving a word, and how the reading comes to its end. Words
that are read to their last one can be put in front of any others (`parse_append`); so where a plain
word stands does not matter (`plain_insert`), which is what users rely on.
-/

set_option autoImplicit false

namespace Umka.Lib.Options

abbrev Word := List Char

/-- What an option is followed by. -/
inductive Takes where
  | nothing
  | required
  | optional
deriving DecidableEq, Repr

/-- What a word is, where an option may stand. -/
inductive Meaning where
  | endOfOptions
  | letters (cs : List Char)
  | plain
deriving DecidableEq, Repr

def meaning (w : Word) : Meaning :=
  if w = ['-', '-'] then .endOfOptions
  else if w.head? = some '-' ∧ w.tail ≠ [] ∧ w.tail.head? ≠ some '-' then .letters w.tail
  else .plain

/-- An option and its argument. -/
abbrev Event := Char × Option Word

/-- What a word is refused for. -/
structure Refusal where
  letter : Char
  /-- it is an option, but its argument is missing -/
  known : Bool
  /-- how many letters of the word were read before it -/
  before : Nat
deriving DecidableEq, Repr

def Refusal.later (r : Refusal) : Refusal := { r with before := r.before + 1 }

/-- How a word of options ends. -/
inductive Close where
  | refused (r : Refusal)
  | whole
  /-- the next word belongs to it -/
  | withNext
deriving DecidableEq, Repr

/-- One more letter stands in front. -/
def Close.later : Close → Close
  | .refused r => .refused r.later
  | close => close

/-- How the reading of the words ends. -/
inductive Finish where
  /-- behind the last word -/
  | all
  /-- behind `--` -/
  | endOfOptions
  /-- at the first word of what is left -/
  | refused (r : Refusal)
deriving DecidableEq, Repr

structure Parsed where
  events : List Event
  finish : Finish
  used : List Word
  plain : List Word
  rest : List Word
deriving DecidableEq, Repr

namespace Parsed

/-- Options that stand in front of what has been parsed. -/
def after (p : Parsed) (es : List Event) (ws : List Word) : Parsed :=
  { p with events := es ++ p.events, used := ws ++ p.used }

def withPlain (p : Parsed) (w : Word) : Parsed := { p with plain := w :: p.plain }

/-- Words read to the last one, and then others. -/
def append (p q : Parsed) : Parsed :=
  ⟨p.events ++ q.events, q.finish, p.used ++ q.used, p.plain ++ q.plain, q.rest⟩

end Parsed

section

variable (takes : Char → Option Takes)

/-- The options of a word whose next letters are these, `next` being the next word. -/
def spell : List Char → Option Word → List Event × Close
  | [], _ => ([], .whole)
  | c :: cs, next =>
    match takes c with
    | none => ([], .refused ⟨c, false, 0⟩)
    | some .nothing => ((c, none) :: (spell cs next).1, (spell cs next).2.later)
    | some .optional => ([(c, if cs ≠ [] then some cs else none)], .whole)
    | some .required =>
      if cs ≠ [] then ([(c, some cs)], .whole)
      else
        match next with
        | some w => ([(c, some w)], .withNext)
        | none => ([], .refused ⟨c, true, 0⟩)

def parse : List Word → Parsed
  | [] => ⟨[], .all, [], [], []⟩
  | w :: ws =>
    match meaning w with
    | .endOfOptions => ⟨[], .endOfOptions, [w], [], ws⟩
    | .plain => (parse ws).withPlain w
    | .letters cs =>
      match spell takes cs ws.head?, ws with
      | (es, .refused r), ws => ⟨es, .refused r, [], [], w :: ws⟩
      | (es, .whole), ws => (parse ws).after es [w]
      -- no word can be taken that is not there
      | (es, .withNext), [] => ⟨es, .all, [w], [], []⟩
      | (es, .withNext), arg :: ws => (parse ws).after es [w, arg]

end

/-- What is made of the options one after the other, up to the first that is not accepted. -/
def feed {α : Type} (handle : α → Event → Option α) : α → List Event → α × Option Event
  | a, [] => (a, none)
  | a, e :: es =>
    match handle a e with
    | some b => feed handle b es
    | none => (a, some e)

section Feed

variable {α : Type} {handle : α → Event → Option α}

theorem feed_accepted {a b : α} {e : Event} (h : handle a e = some b) (es : List Event) :
    feed handle a (e :: es) = feed handle b es := by
  simp only [feed, h]

theorem feed_left {a : α} {e : Event} (h : handle a e = none) (es : List Event) :
    feed handle a (e :: es) = (a, some e) := by
  simp only [feed, h]

theorem feed_append : ∀ {es : List Event} {a : α}, (feed handle a es).2 = none →
    ∀ es', feed handle a (es ++ es') = feed handle (feed handle a es).1 es'
  | [], _, _, _ => rfl
  | e :: es, a, hall, es' => by
    cases h : handle a e with
    | none =>
      rw [feed_left h] at hall
      cases hall
    | some b =>
      rw [feed_accepted h] at hall
      rw [List.cons_append, feed_accepted h, feed_accepted h, feed_append hall]

theorem feed_append_left : ∀ {es : List Event} {a : α} {e : Event},
    (feed handle a es).2 = some e → ∀ es', feed handle a (es ++ es') = feed handle a es
  | [], _, _, hleft, _ => nomatch hleft
  | e :: es, a, e', hleft, es' => by
    cases h : handle a e with
    | none => rw [List.cons_append, feed_left h, feed_left h]
    | some b =>
      rw [feed_accepted h] at hleft
      rw [List.cons_append, feed_accepted h, feed_accepted h, feed_append_left hleft]

theorem feed_all : ∀ {es : List Event} (a : α), (∀ e ∈ es, ∀ a, (handle a e).isSome) →
    (feed handle a es).2 = none
  | [], _, _ => rfl
  | e :: es, a, hall => by
    obtain ⟨b, hb⟩ := Option.isSome_iff_exists.mp (hall e List.mem_cons_self a)
    rw [feed_accepted hb]
    exact feed_all b fun e he => hall e (List.mem_cons_of_mem _ he)

end Feed

/-! ## The cases of `parse` -/

section

variable {takes : Char → Option Takes} {w arg : Word} {ws : List Word} {cs : List Char}
    {r : Refusal}

theorem parse_endOfOptions (h : meaning w = .endOfOptions) :
    parse takes (w :: ws) = ⟨[], .endOfOptions, [w], [], ws⟩ := by
  simp only [parse, h]

theorem parse_plain (h : meaning w = .plain) :
    parse takes (w :: ws) = (parse takes ws).withPlain w := by
  simp only [parse, h]

theorem parse_refused (h : meaning w = .letters cs)
    (hs : (spell takes cs ws.head?).2 = .refused r) :
    parse takes (w :: ws) = ⟨(spell takes cs ws.head?).1, .refused r, [], [], w :: ws⟩ := by
  obtain ⟨es, hes⟩ : ∃ es, spell takes cs ws.head? = (es, .refused r) := ⟨_, Prod.ext rfl hs⟩
  simp only [parse, h, hes]

theorem parse_whole (h : meaning w = .letters cs) (hs : (spell takes cs ws.head?).2 = .whole) :
    parse takes (w :: ws) = (parse takes ws).after (spell takes cs ws.head?).1 [w] := by
  obtain ⟨es, hes⟩ : ∃ es, spell takes cs ws.head? = (es, .whole) := ⟨_, Prod.ext rfl hs⟩
  simp only [parse, h, hes]

theorem parse_withNext (h : meaning w = .letters cs)
    (hs : (spell takes cs (some arg)).2 = .withNext) :
    parse takes (w :: arg :: ws) = (parse takes ws).after (spell takes cs (some arg)).1
      [w, arg] := by
  obtain ⟨es, hes⟩ : ∃ es, spell takes cs (some arg) = (es, .withNext) := ⟨_, Prod.ext rfl hs⟩
  simp only [parse, h, List.head?_cons, hes]

theorem Close.later_eq_withNext {close : Close} : close.later = .withNext ↔ close = .withNext := by
  cases close <;> simp [Close.later]

theorem Close.later_eq_whole {close : Close} : close.later = .whole ↔ close = .whole := by
  cases close <;> simp [Close.later]

/-- Only a next word can be taken. -/
theorem spell_none_ne_withNext : ∀ cs, (spell takes cs none).2 ≠ .withNext
  | [] => by simp [spell]
  | c :: cs => by
    have ih := spell_none_ne_withNext cs
    rw [spell]
    rcases takes c with - | - | - | -
    · simp
    · exact mt Close.later_eq_withNext.mp ih
    · by_cases hcs : cs = [] <;> simp [hcs]
    · simp

/-- A word that needs no next one does not look at it. -/
theorem spell_of_whole : ∀ {cs} (next : Option Word), (spell takes cs none).2 = .whole →
    spell takes cs next = spell takes cs none
  | [], _, _ => rfl
  | c :: cs, next, h => by
    simp only [spell] at h ⊢
    rcases hc : takes c with - | - | - | - <;> rw [hc] at h <;> dsimp only at h ⊢
    · rw [spell_of_whole next (Close.later_eq_whole.mp h)]
    · by_cases hcs : cs = []
      · simp [hcs] at h
      · rw [if_pos hcs, if_pos hcs]

theorem length_spell_le : ∀ (cs : List Char) (next : Option Word),
    (spell takes cs next).1.length ≤ cs.length
  | [], _ => Nat.le_refl 0
  | c :: cs, next => by
    have ih := length_spell_le cs next
    simp only [spell, List.length_cons]
    rcases takes c with - | - | - | -
    · simp
    · simpa using ih
    · by_cases hcs : cs = []
      · rcases next with - | w <;> simp [hcs]
      · simp [hcs]
    · simp

/-- Every option of a word is one that can be taken. -/
theorem takes_of_mem_spell : ∀ {cs : List Char} {next : Option Word} {e : Event},
    e ∈ (spell takes cs next).1 → takes e.1 ≠ none
  | c :: cs, next, e, he => by
    simp only [spell] at he
    rcases hc : takes c with - | - | - | - <;> rw [hc] at he <;> dsimp only at he
    · cases he
    · rcases List.mem_cons.mp he with rfl | he
      · simp [hc]
      · exact takes_of_mem_spell he
    · by_cases hcs : cs = []
      · rcases next with - | w <;> simp [hcs] at he
        simp [he, hc]
      · simp [hcs] at he
        simp [he, hc]
    · simp at he
      simp [he, hc]

theorem length_letters (h : meaning w = .letters cs) : cs.length ≤ w.length := by
  rw [meaning] at h
  split at h
  · exact absurd h (by simp)
  · split at h
    · obtain rfl : w.tail = cs := by simpa using h
      rw [List.length_tail]
      omega
    · exact absurd h (by simp)

/-- The words are read one after the other; how the first ones are is what there is to prove. -/
theorem parse_induction (takes : Char → Option Takes) {motive : List Word → Prop}
    (nil : motive [])
    (endOfOptions : ∀ {w ws}, meaning w = .endOfOptions → motive (w :: ws))
    (plain : ∀ {w ws}, meaning w = .plain → motive ws → motive (w :: ws))
    (refused : ∀ {w ws cs r}, meaning w = .letters cs →
      (spell takes cs ws.head?).2 = .refused r → motive (w :: ws))
    (whole : ∀ {w ws cs}, meaning w = .letters cs → (spell takes cs ws.head?).2 = .whole →
      motive ws → motive (w :: ws))
    (withNext : ∀ {w arg ws cs}, meaning w = .letters cs →
      (spell takes cs (some arg)).2 = .withNext → motive ws → motive (w :: arg :: ws)) :
    ∀ ws, motive ws
  | [] => nil
  | w :: ws => by
    have ih : ∀ vs, sizeOf vs < sizeOf (w :: ws) → motive vs := fun vs _ =>
      parse_induction takes nil endOfOptions plain refused whole withNext vs
    rcases hm : meaning w with - | cs | -
    · exact endOfOptions hm
    · rcases hs : (spell takes cs ws.head?).2 with r | - | -
      · exact refused hm hs
      · exact whole hm hs (ih ws (by simp))
      · rcases ws with - | ⟨arg, ws⟩
        · exact absurd hs (spell_none_ne_withNext cs)
        · exact withNext hm hs (ih ws (by simp; omega))
    · exact plain hm (ih ws (by simp))

/-- An option is at least a character of a word. -/
theorem length_events_le (ws : List Word) :
    (parse takes ws).events.length ≤ (ws.map List.length).sum := by
  induction ws using parse_induction takes with
  | nil => exact Nat.le_refl 0
  | endOfOptions hm =>
    rw [parse_endOfOptions hm]
    exact Nat.zero_le _
  | plain hm ih =>
    rw [parse_plain hm, Parsed.withPlain]
    exact Nat.le_trans ih (Nat.le_add_left _ _)
  | refused hm hs =>
    rw [parse_refused hm hs]
    exact Nat.le_trans (Nat.le_trans (length_spell_le _ _) (length_letters hm))
      (Nat.le_add_right _ _)
  | whole hm hs ih =>
    rw [parse_whole hm hs, Parsed.after, List.length_append]
    exact Nat.add_le_add (Nat.le_trans (length_spell_le _ _) (length_letters hm)) ih
  | withNext hm hs ih =>
    rw [parse_withNext hm hs, Parsed.after, List.length_append]
    exact Nat.add_le_add (Nat.le_trans (length_spell_le _ _) (length_letters hm))
      (Nat.le_trans ih (Nat.le_add_left _ _))

theorem takes_of_mem_events {ws : List Word} {e : Event} (he : e ∈ (parse takes ws).events) :
    takes e.1 ≠ none := by
  induction ws using parse_induction takes with
  | nil => cases he
  | endOfOptions hm =>
    rw [parse_endOfOptions hm] at he
    cases he
  | plain hm ih =>
    rw [parse_plain hm] at he
    exact ih he
  | refused hm hs =>
    rw [parse_refused hm hs] at he
    exact takes_of_mem_spell he
  | whole hm hs ih =>
    rw [parse_whole hm hs] at he
    exact (List.mem_append.mp he).elim takes_of_mem_spell ih
  | withNext hm hs ih =>
    rw [parse_withNext hm hs] at he
    exact (List.mem_append.mp he).elim takes_of_mem_spell ih

/-! ## The words are kept -/

/-- No word is lost, and the words of a sort keep their order. -/
theorem words_kept (ws : List Word) :
    ((parse takes ws).used ++ ((parse takes ws).plain ++ (parse takes ws).rest)).Perm ws ∧
      (parse takes ws).used.Sublist ws ∧
      ((parse takes ws).plain ++ (parse takes ws).rest).Sublist ws := by
  induction ws using parse_induction takes with
  | nil => exact ⟨.refl _, .refl _, .refl _⟩
  | endOfOptions hm =>
    rw [parse_endOfOptions hm]
    exact ⟨.refl _, by simp, List.sublist_cons_self _ _⟩
  | plain hm ih =>
    obtain ⟨hperm, hused, hplain⟩ := ih
    rw [parse_plain hm]
    exact ⟨List.perm_middle.trans (hperm.cons _), hused.cons _, hplain.cons_cons _⟩
  | refused hm hs =>
    rw [parse_refused hm hs]
    exact ⟨.refl _, List.nil_sublist _, .refl _⟩
  | whole hm hs ih =>
    obtain ⟨hperm, hused, hplain⟩ := ih
    rw [parse_whole hm hs]
    exact ⟨hperm.cons _, hused.cons_cons _, hplain.cons _⟩
  | withNext hm hs ih =>
    obtain ⟨hperm, hused, hplain⟩ := ih
    rw [parse_withNext hm hs]
    exact ⟨(hperm.cons _).cons _, (hused.cons_cons _).cons_cons _, (hplain.cons _).cons _⟩

theorem rest_of_refused {ws : List Word} (h : (parse takes ws).finish = .refused r) :
    (parse takes ws).rest ≠ [] := by
  induction ws using parse_induction takes with
  | nil => cases h
  | endOfOptions hm =>
    rw [parse_endOfOptions hm] at h
    cases h
  | plain hm ih =>
    rw [parse_plain hm] at h ⊢
    exact ih h
  | refused hm hs =>
    rw [parse_refused hm hs]
    exact List.cons_ne_nil _ _
  | whole hm hs ih =>
    rw [parse_whole hm hs] at h ⊢
    exact ih h
  | withNext hm hs ih =>
    rw [parse_withNext hm hs] at h ⊢
    exact ih h

/-! ## The order of the words -/

/-- The last of some words that are all read takes none of what follows. -/
theorem spell_last {xs : List Word} (hs : (spell takes cs xs.head?).2 = .whole) (ys : List Word) :
    spell takes cs (xs ++ ys).head? = spell takes cs xs.head? := by
  cases xs with
  | nil => exact spell_of_whole _ hs
  | cons x xs => rfl

/-- **Words that are read to the last one**, and then others. -/
theorem parse_append {xs : List Word} (h : (parse takes xs).finish = .all) (ys : List Word) :
    parse takes (xs ++ ys) = (parse takes xs).append (parse takes ys) := by
  induction xs using parse_induction takes with
  | nil => rfl
  | endOfOptions hm =>
    rw [parse_endOfOptions hm] at h
    cases h
  | plain hm ih =>
    rw [parse_plain hm] at h
    rw [List.cons_append, parse_plain hm, parse_plain hm, ih h]
    rfl
  | refused hm hs =>
    rw [parse_refused hm hs] at h
    cases h
  | @whole w ws cs hm hs ih =>
    have hlast := spell_last hs ys
    rw [parse_whole hm hs] at h
    rw [List.cons_append, parse_whole hm (by rw [hlast, hs]), parse_whole hm hs, hlast, ih h]
    simp only [Parsed.after, Parsed.append, List.append_assoc]
  | withNext hm hs ih =>
    rw [parse_withNext hm hs] at h
    rw [List.cons_append, List.cons_append, parse_withNext hm hs, parse_withNext hm hs, ih h]
    simp only [Parsed.after, Parsed.append, List.append_assoc]

/-- Behind `--` the words are not read. -/
theorem parse_append_endOfOptions {xs : List Word} (h : (parse takes xs).finish = .endOfOptions)
    (ys : List Word) :
    parse takes (xs ++ ys) = { parse takes xs with rest := (parse takes xs).rest ++ ys } := by
  induction xs using parse_induction takes with
  | nil => cases h
  | endOfOptions hm => rw [List.cons_append, parse_endOfOptions hm, parse_endOfOptions hm]
  | plain hm ih =>
    rw [parse_plain hm] at h
    rw [List.cons_append, parse_plain hm, parse_plain hm, ih h]
    rfl
  | refused hm hs =>
    rw [parse_refused hm hs] at h
    cases h
  | @whole w ws cs hm hs ih =>
    have hlast := spell_last hs ys
    rw [parse_whole hm hs] at h
    rw [List.cons_append, parse_whole hm (by rw [hlast, hs]), parse_whole hm hs, hlast, ih h]
    rfl
  | withNext hm hs ih =>
    rw [parse_withNext hm hs] at h
    rw [List.cons_append, List.cons_append, parse_withNext hm hs, parse_withNext hm hs, ih h]
    rfl

/-- The word `p` is somewhere among the words that are no options, and all else is the same. -/
structure Inserted (p : Word) (a b : Parsed) : Prop where
  events : a.events = b.events
  finish : a.finish = b.finish
  used : a.used = b.used
  words : (∃ l l', a.plain = l ++ p :: l' ∧ b.plain = l ++ l' ∧ a.rest = b.rest) ∨
    (b.finish = .endOfOptions ∧ a.plain = b.plain ∧
      ∃ l l', a.rest = l ++ p :: l' ∧ b.rest = l ++ l')

/-- **A plain word behind words that are not refused** changes nothing of the options. -/
theorem plain_insert (h : meaning w = .plain) {xs : List Word}
    (hxs : ∀ r, (parse takes xs).finish ≠ .refused r) (ys : List Word) :
    Inserted w (parse takes (xs ++ w :: ys)) (parse takes (xs ++ ys)) := by
  cases hf : (parse takes xs).finish with
  | all =>
    rw [parse_append hf, parse_append hf, parse_plain h]
    exact ⟨rfl, rfl, rfl, .inl ⟨_, _, rfl, rfl, rfl⟩⟩
  | endOfOptions =>
    rw [parse_append_endOfOptions hf, parse_append_endOfOptions hf]
    exact ⟨rfl, rfl, rfl, .inr ⟨hf, rfl, _, _, rfl, rfl⟩⟩
  | refused r => exact absurd hf (hxs r)

end

end Umka.Lib.Options
