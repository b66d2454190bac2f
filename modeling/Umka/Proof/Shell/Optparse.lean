import Umka.Shell.Optparse

/-!
# What a loop of `optparse` hands out

Between two calls the words are those already used, the plain ones seen so far, and the rest (`At`);
a call that takes words moves them in front of the plain ones (`optparse_skips`). So a whole loop
hands out the options of `Lib.Options.parse`, one after the other, and sorts the words as they are
sorted there.
-/

set_option autoImplicit false

namespace Umka.Opt

open Lib Lib.Options

/-! ## What a word is -/

theorem isShortopt_iff (arg : Arg) :
    isShortopt arg = true ↔ arg.head? = some '-' ∧ arg.tail ≠ [] ∧ arg.tail.head? ≠ some '-' := by
  rcases arg with - | ⟨d, - | ⟨c, cs⟩⟩
  · simp [isShortopt]
  · simp [isShortopt]
  · by_cases hd : d = '-' <;> simp [isShortopt, hd]

theorem meaning_eq (arg : Arg) :
    meaning arg =
      if isDashdash arg then .endOfOptions else if isShortopt arg then .letters arg.tail else
        .plain := by
  rw [meaning]
  simp only [isDashdash, decide_eq_true_eq, isShortopt_iff]

theorem meaning_eq_plain {arg : Arg} (h : meaning arg = .plain) :
    isDashdash arg = false ∧ isShortopt arg = false := by
  rw [meaning_eq] at h
  rcases hd : isDashdash arg <;> rcases hs : isShortopt arg <;> simp_all

theorem meaning_eq_letters {arg : Arg} {cs : List Char} (h : meaning arg = .letters cs) :
    isDashdash arg = false ∧ isShortopt arg = true ∧ cs = arg.tail ∧ cs ≠ [] := by
  have hiff := isShortopt_iff arg
  rw [meaning_eq] at h
  rcases hd : isDashdash arg <;> rcases hs : isShortopt arg <;> simp_all

theorem meaning_eq_endOfOptions {arg : Arg} (h : meaning arg = .endOfOptions) :
    isDashdash arg = true := by
  rw [meaning_eq] at h
  rcases hd : isDashdash arg <;> rcases hs : isShortopt arg <;> simp_all

/-! ## Moving words -/

theorem shiftArg_eq (pre : List Arg) (p t : Arg) (rest : List Arg) :
    shiftArg pre.length (pre ++ p :: t :: rest) = .ok (pre ++ t :: t :: rest) := by
  have hnext : (pre ++ p :: t :: rest)[pre.length + 1]? = some t := by
    rw [List.getElem?_append_right (by omega), Nat.add_sub_cancel_left]
    rfl
  have hlt : pre.length < (pre ++ p :: t :: rest).length := by
    rw [List.length_append, List.length_cons]
    omega
  rw [shiftArg, fetch_of_some hnext, ok_bind, store_of_lt _ _ hlt,
    List.set_append_right _ _ (by omega), Nat.sub_self]
  rfl

theorem shift_args (rest : List Arg) : ∀ (taken pre : List Arg) (p : Arg),
    ∃ x, loop shiftArg pre.length taken.length (pre ++ p :: (taken ++ rest)) =
      .ok (pre ++ (taken ++ x :: rest))
  | [], _, p => ⟨p, rfl⟩
  | t :: taken, pre, p => by
    obtain ⟨x, hx⟩ := shift_args rest taken (pre ++ [t]) t
    refine ⟨x, ?_⟩
    rw [List.length_append, List.length_singleton] at hx
    rw [List.length_cons, loop, List.cons_append, shiftArg_eq, ok_bind,
      show pre ++ t :: t :: (taken ++ rest) = pre ++ [t] ++ t :: (taken ++ rest) by simp, hx]
    simp

theorem permuteArgs_eq (pre taken rest : List Arg) (p : Arg) :
    permuteArgs (pre ++ p :: (taken ++ rest)) pre.length (pre.length + 1 + taken.length) =
      .ok (pre ++ (taken ++ p :: rest)) := by
  obtain ⟨x, hx⟩ := shift_args rest taken pre p
  have hp : (pre ++ p :: (taken ++ rest))[pre.length]? = some p := by
    rw [List.getElem?_append_right (Nat.le_refl _), Nat.sub_self]
    rfl
  have hlen : pre.length + 1 + taken.length - 1 = (pre ++ taken).length := by
    rw [List.length_append]
    omega
  have hn : (pre ++ taken).length - pre.length = taken.length := by
    rw [List.length_append]
    omega
  have hlt : (pre ++ taken).length < (pre ++ taken ++ x :: rest).length := by
    rw [List.length_append, List.length_append, List.length_cons, List.length_append]
    omega
  rw [permuteArgs, fetch_of_some hp, ok_bind, hlen, hn, hx, ok_bind, ← List.append_assoc,
    store_of_lt _ _ hlt, List.set_append_right _ _ (Nat.le_refl _), Nat.sub_self, List.append_assoc]
  rfl

/-! ## One call -/

/-- The parser as a call sets it at its start. -/
def parser (argv : List Arg) (optind subopt : Nat) : Optparse :=
  { argv := argv, permute := true, optind := optind, optopt := nul, optarg := none, errmsg := [],
    subopt := subopt }

/-- Between two calls: `pre` has been used, `plain` are the plain words behind it, and `suf` has not
    been looked at but for `subopt` letters of its first word. -/
structure At (pre plain suf : List Arg) (subopt : Nat) (o : Optparse) : Prop where
  argv_eq : o.argv = pre ++ (plain ++ suf)
  permute_eq : o.permute = true
  optind_eq : o.optind = pre.length
  subopt_eq : o.subopt = subopt
  isPlain : ∀ p ∈ plain, meaning p = .plain

section

variable {optstring : List Char} {pre plain taken rest : List Arg} {k k' fuel : Nat} {o : Optparse}
  {r : Option Char} {optopt : Char} {optarg : Option Arg} {errmsg : List Char}

theorem argAt_append (l suf : List Arg) : argAt (l ++ suf) l.length = .ok suf.head? := by
  rw [argAt, if_pos (by rw [List.length_append]; omega), List.getElem?_append_right (Nat.le_refl _),
    Nat.sub_self, List.head?_eq_getElem?]

theorem argAt_append_succ (l args : List Arg) (arg : Arg) :
    argAt (l ++ arg :: args) (l.length + 1) = .ok args.head? := by
  rw [List.append_cons, show l.length + 1 = (l ++ [arg]).length by simp, argAt_append]

theorem At.optparseFrom_eq (ho : At pre plain (taken ++ rest) k o) :
    optparseFrom optstring (fuel + 1) o =
      optparseFrom optstring (fuel + 1)
        (parser (pre ++ (plain ++ (taken ++ rest))) pre.length k) := by
  obtain ⟨hargv, hpermute, hoptind, hsubopt, -⟩ := ho
  rcases o with ⟨argv, permute, optind, c, arg, msg, subopt⟩
  subst hargv hpermute hoptind hsubopt
  rw [optparseFrom, optparseFrom]
  rfl

/-- A plain word is skipped, and put behind what the call has then taken. -/
theorem optparseFrom_plain {p : Arg} (hp : meaning p = .plain) (fuel : Nat) (suf : List Arg)
    (hrec : optparseFrom optstring fuel (parser (pre ++ [p] ++ suf) (pre ++ [p]).length k) =
      .ok (r, ⟨pre ++ [p] ++ taken ++ rest, true, (pre ++ [p] ++ taken).length, optopt, optarg,
        errmsg, k'⟩)) :
    optparseFrom optstring (fuel + 1) (parser (pre ++ p :: suf) pre.length k) =
      .ok (r, ⟨pre ++ taken ++ p :: rest, true, (pre ++ taken).length, optopt, optarg,
        errmsg, k'⟩) := by
  obtain ⟨hdash, hshort⟩ := meaning_eq_plain hp
  have hperm := permuteArgs_eq pre taken rest p
  have hlen : (pre ++ [p] ++ taken).length = pre.length + 1 + taken.length := by
    rw [List.length_append, List.length_append, List.length_singleton]
  rw [← List.append_cons, List.length_append, List.length_singleton, hlen] at hrec
  simp only [parser, List.append_assoc, List.cons_append, List.nil_append] at hrec hperm ⊢
  rw [optparseFrom, argAt_append, ok_bind]
  simp only [List.head?_cons, hdash, hshort, Bool.false_eq_true, if_false, if_true, hrec,
    ok_bind, hperm]
  rw [List.length_append, Nat.add_right_comm, Nat.add_sub_cancel]

/-- All plain words are skipped, and what is taken behind them comes to stand in front of them. -/
theorem optparseFrom_skips (hplain : ∀ p ∈ plain, meaning p = .plain) (fuel : Nat)
    (hdirect : optparseFrom optstring (fuel + 1)
        (parser (pre ++ plain ++ (taken ++ rest)) (pre ++ plain).length k) =
      .ok (r, ⟨pre ++ plain ++ (taken ++ rest), true, (pre ++ plain ++ taken).length,
        optopt, optarg, errmsg, k'⟩)) :
    optparseFrom optstring (fuel + 1 + plain.length)
        (parser (pre ++ (plain ++ (taken ++ rest))) pre.length k) =
      .ok (r, ⟨pre ++ taken ++ (plain ++ rest), true, (pre ++ taken).length, optopt, optarg,
        errmsg, k'⟩) := by
  induction plain generalizing pre with
  | nil =>
    rw [List.append_nil] at hdirect
    rw [List.nil_append, List.nil_append, List.append_assoc]
    exact hdirect
  | cons p plain ih =>
    rw [List.append_cons] at hdirect
    have hrec := ih (fun q hq => hplain q (List.mem_cons_of_mem p hq)) hdirect
    exact optparseFrom_plain (hplain p List.mem_cons_self) _ _ hrec

/-- A call between which and the word it looks at stand the plain words. -/
theorem At.optparse_eq (ho : At pre plain (taken ++ rest) k o)
    (hdirect : ∀ fuel l, optparseFrom optstring (fuel + 1)
      (parser (l ++ (taken ++ rest)) l.length k)
        = .ok (r, ⟨l ++ (taken ++ rest), true, (l ++ taken).length, optopt, optarg, errmsg, k'⟩)) :
    optparse optstring o =
      .ok (r, ⟨pre ++ taken ++ (plain ++ rest), true, (pre ++ taken).length, optopt, optarg,
        errmsg, k'⟩) := by
  have hfuel : (pre ++ (plain ++ (taken ++ rest))).length + 1 =
      pre.length + (taken ++ rest).length + 1 + plain.length := by
    simp only [List.length_append]
    omega
  rw [optparse, ho.optparseFrom_eq, ho.argv_eq, hfuel]
  exact optparseFrom_skips ho.isPlain _ (hdirect _ (pre ++ plain))

theorem At.moved (ho : At pre plain (taken ++ rest) k o) :
    At (pre ++ taken) plain rest k'
      ⟨pre ++ taken ++ (plain ++ rest), true, (pre ++ taken).length, optopt, optarg, errmsg, k'⟩ :=
  ⟨rfl, rfl, rfl, rfl, ho.isPlain⟩

/-- Behind the last word. -/
theorem At.optparse_nil (ho : At pre plain [] k o) :
    optparse optstring o = .ok (none, parser (pre ++ plain) pre.length k) := by
  have hdirect : ∀ fuel l, optparseFrom optstring (fuel + 1) (parser (l ++ ([] ++ [])) l.length k) =
      .ok (none, ⟨l ++ ([] ++ []), true, (l ++ []).length, nul, none, [], k⟩) := fun fuel l => by
    simp only [optparseFrom, parser]
    rw [argAt_append, ok_bind, List.append_nil l]
    rfl
  have h := At.optparse_eq ho hdirect
  rwa [List.append_nil, List.append_nil] at h

theorem At.optparse_dashdash {arg : Arg} (hm : meaning arg = .endOfOptions)
    (ho : At pre plain (arg :: rest) k o) :
    optparse optstring o
      = .ok (none, parser (pre ++ [arg] ++ (plain ++ rest)) (pre ++ [arg]).length k) := by
  have hdirect : ∀ fuel l,
      optparseFrom optstring (fuel + 1) (parser (l ++ ([arg] ++ rest)) l.length k) =
        .ok (none, ⟨l ++ ([arg] ++ rest), true, (l ++ [arg]).length, nul, none, [], k⟩) := by
    intro fuel l
    simp only [optparseFrom, parser]
    rw [argAt_append, ok_bind]
    simp only [List.singleton_append, List.head?_cons, meaning_eq_endOfOptions hm, if_true,
      List.length_append, List.length_singleton]
  exact At.optparse_eq ho hdirect

theorem optparseFrom_short {arg : Arg} {cs tail : List Char} {c : Char}
    (hm : meaning arg = .letters cs) (hdrop : arg.drop (k + 1) = c :: tail) (l args : List Arg) :
    optparseFrom optstring (fuel + 1) (parser (l ++ arg :: args) l.length k) =
      .ok (switchType (argtype optstring c) c tail args.head?
        { parser (l ++ arg :: args) l.length k with optopt := c }) := by
  obtain ⟨hdash, hshort, -, -⟩ := meaning_eq_letters hm
  have hle : k + 1 ≤ arg.length := by
    have := congrArg List.length hdrop
    rw [List.length_drop, List.length_cons] at this
    omega
  rw [optparseFrom]
  simp only [parser]
  rw [argAt_append, ok_bind]
  simp only [List.head?_cons, hdash, hshort, Bool.false_eq_true, if_false, if_true]
  rw [shortOption]
  simp only
  rw [pointer, if_pos hle, ok_bind, argAt_append_succ, ok_bind, hdrop]
  rfl

/-- A call at a word of options, `switch (type)` saying what it takes. -/
theorem At.optparse_short (optstring : List Char) (taken : List Arg) {arg : Arg} {args : List Arg}
    {cs tail : List Char} {c : Char} (hm : meaning arg = .letters cs)
    (hdrop : arg.drop (k + 1) = c :: tail) (ho : At pre plain (arg :: args) k o)
    (hsplit : arg :: args = taken ++ rest)
    (hswitch : ∀ argv i, switchType (argtype optstring c) c tail args.head?
        { parser argv i k with optopt := c } =
      (r, ⟨argv, true, i + taken.length, optopt, optarg, errmsg, k'⟩)) :
    optparse optstring o =
      .ok (r, ⟨pre ++ taken ++ (plain ++ rest), true, (pre ++ taken).length, optopt, optarg,
        errmsg, k'⟩) := by
  refine At.optparse_eq (hsplit ▸ ho) fun fuel l => ?_
  rw [← hsplit, optparseFrom_short hm hdrop, hswitch, List.length_append]

/-- An option without an argument, and more behind it: the word stays where it is. -/
theorem At.optparse_stays {arg : Arg} {args : List Arg} {cs tail : List Char} {c : Char}
    (hm : meaning arg = .letters cs) (hdrop : arg.drop (k + 1) = c :: tail) (htail : tail ≠ [])
    (ht : argtype optstring c = some .nothing) (ho : At pre plain (arg :: args) k o) :
    ∃ o', optparse optstring o = .ok (some c, o') ∧ o'.optarg = none ∧ arg.drop (k + 1 + 1) = tail ∧
      At pre plain (arg :: args) (k + 1) o' := by
  have h : optparse optstring o = .ok (some c, ⟨pre ++ [] ++ (plain ++ arg :: args), true,
      (pre ++ []).length, c, none, [], k + 1⟩) :=
    ho.optparse_short optstring [] hm hdrop rfl fun argv i => by
      rw [ht, switchType, if_pos htail]
      rfl
  rw [List.append_nil] at h
  have hdrop' : arg.drop (k + 1 + 1) = tail := by
    rw [← List.drop_drop, hdrop]
    rfl
  exact ⟨_, h, rfl, hdrop', rfl, rfl, rfl, rfl, ho.isPlain⟩

/-- A letter that is unknown: the call goes on to the next word, and leaves `subopt` as it is. -/
theorem At.optparse_unknown {arg : Arg} {args : List Arg} {cs tail : List Char} {c : Char}
    (hm : meaning arg = .letters cs) (hdrop : arg.drop (k + 1) = c :: tail)
    (hc : argtype optstring c = none) (ho : At pre plain (arg :: args) k o) :
    ∃ o', optparse optstring o = .ok (some '?', o') ∧ At (pre ++ [arg]) plain args k o' := by
  have h := ho.optparse_short optstring [arg] hm hdrop rfl fun argv i => by
    rw [hc]
    rfl
  exact ⟨_, h, rfl, rfl, rfl, rfl, ho.isPlain⟩

/-- A word that is shorter than what `subopt` says is read behind its end, also when plain words
    stand in front of it. -/
theorem optparseFrom_behind {arg : Arg} {letters : List Char} (hm : meaning arg = .letters letters)
    (hk : arg.length ≤ k) (hplain : ∀ p ∈ plain, meaning p = .plain) (args : List Arg) :
    optparseFrom optstring (fuel + 1 + plain.length)
        (parser (pre ++ (plain ++ arg :: args)) pre.length k) = .error .fault := by
  induction plain generalizing pre with
  | nil =>
    obtain ⟨hdash, hshort, -, -⟩ := meaning_eq_letters hm
    rw [List.length_nil, Nat.add_zero, List.nil_append, optparseFrom]
    simp only [parser]
    rw [argAt_append, ok_bind]
    simp only [List.head?_cons, hdash, hshort, Bool.false_eq_true, if_false, if_true]
    rw [shortOption]
    simp only
    rw [pointer, if_neg (by omega)]
    rfl
  | cons p plain ih =>
    obtain ⟨hdash, hshort⟩ := meaning_eq_plain (hplain p List.mem_cons_self)
    have hrec := @ih (pre ++ [p]) fun q hq => hplain q (List.mem_cons_of_mem p hq)
    rw [← List.append_cons, List.length_append, List.length_singleton] at hrec
    rw [List.length_cons, ← Nat.add_assoc, List.cons_append, optparseFrom]
    simp only [parser] at hrec ⊢
    rw [argAt_append, ok_bind]
    simp only [List.head?_cons, hdash, hshort, Bool.false_eq_true, if_false, if_true]
    rw [hrec]
    rfl

theorem At.optparse_behind {arg : Arg} {args : List Arg} {letters : List Char}
    (hm : meaning arg = .letters letters) (hk : arg.length ≤ k)
    (ho : At pre plain (arg :: args) k o) : optparse optstring o = .error .fault := by
  have hfuel : (pre ++ (plain ++ ([] ++ arg :: args))).length + 1 =
      pre.length + (arg :: args).length + 1 + plain.length := by
    simp only [List.length_append, List.nil_append]
    omega
  have ho' : At pre plain ([] ++ arg :: args) k o := ho
  rw [optparse, ho'.optparseFrom_eq, ho'.argv_eq, hfuel]
  exact optparseFrom_behind hm hk ho.isPlain args

/-- Plain words that have not been looked at belong to those that have. -/
theorem At.plain_words (more : List Arg) (ho : At pre plain (more ++ rest) k o)
    (hmore : ∀ p ∈ more, meaning p = .plain) : At pre (plain ++ more) rest k o :=
  ⟨by rw [ho.argv_eq, List.append_assoc plain], ho.permute_eq, ho.optind_eq, ho.subopt_eq,
    fun p hp => (List.mem_append.mp hp).elim (ho.isPlain p) (hmore p)⟩

end

/-! ## The loop -/

/-- The parser when a word is refused: the letter, and what is wrong with it. -/
def refusalText (r : Refusal) : List Char :=
  if r.known then errorText msgMissing [r.letter]
  else errorText msgInvalid ([r.letter].takeWhile (· ≠ nul))

/-- Behind `arg`, a word that is refused. `subopt` is set back if an argument is missing, and not if
    the letter is unknown. -/
def failed (pre plain : List Arg) (arg : Arg) (args : List Arg) (r : Refusal) : Optparse :=
  ⟨pre ++ [arg] ++ (plain ++ args), true, (pre ++ [arg]).length, r.letter, none, refusalText r,
    if r.known then 0 else r.before⟩

section

variable {α : Type} {optstring : List Char} {handle : α → Char → Option Arg → Option α}

/-- The `switch` on an option and its argument. -/
abbrev switch (handle : α → Char → Option Arg → Option α) (a : α) (e : Event) : Option α :=
  handle a e.1 e.2

theorem optionsFrom_end {o o' : Optparse} (h : optparse optstring o = .ok (none, o')) (fuel : Nat)
    (a : α) : optionsFrom optstring handle (fuel + 1) a o = .ok ⟨none, a, o'⟩ := by
  rw [optionsFrom, h]
  rfl

theorem optionsFrom_accepted {o o' : Optparse} {c : Char} {a b : α}
    (h : optparse optstring o = .ok (some c, o')) (hb : handle a c o'.optarg = some b)
    (fuel : Nat) :
    optionsFrom optstring handle (fuel + 1) a o = optionsFrom optstring handle fuel b o' := by
  rw [optionsFrom, h, ok_bind]
  simp only [hb]

theorem optionsFrom_left {o o' : Optparse} {c : Char} {a : α}
    (h : optparse optstring o = .ok (some c, o')) (hb : handle a c o'.optarg = none) (fuel : Nat) :
    optionsFrom optstring handle (fuel + 1) a o = .ok ⟨some c, a, o'⟩ := by
  rw [optionsFrom, h, ok_bind]
  simp only [hb]

/-- From `o` the loop hands out `es` and is then at `o'`, unless the `switch` leaves before. -/
structure HandsOut (optstring : List Char) (handle : α → Char → Option Arg → Option α)
    (o : Optparse) (es : List Event) (o' : Optparse) : Prop where
  goes_on (fuel : Nat) (a : α) (h : (feed (switch handle) a es).2 = none) :
    optionsFrom optstring handle (fuel + es.length) a o =
      optionsFrom optstring handle fuel (feed (switch handle) a es).1 o'
  leaves (fuel : Nat) (a : α) (e : Event) (h : (feed (switch handle) a es).2 = some e) :
    ∃ o'', optionsFrom optstring handle (fuel + es.length) a o =
      .ok ⟨some e.1, (feed (switch handle) a es).1, o''⟩

theorem HandsOut.nil (o : Optparse) : HandsOut optstring handle o [] o where
  goes_on _ _ _ := rfl
  leaves _ _ _ h := nomatch h

theorem HandsOut.cons {o o₁ o₂ : Optparse} {c : Char} {es : List Event}
    (h : optparse optstring o = .ok (some c, o₁)) (hes : HandsOut optstring handle o₁ es o₂) :
    HandsOut optstring handle o ((c, o₁.optarg) :: es) o₂ where
  goes_on fuel a hall := by
    cases hb : switch handle a (c, o₁.optarg) with
    | none =>
      rw [feed_left hb] at hall
      cases hall
    | some b =>
      rw [feed_accepted hb] at hall ⊢
      rw [List.length_cons, ← Nat.add_assoc, optionsFrom_accepted h hb, hes.goes_on fuel b hall]
  leaves fuel a e hleft := by
    rw [List.length_cons, ← Nat.add_assoc]
    cases hb : switch handle a (c, o₁.optarg) with
    | none =>
      rw [feed_left hb] at hleft ⊢
      cases hleft
      exact ⟨o₁, optionsFrom_left h hb _⟩
    | some b =>
      rw [feed_accepted hb] at hleft ⊢
      rw [optionsFrom_accepted h hb]
      exact hes.leaves fuel b e hleft

theorem HandsOut.one {o o₁ : Optparse} {c : Char} (h : optparse optstring o = .ok (some c, o₁)) :
    HandsOut optstring handle o [(c, o₁.optarg)] o₁ := .cons h (.nil o₁)

theorem HandsOut.append {o o₁ o₂ : Optparse} {es es' : List Event}
    (h : HandsOut optstring handle o es o₁) (h' : HandsOut optstring handle o₁ es' o₂) :
    HandsOut optstring handle o (es ++ es') o₂ where
  goes_on fuel a hall := by
    rw [List.length_append, Nat.add_comm es.length, ← Nat.add_assoc]
    cases hf : (feed (switch handle) a es).2 with
    | none =>
      rw [feed_append hf] at hall ⊢
      rw [h.goes_on _ a hf, h'.goes_on fuel _ hall]
    | some e =>
      rw [feed_append_left hf, hf] at hall
      cases hall
  leaves fuel a e hleft := by
    rw [List.length_append, Nat.add_comm es.length, ← Nat.add_assoc]
    cases hf : (feed (switch handle) a es).2 with
    | none =>
      rw [feed_append hf] at hleft ⊢
      rw [h.goes_on _ a hf]
      exact h'.leaves fuel _ e hleft
    | some e' =>
      rw [feed_append_left hf] at hleft ⊢
      exact h.leaves _ a e hleft

/-- What the loop does with the letters left of a word, `k` having been read, by how the word
    closes. -/
def Spelled (optstring : List Char) (handle : α → Char → Option Arg → Option α)
    (pre plain : List Arg) (arg : Arg) (args : List Arg) (k : Nat) (o : Optparse)
    (es : List Event) : Close → Prop
  | .refused r => ∃ o₁, HandsOut optstring handle o es o₁ ∧
      optparse optstring o₁ =
        .ok (some '?', failed pre plain arg args { r with before := k + r.before })
  | .whole => ∃ o', At (pre ++ [arg]) plain args 0 o' ∧ HandsOut optstring handle o es o'
  | .withNext => ∃ next rest o', args = next :: rest ∧ At (pre ++ [arg, next]) plain rest 0 o' ∧
      HandsOut optstring handle o es o'

theorem Spelled.cons {pre plain args : List Arg} {arg : Arg} {k : Nat} {o o₁ : Optparse}
    {es : List Event} {c : Char} {close : Close} (h : optparse optstring o = .ok (some c, o₁))
    (hes : Spelled optstring handle pre plain arg args (k + 1) o₁ es close) :
    Spelled optstring handle pre plain arg args k o ((c, o₁.optarg) :: es) close.later := by
  cases close with
  | refused r =>
    obtain ⟨p, hp, hq⟩ := hes
    rw [Nat.add_right_comm] at hq
    exact ⟨p, .cons h hp, hq⟩
  | whole =>
    obtain ⟨o', hat, hp⟩ := hes
    exact ⟨o', hat, .cons h hp⟩
  | withNext =>
    obtain ⟨next, rest, o', hargs, hat, hp⟩ := hes
    exact ⟨next, rest, o', hargs, hat, .cons h hp⟩

/-- A word of options is handed out as it is spelled. -/
theorem spelled {pre plain args : List Arg} {arg : Arg} {letters : List Char}
    (hm : meaning arg = .letters letters) :
    ∀ {cs : List Char} {k : Nat} {o : Optparse}, cs ≠ [] → arg.drop (k + 1) = cs →
      At pre plain (arg :: args) k o →
        Spelled optstring handle pre plain arg args k o
          (spell (argtype optstring) cs args.head?).1 (spell (argtype optstring) cs args.head?).2
  | c :: cs, k, o, _, hdrop, ho => by
    simp only [spell]
    cases ht : argtype optstring c with
    | none =>
      have h := ho.optparse_short optstring [arg] hm hdrop rfl fun argv i => by
        rw [ht]
        rfl
      exact ⟨o, .nil o, h⟩
    | some type =>
      cases type with
      | nothing =>
        by_cases hcs : cs = []
        · have h := ho.optparse_short optstring [arg] hm hdrop rfl fun argv i => by
            rw [ht, switchType, if_neg (not_not.mpr hcs)]
            rfl
          subst hcs
          exact ⟨_, ho.moved, .one h⟩
        · obtain ⟨o', h, harg, hdrop', hat⟩ := ho.optparse_stays hm hdrop hcs ht
          have hrest := Spelled.cons h (spelled hm hcs hdrop' hat)
          rwa [harg] at hrest
      | required =>
        rcases cs with - | ⟨d, cs⟩
        · rcases args with - | ⟨next, args⟩
          · have h := ho.optparse_short optstring [arg] hm hdrop rfl fun argv i => by
              rw [ht]
              rfl
            exact ⟨o, .nil o, h⟩
          · have h := ho.optparse_short optstring [arg, next] hm hdrop rfl fun argv i => by
              rw [ht]
              rfl
            exact ⟨next, args, _, rfl, ho.moved, .one h⟩
        · have h := ho.optparse_short optstring [arg] hm hdrop rfl fun argv i => by
            rw [ht]
            rfl
          exact ⟨_, ho.moved, .one h⟩
      | optional =>
        have h := ho.optparse_short optstring [arg] hm hdrop rfl fun argv i => by
          rw [ht, switchType]
          rfl
        exact ⟨_, ho.moved, .one h⟩

theorem At.spelled (optstring : List Char) (handle : α → Char → Option Arg → Option α)
    {pre plain args : List Arg} {arg : Arg} {cs : List Char} {o : Optparse}
    (hm : meaning arg = .letters cs) (ho : At pre plain (arg :: args) 0 o) :
    Spelled optstring handle pre plain arg args 0 o (spell (argtype optstring) cs args.head?).1
      (spell (argtype optstring) cs args.head?).2 := by
  obtain ⟨-, -, htail, hcs⟩ := meaning_eq_letters hm
  exact Opt.spelled hm hcs (by rw [htail, List.drop_one]) ho

/-- The character that the last call returns. -/
def lastCall (p : Parsed) : Option Char :=
  match p.finish with
  | .refused _ => some '?'
  | _ => none

/-- The parser after the last call. The words of the options come first, the refused one with them,
    and behind them the plain words and then the rest, both in their old order. -/
def sorted (pre plain : List Arg) (p : Parsed) : Optparse :=
  match p.finish with
  | .refused r => ⟨pre ++ p.used ++ (p.rest.take 1 ++ (plain ++ (p.plain ++ p.rest.drop 1))), true,
      (pre ++ p.used).length + 1, r.letter, none, refusalText r, if r.known then 0 else r.before⟩
  | _ => parser (pre ++ p.used ++ (plain ++ (p.plain ++ p.rest))) (pre ++ p.used).length 0

theorem sorted_after (pre plain : List Arg) (p : Parsed) (es : List Event) (ws : List Arg) :
    sorted pre plain (p.after es ws) = sorted (pre ++ ws) plain p := by
  simp only [sorted, Parsed.after, List.append_assoc]

theorem sorted_withPlain (pre plain : List Arg) (p : Parsed) (w : Arg) :
    sorted pre plain (p.withPlain w) = sorted pre (plain ++ [w]) p := by
  simp only [sorted, Parsed.withPlain, List.append_assoc, List.cons_append, List.nil_append]

theorem sorted_refused (pre plain : List Arg) (es : List Event) (r : Refusal) (arg : Arg)
    (args : List Arg) :
    sorted pre plain ⟨es, .refused r, [], [], arg :: args⟩ = failed pre plain arg args r := by
  simp [sorted, failed]

/-- How the loop is left that reads the words as `p`: at an option that the `switch` does not know,
    or after the last call. -/
structure Leaves (handle : α → Char → Option Arg → Option α) (pre plain : List Arg) (a : α)
    (p : Parsed) (out : Outcome α) : Prop where
  value : out.value = (feed (switch handle) a p.events).1
  left (e : Event) (h : (feed (switch handle) a p.events).2 = some e) : out.stop = some e.1
  last (h : (feed (switch handle) a p.events).2 = none) :
    out.stop = lastCall p ∧ out.parser = sorted pre plain p

/-- Options are handed out, and the loop goes on. -/
theorem HandsOut.leaves_after {o o' : Optparse} {es : List Event} {ws pre plain : List Arg}
    {p : Parsed} (h : HandsOut optstring handle o es o')
    (hrest : ∀ fuel a, ∃ out, optionsFrom optstring handle (fuel + 1 + p.events.length) a o' =
      .ok out ∧ Leaves handle (pre ++ ws) plain a p out) (fuel : Nat) (a : α) :
    ∃ out, optionsFrom optstring handle (fuel + 1 + (p.after es ws).events.length) a o = .ok out ∧
      Leaves handle pre plain a (p.after es ws) out := by
  have hlen : fuel + 1 + (p.after es ws).events.length =
      fuel + 1 + p.events.length + es.length := by
    rw [Parsed.after, List.length_append]
    omega
  have hevents : (p.after es ws).events = es ++ p.events := rfl
  rw [hlen]
  cases hf : (feed (switch handle) a es).2 with
  | none =>
    obtain ⟨out, hrun, hleaves⟩ := hrest fuel (feed (switch handle) a es).1
    have hfeed := feed_append hf p.events
    rw [← hevents] at hfeed
    refine ⟨out, (h.goes_on _ a hf).trans hrun, ?_, ?_, ?_⟩
    · rw [hfeed]
      exact hleaves.value
    · rw [hfeed]
      exact hleaves.left
    · rw [hfeed, sorted_after]
      exact hleaves.last
  | some e =>
    obtain ⟨o'', hrun⟩ := h.leaves (fuel + 1 + p.events.length) a e hf
    have hfeed := feed_append_left hf p.events
    rw [← hevents] at hfeed
    refine ⟨_, hrun, ?_, ?_, ?_⟩
    · rw [hfeed]
    · rw [hfeed, hf]
      rintro e' ⟨⟩
      rfl
    · rw [hfeed, hf]
      exact fun hnone => absurd hnone (Option.some_ne_none e)

theorem HandsOut.leaves_refused (hrefuse : ∀ a, handle a '?' none = none) {o o₁ : Optparse}
    {es : List Event} {pre plain args : List Arg} {arg : Arg} {r : Refusal}
    (h : HandsOut optstring handle o es o₁)
    (herr : optparse optstring o₁ = .ok (some '?', failed pre plain arg args r)) (fuel : Nat)
    (a : α) :
    ∃ out, optionsFrom optstring handle (fuel + 1 + es.length) a o = .ok out ∧
      Leaves handle pre plain a ⟨es, .refused r, [], [], arg :: args⟩ out := by
  cases hf : (feed (switch handle) a es).2 with
  | none =>
    refine ⟨_, (h.goes_on _ a hf).trans (optionsFrom_left herr (hrefuse _) fuel), rfl, ?_, ?_⟩
    · rw [hf]
      exact fun e he => absurd he.symm (Option.some_ne_none e)
    · exact fun _ => ⟨rfl, (sorted_refused pre plain es r arg args).symm⟩
  | some e =>
    obtain ⟨o'', hrun⟩ := h.leaves (fuel + 1) a e hf
    refine ⟨_, hrun, rfl, ?_, ?_⟩
    · rw [hf]
      rintro e' ⟨⟩
      rfl
    · rw [hf]
      exact fun hnone => absurd hnone (Option.some_ne_none e)

/-- **From any point between two words.** The induction is on the words not looked at. -/
theorem At.options_leaves (hrefuse : ∀ a, handle a '?' none = none) {args pre plain : List Arg}
    {o : Optparse} (ho : At pre plain args 0 o) (fuel : Nat) (a : α) :
    ∃ out, optionsFrom optstring handle
        (fuel + 1 + (parse (argtype optstring) args).events.length) a o = .ok out ∧
      Leaves handle pre plain a (parse (argtype optstring) args) out := by
  induction args using parse_induction (argtype optstring)
    generalizing pre plain o fuel a with
  | nil =>
    refine ⟨_, optionsFrom_end ho.optparse_nil fuel a, rfl,
      fun e he => absurd he.symm (Option.some_ne_none e), fun _ => ⟨rfl, ?_⟩⟩
    simp [sorted, parse]
  | endOfOptions hm =>
    rw [parse_endOfOptions hm]
    exact ⟨_, optionsFrom_end (ho.optparse_dashdash hm) fuel a, rfl,
      fun e he => absurd he.symm (Option.some_ne_none e), fun _ => ⟨rfl, rfl⟩⟩
  | plain hm ih =>
    have hnext := ho.plain_words [_] fun p hp => List.mem_singleton.mp hp ▸ hm
    obtain ⟨out, hrun, hleaves⟩ := ih hnext fuel a
    rw [parse_plain hm]
    refine ⟨out, hrun, hleaves.value, hleaves.left, ?_⟩
    rw [sorted_withPlain]
    exact hleaves.last
  | refused hm hs =>
    have hspelled := ho.spelled optstring handle hm
    rw [hs] at hspelled
    obtain ⟨o₁, hes, herr⟩ := hspelled
    rw [Nat.zero_add] at herr
    rw [parse_refused hm hs]
    exact hes.leaves_refused hrefuse herr fuel a
  | whole hm hs ih =>
    have hspelled := ho.spelled optstring handle hm
    rw [hs] at hspelled
    obtain ⟨o', hat, hes⟩ := hspelled
    rw [parse_whole hm hs]
    exact hes.leaves_after (ih hat) fuel a
  | withNext hm hs ih =>
    have hspelled := ho.spelled optstring handle hm
    rw [List.head?_cons, hs] at hspelled
    obtain ⟨next, rest, o', ⟨⟩, hat, hes⟩ := hspelled
    rw [parse_withNext hm hs]
    exact hes.leaves_after (ih hat) fuel a

theorem init_at (o : Optparse) (cmd : Arg) (args : List Arg) :
    At [cmd] [] args 0 (optparseInit o (cmd :: args)) := ⟨rfl, rfl, rfl, rfl, by simp⟩

theorem options_leaves (hrefuse : ∀ a, handle a '?' none = none) (o : Optparse) (cmd : Arg)
    (args : List Arg) (a : α) :
    ∃ out, options optstring handle a (optparseInit o (cmd :: args)) = .ok out ∧
      Leaves handle [cmd] [] a (parse (argtype optstring) args) out := by
  have hle := @length_events_le (argtype optstring) args
  have hfuel : ((optparseInit o (cmd :: args)).argv.map List.length).sum + 1 =
      cmd.length + ((args.map List.length).sum - (parse (argtype optstring) args).events.length) +
        1 + (parse (argtype optstring) args).events.length := by
    rw [(init_at o cmd args).argv_eq, List.singleton_append, List.nil_append, List.map_cons,
      List.sum_cons]
    omega
  rw [options, hfuel]
  exact (init_at o cmd args).options_leaves hrefuse _ a

/-- **A loop whose `switch` has a default for `'?'` never leaves the words and `argv`.** It hands
    out the options from the left to the right, up to the first that the `switch` does not know or
    that `optparse` refuses. No word is lost: the words of the options come first in `argv`, and
    behind them the plain ones and the rest stand in their old order. -/
theorem options_parses (hrefuse : ∀ a, handle a '?' none = none) (o : Optparse) (cmd : Arg)
    (args : List Arg) (a : α) :
    let p := parse (argtype optstring) args
    (∃ out, options optstring handle a (optparseInit o (cmd :: args)) = .ok out ∧
        Leaves handle [cmd] [] a p out) ∧
      (p.used ++ (p.plain ++ p.rest)).Perm args ∧ p.used.Sublist args ∧
        (p.plain ++ p.rest).Sublist args :=
  ⟨options_leaves hrefuse o cmd args a, words_kept args⟩

/-- A `switch` that writes down what it is handed. -/
def record (es : List Event) (c : Char) (arg : Option Arg) : Option (List Event) :=
  if c = '?' then none else some (es ++ [(c, arg)])

/-- `ls a -rc 7 b`, and `ls a -rx b` with an option that is refused. -/
theorem options_parses_sorted :
    (∃ out, options ['r', 'c', ':'] record [] (optparseInit (parser [] 0 0)
          [['l', 's'], ['a'], ['-', 'r', 'c'], ['7'], ['b']]) = .ok out ∧
        out.stop = none ∧ out.value = [('r', none), ('c', some ['7'])] ∧
        out.parser =
          ⟨[['l', 's'], ['-', 'r', 'c'], ['7'], ['a'], ['b']], true, 3, nul, none, [], 0⟩) ∧
      ∃ out, options ['r', 'c', ':'] record [] (optparseInit (parser [] 0 0)
          [['l', 's'], ['a'], ['-', 'r', 'x'], ['b']]) = .ok out ∧
        out.stop = some '?' ∧ out.value = [('r', none)] ∧
        out.parser.argv = [['l', 's'], ['-', 'r', 'x'], ['a'], ['b']] := by
  constructor
  · obtain ⟨⟨out, hrun, hleaves⟩, -⟩ := @options_parses _ ['r', 'c', ':'] record (fun _ => rfl)
      (parser [] 0 0) ['l', 's'] [['a'], ['-', 'r', 'c'], ['7'], ['b']] []
    exact ⟨out, hrun, (hleaves.last rfl).1, hleaves.value, (hleaves.last rfl).2⟩
  · obtain ⟨⟨out, hrun, hleaves⟩, -⟩ := @options_parses _ ['r', 'c', ':'] record (fun _ => rfl)
      (parser [] 0 0) ['l', 's'] [['a'], ['-', 'r', 'x'], ['b']] []
    exact ⟨out, hrun, (hleaves.last rfl).1, hleaves.value,
      congrArg Optparse.argv (hleaves.last rfl).2⟩

/-- Two parsers whose words differ by `p`, which is behind the options. -/
def InsertedWord (p : Arg) (o o' : Optparse) : Prop :=
  ∃ l l', o'.argv = l ++ l' ∧ o = { o' with argv := l ++ p :: l' } ∧ o'.optind ≤ l.length

theorem sorted_inserted {p : Arg} {q q' : Parsed} (h : Inserted p q q')
    (hrest : ∀ r, q'.finish = .refused r → q'.rest ≠ []) (cmd : Arg) :
    InsertedWord p (sorted [cmd] [] q) (sorted [cmd] [] q') := by
  obtain ⟨events, finish, used, plain, rest⟩ := q
  obtain ⟨events', finish', used', plain', rest'⟩ := q'
  obtain ⟨rfl, rfl, rfl, ⟨l, l', rfl, rfl, rfl⟩ | ⟨rfl, rfl, l, l', rfl, rfl⟩⟩ := h
  · cases finish with
    | all | endOfOptions =>
      refine ⟨[cmd] ++ used ++ l, l' ++ rest, ?_, ?_, ?_⟩
      · simp [sorted, parser]
      · simp [sorted, parser]
      · simp [sorted, parser]
    | refused r =>
      obtain ⟨w, ws, rfl⟩ := List.exists_cons_of_ne_nil (hrest r rfl)
      refine ⟨[cmd] ++ used ++ (w :: l), l' ++ ws, ?_, ?_, ?_⟩
      · simp [sorted]
      · simp [sorted]
      · simp [sorted]
  · refine ⟨[cmd] ++ used ++ (plain ++ l), l', ?_, ?_, ?_⟩
    · simp [sorted, parser]
    · simp [sorted, parser]
    · simp [sorted, parser]

/-- The `switch` has a case for every option. -/
def Knows (optstring : List Char) (handle : α → Char → Option Arg → Option α) : Prop :=
  ∀ c, argtype optstring c ≠ none → ∀ a arg, (handle a c arg).isSome

theorem Knows.feed_all (h : Knows optstring handle) (args : List Arg) (a : α) :
    (feed (switch handle) a (parse (argtype optstring) args).events).2 = none :=
  Options.feed_all a fun e he a => h e.1 (takes_of_mem_events he) a e.2

/-- **Where a plain word stands makes no difference**: behind words that are accepted by themselves
    it can be put in, or taken out, and the same options are handed out, up to the same one that is
    refused; and `argv` is the same but for this word, which stands behind the options. -/
theorem options_plain_anywhere (hrefuse : ∀ a, handle a '?' none = none) (o : Optparse)
    (cmd p : Arg) (xs ys : List Arg) (a : α) (before : Outcome α) (hdash : isDashdash p = false)
    (hshort : isShortopt p = false)
    (hxs : options optstring handle a (optparseInit o (cmd :: xs)) = .ok before)
    (hstop : before.stop = none) :
    ∃ out out', options optstring handle a (optparseInit o (cmd :: (xs ++ p :: ys))) = .ok out ∧
      options optstring handle a (optparseInit o (cmd :: (xs ++ ys))) = .ok out' ∧
      out.stop = out'.stop ∧ out.value = out'.value ∧
      (Knows optstring handle → InsertedWord p out.parser out'.parser) := by
  have hp : meaning p = .plain := by
    rw [meaning_eq, hdash, hshort]
    rfl
  have hread : ∀ r, (parse (argtype optstring) xs).finish ≠ .refused r := by
    intro r hr
    obtain ⟨out, hrun, hleaves⟩ := options_leaves hrefuse o cmd xs a
    rw [hxs] at hrun
    cases hrun
    cases hf : (feed (switch handle) a (parse (argtype optstring) xs).events).2 with
    | some e =>
      rw [hleaves.left e hf] at hstop
      cases hstop
    | none =>
      rw [(hleaves.last hf).1, lastCall, hr] at hstop
      cases hstop
  have hins := plain_insert hp hread ys
  obtain ⟨out, hrun, hleaves⟩ := options_leaves hrefuse o cmd (xs ++ p :: ys) a
  obtain ⟨out', hrun', hleaves'⟩ := options_leaves hrefuse o cmd (xs ++ ys) a
  refine ⟨out, out', hrun, hrun', ?_, ?_, fun hknows => ?_⟩
  · cases hf : (feed (switch handle) a (parse (argtype optstring) (xs ++ ys)).events).2 with
    | some e =>
      have hf' := hf
      rw [← hins.events] at hf'
      rw [hleaves.left e hf', hleaves'.left e hf]
    | none =>
      have hf' := hf
      rw [← hins.events] at hf'
      rw [(hleaves.last hf').1, (hleaves'.last hf).1, lastCall, lastCall, hins.finish]
  · rw [hleaves.value, hleaves'.value, hins.events]
  · rw [(hleaves.last (hknows.feed_all _ a)).2, (hleaves'.last (hknows.feed_all _ a)).2]
    exact sorted_inserted hins (fun r hr => rest_of_refused hr) cmd

/-- `ls -c 7 a -q` and `ls -c 7 -q`, whose last option is refused. -/
theorem options_plain_anywhere_between :
    ∃ out out', options ['r', 'c', ':'] record [] (optparseInit (parser [] 0 0)
        [['l', 's'], ['-', 'c'], ['7'], ['a'], ['-', 'q']]) = .ok out ∧
      options ['r', 'c', ':'] record [] (optparseInit (parser [] 0 0)
        [['l', 's'], ['-', 'c'], ['7'], ['-', 'q']]) = .ok out' ∧
      out.stop = out'.stop ∧ out.value = out'.value ∧
      (Knows ['r', 'c', ':'] record → InsertedWord ['a'] out.parser out'.parser) :=
  options_plain_anywhere (fun _ => rfl) (parser [] 0 0) ['l', 's'] ['a'] [['-', 'c'], ['7']]
    [['-', 'q']] [] ⟨none, [('c', some ['7'])],
      ⟨[['l', 's'], ['-', 'c'], ['7']], true, 3, nul, none, [], 0⟩⟩ rfl rfl rfl rfl

/-! ## Going on behind an error -/

/-- Words that are read to the last one are handed out, whatever stands behind them. -/
theorem At.hands_out (handle : α → Char → Option Arg → Option α) {words suf pre plain : List Arg}
    {o : Optparse} (h : (parse (argtype optstring) words).finish = .all)
    (ho : At pre plain (words ++ suf) 0 o) :
    ∃ o', At (pre ++ (parse (argtype optstring) words).used)
        (plain ++ (parse (argtype optstring) words).plain) suf 0 o' ∧
      HandsOut optstring handle o (parse (argtype optstring) words).events o' := by
  induction words using parse_induction (argtype optstring) generalizing pre plain o with
  | nil => exact ⟨o, by simpa [parse] using ho, .nil o⟩
  | endOfOptions hm =>
    rw [parse_endOfOptions hm] at h
    cases h
  | plain hm ih =>
    rw [parse_plain hm] at h ⊢
    obtain ⟨o', hat, hout⟩ := ih h (ho.plain_words [_] fun p hp => List.mem_singleton.mp hp ▸ hm)
    rw [List.append_assoc plain] at hat
    exact ⟨o', hat, hout⟩
  | refused hm hs =>
    rw [parse_refused hm hs] at h
    cases h
  | @whole w ws cs hm hs ih =>
    rw [parse_whole hm hs] at h ⊢
    have hspelled := At.spelled optstring handle hm
      (show At pre plain (w :: (ws ++ suf)) 0 o from ho)
    rw [spell_last hs, hs] at hspelled
    obtain ⟨o₁, hat₁, hout₁⟩ := hspelled
    obtain ⟨o', hat, hout⟩ := ih h hat₁
    rw [List.append_assoc pre] at hat
    exact ⟨o', hat, hout₁.append hout⟩
  | @withNext w arg ws cs hm hs ih =>
    rw [parse_withNext hm hs] at h ⊢
    have hspelled := At.spelled optstring handle hm
      (show At pre plain (w :: arg :: (ws ++ suf)) 0 o from ho)
    rw [List.head?_cons, hs] at hspelled
    obtain ⟨next, rest, o₁, ⟨⟩, hat₁, hout₁⟩ := hspelled
    obtain ⟨o', hat, hout⟩ := ih h hat₁
    rw [List.append_assoc pre] at hat
    exact ⟨o', hat, hout₁.append hout⟩

/-- The letters before the one that is unknown are handed out. -/
theorem letters_handed (handle : α → Char → Option Arg → Option α) {arg : Arg}
    {letters tail : List Char} {args pre plain : List Arg} (hm : meaning arg = .letters letters)
    (htail : tail ≠ []) :
    ∀ {es : List Char} {k : Nat} {o : Optparse},
      (∀ e ∈ es, argtype optstring e = some .nothing) → arg.drop (k + 1) = es ++ tail →
        At pre plain (arg :: args) k o →
          ∃ o', At pre plain (arg :: args) (k + es.length) o' ∧
            HandsOut optstring handle o (es.map fun e => (e, none)) o'
  | [], _, o, _, _, ho => ⟨o, ho, .nil o⟩
  | e :: es, k, o, hes, hdrop, ho => by
    have hne : es ++ tail ≠ [] := fun h => htail (List.append_eq_nil_iff.mp h).2
    obtain ⟨o₁, h, harg, hdrop', hat₁⟩ :=
      ho.optparse_stays hm hdrop hne (hes e List.mem_cons_self)
    obtain ⟨o', hat, hes'⟩ :=
      letters_handed handle hm htail (fun e he => hes e (List.mem_cons_of_mem _ he)) hdrop' hat₁
    have hall := HandsOut.cons h hes'
    rw [harg] at hall
    refine ⟨o', ?_, hall⟩
    rwa [List.length_cons, Nat.add_comm es.length, ← Nat.add_assoc]

/-- A loop that accepts all it is handed, and after it a call that goes astray. -/
theorem HandsOut.faults (haccept : ∀ a c arg, (handle a c arg).isSome) {o o₁ o₂ : Optparse}
    {es : List Event} {c : Char} (h : HandsOut optstring handle o es o₁)
    (hc : optparse optstring o₁ = .ok (some c, o₂))
    (hfault : optparse optstring o₂ = .error .fault) (fuel : Nat) (a : α) :
    optionsFrom optstring handle (fuel + 1 + 1 + es.length) a o = .error .fault := by
  obtain ⟨b, hb⟩ := Option.isSome_iff_exists.mp
    (haccept (feed (switch handle) a es).1 c o₂.optarg)
  rw [h.goes_on _ a (Options.feed_all a fun e _ a => haccept a e.1 e.2),
    optionsFrom_accepted hc hb, optionsFrom, hfault]
  rfl

/-- **Behind an option it does not know, `optparse` keeps its place in the word for the next word of
    options**, over the plain words between them. A loop that does not stop there reads behind the
    end of a next word that is shorter. -/
theorem options_past_error (haccept : ∀ a c arg, (handle a c arg).isSome) (o : Optparse)
    (cmd word next : Arg) (before between args : List Arg) (es : List Char) (c : Char)
    (tail letters : List Char) (a : α)
    (hbefore : (parse (argtype optstring) before).finish = .all)
    (hword : meaning word = .letters (es ++ c :: tail))
    (hes : ∀ e ∈ es, argtype optstring e = some .nothing) (hc : argtype optstring c = none)
    (hbetween : ∀ p ∈ between, meaning p = .plain) (hnext : meaning next = .letters letters)
    (hshort : next.length ≤ es.length) :
    options optstring handle a
        (optparseInit o (cmd :: (before ++ word :: (between ++ next :: args))))
          = .error .fault := by
  obtain ⟨-, -, htail, -⟩ := meaning_eq_letters hword
  have hdrop : word.drop (0 + es.length + 1) = c :: tail := by
    rw [Nat.zero_add, Nat.add_comm, ← List.drop_drop, List.drop_one, ← htail, List.drop_left]
  obtain ⟨o₁, hat₁, hout₁⟩ := (init_at o cmd
    (before ++ word :: (between ++ next :: args))).hands_out handle hbefore
  obtain ⟨o₂, hat₂, hout₂⟩ := letters_handed handle hword (List.cons_ne_nil c tail) hes
    (by rw [List.drop_one, htail]) hat₁
  obtain ⟨o₃, herr, hat₃⟩ := hat₂.optparse_unknown hword hdrop hc
  have hfault : optparse optstring o₃ = .error .fault :=
    (hat₃.plain_words between hbetween).optparse_behind hnext (by omega)
  have hlen := congrArg List.length hdrop
  have hevents := @length_events_le (argtype optstring) before
  rw [List.length_drop, List.length_cons] at hlen
  have hroom : ((parse (argtype optstring) before).events ++
      es.map fun e => (e, (none : Option Arg))).length + 2 ≤
        ((cmd :: (before ++ word :: (between ++ next :: args))).map List.length).sum + 1 := by
    simp only [List.map_cons, List.map_append, List.sum_cons, List.sum_append, List.length_append,
      List.length_map]
    omega
  obtain ⟨fuel, hfuel⟩ := Nat.exists_eq_add_of_le' hroom
  rw [Nat.add_comm _ 2, ← Nat.add_assoc] at hfuel
  rw [options, (init_at o cmd _).argv_eq, List.singleton_append, List.nil_append, hfuel]
  exact (hout₁.append hout₂).faults haccept herr hfault fuel a

/-- `x -a b -aaq c -a`. -/
theorem options_past_error_short :
    options ['a'] (fun es c arg => some (es ++ [(c, arg)])) ([] : List Event)
        (optparseInit (parser [] 0 0)
          [['x'], ['-', 'a'], ['b'], ['-', 'a', 'a', 'q'], ['c'], ['-', 'a']]) = .error .fault :=
  options_past_error (fun _ _ _ => rfl) _ _ _ _ [['-', 'a'], ['b']] [['c']] [] ['a', 'a'] 'q' []
    ['a'] _ rfl rfl (by rintro e (- | ⟨-, - | ⟨-, ⟨⟩⟩⟩) <;> rfl) rfl
    (by rintro p (- | ⟨-, ⟨⟩⟩); rfl) rfl (by decide)

end

end Umka.Opt
