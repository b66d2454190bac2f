import Umka.Lib.Ledger
import Umka.Lib.Run
import Umka.Tools.Runtests

/-!
# Each numbered test is run once

`TestsRight` is what the parallel runner is for: the tests run are the numbered ones, each is
run once, by the thread that took it from the directory, and judged under the name it was run
under; a child whose `exec` failed takes none; and when every thread has finished, all have been
run and judged.

Three things can go wrong, and `RunCond` excludes them step by step: a `readdir` that reuses the
memory of an entry another thread still works on, a name that `is_valid_test` lets through
without three digits, and an `exec` that fails. In a run without them `TestsRight` holds in every
state (`testsRight_of_cond`); each of the three breaks it (`tests_not_right`).
-/

set_option autoImplicit false

namespace Umka.Proof.Tools

open Lib Umka.Tools

/-! ## Names -/

/-- `t\d\d\d`, as the comment in `is_valid_test` has it. -/
def numbered : List Char → Bool
  | 't' :: a :: b :: c :: _ => isDigit a && isDigit b && isDigit c
  | _ => false

/-- A numbered test of the directory that `runtests` was started in. -/
def isTest (tree : Tree) (e : DirEnt) : Bool := tree.opens [] e.name && numbered e.name

/-- `t`, or `t` and a digit. -/
def nearlyNumbered : List Char → Bool
  | ['t'] => true
  | 't' :: d :: _ => isDigit d
  | _ => false

/-- A name that is nearly numbered is numbered, if there is something to run. -/
def NameOk (tree : Tree) (cwd : Path) (e : DirEnt) : Prop :=
  tree.opens cwd e.name = true → nearlyNumbered e.name = true → numbered e.name = true

instance (tree : Tree) (cwd : Path) : DecidablePred (NameOk tree cwd) := fun _ =>
  inferInstanceAs (Decidable (_ → _ → _))

theorem nearlyNumbered_of_numbered {name : List Char} (h : numbered name = true) :
    nearlyNumbered name = true := by
  unfold numbered at h
  split at h
  · rename_i a b c _
    simp only [Bool.and_eq_true] at h
    exact h.1.1
  · cases h

theorem digitLoop_of_digit {name : List Char} (h : isDigit (name.getD 1 nul) = true) :
    ∀ n i, digitLoop name n i = true := by
  intro n
  induction n with
  | zero => intro i; rfl
  | succ n ih =>
    intro i
    unfold digitLoop
    rw [h, ih]
    simp

/-- What `is_valid_test` really checks. -/
theorem isValidTest_eq (tree : Tree) (cwd : Path) (e : DirEnt) :
    isValidTest tree cwd e = (tree.opens cwd e.name && nearlyNumbered e.name) := by
  obtain ⟨name, hnul⟩ := e
  unfold isValidTest
  dsimp only
  generalize tree.opens cwd name = opens
  match name with
  | [] => cases opens <;> rfl
  | [x] =>
    by_cases hx : x = 't'
    · subst hx
      cases opens <;> rfl
    · simp [nearlyNumbered, hx]
  | x :: d :: rest =>
    by_cases hx : x = 't'
    · subst hx
      have hd : d ≠ nul := fun h => hnul (by simp [h])
      cases hdig : isDigit d with
      | false => simp [digitLoop, nearlyNumbered, hd, hdig]
      | true =>
        rw [digitLoop_of_digit (by simpa using hdig)]
        simp [nearlyNumbered, hdig]
    · simp [nearlyNumbered, hx]

theorem isValidTest_of_nameOk {tree : Tree} {e : DirEnt} (h : NameOk tree [] e) :
    isValidTest tree [] e = isTest tree e := by
  rw [isValidTest_eq, isTest]
  cases hr : tree.opens [] e.name with
  | false => rfl
  | true =>
    cases hn : numbered e.name with
    | true => rw [nearlyNumbered_of_numbered hn]
    | false =>
      cases hm : nearlyNumbered e.name with
      | false => rfl
      | true => exact absurd (h hr hm) (by rw [hn]; decide)

/-! ## What the runner is for -/

def Runner.judgedNames (s : Runner) : List (Nat × DirEnt) := s.judged.map fun j => (j.1, j.2.1)

/-- The state `s` of a run of `n` threads over the directory `listing` is as it should be. -/
structure TestsRight (tree : Tree) (n : Nat) (listing : List DirEnt) (s : Runner) : Prop where
  once : (s.ran.map Prod.snd).Subperm (listing.filter (isTest tree))
  taker : s.ran.Subperm s.took
  own : ∀ t, byClient (Runner.judgedNames s) t <+: byClient s.ran t
  child : ∀ p ∈ s.took, p.1 < n
  complete : (∀ t < s.next, (s.thread t).pc = .finished) →
    (s.ran.map Prod.snd).Perm (listing.filter (isTest tree)) ∧ (Runner.judgedNames s).Perm s.ran

/-- The step is harmless in the state it is taken from. -/
def RunCond (tree : Tree) (s : Runner) : RunAct → Prop
  | .readdir t k => ∀ u < s.next, u ≠ t → (s.thread u).proc = (s.thread t).proc →
      (s.thread u).pc.slot? ≠ some k
  | .check t =>
    match (s.thread t).pc.slot? with
    | some k => NameOk tree (s.home t).cwd (s.entry t k)
    | none => True
  | .run _ exec _ => exec = true
  | .judge _ _ => True

instance (tree : Tree) (s : Runner) : ∀ a, Decidable (RunCond tree s a)
  | .readdir _ _ => inferInstanceAs (Decidable (∀ _ < _, _ → _ → _))
  | .check t =>
    match h : (s.thread t).pc.slot? with
    | some k => decidable_of_iff (NameOk tree (s.home t).cwd (s.entry t k))
        (by simp only [RunCond, h])
    | none => isTrue (by simp only [RunCond, h])
  | .run _ _ _ => inferInstanceAs (Decidable (_ = _))
  | .judge _ _ => isTrue trivial

/-! ## What a harmless step keeps -/

/-- What a thread has taken, run and judged, by where it is. -/
def ThreadInv (tree : Tree) (slot : Nat → DirEnt) (took ran judged : List DirEnt) : Pc → Prop
  | .absent => took = [] ∧ ran = [] ∧ judged = []
  | .fetch => ran = took.filter (isTest tree) ∧ judged = ran
  | .check k =>
    ∃ before, took = before ++ [slot k] ∧ ran = before.filter (isTest tree) ∧ judged = ran
  | .run k => isTest tree (slot k) = true ∧
      ∃ before, took = before ++ [slot k] ∧ ran = before.filter (isTest tree) ∧ judged = ran
  | .judge k _ => ran = took.filter (isTest tree) ∧ ran = judged ++ [slot k]
  | .finished => ran = took.filter (isTest tree) ∧ judged = ran

/-- Only the entry in use matters. -/
theorem ThreadInv.congr {tree : Tree} {slot slot' : Nat → DirEnt} {took ran judged : List DirEnt}
    {pc : Pc} (h : ThreadInv tree slot took ran judged pc)
    (hs : ∀ k, pc.slot? = some k → slot' k = slot k) : ThreadInv tree slot' took ran judged pc := by
  cases pc with
  | absent => exact h
  | fetch => exact h
  | finished => exact h
  | check k =>
    rw [ThreadInv] at h ⊢
    rwa [hs k rfl]
  | run k =>
    rw [ThreadInv] at h ⊢
    rwa [hs k rfl]
  | judge k failed =>
    rw [ThreadInv] at h ⊢
    rwa [hs k rfl]

/-- All threads are `main`'s, their entries are apart, and each is where its records say. -/
structure RunInv (tree : Tree) (n : Nat) (listing : List DirEnt) (s : Runner) : Prop where
  next : s.next = n
  home : ∀ t, (s.thread t).proc = 0
  cwd : (s.proc 0).cwd = []
  absent : ∀ t, n ≤ t → (s.thread t).pc = .absent
  stream : s.took.map Prod.snd ++ (s.proc 0).rest = listing
  apart : ∀ t u k, t ≠ u → (s.thread t).pc.slot? = some k → (s.thread u).pc.slot? ≠ some k
  drained : ∀ t, (s.thread t).pc = .finished → (s.proc 0).rest = []
  thread : ∀ t, ThreadInv tree (s.proc 0).slot (byClient s.took t) (byClient s.ran t)
    (byClient (Runner.judgedNames s) t) (s.thread t).pc

section Step

variable {tree : Tree} {n : Nat} {listing : List DirEnt} {s s' : Runner}

theorem runInv_init : RunInv tree n listing (.init n listing) := by
  refine ⟨rfl, fun _ => rfl, rfl, fun t ht => ?_, rfl, fun t u k _ ht => ?_, fun t ht => ?_,
    fun t => ?_⟩
  · exact if_neg (Nat.not_lt.mpr ht)
  · simp only [Runner.init] at ht
    split at ht <;> cases ht
  · simp only [Runner.init] at ht
    split at ht <;> cases ht
  · simp only [Runner.init]
    split
    · exact ⟨rfl, rfl⟩
    · exact ⟨rfl, rfl, rfl⟩

@[simp] theorem thread_setPc {t u : Nat} {pc : Pc} :
    (s.setPc t pc).thread u = if u = t then ⟨(s.thread t).proc, pc⟩ else s.thread u := by
  simp only [Runner.setPc, Function.update_apply]

theorem RunInv.entry_eq (h : RunInv tree n listing s) (t k : Nat) :
    s.entry t k = (s.proc 0).slot k := by
  unfold Runner.entry Runner.home
  rw [h.home]

/-- What a step of one thread has to show: it stays in its process and keeps its entry to
    itself, and only its own records change. -/
theorem RunInv.of_step (h : RunInv tree n listing s) {t : Nat} (pc : Pc)
    (ht : (s.thread t).pc ≠ .absent) (hthread : s'.thread = (s.setPc t pc).thread)
    (hnext : s'.next = s.next) (hcwd : (s'.proc 0).cwd = (s.proc 0).cwd)
    (hstream : s'.took.map Prod.snd ++ (s'.proc 0).rest = listing)
    (hslot : ∀ u k, u ≠ t → (s.thread u).pc.slot? = some k →
      (s'.proc 0).slot k = (s.proc 0).slot k ∧ pc.slot? ≠ some k)
    (hdrained : (∃ u, (s.thread u).pc = .finished) ∨ pc = .finished → (s'.proc 0).rest = [])
    (hothers : ∀ u, u ≠ t → byClient s'.took u = byClient s.took u ∧
      byClient s'.ran u = byClient s.ran u ∧
      byClient (Runner.judgedNames s') u = byClient (Runner.judgedNames s) u)
    (hown : ThreadInv tree (s'.proc 0).slot (byClient s'.took t) (byClient s'.ran t)
      (byClient (Runner.judgedNames s') t) pc) : RunInv tree n listing s' := by
  have hself : (s'.thread t).pc = pc := by simp [hthread]
  have hother : ∀ u, u ≠ t → s'.thread u = s.thread u := fun u hu => by simp [hthread, hu]
  refine ⟨hnext.trans h.next, fun u => ?_, hcwd.trans h.cwd, fun u hu => ?_, hstream,
    fun u v k huv hu => ?_, fun u hu => ?_, fun u => ?_⟩
  · rw [hthread, thread_setPc]
    split
    · exact h.home t
    · exact h.home u
  · have hut : u ≠ t := fun heq => ht (heq ▸ h.absent u hu)
    rw [hother u hut]
    exact h.absent u hu
  · by_cases hut : u = t
    · subst hut
      rw [hself] at hu
      rw [hother v (Ne.symm huv)]
      exact fun hv => (hslot v k (Ne.symm huv) hv).2 hu
    · rw [hother u hut] at hu
      by_cases hvt : v = t
      · subst hvt
        rw [hself]
        exact (hslot u k hut hu).2
      · rw [hother v hvt]
        exact h.apart u v k huv hu
  · by_cases hut : u = t
    · subst hut
      exact hdrained (.inr (hself.symm.trans hu))
    · rw [hother u hut] at hu
      exact hdrained (.inl ⟨u, hu⟩)
  · by_cases hut : u = t
    · subst hut
      rw [hself]
      exact hown
    · obtain ⟨h₁, h₂, h₃⟩ := hothers u hut
      rw [h₁, h₂, h₃, hother u hut]
      exact (h.thread u).congr fun k hk => (hslot u k hut hk).1

theorem RunInv.step_readdir (h : RunInv tree n listing s) {t k : Nat}
    (hc : RunCond tree s (.readdir t k)) (hs : runnerStep tree s (.readdir t k) = some s') :
    RunInv tree n listing s' := by
  have hhome : s.home t = s.proc 0 := by rw [Runner.home, h.home]
  rw [runnerStep, hhome, h.home] at hs
  split at hs
  · rename_i hpc
    have hne : (s.thread t).pc ≠ .absent := by rw [hpc]; simp
    have hinv := h.thread t
    rw [hpc] at hinv
    cases hrest : (s.proc 0).rest with
    | nil =>
      rw [hrest] at hs
      cases hs
      refine h.of_step .finished hne rfl rfl rfl h.stream
        (fun u k' _ _ => ⟨rfl, by simp [Pc.slot?]⟩) (fun _ => hrest)
          (fun u _ => ⟨rfl, rfl, rfl⟩) hinv
    | cons e rest =>
      rw [hrest] at hs
      cases hs
      refine h.of_step (.check k) hne rfl rfl rfl ?_ (fun u k' hu hk' => ?_) ?_ (fun u hu => ?_) ?_
      · simp [← h.stream, hrest]
      · -- The memory that is reused is nobody else's.
        have hlt : u < s.next := by
          rw [h.next]
          refine Nat.lt_of_not_le fun hle => ?_
          rw [h.absent u hle] at hk'
          cases hk'
        have hkk : k' ≠ k := by
          rintro rfl
          exact hc u hlt hu (by rw [h.home, h.home]) hk'
        refine ⟨?_, fun heq => hkk (Option.some.inj heq).symm⟩
        simp [hkk]
      · rintro (⟨u, hu⟩ | hfin)
        · rw [h.drained u hu] at hrest
          cases hrest
        · cases hfin
      · exact ⟨by simp [Ne.symm hu], rfl, rfl⟩
      · refine ⟨byClient s.took t, ?_, hinv.1, hinv.2⟩
        simp
  · cases hs

/-- The rest of a thread's steps leave the stream and its memory alone. -/
theorem RunInv.of_local (h : RunInv tree n listing s) {t k : Nat} (pc : Pc)
    (hold : (s.thread t).pc.slot? = some k) (hslot : pc.slot? = some k ∨ pc.slot? = none)
    (hpc : pc ≠ .finished)
    (hthread : s'.thread = (s.setPc t pc).thread) (hproc : s'.proc = s.proc)
    (hnext : s'.next = s.next) (htook : s'.took = s.took)
    (hothers : ∀ u, u ≠ t → byClient s'.ran u = byClient s.ran u ∧
      byClient (Runner.judgedNames s') u = byClient (Runner.judgedNames s) u)
    (hown : ThreadInv tree (s.proc 0).slot (byClient s.took t) (byClient s'.ran t)
      (byClient (Runner.judgedNames s') t) pc) : RunInv tree n listing s' := by
  refine h.of_step pc (t := t) (fun hno => ?_) hthread hnext (by rw [hproc]) ?_
    (fun u k' hu hk' => ?_) ?_ (fun u hu => ?_) ?_
  · rw [hno] at hold
    cases hold
  · rw [htook, hproc]
    exact h.stream
  · refine ⟨by rw [hproc], ?_⟩
    rcases hslot with heq | heq
    · rw [heq]
      intro hkk
      exact h.apart t u k (Ne.symm hu) hold (Option.some.inj hkk ▸ hk')
    · rw [heq]
      simp
  · rintro (⟨u, hu⟩ | hfin)
    · rw [hproc]
      exact h.drained u hu
    · exact absurd hfin hpc
  · rw [htook]
    exact ⟨rfl, hothers u hu⟩
  · rw [hproc, htook]
    exact hown

theorem RunInv.step_check (h : RunInv tree n listing s) {t : Nat} (hc : RunCond tree s (.check t))
    (hs : runnerStep tree s (.check t) = some s') : RunInv tree n listing s' := by
  rw [runnerStep] at hs
  split at hs
  · rename_i k hpc
    have hold : (s.thread t).pc.slot? = some k := by rw [hpc]; rfl
    have hcwd : (s.home t).cwd = [] := by rw [Runner.home, h.home, h.cwd]
    have hname : NameOk tree [] ((s.proc 0).slot k) := by
      simp only [RunCond, hold] at hc
      rwa [h.entry_eq, hcwd] at hc
    obtain ⟨before, htook, hran, hjudged⟩ : ThreadInv tree _ _ _ _ (.check k) := hpc ▸ h.thread t
    rw [h.entry_eq, hcwd, isValidTest_of_nameOk hname] at hs
    cases hs
    split
    · rename_i htest
      exact h.of_local (.run k) hold (.inl rfl) (by simp) rfl rfl rfl rfl (fun u _ => ⟨rfl, rfl⟩)
        ⟨htest, before, htook, hran, hjudged⟩
    · rename_i htest
      refine h.of_local .fetch hold (.inr rfl) (by simp) rfl rfl rfl rfl (fun u _ => ⟨rfl, rfl⟩)
        ⟨?_, hjudged⟩
      show byClient s.ran t = _
      rw [htook, List.filter_append, List.filter_cons_of_neg htest, List.filter_nil,
        List.append_nil]
      exact hran
  · cases hs

theorem RunInv.step_run (h : RunInv tree n listing s) {t : Nat} {exec failed : Bool}
    (hc : RunCond tree s (.run t exec failed))
    (hs : runnerStep tree s (.run t exec failed) = some s') :
    RunInv tree n listing s' := by
  obtain rfl : exec = true := hc
  rw [runnerStep] at hs
  split at hs
  · rename_i k hpc
    have hold : (s.thread t).pc.slot? = some k := by rw [hpc]; rfl
    obtain ⟨htest, before, htook, hran, hjudged⟩ : ThreadInv tree _ _ _ _ (.run k) :=
      hpc ▸ h.thread t
    rw [h.entry_eq] at hs
    cases hs
    refine h.of_local (.judge k failed) hold (.inl rfl) (by simp) rfl rfl rfl rfl
      (fun u hu => ⟨?_, rfl⟩) ⟨?_, ?_⟩
    · simp [Ne.symm hu]
    · rw [htook, List.filter_append, List.filter_cons_of_pos htest, List.filter_nil, ← hran]
      simp
    · show byClient (s.ran ++ _) t = byClient (Runner.judgedNames s) t ++ _
      rw [hjudged]
      simp
  · cases hs

theorem RunInv.step_judge (h : RunInv tree n listing s) {t : Nat} {differs : Bool}
    (hs : runnerStep tree s (.judge t differs) = some s') : RunInv tree n listing s' := by
  rw [runnerStep] at hs
  split at hs
  · rename_i k failed hpc
    have hold : (s.thread t).pc.slot? = some k := by rw [hpc]; rfl
    obtain ⟨hran, hlast⟩ : ThreadInv tree _ _ _ _ (.judge k failed) := hpc ▸ h.thread t
    rw [h.entry_eq] at hs
    cases hs
    have hnames : ∀ v, Runner.judgedNames { s.setPc t .fetch with
        judged := s.judged ++ [(t, (s.proc 0).slot k, v)] }
        = Runner.judgedNames s ++ [(t, (s.proc 0).slot k)] := by
      intro v
      simp [Runner.judgedNames]
    refine h.of_local .fetch hold (.inr rfl) (by simp) rfl rfl rfl rfl (fun u hu => ⟨rfl, ?_⟩)
      ⟨hran, ?_⟩
    · rw [hnames]
      simp [Ne.symm hu]
    · rw [hnames]
      show _ = byClient s.ran t
      rw [hlast]
      simp
  · cases hs

theorem RunInv.step {a : RunAct} (h : RunInv tree n listing s) (hc : RunCond tree s a)
    (hs : runnerStep tree s a = some s') : RunInv tree n listing s' := by
  cases a with
  | readdir t k => exact h.step_readdir hc hs
  | check t => exact h.step_check hc hs
  | run t exec failed => exact h.step_run hc hs
  | judge t differs => exact h.step_judge hs

end Step

/-! ## What the invariant says -/

section Right

variable {tree : Tree} {n : Nat} {listing : List DirEnt} {s : Runner}

/-- What a thread has run is what it took of the numbered tests, up to the one in its hands, and
    what it has judged is what it has run, up to the last one. -/
theorem ThreadInv.prefixes {tree : Tree} {slot : Nat → DirEnt}
    {took ran judged : List DirEnt} {pc : Pc} (h : ThreadInv tree slot took ran judged pc) :
    ran <+: took.filter (isTest tree) ∧ judged <+: ran := by
  cases pc with
  | absent =>
    obtain ⟨rfl, rfl, rfl⟩ := h
    exact ⟨List.prefix_refl _, List.prefix_refl _⟩
  | fetch =>
    obtain ⟨rfl, rfl⟩ := h
    exact ⟨List.prefix_refl _, List.prefix_refl _⟩
  | finished =>
    obtain ⟨rfl, rfl⟩ := h
    exact ⟨List.prefix_refl _, List.prefix_refl _⟩
  | judge k failed =>
    obtain ⟨hran, hlast⟩ := h
    exact ⟨hran ▸ List.prefix_refl _, hlast ▸ List.prefix_append _ _⟩
  | check k =>
    obtain ⟨before, rfl, rfl, rfl⟩ := h
    rw [List.filter_append]
    exact ⟨List.prefix_append _ _, List.prefix_refl _⟩
  | run k =>
    obtain ⟨-, before, rfl, rfl, rfl⟩ := h
    rw [List.filter_append]
    exact ⟨List.prefix_append _ _, List.prefix_refl _⟩

theorem map_snd_filter (tree : Tree) (log : List (Nat × DirEnt)) :
    (log.filter fun x => isTest tree x.2).map Prod.snd
      = (log.map Prod.snd).filter (isTest tree) := by
  rw [List.filter_map]
  rfl

theorem RunInv.testsRight (h : RunInv tree n listing s) (hn : 1 ≤ n) :
    TestsRight tree n listing s := by
  have hsub : s.ran.Subperm (s.took.filter fun x => isTest tree x.2) := by
    refine subperm_of_byClient fun t => ?_
    rw [byClient_filter]
    exact (h.thread t).prefixes.1.sublist.subperm
  have hlisting : (s.took.map Prod.snd).filter (isTest tree) <+: listing.filter (isTest tree) := by
    rw [← h.stream, List.filter_append]
    exact List.prefix_append _ _
  refine ⟨?_, hsub.trans List.filter_sublist.subperm, fun t => (h.thread t).prefixes.2,
    fun p hp => ?_, fun hdone => ?_⟩
  · obtain ⟨l, hperm, hl⟩ := hsub
    have hmap := hl.map Prod.snd
    rw [map_snd_filter] at hmap
    exact ⟨l.map Prod.snd, hperm.map Prod.snd, hmap.trans hlisting.sublist⟩
  · -- Threads that do not exist have taken nothing.
    obtain ⟨t, e⟩ := p
    refine Nat.lt_of_not_le fun hle => ?_
    have hinv := h.thread t
    rw [h.absent t hle] at hinv
    have hmem : e ∈ byClient s.took t := List.mem_map.mpr ⟨(t, e), by simpa using hp, rfl⟩
    rw [hinv.1] at hmem
    cases hmem
  · have hall : ∀ t, byClient s.ran t = (byClient s.took t).filter (isTest tree) ∧
        byClient (Runner.judgedNames s) t = byClient s.ran t := by
      intro t
      have hinv := h.thread t
      by_cases ht : t < n
      · rw [hdone t (h.next ▸ ht)] at hinv
        exact hinv
      · rw [h.absent t (Nat.le_of_not_lt ht)] at hinv
        rw [hinv.1, hinv.2.1, hinv.2.2]
        exact ⟨rfl, rfl⟩
    have hrest := h.drained 0 (hdone 0 (h.next ▸ hn))
    constructor
    · have hperm : s.ran.Perm (s.took.filter fun x => isTest tree x.2) :=
        perm_of_byClient fun t => by rw [byClient_filter, (hall t).1]
      have := hperm.map Prod.snd
      rwa [map_snd_filter, show s.took.map Prod.snd = listing by
        rw [← h.stream, hrest, List.append_nil]] at this
    · exact perm_of_byClient fun t => by rw [(hall t).2]

end Right

/-- **Each numbered test is run once**, in every state of every run of harmless steps. -/
theorem testsRight_of_cond {tree : Tree} {n : Nat} (hn : 1 ≤ n) {listing : List DirEnt}
    {acts : List RunAct} {s : Runner}
    (hmeets : MeetsAll (runnerStep tree) (RunCond tree) (.init n listing) acts)
    (hrun : runActs (runnerStep tree) (.init n listing) acts = some s) :
    TestsRight tree n listing s :=
  (invariant_of_step (I := RunInv tree n listing) (fun _ _ _ h hc hs => h.step hc hs) acts _ s
    runInv_init hmeets hrun).testsRight hn

def t001 : DirEnt := ⟨"t001".toList, by decide⟩
def t002 : DirEnt := ⟨"t002".toList, by decide⟩
def t1 : DirEnt := ⟨"t1".toList, by decide⟩

/-- Their directories, with `run.us` in each. -/
def threeDirs : Tree where
  dirs := [[t001.name], [t002.name], [t1.name]]
  runUs := [[t001.name], [t002.name], [t1.name]]
  runUs_subset := List.Subset.refl _

/-- Two threads and two tests, with an entry each. -/
def twoTests : List RunAct :=
  [.readdir 0 0, .readdir 1 1, .check 1, .check 0, .run 0 true false, .run 1 true true,
    .judge 1 false, .judge 0 false, .readdir 0 0, .readdir 1 0]

theorem testsRight_of_cond_two :
    ∃ s, runActs (runnerStep threeDirs) (.init 2 [t001, t002]) twoTests = some s ∧
      (∀ t < s.next, (s.thread t).pc = .finished) ∧ TestsRight threeDirs 2 [t001, t002] s :=
  ⟨_, rfl, by decide, testsRight_of_cond (by decide)
    (show MeetsAll (runnerStep threeDirs) (RunCond threeDirs) (.init 2 [t001, t002]) twoTests by
      decide) rfl⟩

/-- An entry that is overwritten while in use: one test is run twice and the other one never. A
    name with one digit: it is run. An `exec` that fails: the child takes the next test, which it
    does not find since it is in the directory of the first one. -/
theorem tests_not_right :
    (∃ s, runActs (runnerStep threeDirs) (.init 2 [t001, t002]) [.readdir 0 0, .readdir 1 0,
        .check 0, .check 1, .run 0 true false, .run 1 true false] = some s ∧
      s.ran = [(0, t002), (1, t002)] ∧ ¬ TestsRight threeDirs 2 [t001, t002] s) ∧
    (∃ s, runActs (runnerStep threeDirs) (.init 1 [t1]) [.readdir 0 0, .check 0,
        .run 0 true false] = some s ∧
      s.ran = [(0, t1)] ∧ ¬ TestsRight threeDirs 1 [t1] s) ∧
    (∃ s, runActs (runnerStep threeDirs) (.init 1 [t001, t002]) [.readdir 0 0, .check 0,
        .run 0 false true, .judge 1 false, .readdir 1 0, .check 1] = some s ∧
      (1, t002) ∈ s.took ∧ (s.thread 1).pc = .fetch ∧
      ¬ TestsRight threeDirs 1 [t001, t002] s) := by
  refine ⟨⟨_, rfl, rfl, fun h => ?_⟩, ⟨_, rfl, rfl, fun h => ?_⟩,
    ⟨_, rfl, by decide, by decide, fun h => ?_⟩⟩
  · exact absurd h.once (by decide)
  · exact absurd h.once (by decide)
  · exact absurd (h.child (1, t002) (by decide)) (by decide)

end Umka.Proof.Tools
