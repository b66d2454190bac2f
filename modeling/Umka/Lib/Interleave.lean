import Mathlib.Logic.Function.Basic
import Umka.Lib.Drv
import Umka.Lib.Run

/-!
# Driver programs that take turns inside their reads

Several threads run programs over one private state and one descriptor, and control passes from
one to another only inside a `read`: a thread stops when it has asked for a transfer
(`Thread.asked`), the transfer happens at some later moment, at the position the descriptor
then has (`Thread.answered`), and the thread goes on at some moment after that, up to its next
`read` or its end.

`Sequential` is what one hopes for: the finished calls returned what they would have returned
one after the other, in some order. `sequential_of_turns` is one discipline that gives it,
whatever the programs do: a thread moves only while every other one is idle or has nothing left
to do but to look at some part of the shared state, and nobody changes that part under it.
-/

set_option autoImplicit false

namespace Umka.Lib

section Programs

variable {σ α : Type}

/-- Where a program stops of its own accord. -/
inductive Stop (σ α : Type)
  | finished (a : α)
  | inRead (count : Nat) (store : List UInt8 → σ → σ) (k : Int → List UInt8 → Drv σ α)

/-- Up to the next `read`, or to the end; `none` is a fault. -/
def Drv.toRead (env : Env) : Drv σ α → σ → World → Option (Stop σ α × σ × World)
  | .done a, s, w => some (.finished a, s, w)
  | .fault, _, _ => none
  | .get k, s, w => (k s).toRead env s w
  | .set s k, _, w => k.toRead env s w
  | .ask k, s, w => (k (env.answer w.tick)).toRead env s w.next
  | .uninit n k, s, w => (k (.ofFn n (env.junk w.tick))).toRead env s w.next
  | .lseek off k, s, w => k.toRead env s (w.lseek off)
  | .read count store k, s, w => some (.inRead count store k, s, w)
  | .write data k, s, w => (k (w.write env data).1).toRead env s (w.write env data).2

/-- The program a stop stands for. -/
def Stop.toDrv : Stop σ α → Drv σ α
  | .finished a => .done a
  | .inRead count store k => .read count store k

/-- Stopping and going on is going on. -/
theorem Drv.run_toRead {env : Env} {p : Drv σ α} {s : σ} {w : World} :
    p.run env s w = (p.toRead env s w).bind fun r => r.1.toDrv.run env r.2.1 r.2.2 := by
  induction p generalizing s w with
  | done a => rfl
  | fault => rfl
  | get k ih => exact ih s
  | set s' k ih => exact ih
  | ask k ih => exact ih _
  | uninit n k ih => exact ih _
  | lseek off k ih => exact ih
  | read count store k ih => rfl
  | write data k ih => exact ih _

/-! Where a sequence stops: in its first part, or behind it. -/

section Sequence

variable {β : Type} {env : Env} {x : Drv σ α} {f : α → Drv σ β} {s s' : σ} {w w' : World}

theorem Drv.toRead_bind_finished {a : α}
    (h : x.toRead env s w = some (.finished a, s', w')) :
    (x.bind f).toRead env s w = (f a).toRead env s' w' := by
  induction x generalizing s w with
  | done b => cases h; rfl
  | fault => cases h
  | get k ih => exact ih s h
  | set s₁ k ih => exact ih h
  | ask k ih => exact ih _ h
  | uninit n k ih => exact ih _ h
  | lseek off k ih => exact ih h
  | read count store k ih => cases h
  | write data k ih => exact ih _ h

theorem Drv.toRead_bind_inRead {count : Nat} {store : List UInt8 → σ → σ}
    {k : Int → List UInt8 → Drv σ α}
    (h : x.toRead env s w = some (.inRead count store k, s', w')) :
    (x.bind f).toRead env s w
      = some (.inRead count store fun ret data => (k ret data).bind f, s', w') := by
  induction x generalizing s w with
  | done b => cases h
  | fault => cases h
  | get k ih => exact ih s h
  | set s₁ k ih => exact ih h
  | ask k ih => exact ih _ h
  | uninit n k ih => exact ih _ h
  | lseek off k ih => exact ih h
  | read count store k ih => cases h; rfl
  | write data k ih => exact ih _ h

end Sequence

end Programs

/-! ## The pool -/

/-- A thread between calls, with a transfer asked for, or with the transfer made and the rest of
    its program before it. -/
inductive Thread (σ α κ : Type)
  | idle
  | asked (c : κ) (count : Nat) (store : List UInt8 → σ → σ) (k : Int → List UInt8 → Drv σ α)
  | answered (c : κ) (p : Drv σ α)

namespace Thread

variable {σ α κ : Type}

def isIdle : Thread σ α κ → Bool
  | idle => true
  | _ => false

def isAsked : Thread σ α κ → Bool
  | asked _ _ _ _ => true
  | _ => false

/-- The call under way and the rest of its program. -/
def rest? : Thread σ α κ → Option (κ × Drv σ α)
  | idle => none
  | asked c count store k => some (c, .read count store k)
  | answered c p => some (c, p)

theorem not_idle_of_rest {t : Thread σ α κ} {r : κ × Drv σ α} (h : t.rest? = some r) :
    t.isIdle ≠ true := by
  cases t with
  | idle => cases h
  | asked c count store k => exact Bool.false_ne_true
  | answered c p => exact Bool.false_ne_true

end Thread

/-- The threads `ι`, what they share, and the calls that have finished, each with its result. -/
structure Pool (ι σ α κ : Type) where
  st : σ
  world : World
  threads : ι → Thread σ α κ
  log : List (κ × α)

inductive PoolAct (ι κ : Type)
  | start (i : ι) (c : κ)
  | transfer (i : ι)
  | resume (i : ι)
deriving DecidableEq, Repr

def PoolAct.thread {ι κ : Type} : PoolAct ι κ → ι
  | .start i _ => i
  | .transfer i => i
  | .resume i => i

section Pool

variable {ι σ α κ : Type}

/-- Nobody has called anything. -/
def Pool.init (s : σ) (w : World) : Pool ι σ α κ := ⟨s, w, fun _ => .idle, []⟩

variable [DecidableEq ι]

/-- Thread `i`, in call `c`, runs `p` until it stops. -/
def Pool.advance (env : Env) (P : Pool ι σ α κ) (i : ι) (c : κ) (p : Drv σ α) :
    Option (Pool ι σ α κ) :=
  (p.toRead env P.st P.world).map fun r =>
    match r.1 with
    | .finished a =>
      ⟨r.2.1, r.2.2, Function.update P.threads i .idle, P.log ++ [(c, a)]⟩
    | .inRead count store k =>
      ⟨r.2.1, r.2.2, Function.update P.threads i (.asked c count store k), P.log⟩

/-- One turn of one thread. `prog` says what a call does. -/
def poolStep (env : Env) (prog : κ → Drv σ α) (P : Pool ι σ α κ) :
    PoolAct ι κ → Option (Pool ι σ α κ)
  | .start i c =>
    match P.threads i with
    | .idle => P.advance env i c (prog c)
    | _ => none
  | .transfer i =>
    match P.threads i with
    | .asked c count store k =>
      some { P with
        st := store (P.world.readData env count) P.st
        world := P.world.afterRead env count
        threads := Function.update P.threads i
          (.answered c (k (P.world.readRet env count) (P.world.readData env count))) }
    | _ => none
  | .resume i =>
    match P.threads i with
    | .answered c p => P.advance env i c p
    | _ => none

/-! Where a thread is when its turn comes. -/

section Turn

variable {env : Env} {prog : κ → Drv σ α} {P P' : Pool ι σ α κ} {i : ι}

theorem poolStep_start {c : κ} (hs : poolStep env prog P (.start i c) = some P') :
    P.threads i = .idle ∧ P.advance env i c (prog c) = some P' := by
  rw [poolStep] at hs
  cases hth : P.threads i with
  | idle => rw [hth] at hs; exact ⟨rfl, hs⟩
  | asked c' n st k => rw [hth] at hs; cases hs
  | answered c' p => rw [hth] at hs; cases hs

theorem poolStep_transfer (hs : poolStep env prog P (.transfer i) = some P') :
    ∃ c count store k, P.threads i = .asked c count store k ∧ P' = { P with
      st := store (P.world.readData env count) P.st
      world := P.world.afterRead env count
      threads := Function.update P.threads i
        (.answered c (k (P.world.readRet env count) (P.world.readData env count))) } := by
  rw [poolStep] at hs
  cases hth : P.threads i with
  | idle => rw [hth] at hs; cases hs
  | asked c n st k => rw [hth] at hs; exact ⟨c, n, st, k, rfl, (Option.some.inj hs).symm⟩
  | answered c p => rw [hth] at hs; cases hs

theorem poolStep_resume (hs : poolStep env prog P (.resume i) = some P') :
    ∃ c p, P.threads i = .answered c p ∧ P.advance env i c p = some P' := by
  rw [poolStep] at hs
  cases hth : P.threads i with
  | idle => rw [hth] at hs; cases hs
  | asked c n st k => rw [hth] at hs; cases hs
  | answered c p => rw [hth] at hs; exact ⟨c, p, rfl, hs⟩

/-- Running on changes nobody else's place. -/
theorem advance_others {c : κ} {p : Drv σ α} (hs : P.advance env i c p = some P') :
    ∀ j, j ≠ i → P'.threads j = P.threads j := by
  intro j hj
  obtain ⟨⟨stop, s, w⟩, -, rfl⟩ := Option.map_eq_some_iff.mp hs
  cases stop with
  | finished a => exact Function.update_of_ne hj _ _
  | inRead count store k => exact Function.update_of_ne hj _ _

end Turn

/-- The calls one after the other. -/
def seqRun (env : Env) (prog : κ → Drv σ α) : List κ → σ → World → Option (List α × σ × World)
  | [], s, w => some ([], s, w)
  | c :: cs, s, w =>
    ((prog c).run env s w).bind fun r =>
      (seqRun env prog cs r.2.1 r.2.2).map fun rs => (r.1 :: rs.1, rs.2)

/-- Some order of the finished calls, run one after the other, gives each its result. -/
def Sequential (env : Env) (prog : κ → Drv σ α) (s : σ) (w : World) (log : List (κ × α)) : Prop :=
  ∃ (order : List (κ × α)) (s' : σ) (w' : World), order.Perm log ∧
    seqRun env prog (order.map Prod.fst) s w = some (order.map Prod.snd, s', w')

end Pool

/-! ## Threads that take turns -/

section Turns

variable {ι σ α κ β : Type}

/-- All that is left of the program is to look at `view` of the shared state. -/
def Drv.JustLooks (view : σ → β) (p : Drv σ α) : Prop :=
  ∃ g : β → α, p = .get fun s => .done (g (view s))

/-- The thread needs nothing of the others but that they leave `view` as it is. -/
def Thread.Settled (view : σ → β) : Thread σ α κ → Prop
  | .idle => True
  | .asked _ _ _ _ => False
  | .answered _ p => p.JustLooks view

variable [DecidableEq ι]

/-- The thread that moves only has to look; or all the others are settled, and the step leaves
    `view` as it is or finds them idle. -/
def InTurn (env : Env) (prog : κ → Drv σ α) (view : σ → β) (P : Pool ι σ α κ)
    (act : PoolAct ι κ) : Prop :=
  (∃ i, act = .resume i ∧ (P.threads i).Settled view) ∨
  (∀ j, j ≠ act.thread → (P.threads j).Settled view) ∧
    ((∀ P', poolStep env prog P act = some P' → view P'.st = view P.st) ∨
      ∀ j, j ≠ act.thread → (P.threads j).isIdle = true)

variable {env : Env} {prog : κ → Drv σ α} {view : σ → β}

theorem inTurn_of_idle {P : Pool ι σ α κ} {act : PoolAct ι κ}
    (h : ∀ j, j ≠ act.thread → (P.threads j).isIdle = true) : InTurn env prog view P act := by
  refine .inr ⟨fun j hj => ?_, .inr h⟩
  have hidle := h j hj
  cases hth : P.threads j with
  | idle => trivial
  | asked c count store k => rw [hth] at hidle; cases hidle
  | answered c p => rw [hth] at hidle; cases hidle

/-- One more call at the end. -/
theorem seqRun_append {cs : List κ} {c : κ} {s s₁ s₂ : σ} {w w₁ w₂ : World} {as : List α} {a : α}
    (h : seqRun env prog cs s w = some (as, s₁, w₁))
    (hc : (prog c).run env s₁ w₁ = some (a, s₂, w₂)) :
    seqRun env prog (cs ++ [c]) s w = some (as ++ [a], s₂, w₂) := by
  induction cs generalizing s w as with
  | nil =>
    cases h
    simp only [List.nil_append, seqRun, hc, Option.bind_some, Option.map_some]
  | cons b bs ih =>
    obtain ⟨r, hr, hrest⟩ := Option.bind_eq_some_iff.mp h
    obtain ⟨q, hq, heq⟩ := Option.map_eq_some_iff.mp hrest
    obtain ⟨bs', s', w'⟩ := q
    simp only [Prod.mk.injEq] at heq
    obtain ⟨rfl, rfl, rfl⟩ := heq
    simp only [List.cons_append, seqRun, hr, Option.bind_some, ih hq, Option.map_some]

/-- The thread has only to look, and will see `a`. -/
def Looks (view : σ → β) (P : Pool ι σ α κ) (i : ι) (c : κ) (a : α) : Prop :=
  ∃ g : β → α, P.threads i = .answered c (.get fun s => .done (g (view s))) ∧ g (view P.st) = a

/-- `order` is the finished calls and those of the threads that only have to look, run one after
    the other from the start; it ends in `s₁` and `w₁`. -/
structure Ordered (env : Env) (prog : κ → Drv σ α) (view : σ → β) (s : σ) (w : World)
    (P : Pool ι σ α κ) (looking : List (ι × κ × α)) (s₁ : σ) (w₁ : World) : Prop where
  order : ∃ order : List (κ × α), order.Perm (P.log ++ looking.map Prod.snd) ∧
    seqRun env prog (order.map Prod.fst) s w = some (order.map Prod.snd, s₁, w₁)
  nodup : (looking.map Prod.fst).Nodup
  looks : ∀ e ∈ looking, Looks view P e.1 e.2.1 e.2.2

/-- Nobody is between the beginning of a call and its last look, or one thread is, and began
    where the others ended. -/
inductive TurnInv (env : Env) (prog : κ → Drv σ α) (view : σ → β) (s : σ) (w : World)
    (P : Pool ι σ α κ) : Prop
  | quiet (looking : List (ι × κ × α))
      (hidle : ∀ j, j ∉ looking.map Prod.fst → (P.threads j).isIdle = true)
      (hord : Ordered env prog view s w P looking P.st P.world)
  | busy (looking : List (ι × κ × α)) (i : ι) (c : κ) (p : Drv σ α) (s₁ : σ) (w₁ : World)
      (hi : i ∉ looking.map Prod.fst)
      (hidle : ∀ j, j ≠ i → j ∉ looking.map Prod.fst → (P.threads j).isIdle = true)
      (hrest : (P.threads i).rest? = some (c, p))
      (hord : Ordered env prog view s w P looking s₁ w₁)
      (hrun : (prog c).run env s₁ w₁ = p.run env P.st P.world)

variable {s s₁ s₂ : σ} {w w₁ w₂ : World} {P P' : Pool ι σ α κ} {looking : List (ι × κ × α)}
variable {i : ι} {c : κ} {a : α} {p : Drv σ α}

omit [DecidableEq ι] in
theorem Looks.keep (h : Looks view P i c a) (hth : P'.threads i = P.threads i)
    (hview : view P'.st = view P.st) : Looks view P' i c a := by
  obtain ⟨g, hg, ha⟩ := h
  exact ⟨g, hth.trans hg, by rw [hview, ha]⟩

omit [DecidableEq ι] in
theorem Looks.not_idle (h : Looks view P i c a) : (P.threads i).isIdle = false := by
  obtain ⟨g, hg, -⟩ := h
  rw [hg]
  rfl

omit [DecidableEq ι] in
theorem Looks.settled (h : Looks view P i c a) : (P.threads i).Settled view := by
  obtain ⟨g, hg, -⟩ := h
  rw [hg]
  exact ⟨g, rfl⟩

omit [DecidableEq ι] in
theorem Ordered.not_mem (h : Ordered env prog view s w P looking s₁ w₁)
    (hno : ∀ c a, ¬ Looks view P i c a) : i ∉ looking.map Prod.fst := by
  intro hmem
  obtain ⟨e, he, rfl⟩ := List.mem_map.mp hmem
  exact hno _ _ (h.looks e he)

omit [DecidableEq ι] in
/-- One more call in the order. -/
theorem Ordered.extend {looking' : List (ι × κ × α)}
    (h : Ordered env prog view s w P looking s₁ w₁)
    (hrun : (prog c).run env s₁ w₁ = some (a, s₂, w₂))
    (hperm : (P'.log ++ looking'.map Prod.snd).Perm
      ((P.log ++ looking.map Prod.snd) ++ [(c, a)]))
    (hnodup : (looking'.map Prod.fst).Nodup)
    (hlooks : ∀ e ∈ looking', Looks view P' e.1 e.2.1 e.2.2) :
    Ordered env prog view s w P' looking' s₂ w₂ := by
  obtain ⟨order, hord, hseq⟩ := h.order
  refine ⟨⟨order ++ [(c, a)], (hord.append_right _).trans hperm.symm, ?_⟩, hnodup, hlooks⟩
  rw [List.map_append, List.map_append]
  exact seqRun_append hseq hrun

omit [DecidableEq ι] in
/-- A thread that got so far that it only has to look is as good as finished. -/
theorem Ordered.settle (h : Ordered env prog view s w P looking s₁ w₁)
    (hi : i ∉ looking.map Prod.fst) (hrest : (P.threads i).rest? = some (c, p))
    (hrun : (prog c).run env s₁ w₁ = p.run env P.st P.world)
    (hset : (P.threads i).Settled view) :
    ∃ a, Ordered env prog view s w P (looking ++ [(i, c, a)]) P.st P.world := by
  cases hth : P.threads i with
  | idle => rw [hth] at hrest; cases hrest
  | asked c' count store k => rw [hth] at hset; cases hset
  | answered c' p' =>
    rw [hth] at hrest hset
    cases hrest
    obtain ⟨g, rfl⟩ := hset
    refine ⟨g (view P.st), h.extend hrun ?_ ?_ ?_⟩
    · simp
    · rw [List.map_append, List.nodup_append]
      refine ⟨h.nodup, by simp, fun x hx y hy => ?_⟩
      rw [List.mem_singleton.mp hy]
      rintro rfl
      exact hi hx
    · intro e he
      rcases List.mem_append.mp he with hold | hnew
      · exact h.looks e hold
      · rw [List.mem_singleton.mp hnew]
        exact ⟨g, hth, rfl⟩

/-- A thread that looks and ends moves from those that look to those that have finished. -/
theorem Ordered.look {l₁ l₂ : List (ι × κ × α)}
    (h : Ordered env prog view s w P (l₁ ++ (i, c, a) :: l₂) s₁ w₁) :
    Ordered env prog view s w
      ⟨P.st, P.world, Function.update P.threads i .idle, P.log ++ [(c, a)]⟩ (l₁ ++ l₂) s₁ w₁ := by
  obtain ⟨order, hord, hseq⟩ := h.order
  have hnodup := h.nodup
  rw [List.map_append, List.map_cons, List.perm_middle.nodup_iff, ← List.map_append,
    List.nodup_cons] at hnodup
  refine ⟨⟨order, hord.trans ?_, hseq⟩, hnodup.2, fun e he => ?_⟩
  · simp only [List.map_append, List.map_cons, List.append_assoc]
    exact (List.perm_middle.append_left _)
  · have hne : e.1 ≠ i := fun heq => hnodup.1 (List.mem_map.mpr ⟨e, he, heq⟩)
    have hmem : e ∈ l₁ ++ (i, c, a) :: l₂ := by
      rcases List.mem_append.mp he with h₁ | h₂
      · exact List.mem_append_left _ h₁
      · exact List.mem_append_right _ (List.mem_cons_of_mem _ h₂)
    exact (h.looks e hmem).keep (Function.update_of_ne hne _ _) rfl

/-- A thread among those that look is about to return the result it has there. -/
theorem Ordered.split_look (h : Ordered env prog view s w P looking s₁ w₁)
    (hmem : i ∈ looking.map Prod.fst) (hth : P.threads i = .answered c p)
    (hadv : P.advance env i c p = some P') :
    ∃ a l₁ l₂, looking = l₁ ++ (i, c, a) :: l₂ ∧
      P' = ⟨P.st, P.world, Function.update P.threads i .idle, P.log ++ [(c, a)]⟩ := by
  obtain ⟨⟨i', c', a⟩, he, hi'⟩ := List.mem_map.mp hmem
  obtain rfl : i' = i := hi'
  obtain ⟨g, hg, rfl⟩ : Looks view P i' c' a := h.looks _ he
  rw [hth, Thread.answered.injEq] at hg
  obtain ⟨rfl, rfl⟩ := hg
  obtain ⟨l₁, l₂, rfl⟩ := List.append_of_mem he
  cases hadv
  exact ⟨_, l₁, l₂, rfl, rfl⟩

theorem isIdle_update_idle {threads : ι → Thread σ α κ} {j : ι}
    (h : j ≠ i → (threads j).isIdle = true) :
    (Function.update threads i .idle j).isIdle = true := by
  by_cases hji : j = i
  · rw [hji, Function.update_self]
    rfl
  · rw [Function.update_of_ne hji]
    exact h hji

omit [DecidableEq ι] in
theorem not_mem_looking {l₁ l₂ : List (ι × κ × α)} {j : ι} (a : α) (hj : j ≠ i)
    (h : j ∉ (l₁ ++ l₂).map Prod.fst) : j ∉ (l₁ ++ (i, c, a) :: l₂).map Prod.fst := by
  simp only [List.map_append, List.mem_append, not_or] at h
  simp [h.1, h.2, hj]

/-- A thread that has only to look may go on at any time. -/
theorem TurnInv.look (h : TurnInv env prog view s w P) (hth : P.threads i = .answered c p)
    (hset : (P.threads i).Settled view) (hadv : P.advance env i c p = some P') :
    TurnInv env prog view s w P' := by
  have hnot : (P.threads i).isIdle ≠ true := by rw [hth]; exact Bool.false_ne_true
  cases h with
  | quiet looking hidle hord =>
    have hmem : i ∈ looking.map Prod.fst := by
      by_contra hno
      exact hnot (hidle i hno)
    obtain ⟨a, l₁, l₂, rfl, rfl⟩ := hord.split_look hmem hth hadv
    exact .quiet (l₁ ++ l₂) (fun j hj => isIdle_update_idle fun hji =>
      hidle j (not_mem_looking a hji hj)) hord.look
  | busy looking b cb pb s₁ w₁ hb hidle hrest hord hrun =>
    by_cases hbi : b = i
    · -- the busy thread itself: it is put among those that look first
      subst hbi
      obtain ⟨a, hord'⟩ := hord.settle hb hrest hrun hset
      obtain ⟨a', l₁, l₂, hl, rfl⟩ := hord'.split_look (by simp) hth hadv
      rw [hl] at hord'
      refine .quiet (l₁ ++ l₂) (fun j hj => isIdle_update_idle fun hji => ?_) hord'.look
      have hout := not_mem_looking (c := c) a' hji hj
      rw [← hl, List.map_append, List.mem_append, not_or] at hout
      exact hidle j hji hout.1
    · have hmem : i ∈ looking.map Prod.fst := by
        by_contra hno
        exact hnot (hidle i (Ne.symm hbi) hno)
      obtain ⟨a, l₁, l₂, rfl, rfl⟩ := hord.split_look hmem hth hadv
      refine .busy (l₁ ++ l₂) b cb pb s₁ w₁ (fun hmem => hb ?_) (fun j hj hout =>
        isIdle_update_idle fun hji => hidle j hj (not_mem_looking a hji hout)) ?_ hord.look hrun
      · rw [List.map_append, List.map_cons]
        rw [List.map_append] at hmem
        exact List.perm_middle.mem_iff.mpr (List.mem_cons_of_mem _ hmem)
      · simpa [Function.update_of_ne hbi] using hrest

/-- A thread between the beginning of a call and its last look is the only one. -/
theorem TurnInv.of_unsettled (h : TurnInv env prog view s w P)
    (hset : ¬ (P.threads i).Settled view) (hrest : (P.threads i).rest? = some (c, p)) :
    ∃ looking s₁ w₁, i ∉ looking.map Prod.fst ∧
      (∀ j, j ≠ i → j ∉ looking.map Prod.fst → (P.threads j).isIdle = true) ∧
      Ordered env prog view s w P looking s₁ w₁ ∧
      (prog c).run env s₁ w₁ = p.run env P.st P.world := by
  have hno : ∀ c a, ¬ Looks view P i c a := fun _ _ hlook => hset hlook.settled
  have hbusy := Thread.not_idle_of_rest hrest
  cases h with
  | quiet looking hidle hord => exact absurd (hidle i (hord.not_mem hno)) hbusy
  | busy looking b cb pb s₁ w₁ hb hidle hrest' hord hrun =>
    obtain rfl : i = b := by
      by_contra hne
      exact hbusy (hidle i hne (hord.not_mem hno))
    rw [hrest, Option.some.injEq, Prod.mk.injEq] at hrest'
    obtain ⟨rfl, rfl⟩ := hrest'
    exact ⟨looking, s₁, w₁, hb, hidle, hord, hrun⟩

/-- Thread `i` runs on, in a call that began where the others ended. -/
theorem turnInv_advance
    (hi : i ∉ looking.map Prod.fst)
    (hidle : ∀ j, j ≠ i → j ∉ looking.map Prod.fst → (P.threads j).isIdle = true)
    (hord : Ordered env prog view s w P looking s₁ w₁)
    (hrun : (prog c).run env s₁ w₁ = p.run env P.st P.world)
    (hadv : P.advance env i c p = some P')
    (hview : ∀ e ∈ looking, Looks view P' e.1 e.2.1 e.2.2) : TurnInv env prog view s w P' := by
  obtain ⟨⟨stop, s₂, w₂⟩, hstop, rfl⟩ := Option.map_eq_some_iff.mp hadv
  rw [Drv.run_toRead (p := p), hstop, Option.bind_some] at hrun
  cases stop with
  | finished a =>
    refine .quiet looking (fun j hj => isIdle_update_idle fun hji => hidle j hji hj)
      (hord.extend hrun ?_ hord.nodup hview)
    simp only [List.append_assoc]
    exact List.Perm.append_left _ List.perm_append_comm
  | inRead count store k =>
    refine .busy looking i c (.read count store k) s₁ w₁ hi (fun j hj hout => ?_) ?_
      ⟨hord.order, hord.nodup, hview⟩ hrun
    · simpa [Function.update_of_ne hj] using hidle j hj hout
    · simp [Thread.rest?]

theorem TurnInv.step {act : PoolAct ι κ} (h : TurnInv env prog view s w P)
    (hc : InTurn env prog view P act) (hs : poolStep env prog P act = some P') :
    TurnInv env prog view s w P' := by
  rcases hc with ⟨i, rfl, hset⟩ | ⟨hset, hkeep⟩
  · obtain ⟨c, p, hth, hadv⟩ := poolStep_resume hs
    exact h.look hth hset hadv
  -- a step that may change `view` finds nobody who looks at it
  have hlooks : ∀ {looking : List (ι × κ × α)} {s₁ : σ} {w₁ : World},
      Ordered env prog view s w P looking s₁ w₁ → act.thread ∉ looking.map Prod.fst →
      (∀ j, j ≠ act.thread → P'.threads j = P.threads j) →
      ∀ e ∈ looking, Looks view P' e.1 e.2.1 e.2.2 := by
    intro looking s₁ w₁ hord hout hthreads e he
    have hne : e.1 ≠ act.thread := by
      intro heq
      exact hout (heq ▸ List.mem_map_of_mem he)
    rcases hkeep with hview | hidle
    · exact (hord.looks e he).keep (hthreads _ hne) (hview P' hs)
    · have hno := (hord.looks e he).not_idle
      rw [hidle _ hne] at hno
      cases hno
  cases act with
  | start i c =>
    obtain ⟨hth, hadv⟩ := poolStep_start hs
    have hno : ∀ c a, ¬ Looks view P i c a := by
      intro c' a hlook
      have hidle := hlook.not_idle
      rw [hth] at hidle
      cases hidle
    cases h with
    | quiet looking hidle hord =>
      exact turnInv_advance (hord.not_mem hno) (fun j _ hj => hidle j hj) hord rfl hadv
        (hlooks hord (hord.not_mem hno) (advance_others hadv))
    | busy looking b cb pb s₁ w₁ hb hidle hrest hord hrun =>
      have hbi : b ≠ i := by
        rintro rfl
        rw [hth] at hrest
        cases hrest
      obtain ⟨a, hord'⟩ := hord.settle hb hrest hrun (hset b hbi)
      refine turnInv_advance (hord'.not_mem hno) (fun j _ hj => ?_) hord' rfl hadv
        (hlooks hord' (hord'.not_mem hno) (advance_others hadv))
      rw [List.map_append, List.mem_append, not_or] at hj
      exact hidle j (fun hjb => hj.2 (by simp [hjb])) hj.1
  | transfer i =>
    obtain ⟨c, count, store, k, hth, rfl⟩ := poolStep_transfer hs
    obtain ⟨looking, s₁, w₁, hi, hidle, hord, hrun⟩ :=
      h.of_unsettled (by rw [hth]; exact id) (show (P.threads i).rest? = some _ by rw [hth]; rfl)
    refine .busy looking i c _ s₁ w₁ hi (fun j hj hout => ?_) (by simp [Thread.rest?])
      ⟨hord.order, hord.nodup, hlooks hord hi fun j hj => Function.update_of_ne hj _ _⟩ hrun
    simpa [Function.update_of_ne hj] using hidle j hj hout
  | resume i =>
    obtain ⟨c, p, hth, hadv⟩ := poolStep_resume hs
    by_cases hlast : (P.threads i).Settled view
    · exact h.look hth hlast hadv
    · obtain ⟨looking, s₁, w₁, hi, hidle, hord, hrun⟩ :=
        h.of_unsettled hlast (show (P.threads i).rest? = some _ by rw [hth]; rfl)
      exact turnInv_advance hi hidle hord hrun hadv (hlooks hord hi (advance_others hadv))

/-- **Calls that take turns are sequential**, in the order in which they began. -/
theorem sequential_of_turns {acts : List (PoolAct ι κ)}
    (hmeets : MeetsAll (poolStep env prog) (InTurn env prog view) (Pool.init s w) acts)
    (hrun : runActs (poolStep env prog) (Pool.init s w) acts = some P)
    (hend : ∀ i, (P.threads i).isIdle = true) : Sequential env prog s w P.log := by
  have hinv : TurnInv env prog view s w P :=
    invariant_of_step (I := TurnInv env prog view s w) (fun _ _ _ h hc hs => h.step hc hs) acts _ P
      (.quiet [] (fun _ _ => rfl) ⟨⟨[], .nil, rfl⟩, .nil, fun e he => absurd he List.not_mem_nil⟩)
      hmeets hrun
  cases hinv with
  | quiet looking hidle hord =>
    obtain ⟨order, hperm, hseq⟩ := hord.order
    have hnil : looking = [] := by
      cases looking with
      | nil => rfl
      | cons e es =>
        have hno := (hord.looks e List.mem_cons_self).not_idle
        rw [hend] at hno
        cases hno
    subst hnil
    rw [List.map_nil, List.append_nil] at hperm
    exact ⟨order, _, _, hperm, hseq⟩
  | busy looking i c p s₁ w₁ hi hidle hrest hord hrun =>
    exact absurd (hend i) (Thread.not_idle_of_rest hrest)

end Turns

end Umka.Lib
