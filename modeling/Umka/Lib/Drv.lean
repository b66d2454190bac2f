import Umka.Lib.Block

/-!
# Driver programs over a seekable host file

A driver is C code that owns some state, holds one file descriptor, and talks to the host
through `lseek`, `read` and `write`. `Drv σ α` is such a program as a tree: one node for each
interaction, one branch for each answer. Two readings of the same tree are what the
development needs, and both are given over it:

* `Drv.run`, start to finish with nobody else on the descriptor (this file);
* the interleaved one, where a program stops inside every `read` and other programs may go on
  from there (`Umka/Lib/Interleave.lean`).

Everything the host decides is an *oracle*: `Env` answers the `i`-th question, so a theorem
that quantifies over `Env` quantifies over every behaviour of the host. Undefined behaviour
is the `fault` node; a run that reaches it has no outcome.
-/

set_option autoImplicit false

namespace Umka.Lib

/-! ## The host file -/

/-- A regular file: how long it is and what it holds. `off_t` is signed, so no file reaches
    `2^63` bytes. -/
structure HostFile where
  size : Nat
  byte : Nat → UInt8
  size_lt : size < 2 ^ 63

namespace HostFile

/-- The byte at `pos`; past the end of the file a byte counts as zero. -/
def byteAt (f : HostFile) (pos : Nat) : UInt8 := if pos < f.size then f.byte pos else 0

/-- The `n` bytes from `pos` on. -/
def span (f : HostFile) (pos n : Nat) : List UInt8 := (List.range n).map fun i => f.byteAt (pos + i)

@[simp] theorem length_span {f : HostFile} {pos n : Nat} : (f.span pos n).length = n := by
  simp [span]

theorem getD_span {f : HostFile} {pos n i : Nat} (hi : i < n) :
    (f.span pos n).getD i 0 = f.byteAt (pos + i) := by
  simp [span, List.getD_eq_getElem?_getD, hi]

/-- A piece of a span is the span at the piece's own place. -/
theorem take_drop_span {f : HostFile} {pos n off len : Nat} (h : off + len ≤ n) :
    ((f.span pos n).drop off).take len = f.span (pos + off) len := by
  apply List.ext_getElem
  · simp only [List.length_take, List.length_drop, length_span]
    omega
  · intro i h₁ h₂
    simp [span, Nat.add_assoc]

theorem byteAt_of_span {f : HostFile} {pos n i : Nat} {v : UInt8}
    (h : f.span pos n = List.replicate n v) (hi : i < n) : f.byteAt (pos + i) = v := by
  have hget : (f.span pos n)[i]? = some v := by
    rw [h]
    simp [hi]
  simpa [span, hi] using hget

/-- The file after `data` has been written at `pos`; `none` when it would outgrow `off_t`. -/
def splice (f : HostFile) (pos : Nat) (data : List UInt8) : Option HostFile :=
  if h : pos + data.length < 2 ^ 63 then
    some { size := max f.size (pos + data.length)
           byte := fun i => if pos ≤ i ∧ i < pos + data.length
             then data.getD (i - pos) 0 else f.byteAt i
           size_lt := by have := f.size_lt; omega }
  else none

/-- The bytes are where they were written, and everything else is as it was. -/
theorem splice_fits (f : HostFile) {pos : Nat} {data : List UInt8}
    (h : pos + data.length < 2 ^ 63) :
    ∃ g, f.splice pos data = some g ∧ g.size = max f.size (pos + data.length)
      ∧ ∀ i, g.byteAt i
          = if pos ≤ i ∧ i < pos + data.length then data.getD (i - pos) 0 else f.byteAt i := by
  refine ⟨_, dif_pos h, rfl, fun i => ?_⟩
  rw [byteAt]
  by_cases hi : i < max f.size (pos + data.length)
  · exact if_pos hi
  · rw [if_neg hi, if_neg (by omega), byteAt, if_neg (by omega)]

end HostFile

/-! ## What the host decides -/

/-- How one transfer ends: it fails (`-1`), it moves at most `n` bytes, or it moves all it can. -/
inductive Outcome
  | error
  | atMost (n : Nat)
  | full
deriving DecidableEq, Repr

/-- How much of `avail` bytes a transfer moves; `none` is the failing one. -/
def Outcome.moved : Outcome → Nat → Option Nat
  | .error, _ => none
  | .atMost n, avail => some (min n avail)
  | .full, avail => some avail

/-- The host's answers, by the number of questions asked before: how a transfer ends, whether
    an `open` or an allocation succeeds, and what an uninitialised object holds. -/
structure Env where
  outcome : Nat → Outcome
  answer : Nat → Bool
  junk : Nat → Nat → UInt8

/-- Every transfer moves all the bytes the file has for it. -/
def Env.AllFull (env : Env) : Prop := ∀ t, env.outcome t = .full

/-- A host that does all it is asked, and whose memory comes zeroed. -/
def Env.willing : Env := ⟨fun _ => .full, fun _ => true, fun _ _ => 0⟩

theorem Env.allFull_willing : Env.willing.AllFull := fun _ => rfl

/-- How the descriptor was opened. -/
inductive OpenMode
  | rdonly
  | rdwr
deriving DecidableEq, Repr

/-- One transfer: the bytes asked for, the bytes there were, and how many moved. -/
structure Transfer where
  count : Nat
  avail : Nat
  moved : Option Nat
deriving DecidableEq, Repr

/-- An error, or fewer bytes than were asked for and there. -/
def Transfer.Failed (t : Transfer) : Prop := t.moved ≠ some (min t.count t.avail)

/-- The file behind the descriptor, the descriptor's position, the question counter, and the
    transfers so far, the latest first. No program can look at the last two: they number the
    host's answers and keep a record of them. -/
structure World where
  file : HostFile
  mode : OpenMode
  pos : Nat
  tick : Nat
  log : List Transfer

namespace World

/-- One more question asked. -/
def next (w : World) : World := { w with tick := w.tick + 1 }

/-- `lseek(fd, off, SEEK_SET)`: a negative offset is `EINVAL` and moves nothing. -/
def lseek (w : World) (off : Int) : World :=
  if 0 ≤ off then { w with pos := off.toNat } else w

/-- How many bytes the next transfer of `count` bytes moves. -/
def readCount (w : World) (env : Env) (count : Nat) : Option Nat :=
  (env.outcome w.tick).moved (min count (w.file.size - w.pos))

/-- `read`'s return value. -/
def readRet (w : World) (env : Env) (count : Nat) : Int :=
  match w.readCount env count with
  | none => -1
  | some k => k

/-- The bytes `read` stores. -/
def readData (w : World) (env : Env) (count : Nat) : List UInt8 :=
  w.file.span w.pos ((w.readCount env count).getD 0)

/-- The world after `read`. -/
def afterRead (w : World) (env : Env) (count : Nat) : World :=
  { w.next with
    pos := w.pos + (w.readCount env count).getD 0
    log := ⟨count, w.file.size - w.pos, w.readCount env count⟩ :: w.log }

/-- `write`: `EBADF` on a descriptor opened for reading, else what the host moves of `data`. -/
def write (w : World) (env : Env) (data : List UInt8) : Int × World :=
  let failed : World := { w.next with log := ⟨data.length, data.length, none⟩ :: w.log }
  match w.mode, (env.outcome w.tick).moved data.length with
  | .rdonly, _ => (-1, failed)
  | .rdwr, none => (-1, failed)
  | .rdwr, some k =>
    match w.file.splice w.pos (data.take k) with
    | none => (-1, failed)
    | some f => (k, { w.next with
        file := f
        pos := w.pos + k
        log := ⟨data.length, data.length, some k⟩ :: w.log })

/-! ### Transfers that move every byte asked for -/

/-- The next transfer of `count` bytes is a whole one. -/
def Whole (w : World) (env : Env) (count : Nat) : Prop := w.readCount env count = some count

variable {w : World} {env : Env} {count : Nat}

theorem Whole.readRet (h : w.Whole env count) : w.readRet env count = count := by
  unfold World.readRet
  rw [h]

theorem Whole.readData (h : w.Whole env count) :
    w.readData env count = w.file.span w.pos count := by
  unfold World.readData
  rw [h]
  rfl

theorem readRet_eq_iff {m : Nat} :
    w.readRet env count = m ↔ w.readCount env count = some m := by
  unfold World.readRet
  cases w.readCount env count with
  | none => simp
  | some k =>
    rw [Option.some.injEq]
    exact Int.ofNat_inj

theorem readRet_ne_zero {m : Nat} (h : w.readCount env count = some m) (hm : 0 < m) :
    w.readRet env count ≠ 0 := by
  intro h0
  rw [readRet_eq_iff.mp h0, Option.some.injEq] at h
  exact Nat.ne_of_lt hm h

theorem readCount_le {m : Nat} (h : w.readCount env count = some m) : m ≤ count := by
  unfold readCount at h
  cases ho : env.outcome w.tick <;> rw [ho] at h <;>
    simp only [Outcome.moved, Option.some.injEq, reduceCtorEq] at h <;> omega

theorem whole_of_full (ho : env.outcome w.tick = .full) (hin : w.pos + count ≤ w.file.size) :
    w.Whole env count := by
  unfold Whole readCount
  rw [ho]
  simp only [Outcome.moved, Option.some.injEq]
  omega

/-- Only bytes the file has are moved. -/
theorem Whole.in_file (h : w.Whole env count) (hc : 0 < count) : w.pos + count ≤ w.file.size := by
  unfold Whole readCount at h
  cases ho : env.outcome w.tick <;> rw [ho] at h <;>
    simp only [Outcome.moved, Option.some.injEq, reduceCtorEq] at h <;> omega

/-- A transfer made between the two worlds failed. -/
def FailedSince (w w' : World) : Prop := ∃ ts t, w'.log = ts ++ w.log ∧ t ∈ ts ∧ t.Failed

/-- Every transfer made between the two worlds went through. -/
def Quiet (w w' : World) : Prop := ∃ ts, w'.log = ts ++ w.log ∧ ∀ t ∈ ts, ¬ t.Failed

theorem Quiet.refl (w : World) : w.Quiet w := ⟨[], rfl, by simp⟩

theorem Quiet.trans {w₁ w₂ w₃ : World} (h₁ : w₁.Quiet w₂) (h₂ : w₂.Quiet w₃) : w₁.Quiet w₃ := by
  obtain ⟨ts, hts, hok⟩ := h₁
  obtain ⟨us, hus, hok'⟩ := h₂
  refine ⟨us ++ ts, by rw [hus, hts, List.append_assoc], fun t ht => ?_⟩
  rcases List.mem_append.mp ht with hu | ht
  · exact hok' t hu
  · exact hok t ht

theorem Quiet.not_failedSince {w' : World} (h : w.Quiet w') : ¬ w.FailedSince w' := by
  rintro ⟨us, t, hus, ht, hfail⟩
  obtain ⟨ts, hts, hok⟩ := h
  rw [hts, List.append_cancel_right_eq] at hus
  exact hok t (hus ▸ ht) hfail

/-- Only the record says whether two worlds are quiet. -/
theorem Quiet.of_log_eq {w' w'' : World} (h : w.Quiet w') (hl : w''.log = w'.log) :
    w.Quiet w'' := by
  obtain ⟨ts, hts, hok⟩ := h
  exact ⟨ts, hl.trans hts, hok⟩

theorem Whole.quiet (h : w.Whole env count) (hc : 0 < count) :
    w.Quiet (w.afterRead env count) := by
  have hin := h.in_file hc
  refine ⟨[⟨count, w.file.size - w.pos, some count⟩], ?_, fun t ht => ?_⟩
  · unfold World.afterRead
    rw [h]
    rfl
  · rw [List.mem_singleton.mp ht]
    unfold Transfer.Failed
    simp only [ne_eq, Option.some.injEq, not_not]
    omega

theorem quiet_of_not_failedSince {w' : World} (hl : ∃ ts, w'.log = ts ++ w.log)
    (h : ¬ w.FailedSince w') : w.Quiet w' := by
  obtain ⟨ts, hts⟩ := hl
  exact ⟨ts, hts, fun t ht hfail => h ⟨ts, t, hts, ht, hfail⟩⟩

theorem log_write (w : World) (env : Env) (data : List UInt8) :
    ∃ t, (w.write env data).2.log = t :: w.log := by
  unfold write
  split
  · exact ⟨_, rfl⟩
  · exact ⟨_, rfl⟩
  · split
    · exact ⟨_, rfl⟩
    · exact ⟨_, rfl⟩

@[simp] theorem log_next : w.next.log = w.log := rfl

@[simp] theorem log_lseek {off : Int} : (w.lseek off).log = w.log := by
  unfold World.lseek
  split <;> rfl

@[simp] theorem file_next : w.next.file = w.file := rfl

@[simp] theorem pos_next : w.next.pos = w.pos := rfl

@[simp] theorem tick_next : w.next.tick = w.tick + 1 := rfl

@[simp] theorem file_afterRead : (w.afterRead env count).file = w.file := rfl

@[simp] theorem mode_afterRead : (w.afterRead env count).mode = w.mode := rfl

@[simp] theorem tick_afterRead : (w.afterRead env count).tick = w.tick + 1 := rfl

@[simp] theorem file_lseek {off : Int} : (w.lseek off).file = w.file := by
  unfold World.lseek
  split <;> rfl

@[simp] theorem mode_lseek {off : Int} : (w.lseek off).mode = w.mode := by
  unfold World.lseek
  split <;> rfl

@[simp] theorem tick_lseek {off : Int} : (w.lseek off).tick = w.tick := by
  unfold World.lseek
  split <;> rfl

@[simp] theorem pos_lseek_nat {off : Nat} : (w.lseek off).pos = off := by
  simp [World.lseek]

end World

/-! ## Programs -/

/-- A driver program with private state `σ` and result `α`. -/
inductive Drv (σ α : Type) where
  | done (a : α)
  | fault
  | get (k : σ → Drv σ α)
  | set (s : σ) (k : Drv σ α)
  /-- A yes-or-no answer of the host: did `open`, did `malloc` succeed? -/
  | ask (k : Bool → Drv σ α)
  /-- An object of `n` bytes nobody has written yet. -/
  | uninit (n : Nat) (k : Block n → Drv σ α)
  | lseek (off : Int) (k : Drv σ α)
  /-- A transfer; `store` is what the arriving bytes do to the private state. -/
  | read (count : Nat) (store : List UInt8 → σ → σ) (k : Int → List UInt8 → Drv σ α)
  | write (data : List UInt8) (k : Int → Drv σ α)

namespace Drv

variable {σ α β : Type}

def bind : Drv σ α → (α → Drv σ β) → Drv σ β
  | done a, f => f a
  | fault, _ => fault
  | get k, f => get fun s => (k s).bind f
  | set s k, f => set s (k.bind f)
  | ask k, f => ask fun b => (k b).bind f
  | uninit n k, f => uninit n fun b => (k b).bind f
  | lseek off k, f => lseek off (k.bind f)
  | read count store k, f => read count store fun r d => (k r d).bind f
  | write data k, f => write data fun r => (k r).bind f

instance : Monad (Drv σ) where
  pure := done
  bind := bind

theorem bind_assoc {γ : Type} (x : Drv σ α) (f : α → Drv σ β) (h : β → Drv σ γ) :
    (x.bind f).bind h = x.bind fun a => (f a).bind h := by
  induction x with
  | done a => rfl
  | fault => rfl
  | get k ih => exact congrArg get (funext ih)
  | set s k ih => exact congrArg (set s) ih
  | ask k ih => exact congrArg ask (funext ih)
  | uninit n k ih => exact congrArg (uninit n) (funext ih)
  | lseek off k ih => exact congrArg (lseek off) ih
  | read count store k ih => exact congrArg (read count store) (funext fun r => funext (ih r))
  | write data k ih => exact congrArg (write data) (funext ih)

/-! The commands, one for each node. -/

def getState : Drv σ σ := get done
def setState (s : σ) : Drv σ Unit := set s (done ())
def askHost : Drv σ Bool := ask done
def uninitialised (n : Nat) : Drv σ (Block n) := uninit n done
def seekTo (off : Int) : Drv σ Unit := lseek off (done ())

/-- A read into memory of the program's own. -/
def readBytes (count : Nat) : Drv σ (Int × List UInt8) :=
  read count (fun _ s => s) fun r d => done (r, d)

/-- A read into the private state. -/
def readInto (count : Nat) (store : List UInt8 → σ → σ) : Drv σ Int :=
  read count store fun r _ => done r

def writeBytes (data : List UInt8) : Drv σ Int := write data done

/-- The value of an access that is undefined behaviour when it has none. -/
def ofOption : Option α → Drv σ α
  | some a => done a
  | none => fault

/-- The program run to its end with nobody else on the descriptor; `none` is a fault. -/
def run (env : Env) : Drv σ α → σ → World → Option (α × σ × World)
  | done a, s, w => some (a, s, w)
  | fault, _, _ => none
  | get k, s, w => (k s).run env s w
  | set s k, _, w => k.run env s w
  | ask k, s, w => (k (env.answer w.tick)).run env s w.next
  | uninit n k, s, w => (k (.ofFn n (env.junk w.tick))).run env s w.next
  | lseek off k, s, w => k.run env s (w.lseek off)
  | read count store k, s, w =>
      (k (w.readRet env count) (w.readData env count)).run env
        (store (w.readData env count) s) (w.afterRead env count)
  | write data k, s, w => (k (w.write env data).1).run env s (w.write env data).2

/-! ### How `run` meets the commands -/

variable {env : Env} {s : σ} {w : World}

@[simp] theorem run_pure {a : α} : (pure a : Drv σ α).run env s w = some (a, s, w) := rfl

@[simp] theorem run_fault : (fault : Drv σ α).run env s w = none := rfl

/-- Running a sequence is running its parts one after the other. -/
@[simp] theorem run_bind {x : Drv σ α} {f : α → Drv σ β} :
    (x >>= f).run env s w = (x.run env s w).bind fun r => (f r.1).run env r.2.1 r.2.2 := by
  show (x.bind f).run env s w = _
  induction x generalizing s w with
  | done a => rfl
  | fault => rfl
  | get k ih => exact ih s
  | set s' k ih => exact ih
  | ask k ih => exact ih _
  | uninit n k ih => exact ih _
  | lseek off k ih => exact ih
  | read count store k ih => exact ih _ _
  | write data k ih => exact ih _

@[simp] theorem run_getState : (getState : Drv σ σ).run env s w = some (s, s, w) := rfl

@[simp] theorem run_setState {s' : σ} : (setState s').run env s w = some ((), s', w) := rfl

@[simp] theorem run_askHost :
    (askHost : Drv σ Bool).run env s w = some (env.answer w.tick, s, w.next) := rfl

@[simp] theorem run_uninitialised {n : Nat} :
    (uninitialised n : Drv σ (Block n)).run env s w
      = some (.ofFn n (env.junk w.tick), s, w.next) := rfl

@[simp] theorem run_seekTo {off : Int} :
    (seekTo off : Drv σ Unit).run env s w = some ((), s, w.lseek off) := rfl

@[simp] theorem run_readBytes {count : Nat} :
    (readBytes count : Drv σ (Int × List UInt8)).run env s w
      = some ((w.readRet env count, w.readData env count), s, w.afterRead env count) := rfl

@[simp] theorem run_readInto {count : Nat} {store : List UInt8 → σ → σ} :
    (readInto count store : Drv σ Int).run env s w
      = some (w.readRet env count, store (w.readData env count) s, w.afterRead env count) := rfl

@[simp] theorem run_writeBytes {data : List UInt8} :
    (writeBytes data : Drv σ Int).run env s w
      = some ((w.write env data).1, s, (w.write env data).2) := rfl

@[simp] theorem run_ofOption_some {a : α} :
    (ofOption (some a) : Drv σ α).run env s w = some (a, s, w) := rfl

@[simp] theorem run_ofOption_none : (ofOption none : Drv σ α).run env s w = none := rfl

/-- The record of transfers only grows. -/
theorem log_run {p : Drv σ α} {r : α × σ × World} (h : p.run env s w = some r) :
    ∃ ts, r.2.2.log = ts ++ w.log := by
  induction p generalizing s w with
  | done a =>
    cases h
    exact ⟨[], rfl⟩
  | fault => cases h
  | get k ih => exact ih s h
  | set s' k ih => exact ih h
  | ask k ih =>
    obtain ⟨ts, hts⟩ := ih _ h
    exact ⟨ts, by rw [hts, World.log_next]⟩
  | uninit n k ih =>
    obtain ⟨ts, hts⟩ := ih _ h
    exact ⟨ts, by rw [hts, World.log_next]⟩
  | lseek off k ih =>
    obtain ⟨ts, hts⟩ := ih h
    exact ⟨ts, by rw [hts, World.log_lseek]⟩
  | read count store k ih =>
    obtain ⟨ts, hts⟩ := ih _ _ h
    exact ⟨ts ++ [_], by rw [hts, List.append_assoc]; rfl⟩
  | write data k ih =>
    obtain ⟨ts, hts⟩ := ih _ h
    obtain ⟨t, ht⟩ := World.log_write w env data
    exact ⟨ts ++ [t], by rw [hts, ht, List.append_assoc]; rfl⟩

/-! ### Programs that never fault

Whatever the host answers. The rules follow the constructors of a `do` block. -/

def NoFault (p : Drv σ α) : Prop := ∀ env s w, ∃ r, p.run env s w = some r

theorem NoFault.pure (a : α) : NoFault (Pure.pure a : Drv σ α) := by
  intro env s w
  exact ⟨_, rfl⟩

theorem NoFault.bind {x : Drv σ α} {f : α → Drv σ β} (hx : NoFault x) (hf : ∀ a, NoFault (f a)) :
    NoFault (x >>= f) := by
  intro env s w
  obtain ⟨r, hr⟩ := hx env s w
  rw [run_bind, hr]
  exact hf r.1 env r.2.1 r.2.2

theorem NoFault.ite {c : Prop} [Decidable c] {x y : Drv σ α} (hx : NoFault x) (hy : NoFault y) :
    NoFault (if c then x else y) := by
  split
  · exact hx
  · exact hy

theorem NoFault.getState : NoFault (Drv.getState : Drv σ σ) := by
  intro env s w
  exact ⟨_, rfl⟩

theorem NoFault.setState (s' : σ) : NoFault (Drv.setState s') := by
  intro env s w
  exact ⟨_, rfl⟩

theorem NoFault.uninitialised (n : Nat) : NoFault (Drv.uninitialised n : Drv σ (Block n)) := by
  intro env s w
  exact ⟨_, rfl⟩

theorem NoFault.seekTo (off : Int) : NoFault (Drv.seekTo off : Drv σ Unit) := by
  intro env s w
  exact ⟨_, rfl⟩

theorem NoFault.readBytes (count : Nat) :
    NoFault (Drv.readBytes count : Drv σ (Int × List UInt8)) := by
  intro env s w
  exact ⟨_, rfl⟩

theorem NoFault.readInto (count : Nat) (store : List UInt8 → σ → σ) :
    NoFault (Drv.readInto count store : Drv σ Int) := by
  intro env s w
  exact ⟨_, rfl⟩

theorem NoFault.ofOption {a : Option α} (h : a ≠ none) : NoFault (Drv.ofOption a : Drv σ α) := by
  cases a with
  | none => exact absurd rfl h
  | some a => exact NoFault.pure a

end Drv

end Umka.Lib
