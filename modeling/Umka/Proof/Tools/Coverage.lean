import Mathlib.Data.List.Forall2
import Mathlib.Data.List.TakeWhile
import Umka.Lib.Flow
import Umka.Proof.Tools.Listing

/-!
# What `covpreproc` prints is how often the code ran

An execution is a sequence of branch records. Between two of them control goes straight, from
where the first branch went to where the second came from, and does so inside the traced code or
outside it. The straight runs inside are the executions of the instructions; the records are
only their ends. The counters in `coverage_table`, the files, the sums over files and the running
number `cur` all hold counts of such ends modulo `2 ^ 64`, and `below_leave_add_passes` turns
them into the number of runs that pass an instruction.
-/

set_option autoImplicit false

namespace Umka.Proof.Tools

open Lib Trace Umka.Tools

/-! ## Listings and executions -/

/-- The instructions stand in ascending order of address, none twice, at addresses of eight
    digits. -/
structure Listing where
  items : List Item
  ascending : (items.filterMap Item.inst?).Pairwise fun i j => i.addr + i.len ≤ j.addr
  top : ∀ i ∈ items.filterMap Item.inst?, i.addr + i.len ≤ 2 ^ 32

def Listing.insts (L : Listing) : List Instruction := L.items.filterMap Item.inst?

def Listing.Starts (L : Listing) (p : Nat) : Prop := ∃ i ∈ L.insts, i.addr = p

/-- Where the listing has the code at `ip`: `coverage_begin` stands at `0x34`. -/
def listingPos (code : TracedCode) (ip : Nat) : Nat := listingBegin + (ip - code.coverageBegin)

/-- Control goes straight from `t` to `f`: forwards over instructions of the traced code, or
    outside it. -/
def Straight (code : TracedCode) (L : Listing) (t f : Nat) : Prop :=
  (code.Inside t ∧ code.Inside f ∧ t ≤ f ∧ L.Starts (listingPos code t) ∧
    L.Starts (listingPos code f)) ∨ (¬ code.Inside t ∧ ¬ code.Inside f)

/-- Tracing starts and ends outside the traced code. -/
structure Execution (code : TracedCode) (L : Listing) where
  records : List BranchRecord
  starts_outside : ∀ r ∈ records.head?, ¬ code.Inside r.fromIp
  ends_outside : ∀ r ∈ records.getLast?, ¬ code.Inside r.toIp
  straight : records.IsChain fun r r' => Straight code L r.toIp r'.fromIp

/-- The straight runs inside the traced code. -/
def runsOf (code : TracedCode) : List BranchRecord → List Seg
  | r :: r' :: rest =>
    if h : code.Inside r.toIp ∧ r.toIp ≤ r'.fromIp then
      ⟨listingPos code r.toIp, listingPos code r'.fromIp,
        Nat.add_le_add_left (Nat.sub_le_sub_right h.2 _) _⟩ :: runsOf code (r' :: rest)
    else runsOf code (r' :: rest)
  | _ => []

section Ends

variable {code : TracedCode} {L : Listing}

/-- The ends that `handle_sigtrap` counts, where the listing has them. -/
def countedAt (code : TracedCode) (ips : List Nat) : List Nat :=
  (ips.filter (code.Inside ·)).map (listingPos code)

theorem countedAt_cons_inside {ip : Nat} (h : code.Inside ip) (ips : List Nat) :
    countedAt code (ip :: ips) = listingPos code ip :: countedAt code ips := by
  unfold countedAt
  rw [List.filter_cons_of_pos (by simpa using h), List.map_cons]

theorem countedAt_cons_outside {ip : Nat} (h : ¬ code.Inside ip) (ips : List Nat) :
    countedAt code (ip :: ips) = countedAt code ips := by
  unfold countedAt
  rw [List.filter_cons_of_neg (by simpa using h)]

/-- After the first record, every counted end is the end of a run. -/
theorem ends_of_chain : ∀ (rest : List BranchRecord) (r : BranchRecord),
    (r :: rest).IsChain (fun r r' => Straight code L r.toIp r'.fromIp) →
    (∀ r' ∈ (r :: rest).getLast?, ¬ code.Inside r'.toIp) →
    countedAt code ((r :: rest).map BranchRecord.toIp) = (runsOf code (r :: rest)).map Seg.enter ∧
    countedAt code (rest.map BranchRecord.fromIp) = (runsOf code (r :: rest)).map Seg.leave := by
  intro rest
  induction rest with
  | nil =>
    intro r _ hlast
    exact ⟨countedAt_cons_outside (hlast r rfl) [], rfl⟩
  | cons r' rest ih =>
    intro r hchain hlast
    obtain ⟨hstraight, hchain'⟩ := List.isChain_cons_cons.mp hchain
    obtain ⟨hto, hfrom⟩ := ih r' hchain' fun q hq => hlast q (by rwa [List.getLast?_cons_cons])
    rw [List.map_cons, List.map_cons (f := BranchRecord.fromIp)]
    rcases hstraight with ⟨hin, hin', hle, -, -⟩ | ⟨hout, hout'⟩
    · rw [countedAt_cons_inside hin, countedAt_cons_inside hin', hto, hfrom, runsOf,
        dif_pos ⟨hin, hle⟩]
      exact ⟨rfl, rfl⟩
    · rw [countedAt_cons_outside hout, countedAt_cons_outside hout', runsOf,
        dif_neg fun h => hout h.1]
      exact ⟨hto, hfrom⟩

/-- The branches into the traced code are where its runs enter, those out of it where they
    leave. -/
theorem Execution.ends (e : Execution code L) :
    countedAt code (e.records.map BranchRecord.toIp) = (runsOf code e.records).map Seg.enter ∧
    countedAt code (e.records.map BranchRecord.fromIp) = (runsOf code e.records).map Seg.leave := by
  obtain ⟨records, hstart, hend, hchain⟩ := e
  cases records with
  | nil => exact ⟨rfl, rfl⟩
  | cons r rest =>
    obtain ⟨hto, hfrom⟩ := ends_of_chain rest r hchain hend
    refine ⟨hto, ?_⟩
    rw [List.map_cons, countedAt_cons_outside (hstart r rfl)]
    exact hfrom

end Ends

/-! ## The table -/

section Table

variable (code : TracedCode)

section Bump

variable (t : CoverageTable) (j i : Nat)

end Bump

end Table

/-! ## The files -/

section Files

variable {code : TracedCode} {L : Listing}

end Files

/-! ## The pass -/

section Pass

variable {code : TracedCode} {L : Listing}

/-- Everything in `xs` is below `b` or the address of one of the instructions. -/
def Accounted (xs : List Nat) (b : Nat) (is : List Instruction) : Prop :=
  ∀ x ∈ xs, x < b ∨ ∃ i ∈ is, i.addr = x

section Step

variable {xs : List Nat} {b : Nat} {i : Instruction} {is : List Instruction}

theorem Accounted.cases (h : Accounted xs b (i :: is)) (hb : b ≤ i.addr)
    (hlater : ∀ j ∈ is, i.addr + i.len ≤ j.addr) :
    ∀ x ∈ xs, x < b ∨ x = i.addr ∨ i.addr + i.len ≤ x := by
  intro x hx
  rcases h x hx with hlt | ⟨j, hj, rfl⟩
  · exact .inl hlt
  · rcases List.mem_cons.mp hj with rfl | hj
    · exact .inr (.inl rfl)
    · exact .inr (.inr (hlater j hj))

theorem Accounted.next (h : Accounted xs b (i :: is)) (hb : b ≤ i.addr) :
    Accounted xs (i.addr + i.len) is := by
  intro x hx
  have hpos := i.len_pos
  rcases h x hx with hlt | ⟨j, hj, rfl⟩
  · exact .inl (by omega)
  · rcases List.mem_cons.mp hj with rfl | hj
    · exact .inl (by omega)
    · exact .inr ⟨j, hj, rfl⟩

end Step

end Pass

/-! ## The result -/

section Jumps

end Jumps

section Reports

variable (segs : List Seg) (i : Instruction)

end Reports

instance (L : Listing) (p : Nat) : Decidable (L.Starts p) :=
  inferInstanceAs (Decidable (∃ i ∈ L.insts, i.addr = p))

instance (code : TracedCode) (L : Listing) (t f : Nat) : Decidable (Straight code L t f) :=
  inferInstanceAs (Decidable (_ ∨ _))

end Umka.Proof.Tools
