import Mathlib.Algebra.Order.BigOperators.Group.List
import Umka.Tools.Artefacts

/-!
# Artefacts match exactly when the check says so

A round of `cmpfiles` that does not end the loop has taken a full buffer from both files, so what
is left gets shorter; a round that ends it with both files at their ends has seen all there was.
-/

set_option autoImplicit false

namespace Umka.Proof.Tools

open Umka.Tools Lib

/-- The name is `pre`, `ref.` and `post`, and no `ref.` starts before that one. -/
def FirstRef (name pre post : List Char) : Prop :=
  name = pre ++ "ref.".toList ++ post ∧ ∀ j, j < pre.length → ¬ "ref.".toList <+: name.drop j

/-- If the entry is a reference file, the file with `out` for the first `ref` is there and has the
    same bytes. -/
def Matches (t : TestDir) (e : FileName × List UInt8) : Prop :=
  ∀ pre post, FirstRef e.1.chars pre post → t.contents (pre ++ "out.".toList ++ post) = some e.2

/-! ## Two files -/

/-- What a full buffer leaves decides. -/
theorem eq_iff_drop {a b : List UInt8} {n : Nat} (h : a.take n = b.take n) :
    a = b ↔ a.drop n = b.drop n := by
  constructor
  · exact fun hab => hab ▸ rfl
  · intro hdrop
    rw [← List.take_append_drop n a, ← List.take_append_drop n b, h, hdrop]

/-- **The chunks of two files agree if and only if the files do**, in any size of chunks. -/
theorem cmpLoop_eq {n : Nat} (hn : 0 < n) : ∀ (rounds : Nat) (a b : List UInt8), a.length < rounds →
    cmpLoop n rounds (.start a) (.start b) = some (if a = b then 0 else -1) := by
  intro rounds
  induction rounds with
  | zero => exact fun a b h => absurd h (Nat.not_lt_zero _)
  | succ rounds ih =>
    intro a b hlen
    rw [cmpLoop]
    dsimp only [fread_start]
    by_cases htake : a.take n = b.take n
    · have hmin : min n a.length = min n b.length := by
        rw [← List.length_take, ← List.length_take, htake]
      rw [if_neg (by simp [htake])]
      by_cases hshort : a.length < n
      · -- both reads came out short: this was all
        have hshort' : b.length < n := by omega
        have hab : a = b := by
          rwa [List.take_of_length_le hshort.le, List.take_of_length_le hshort'.le] at htake
        rw [decide_eq_true hshort, decide_eq_true hshort', Bool.and_self, if_pos rfl, if_pos hab]
      · have hlong' : ¬ b.length < n := by omega
        have hrest : (a.drop n).length < rounds := by
          rw [List.length_drop]
          omega
        rw [decide_eq_false hshort, decide_eq_false hlong', Bool.and_self,
          if_neg Bool.false_ne_true]
        exact (ih (a.drop n) (b.drop n) hrest).trans
          (congrArg some (if_congr (eq_iff_drop htake).symm rfl rfl))
    · rw [if_pos (Or.inr htake), if_neg fun hab : a = b => htake (hab ▸ rfl)]

/-- `cmpfiles` for files that can be opened, with rounds for the first of them. -/
theorem cmpfiles_open {t : TestDir} {fnamea fnameb : List Char} {a b : List UInt8} {rounds : Nat}
    (ha : t.fopen fnamea = some (.start a)) (hb : t.fopen fnameb = some (.start b))
    (hrounds : a.length < rounds) :
    cmpfiles t rounds fnamea fnameb
      = some (if a = b then (0, []) else (-1, [.dontMatch fnamea fnameb])) := by
  simp only [cmpfiles, ha, hb, cmpLoop_eq (by decide : 0 < cmpfileBufLen) rounds a b hrounds,
    Option.map_some]
  split
  · rfl
  · rfl

/-! ## The names -/

theorem fopen_path (t : TestDir) (n : List Char) :
    t.fopen (t.name.chars ++ '/' :: n) = (t.contents n).map Stream.start := by
  have hpath : t.name.chars ++ '/' :: n = (t.name.chars ++ ['/']) ++ n := by simp
  have hlen : (t.name.chars ++ ['/']).length = t.name.chars.length + 1 := by simp
  rw [TestDir.fopen, hpath, if_pos (List.prefix_append _ _), List.drop_left' hlen]

/-- A name stands in the directory once. -/
theorem contents_of_mem {t : TestDir} {e : FileName × List UInt8} (he : e ∈ t.entries) :
    t.contents e.1.chars = some e.2 := by
  have hfind : t.entries.find? (fun e' => decide (e'.1.chars = e.1.chars)) = some e := by
    have hnodup := t.nodup
    generalize t.entries = entries at he hnodup
    induction entries with
    | nil => exact absurd he List.not_mem_nil
    | cons a rest ih =>
      rw [List.map_cons, List.nodup_cons] at hnodup
      rcases List.mem_cons.mp he with rfl | hmem
      · exact List.find?_cons_of_pos (decide_eq_true rfl)
      · have hne : a.1.chars ≠ e.1.chars := fun heq =>
          hnodup.1 (List.mem_map.mpr ⟨e, hmem, FileName.ext heq.symm⟩)
        rw [List.find?_cons_of_neg (by simpa using hne)]
        exact ih hmem hnodup.2
  rw [TestDir.contents, hfind, Option.map_some]

theorem nul_notMem_path (t : TestDir) {n : List Char} (hn : nul ∉ n) :
    nul ∉ t.name.chars ++ '/' :: n := by
  rw [List.mem_append, List.mem_cons]
  rintro (hmem | hmem | hmem)
  · exact t.name.noNul hmem
  · exact absurd hmem (by decide)
  · exact hn hmem

/-- The other name is one that could stand in the directory. -/
theorem nul_notMem_out {pre post : List Char} (h : nul ∉ pre ++ "ref.".toList ++ post) :
    nul ∉ pre ++ "out.".toList ++ post := by
  simp only [List.mem_append, not_or] at h ⊢
  exact ⟨⟨h.1.1, by decide⟩, h.2⟩

/-- The arrays afterwards have the two paths in them, whatever they had before. -/
theorem companion_eq (t : TestDir) (bufs : NameBufs) {dName : FileName} {pre post : List Char}
    (h : dName.chars = pre ++ "ref.".toList ++ post) :
    ∃ bufs', companion t bufs dName pre.length = some bufs'
      ∧ bufs'.reffname.cstr pathMax 0 = t.name.chars ++ '/' :: dName.chars
      ∧ bufs'.outfname.cstr pathMax 0 = t.name.chars ++ '/' :: (pre ++ "out.".toList ++ post) := by
  have hlen : (t.name.chars ++ '/' :: dName.chars).length < pathMax := by
    have hdir := t.name.short
    have hname := dName.short
    have hmax : pathMax = 4096 := rfl
    rw [List.length_append, List.length_cons]
    omega
  have hnul := nul_notMem_path t dName.noNul
  obtain ⟨reffname, hwrite, -, href⟩ := write_string bufs.reffname hnul hlen
  obtain ⟨copy, hcopy, hcopied, -⟩ := write_string bufs.outfname hnul hlen
  -- the path around the three letters that are replaced
  have hsplit : t.name.chars ++ '/' :: dName.chars ++ [nul]
      = (t.name.chars ++ '/' :: pre) ++ "ref".toList ++ ('.' :: post ++ [nul]) := by
    simp [h]
  have hjoin : (t.name.chars ++ '/' :: pre) ++ "out".toList ++ ('.' :: post ++ [nul])
      = t.name.chars ++ '/' :: (pre ++ "out.".toList ++ post) ++ [nul] := by
    simp
  have hat : (t.name.chars ++ '/' :: pre).length = t.name.chars.length + 1 + pre.length := by
    rw [List.length_append, List.length_cons, Nat.add_assoc, Nat.add_comm 1]
  have hroom : ((t.name.chars ++ '/' :: pre) ++ "ref".toList ++ ('.' :: post ++ [nul])).length
      ≤ pathMax := by
    rw [← hsplit, List.length_append]
    exact hlen
  rw [hsplit] at hcopied
  obtain ⟨outfname, hpatch, hpatched⟩ := write_over hcopied (rfl : "out".toList.length = _) hroom
  rw [hjoin] at hpatched
  have hout : outfname.cstr pathMax 0 = t.name.chars ++ '/' :: (pre ++ "out.".toList ++ post) := by
    refine hpatched.cstr (nul_notMem_path t (nul_notMem_out (h ▸ dName.noNul))) ?_
    rw [h] at hlen
    simpa using hlen
  rw [hat] at hpatch
  refine ⟨⟨reffname, outfname⟩, ?_, href, hout⟩
  simp only [companion, hwrite, href, hcopy, hpatch, Option.bind_eq_bind, Option.bind_some]

/-! ## The directory -/

/-- An entry's reference against its companion. -/
theorem cmpfiles_eq {t : TestDir} {e : FileName × List UInt8} (he : e ∈ t.entries)
    (out : List Char) :
    ∃ said, ∀ rounds, e.2.length < rounds →
      cmpfiles t rounds (t.name.chars ++ '/' :: e.1.chars) (t.name.chars ++ '/' :: out)
        = some (if t.contents out = some e.2 then 0 else -1, said) := by
  have href : t.fopen (t.name.chars ++ '/' :: e.1.chars) = some (.start e.2) := by
    rw [fopen_path, contents_of_mem he, Option.map_some]
  cases hout : t.contents out with
  | none =>
    have hnone : t.fopen (t.name.chars ++ '/' :: out) = none := by rw [fopen_path, hout]; rfl
    refine ⟨[.cantOpen (t.name.chars ++ '/' :: out)], fun rounds _ => ?_⟩
    simp only [cmpfiles, href, hnone]
    rw [if_neg nofun]
  | some bytes =>
    have hsome : t.fopen (t.name.chars ++ '/' :: out) = some (.start bytes) := by
      rw [fopen_path, hout, Option.map_some]
    by_cases heq : e.2 = bytes
    · refine ⟨[], fun rounds hrounds => ?_⟩
      rw [cmpfiles_open href hsome hrounds, if_pos heq, if_pos (congrArg some heq.symm)]
    · refine ⟨[.dontMatch (t.name.chars ++ '/' :: e.1.chars) (t.name.chars ++ '/' :: out)],
        fun rounds hrounds => ?_⟩
      rw [cmpfiles_open href hsome hrounds, if_neg heq,
        if_neg fun h => heq (Option.some.inj h).symm]

theorem matches_of_none (t : TestDir) {e : FileName × List UInt8}
    (h : strstrAt "ref.".toList e.1.chars = none) : Matches t e :=
  fun pre post hfirst => absurd ⟨pre, post, hfirst.1.symm⟩ (strstrAt_none h)

/-- There is one first place. -/
theorem matches_iff (t : TestDir) {e : FileName × List UInt8} {pre post : List Char}
    (h : FirstRef e.1.chars pre post) :
    Matches t e ↔ t.contents (pre ++ "out.".toList ++ post) = some e.2 := by
  refine ⟨fun hall => hall pre post h, fun hpre pre' post' h' => ?_⟩
  have hlen : pre.length = pre'.length := Option.some.inj
    ((strstrAt_of_first h.1 h.2).symm.trans (strstrAt_of_first h'.1 h'.2))
  have hsame := h.1.symm.trans h'.1
  rw [List.append_assoc, List.append_assoc] at hsame
  obtain ⟨rfl, hrest⟩ := List.append_inj hsame hlen
  rwa [← List.append_cancel_left hrest]

/-- The loop over the entries ends, and returns zero exactly if all of them match. -/
theorem checkLoop_iff {t : TestDir} {entries : List (FileName × List UInt8)}
    (hmem : ∀ e ∈ entries, e ∈ t.entries) : ∀ bufs : NameBufs, ∃ result said,
      (∀ rounds, (∀ e ∈ entries, e.2.length < rounds) →
        checkLoop t rounds (entries.map Prod.fst) bufs = some (result, said))
      ∧ (result = 0 ↔ ∀ e ∈ entries, Matches t e) := by
  induction entries with
  | nil =>
    exact fun bufs => ⟨0, [], fun _ _ => rfl, iff_of_true rfl fun e he =>
      absurd he List.not_mem_nil⟩
  | cons e entries ih =>
    intro bufs
    have hrest := ih fun e' he' => hmem e' (List.mem_cons_of_mem e he')
    cases href : strstrAt "ref.".toList e.1.chars with
    | none =>
      obtain ⟨result, said, hcheck, hiff⟩ := hrest bufs
      refine ⟨result, said, fun rounds hrounds => ?_, ?_⟩
      · rw [List.map_cons, checkLoop, href]
        exact hcheck rounds (List.forall_mem_cons.mp hrounds).2
      · rw [List.forall_mem_cons, hiff, and_iff_right (matches_of_none t href)]
    | some refOff =>
      obtain ⟨pre, post, hname, rfl, hfirst⟩ := strstrAt_some href
      obtain ⟨bufs', hcomp, hreffname, houtfname⟩ := companion_eq t bufs hname
      obtain ⟨saidCmp, hcmp⟩ := cmpfiles_eq (hmem e List.mem_cons_self)
        (pre ++ "out.".toList ++ post)
      have hmatch := matches_iff t ⟨hname, hfirst⟩
      -- one entry is compared, and then the result is known or the rest is looked at
      have hstep : ∀ rounds, e.2.length < rounds →
          checkLoop t rounds ((e :: entries).map Prod.fst) bufs
            = if (if t.contents (pre ++ "out.".toList ++ post) = some e.2 then (0 : Int) else -1)
              ≠ 0 then some (-1, saidCmp) else checkLoop t rounds (entries.map Prod.fst) bufs' := by
        intro rounds hrounds
        simp only [List.map_cons, checkLoop, href, hcomp, Option.bind_eq_bind, Option.bind_some,
          hreffname, houtfname, hcmp rounds hrounds]
      by_cases hout : t.contents (pre ++ "out.".toList ++ post) = some e.2
      · obtain ⟨result, said, hcheck, hiff⟩ := hrest bufs'
        refine ⟨result, said, fun rounds hrounds => ?_, ?_⟩
        · obtain ⟨hfirstRound, hrounds⟩ := List.forall_mem_cons.mp hrounds
          rw [hstep rounds hfirstRound, if_pos hout, if_neg (not_not.mpr rfl),
            hcheck rounds hrounds]
        · rw [List.forall_mem_cons, hiff, and_iff_right (hmatch.mpr hout)]
      · refine ⟨-1, saidCmp, fun rounds hrounds => ?_, ?_⟩
        · rw [hstep rounds (List.forall_mem_cons.mp hrounds).1, if_neg hout, if_pos (by decide)]
        · refine iff_of_false (by decide) fun hall => hout (hmatch.mp (hall e List.mem_cons_self))

/-- **`check_test_artefacts` returns zero exactly if every reference file has its equal**, and it
    returns; so does `cmpfiles` for two files, whatever their lengths are. -/
theorem checkTestArtefacts_iff (t : TestDir) (bufs : NameBufs) :
    (∃ enough result said, (∀ rounds, enough ≤ rounds →
        checkTestArtefacts t rounds bufs = some (result, said))
      ∧ (result = 0 ↔ ∀ e ∈ t.entries, Matches t e))
    ∧ ∀ fnamea fnameb a b, t.fopen fnamea = some (.start a) → t.fopen fnameb = some (.start b) →
      ∃ enough result said, (∀ rounds, enough ≤ rounds →
        cmpfiles t rounds fnamea fnameb = some (result, said)) ∧ (result = 0 ↔ a = b) := by
  constructor
  · obtain ⟨result, said, hcheck, hiff⟩ := checkLoop_iff (fun e (he : e ∈ t.entries) => he) bufs
    refine ⟨(t.entries.map fun e => e.2.length).sum + 1, result, said,
      fun rounds hrounds => ?_, hiff⟩
    refine hcheck rounds fun e he => ?_
    have hle := List.le_sum_of_mem (List.mem_map_of_mem (f := fun e => e.2.length) he)
    omega
  · intro fnamea fnameb a b ha hb
    by_cases heq : a = b
    · refine ⟨a.length + 1, 0, [], fun rounds hrounds => ?_, iff_of_true rfl heq⟩
      rw [cmpfiles_open ha hb hrounds, if_pos heq]
    · refine ⟨a.length + 1, -1, [.dontMatch fnamea fnameb], fun rounds hrounds => ?_,
        iff_of_false (by decide) heq⟩
      rw [cmpfiles_open ha hb hrounds, if_neg heq]

end Umka.Proof.Tools
