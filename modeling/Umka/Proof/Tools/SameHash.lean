import Umka.Lib.Tuples
import Umka.Tools.SameHash

/-!
# `mksamehash` makes different names of one hash

The nested loops go through the tuples of segments in order, until the countdown is at zero; each
tuple gives another name. The hash of a name is that of characters taken one by one, so it does not
matter which segments of the table are in it.
-/

set_option autoImplicit false

namespace Umka.Proof.Tools

open Umka.Tools Lib

/-! ## The hash -/

/-- A character of seven bits. -/
def Ascii (c : Char) : Prop := c.toNat < 128

theorem toNat_code {c : Char} (h : Ascii c) : (code c).toNat < 128 := by
  rw [code, BitVec.toNat_ofNat]
  exact Nat.lt_of_le_of_lt (Nat.mod_le _ _) h

/-- Four characters at a time are the same as one at a time. -/
theorem hashFrom_eq (h : BitVec 32) (name : List Char) (hascii : ∀ c ∈ name, Ascii c) :
    hashFrom h name = rolHash h (name.map code) := by
  induction h, name using hashFrom.induct with
  | case1 hash a b c d name ih =>
    obtain ⟨ha, hb, hc, -, hname⟩ :
        Ascii a ∧ Ascii b ∧ Ascii c ∧ Ascii d ∧ ∀ x ∈ name, Ascii x := by
      simpa only [List.forall_mem_cons] using hascii
    rw [hashFrom, ih hname, BitVec.shiftLeft_zero]
    exact congrArg (rolHash · (name.map code))
      (rolStep_four (toNat_code ha) (toNat_code hb) (toNat_code hc)).symm
  | case2 hash a b c =>
    have ha := toNat_code (hascii a List.mem_cons_self)
    have hb := toNat_code (hascii b (List.mem_cons_of_mem a List.mem_cons_self))
    rw [hashFrom, BitVec.shiftLeft_zero]
    exact (rolStep_three ha hb).symm
  | case3 hash a b =>
    rw [hashFrom, BitVec.shiftLeft_zero]
    exact (rolStep_two (toNat_code (hascii a List.mem_cons_self))).symm
  | case4 hash a =>
    rw [hashFrom, BitVec.shiftLeft_zero]
    exact BitVec.xor_comm _ _
  | case5 hash => rfl

/-- **Four characters at a time are the same as one at a time**, for names of any length; so the
    hash of two pieces is that of the first one, turned by the length of the second, and that of the
    second. The macro is the rotation for as many bits as C defines it. -/
theorem xfsDaHashname_plain :
    (∀ name : List Char, (∀ c ∈ name, Ascii c) →
      xfsDaHashname name = name.foldl (fun h c => rol32 h 7 ^^^ code c) 0#32)
    ∧ (∀ a b : List Char, (∀ c ∈ a, Ascii c) → (∀ c ∈ b, Ascii c) →
      xfsDaHashname (a ++ b) = (xfsDaHashname a).rotateLeft (7 * b.length) ^^^ xfsDaHashname b)
    ∧ ∀ (x : BitVec 32) (y : Nat), y < 32 → rol32 x y = x.rotateLeft y := by
  refine ⟨fun name hname => ?_, fun a b ha hb => ?_, fun x y hy => rol32_eq_rotateLeft hy⟩
  · rw [xfsDaHashname, hashFrom_eq _ name hname, rolHash, List.foldl_map]
    rfl
  · have hab : ∀ c ∈ a ++ b, Ascii c := fun c hc => (List.mem_append.mp hc).elim (ha c) (hb c)
    rw [xfsDaHashname, xfsDaHashname, xfsDaHashname, hashFrom_eq _ _ hab, hashFrom_eq _ a ha,
      hashFrom_eq _ b hb, List.map_append, rolHash_append, rolHash_eq_xor (b.map code),
      List.length_map]

/-- A name of seven characters, in two pieces. -/
theorem xfsDaHashname_plain_seven :
    xfsDaHashname "segment".toList
        = "segment".toList.foldl (fun h c => rol32 h 7 ^^^ code c) 0#32
      ∧ xfsDaHashname ("seg".toList ++ "ment".toList)
        = (xfsDaHashname "seg".toList).rotateLeft 28 ^^^ xfsDaHashname "ment".toList
      ∧ rol32 1#32 31 = (1#32).rotateLeft 31 := by
  obtain ⟨hplain, happend, hrol⟩ := xfsDaHashname_plain
  refine ⟨hplain _ ?_, happend "seg".toList "ment".toList ?_ ?_, hrol _ _ (by decide)⟩
  · simp [Ascii]
  · simp [Ascii]
  · simp [Ascii]

/-! ## The array -/

/-- `pre` is the name so far, of `cidx` segments; there is an underscore for each segment to come,
    and a zero behind the last one. -/
structure Ready (ccnt cidx : Nat) (pre : List Char) (dirname : CharBuf) : Prop where
  holds : dirname.Holds 0 pre
  length : pre.length = 1 + 13 * cidx
  noNul : nul ∉ pre
  marks : ∀ j, cidx ≤ j → j ≤ ccnt → dirname (1 + 13 * j) = if j < ccnt then '_' else nul

/-- A segment of the table. -/
structure Segment (seg : List Char) : Prop where
  length : seg.length = 12
  noNul : nul ∉ seg
  ascii : ∀ c ∈ seg, Ascii c

section Array

variable {ccnt cidx : Nat} {pre seg : List Char} {dirname : CharBuf}

/-- A segment is put behind its underscore, and nothing else changes. -/
theorem ready_write (h : Ready ccnt cidx pre dirname) (hseg : Segment seg) (hcidx : cidx < ccnt)
    (hccnt : ccnt ≤ 4) :
    ∃ dirname', dirname.write dirnameLen (2 + (1 + xfsNameSegmentLen) * cidx) seg = some dirname'
      ∧ Ready ccnt (cidx + 1) (pre ++ '_' :: seg) dirname' := by
  have hlen : dirnameLen = 128 := rfl
  have hoff : 2 + (1 + xfsNameSegmentLen) * cidx = pre.length + 1 := by
    rw [h.length, xfsNameSegmentLen]
    omega
  have hpre := h.length
  have hseglen := hseg.length
  obtain ⟨dirname', hwrite, hheld, hframe⟩ :=
    write_fits dirname dirnameLen (pre.length + 1) seg (by omega)
  rw [hoff]
  refine ⟨dirname', hwrite, ?_, ?_, ?_, ?_⟩
  · rw [holds_append, holds_cons, Nat.zero_add]
    refine ⟨h.holds.congr fun i _ hi => hframe i (Or.inl (by omega)), ?_, hheld⟩
    have hmark := h.marks cidx (Nat.le_refl _) hcidx.le
    rw [if_pos hcidx, ← hpre] at hmark
    rw [hframe _ (Or.inl (by omega)), hmark]
  · rw [List.length_append, List.length_cons, hpre, hseglen]
    omega
  · rw [List.mem_append, List.mem_cons]
    rintro (hmem | hmem | hmem)
    · exact h.noNul hmem
    · exact absurd hmem (by decide)
    · exact hseg.noNul hmem
  · intro j hj hjc
    rw [hframe _ (Or.inr (by omega))]
    exact h.marks j (by omega) hjc

/-- The level above finds its part as it left it. -/
theorem ready_back (h : Ready ccnt (cidx + 1) (pre ++ '_' :: seg) dirname) (hseg : Segment seg)
    (hcidx : cidx < ccnt) : Ready ccnt cidx pre dirname := by
  have hlen := h.length
  have hseglen := hseg.length
  rw [List.length_append, List.length_cons, hseglen] at hlen
  have hpre : pre.length = 1 + 13 * cidx := by omega
  obtain ⟨hholds, hrest⟩ := holds_append.mp h.holds
  have hmark : dirname (1 + 13 * cidx) = '_' := by
    rw [← hpre, ← Nat.zero_add pre.length]
    exact (holds_cons.mp hrest).1
  refine ⟨hholds, hpre, fun hmem => h.noNul (List.mem_append_left _ hmem), fun j hj hjc => ?_⟩
  rcases Nat.eq_or_lt_of_le hj with rfl | hlt
  · rw [hmark, if_pos hcidx]
  · exact h.marks j hlt hjc

/-- All segments are there: the array is a name. -/
theorem cstr_of_ready (h : Ready ccnt ccnt pre dirname) (hccnt : ccnt ≤ 4) :
    dirname.cstr dirnameLen 0 = pre := by
  have hend := h.marks ccnt (Nat.le_refl _) (Nat.le_refl _)
  rw [if_neg (Nat.lt_irrefl _), ← h.length] at hend
  have hlen : dirnameLen = 128 := rfl
  have hpre := h.length
  refine CharBuf.Holds.cstr ?_ h.noNul (by omega)
  rw [holds_append, holds_cons, Nat.zero_add]
  exact ⟨h.holds, hend, fun i hi => absurd hi (Nat.not_lt_zero i)⟩

end Array

/-! ## The loops -/

/-- The name with the segments `t` behind `pre`. -/
def nameOf (pre : List Char) (t : List (List Char)) : List Char := pre ++ t.flatMap ('_' :: ·)

theorem nameOf_cons (pre seg : List Char) (t : List (List Char)) :
    nameOf pre (seg :: t) = nameOf (pre ++ '_' :: seg) t := by
  rw [nameOf, nameOf, List.flatMap_cons, List.append_assoc]

/-- From `s` to `s'` the loops have gone through `ts`, as far as the countdown let them. -/
structure Went (ccnt cidx : Nat) (pre : List Char) (ts : List (List (List Char))) (s s' : Making) :
    Prop where
  ready : Ready ccnt cidx pre s'.dirname
  left : s'.left = s.left - ts.length
  made : s'.made = s.made ++ (ts.take s.left).map (nameOf pre)

section Loops

variable {ccnt cidx : Nat} {pre seg : List Char} {s s' s'' : Making}
    {ts us : List (List (List Char))}

theorem Went.refl (h : Ready ccnt cidx pre s.dirname) : Went ccnt cidx pre [] s s where
  ready := h
  left := rfl
  made := by rw [List.take_nil, List.map_nil, List.append_nil]

theorem Went.trans (h : Went ccnt cidx pre ts s s') (h' : Went ccnt cidx pre us s' s'') :
    Went ccnt cidx pre (ts ++ us) s s'' where
  ready := h'.ready
  left := by rw [h'.left, h.left, List.length_append, Nat.sub_sub]
  made := by
    rw [h'.made, h.made, h.left, List.take_append, List.map_append, List.append_assoc]

/-- What the level below did, seen from above. -/
theorem Went.up {dirname : CharBuf} (hseg : Segment seg) (hcidx : cidx < ccnt)
    (h : Went ccnt (cidx + 1) (pre ++ '_' :: seg) ts { s with dirname := dirname } s') :
    Went ccnt cidx pre (ts.map (seg :: ·)) s s' where
  ready := ready_back h.ready hseg hcidx
  left := by rw [h.left, List.length_map]
  made := by
    rw [h.made, ← List.map_take, List.map_map]
    refine congrArg (s.made ++ ·) (List.map_congr_left fun t _ => ?_)
    exact (nameOf_cons pre seg t).symm

/-- The last level. -/
theorem lastLevel_went {segs : List (List Char)} (hsegs : ∀ seg ∈ segs, Segment seg)
    (hccnt : ccnt ≤ 4) (hcidx : cidx + 1 = ccnt) : ∀ {s : Making}, Ready ccnt cidx pre s.dirname →
      ∃ s', lastLevel cidx segs s = some s' ∧ Went ccnt cidx pre (tuplesFrom [[]] segs) s s' := by
  induction segs with
  | nil => exact fun h => ⟨_, rfl, .refl h⟩
  | cons seg segs ih =>
    intro s h
    obtain ⟨hseg, hsegs⟩ := List.forall_mem_cons.mp hsegs
    obtain ⟨dirname, hwrite, hready⟩ := ready_write h hseg (by omega) hccnt
    have hback := ready_back hready hseg (by omega)
    rw [lastLevel, hwrite, Option.bind_some]
    by_cases hleft : s.left = 0
    · -- the level returns at once, and so does what is left of the loops
      rw [if_pos hleft]
      refine ⟨_, rfl, hback, ?_, ?_⟩
      · rw [hleft, Nat.zero_sub]
      · rw [hleft, List.take_zero, List.map_nil, List.append_nil]
    · rw [if_neg hleft]
      have hname : dirname.cstr dirnameLen 0 = nameOf pre [seg] := by
        rw [cstr_of_ready (hcidx ▸ hready) hccnt, nameOf, List.flatMap_singleton]
      obtain ⟨s', hrun, hwent⟩ := ih hsegs (s := ⟨dirname, s.left - 1, s.made ++ [_]⟩) hback
      refine ⟨s', hrun, hwent.ready, ?_, ?_⟩
      · rw [hwent.left, tuplesFrom_cons, List.length_append]
        exact Nat.sub_sub _ 1 _
      · obtain ⟨n, hn⟩ := Nat.exists_eq_add_one_of_ne_zero hleft
        rw [hwent.made, hname, hn, tuplesFrom_cons]
        simp

/-- All levels. -/
theorem iterateNameSegment_went {table : List (List Char)} (htable : ∀ seg ∈ table, Segment seg)
    (hccnt : ccnt ≤ 4) : ∀ (below : Nat) {cidx : Nat} {pre : List Char} {s : Making},
      cidx + below + 1 = ccnt → Ready ccnt cidx pre s.dirname →
      ∃ s', iterateNameSegment table below cidx s = some s'
        ∧ Went ccnt cidx pre (tuples table (below + 1)) s s' := by
  intro below
  induction below with
  | zero => exact fun hcidx h => lastLevel_went htable hccnt hcidx h
  | succ below ih =>
    intro cidx pre s hcidx h
    rw [iterateNameSegment, tuples]
    -- the loop over what is left of the table
    suffices hloop : ∀ xs : List (List Char), (∀ seg ∈ xs, Segment seg) → ∀ s : Making,
        Ready ccnt cidx pre s.dirname → ∃ s', xs.foldlM (fun s seg =>
          (s.dirname.write dirnameLen (2 + (1 + xfsNameSegmentLen) * cidx) seg).bind fun dirname =>
            iterateNameSegment table below (cidx + 1) { s with dirname := dirname }) s = some s'
          ∧ Went ccnt cidx pre (tuplesFrom (tuples table (below + 1)) xs) s s' from
      hloop table htable s h
    intro xs
    induction xs with
    | nil => exact fun _ s h => ⟨s, rfl, .refl h⟩
    | cons seg xs ihxs =>
      intro hxs s h
      obtain ⟨hseg, hxs⟩ := List.forall_mem_cons.mp hxs
      obtain ⟨dirname, hwrite, hready⟩ := ready_write h hseg (by omega) hccnt
      obtain ⟨s', hrun, hwent⟩ := ih (s := { s with dirname := dirname }) (by omega) hready
      have hup := hwent.up hseg (by omega)
      obtain ⟨s'', hrest, hwent'⟩ := ihxs hxs s' hup.ready
      refine ⟨s'', ?_, tuplesFrom_cons seg ▸ hup.trans hwent'⟩
      rw [List.foldlM_cons, hwrite, Option.bind_some, hrun]
      exact hrest

end Loops

/-! ## The start -/

/-- There are enough levels, and at most four. -/
theorem countersLoop_eq {n : Nat} (hn : n ≤ 1000 ^ 4) {rounds : Nat} (hrounds : 4 ≤ rounds) :
    ∃ below, countersLoop n rounds xfsNamesCnt 1 = some (below + 1) ∧ below + 1 ≤ 4
      ∧ n ≤ 1000 ^ (below + 1) := by
  obtain ⟨rounds, rfl⟩ : ∃ m, rounds = m + 4 := ⟨rounds - 4, by omega⟩
  have hcnt : xfsNamesCnt = 1000 := rfl
  by_cases h1 : n ≤ 1000 ^ 1
  · refine ⟨0, ?_, by decide, h1⟩
    rw [countersLoop, if_neg (by omega)]
  by_cases h2 : n ≤ 1000 ^ 2
  · refine ⟨1, ?_, by decide, h2⟩
    rw [countersLoop, if_pos (by omega), countersLoop, hcnt, if_neg (by omega)]
  by_cases h3 : n ≤ 1000 ^ 3
  · refine ⟨2, ?_, by decide, h3⟩
    rw [countersLoop, if_pos (by omega), countersLoop, hcnt, if_pos (by omega), countersLoop, hcnt,
      if_neg (by omega)]
  · refine ⟨3, ?_, by decide, hn⟩
    rw [countersLoop, if_pos (by omega), countersLoop, hcnt, if_pos (by omega), countersLoop, hcnt,
      if_pos (by omega), countersLoop, hcnt, if_neg (by omega)]

/-- The array before the first segment. -/
theorem ready_start {ccnt : Nat} (hccnt : ccnt ≤ 4) :
    ∃ dirname, dirnameInit.write dirnameLen (1 + (1 + xfsNameSegmentLen) * ccnt)
      [nul] = some dirname
      ∧ Ready ccnt 0 ['d'] dirname := by
  have hlen : dirnameLen = 128 := rfl
  have hoff : 1 + (1 + xfsNameSegmentLen) * ccnt = 1 + 13 * ccnt := rfl
  rw [hoff]
  obtain ⟨dirname, hwrite, hheld, hframe⟩ := write_fits dirnameInit dirnameLen (1 + 13 * ccnt) [nul]
    (by rw [List.length_singleton]; omega)
  rw [List.length_singleton] at hframe
  refine ⟨dirname, hwrite, ?_, rfl, by decide, fun j _ hj => ?_⟩
  · rw [holds_cons]
    refine ⟨hframe 0 (Or.inl (by omega)), fun i hi => absurd hi (Nat.not_lt_zero i)⟩
  · rcases Nat.eq_or_lt_of_le hj with rfl | hlt
    · rw [if_neg (Nat.lt_irrefl _)]
      exact (holds_cons.mp hheld).1
    · rw [hframe _ (Or.inl (by omega)), if_pos hlt, dirnameInit, if_neg (by omega),
        if_pos (by omega)]

/-- What is made: the first names, in the order of the loops. -/
theorem mksamehash_eq {table : List (List Char)} (htable : ∀ seg ∈ table, Segment seg)
    (hcount : table.length = 1000) {n : Nat} (hn : n ≤ 1000 ^ 4) {rounds : Nat}
    (hrounds : 4 ≤ rounds) :
    ∃ s k, mksamehash table rounds n = some s ∧ s.made = ((tuples table k).take n).map
      (nameOf ['d'])
      ∧ n ≤ (tuples table k).length := by
  obtain ⟨below, hloop, hfour, hle⟩ := countersLoop_eq hn hrounds
  obtain ⟨dirname, hwrite, hready⟩ := ready_start hfour
  obtain ⟨s, hrun, hwent⟩ := iterateNameSegment_went htable hfour below (s := ⟨dirname, n, []⟩)
    (by omega) hready
  refine ⟨s, below + 1, ?_, hwent.made, by rwa [length_tuples, hcount]⟩
  rw [mksamehash, hloop, Option.bind_some, hwrite, Option.bind_some]
  exact hrun

/-! ## The names -/

section Names

variable {table : List (List Char)} {k : Nat} {t u : List (List Char)}

/-- Different segments give different names. -/
theorem flatMap_inj (htable : ∀ seg ∈ table, Segment seg) : ∀ {k : Nat} {t u : List (List Char)},
    t ∈ tuples table k → u ∈ tuples table k → t.flatMap ('_' :: ·) = u.flatMap ('_' :: ·) →
      t = u := by
  intro k
  induction k with
  | zero =>
    intro t u ht hu _
    rw [List.mem_singleton.mp ht, List.mem_singleton.mp hu]
  | succ k ih =>
    intro t u ht hu heq
    obtain ⟨x, hx, t, ht', rfl⟩ := mem_tuplesFrom.mp ht
    obtain ⟨y, hy, u, hu', rfl⟩ := mem_tuplesFrom.mp hu
    rw [List.flatMap_cons, List.flatMap_cons] at heq
    have hlen : ('_' :: x).length = ('_' :: y).length := by
      rw [List.length_cons, List.length_cons, (htable x hx).length, (htable y hy).length]
    obtain ⟨hxy, htu⟩ := List.append_inj heq hlen
    rw [(List.cons.inj hxy).2, ih ht' hu' htu]

theorem nodup_names (htable : ∀ seg ∈ table, Segment seg) (hnodup : table.Nodup) (n : Nat) :
    (((tuples table k).take n).map (nameOf ['d'])).Nodup := by
  refine List.Nodup.map_on ?_ ((nodup_tuples hnodup).sublist (List.take_sublist _ _))
  intro t ht u hu heq
  exact flatMap_inj htable (List.mem_of_mem_take ht) (List.mem_of_mem_take hu)
    (List.append_cancel_left heq)

/-- Segments of one hash give names of one hash. -/
theorem rolHash_tuples {v : BitVec 32} (htable : ∀ seg ∈ table, Segment seg)
    (hv : ∀ seg ∈ table, rolHash 0#32 (seg.map code) = v) : ∀ {k : Nat} {t u : List (List Char)},
      t ∈ tuples table k → u ∈ tuples table k → ∀ h,
      rolHash h ((t.flatMap ('_' :: ·)).map code) = rolHash h
        ((u.flatMap ('_' :: ·)).map code) := by
  intro k
  induction k with
  | zero =>
    intro t u ht hu h
    rw [List.mem_singleton.mp ht, List.mem_singleton.mp hu]
  | succ k ih =>
    intro t u ht hu h
    obtain ⟨x, hx, t, ht', rfl⟩ := mem_tuplesFrom.mp ht
    obtain ⟨y, hy, u, hu', rfl⟩ := mem_tuplesFrom.mp hu
    have hlen : (x.map code).length = (y.map code).length := by
      rw [List.length_map, List.length_map, (htable x hx).length, (htable y hy).length]
    have hsame := rolHash_congr hlen ((hv x hx).trans (hv y hy).symm) (rolStep h (code '_'))
    rw [List.flatMap_cons, List.flatMap_cons, List.map_append, List.map_append, rolHash_append,
      rolHash_append]
    show rolHash (rolHash (rolStep h (code '_')) (x.map code)) _
      = rolHash (rolHash (rolStep h (code '_')) (y.map code)) _
    rw [hsame]
    exact ih ht' hu' _

theorem ascii_name (htable : ∀ seg ∈ table, Segment seg) : ∀ {k : Nat} {t : List (List Char)},
    t ∈ tuples table k → ∀ c ∈ t.flatMap ('_' :: ·), Ascii c := by
  intro k
  induction k with
  | zero =>
    intro t ht c hc
    rw [List.mem_singleton.mp ht] at hc
    exact absurd hc List.not_mem_nil
  | succ k ih =>
    intro t ht c hc
    obtain ⟨x, hx, t, ht', rfl⟩ := mem_tuplesFrom.mp ht
    rw [List.flatMap_cons, List.mem_append, List.mem_cons] at hc
    rcases hc with (rfl | hc) | hc
    · unfold Ascii
      decide
    · exact (htable x hx).ascii c hc
    · exact ih ht' c hc

theorem hash_name (htable : ∀ seg ∈ table, Segment seg) (ht : t ∈ tuples table k) :
    xfsDaHashname (nameOf ['d'] t)
      = rolHash (rolStep 0#32 (code 'd')) ((t.flatMap ('_' :: ·)).map code) := by
  refine hashFrom_eq 0#32 _ ?_
  intro c hc
  rcases List.mem_append.mp hc with hc | hc
  · rw [List.mem_singleton.mp hc]
    unfold Ascii
    decide
  · exact ascii_name htable ht c hc

end Names

/-! ## The table -/

theorem toNat_digit {d : Nat} (hd : d < 10) : (Char.ofNat ('0'.toNat + d)).toNat = 48 + d := by
  have hall : ∀ d < 10, (Char.ofNat ('0'.toNat + d)).toNat = 48 + d := by decide
  exact hall d hd

theorem mod_ten (n i : Nat) : n / 10 ^ (11 - i) % 10 < 10 := Nat.mod_lt _ (by decide)

/-- All entries are segments. -/
theorem segment_segment (n : Nat) : Segment (segment n) := by
  have hchar : ∀ c ∈ segment n, ∃ d < 10, c.toNat = 48 + d := by
    intro c hc
    obtain ⟨i, -, rfl⟩ := List.mem_map.mp hc
    exact ⟨_, mod_ten n i, toNat_digit (mod_ten n i)⟩
  refine ⟨by rw [Umka.Tools.segment, List.length_map, List.length_range]; rfl, fun hmem => ?_,
    fun c hc => ?_⟩
  · obtain ⟨d, -, hd⟩ := hchar nul hmem
    exact absurd hd (by rw [show nul.toNat = 0 from rfl]; omega)
  · obtain ⟨d, hd, hc⟩ := hchar c hc
    unfold Ascii
    omega

/-- Twelve digits tell the number. -/
theorem segment_inj {n m : Nat} (hn : n < 10 ^ 12) (hm : m < 10 ^ 12) (h : segment n = segment m) :
    n = m := by
  have hdigit : ∀ i < 12, n / 10 ^ (11 - i) % 10 = m / 10 ^ (11 - i) % 10 := by
    intro i hi
    have hget := congrArg (·[i]?) h
    simp only [Umka.Tools.segment, List.getElem?_map, xfsNameSegmentLen, List.getElem?_range hi,
      Option.map_some, Option.some.injEq] at hget
    have hnat := congrArg Char.toNat hget
    rw [toNat_digit (mod_ten n i), toNat_digit (mod_ten m i)] at hnat
    omega
  have hmod : ∀ k ≤ 12, n % 10 ^ k = m % 10 ^ k := by
    intro k
    induction k with
    | zero => exact fun _ => by rw [Nat.pow_zero, Nat.mod_one, Nat.mod_one]
    | succ k ih =>
      intro hk
      have hd := hdigit (11 - k) (by omega)
      rw [show 11 - (11 - k) = k by omega] at hd
      rw [Nat.mod_pow_succ, Nat.mod_pow_succ, ih (by omega), hd]
  have hall := hmod 12 (Nat.le_refl _)
  rwa [Nat.mod_eq_of_lt hn, Nat.mod_eq_of_lt hm] at hall

/-- The hash of twelve digits. -/
def segmentHash (n : Nat) : Nat :=
  (List.range 12).foldl (fun h i => rolNat h (48 + n / 10 ^ (11 - i) % 10)) 0

theorem rolHash_segment (n : Nat) :
    (rolHash 0#32 ((segment n).map code)).toNat = segmentHash n := by
  have hcodes : ((segment n).map code).map BitVec.toNat
      = (List.range 12).map fun i => 48 + n / 10 ^ (11 - i) % 10 := by
    rw [List.map_map, Umka.Tools.segment, List.map_map]
    refine List.map_congr_left fun i _ => ?_
    have hd := mod_ten n i
    show (BitVec.ofNat 32 (Char.ofNat _).toNat).toNat = _
    rw [toNat_digit hd, BitVec.toNat_ofNat, Nat.mod_eq_of_lt (by omega)]
  rw [toNat_rolHash, hcodes, List.foldl_map]
  rfl

theorem length_xfsSamehash : xfsSamehash.length = 1000 := by decide +kernel

/-- The table is sorted. -/
theorem xfsSamehash_sorted : xfsSamehash.IsChain (· < ·) := by decide +kernel

theorem xfsSamehash_hash : ∀ n ∈ xfsSamehash, n < 10 ^ 12 ∧ segmentHash n = 912971179 := by
  decide +kernel

theorem nodup_segments : (xfsSamehash.map segment).Nodup := by
  have hlt : xfsSamehash.Pairwise (· < ·) := List.isChain_iff_pairwise.mp xfsSamehash_sorted
  refine List.Nodup.map_on ?_ (hlt.imp Nat.ne_of_lt)
  exact fun n hn m hm h => segment_inj (xfsSamehash_hash n hn).1 (xfsSamehash_hash m hm).1 h

/-- **`mksamehash` makes as many directories as it is asked for**, with different names, and the
    names have one hash. -/
theorem mksamehash_names {n rounds : Nat} (hn : n ≤ 1000 ^ 4) (hrounds : 4 ≤ rounds) :
    ∃ s, mksamehash (xfsSamehash.map segment) rounds n = some s ∧ s.made.length = n ∧ s.made.Nodup
      ∧ ∃ hash, ∀ name ∈ s.made, xfsDaHashname name = hash := by
  have htable : ∀ seg ∈ xfsSamehash.map segment, Segment seg := by
    intro seg hseg
    obtain ⟨m, -, rfl⟩ := List.mem_map.mp hseg
    exact segment_segment m
  have hhash : ∀ seg ∈ xfsSamehash.map segment, rolHash 0#32 (seg.map code) = 912971179#32 := by
    intro seg hseg
    obtain ⟨m, hm, rfl⟩ := List.mem_map.mp hseg
    refine BitVec.eq_of_toNat_eq ?_
    rw [rolHash_segment, (xfsSamehash_hash m hm).2]
    rfl
  have hcount : (xfsSamehash.map segment).length = 1000 := by
    rw [List.length_map, length_xfsSamehash]
  obtain ⟨s, k, hrun, hmade, hle⟩ := mksamehash_eq htable hcount hn hrounds
  refine ⟨s, hrun, ?_, ?_, ?_⟩
  · rw [hmade, List.length_map, List.length_take, Nat.min_eq_left hle]
  · rw [hmade]
    exact nodup_names htable nodup_segments n
  · -- the first name has the hash of all
    rw [hmade]
    cases hts : (tuples (xfsSamehash.map segment) k).take n with
    | nil => exact ⟨0#32, fun name hname => absurd hname List.not_mem_nil⟩
    | cons t ts =>
      have hmem : ∀ u ∈ t :: ts, u ∈ tuples (xfsSamehash.map segment) k := fun u hu =>
        List.mem_of_mem_take (hts ▸ hu)
      refine ⟨xfsDaHashname (nameOf ['d'] t), fun name hname => ?_⟩
      obtain ⟨u, hu, rfl⟩ := List.mem_map.mp hname
      rw [hash_name htable (hmem u hu), hash_name htable (hmem t List.mem_cons_self)]
      exact rolHash_tuples htable hhash (hmem u hu) (hmem t List.mem_cons_self) _

/-- More names than one segment can give. -/
theorem mksamehash_names_two : ∃ s, mksamehash (xfsSamehash.map segment) 4 1001 = some s
    ∧ s.made.length = 1001 ∧ s.made.Nodup ∧ ∃ hash, ∀ name ∈ s.made, xfsDaHashname name = hash :=
  mksamehash_names (by decide) (by decide)

end Umka.Proof.Tools
