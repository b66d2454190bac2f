import Umka.Proof.Shell.Ls

/-!
# Listing to the end, in two ways

`ls_all` goes on until a call returns fewer entries than it was asked for; `ls_range` with a count
that reaches behind the last entry stops at the same call. Both print the entries from the first
index on. Both advance a 32-bit `offset`, and would print a piece that was not asked for once it
came round; it does not, since the kernel counts a directory's entries in a 32-bit `total_cnt`.
-/

set_option autoImplicit false

namespace Umka.Proof.Shell

open Umka.Kos Umka.Shell

/-- `ls_all` ends, and it and `ls_range` with any count that reaches the end both print the
    entries from `F` on, of every directory of `T` entries; `kernel es` lists the one with the
    entries `es`. -/
def ListingsAgree (kernel : List Bdfe → DirCall) (T : Nat) (F : UInt32) (enc : FsEnc) : Prop :=
  ∀ es : List Bdfe, es.length = T → ∀ info : DirInfo,
    (∃ fuel lines, lsAll (kernel es) enc maxDirentsToRead fuel F.toNat info = some lines
      ∧ entriesOf lines = textsOf (es.drop F.toNat))
    ∧ ∀ N : UInt32, T - F.toNat ≤ N.toNat →
        entriesOf (lsRange (kernel es) enc F.toNat N.toNat info) = textsOf (es.drop F.toNat)

/-- No piece but the first that has entries before it starts at `2^32` or above. -/
def NeverWraps (T F : Nat) : Prop :=
  ∀ j, 0 < j → F + maxDirentsToRead * j ≤ T → F + maxDirentsToRead * j < 2 ^ 32

/-- A directory whose total is a 32-bit number. -/
theorem neverWraps_of_lt {T F : Nat} (h : T < 2 ^ 32) : NeverWraps T F :=
  fun _ _ hT => Nat.lt_of_le_of_lt hT h

theorem NeverWraps.next {T F : Nat} (h : NeverWraps T F) : NeverWraps T (F + maxDirentsToRead) := by
  intro j hj hT
  have hnext := h (j + 1) (Nat.succ_pos j)
  rw [Nat.mul_succ] at hnext
  have := hnext (by omega)
  omega

section Drop

variable {es : List Bdfe} {F N : Nat}

theorem slice_eq_drop (h : es.length ≤ F + N) : slice es F N = es.drop F := by
  refine List.take_of_length_le ?_
  rw [List.length_drop]
  omega

theorem drop_eq_slice_append (M : Nat) : es.drop F = slice es F M ++ es.drop (F + M) := by
  rw [slice, ← List.drop_drop, List.take_append_drop]

end Drop

section All

variable {call : DirCall} {es : List Bdfe} {enc : FsEnc}

/-- As long as `offset` does not come round, `ls_all` prints the entries to the end, and ends. -/
theorem lsAll_drop (hcall : ListsDir call es enc) (henc : Strides enc) {offset : Nat}
    (hwrap : NeverWraps es.length offset) (info : DirInfo) :
    ∃ fuel lines, lsAll call enc maxDirentsToRead fuel offset info = some lines
      ∧ entriesOf lines = textsOf (es.drop offset) := by
  have hmax : maxDirentsToRead = 100 := rfl
  -- The measure is what is left of the directory.
  induction hleft : es.length - offset using Nat.strongRecOn generalizing offset info with
  | ind left ih =>
    obtain ⟨lines, info', hlines, hround⟩ :=
      lsAll_round hcall offset info henc (by decide : maxDirentsToRead ≠ 0)
    by_cases hend : offset + maxDirentsToRead ≤ es.length
    · have hoff : offset + maxDirentsToRead < 2 ^ 32 := by
        simpa using hwrap 1 Nat.one_pos (by simpa using hend)
      obtain ⟨fuel, rest, hrun, hrest⟩ := ih _ (by omega) hwrap.next info' rfl
      refine ⟨fuel + 1, lines ++ rest, ?_, ?_⟩
      · rw [hround, if_pos hend, Nat.mod_eq_of_lt hoff, hrun, Option.map_some]
      · rw [entriesOf_append, hlines, hrest, ← textsOf_append, ← drop_eq_slice_append]
    · refine ⟨1, lines, ?_, ?_⟩
      · rw [hround, if_neg hend]
      · rw [hlines, slice_eq_drop (Nat.le_of_lt (Nat.not_le.mp hend))]

/-- Once it has come round, the next piece is one from the front of the directory. -/
theorem lsAll_wrapped (hcall : ListsDir call es enc) (henc : Strides enc)
    (hnodup : (textsOf es).Nodup) (j : Nat) :
    ∀ (fuel offset : Nat) (info : DirInfo) (lines : List LsLine), offset < 2 ^ 32 → 0 < j →
      offset + maxDirentsToRead * j ≤ es.length → 2 ^ 32 ≤ offset + maxDirentsToRead * j →
      lsAll call enc maxDirentsToRead fuel offset info = some lines →
      entriesOf lines ≠ textsOf (es.drop offset) := by
  have hmax : maxDirentsToRead = 100 := rfl
  induction j with
  | zero => exact fun _ _ _ _ _ h => absurd h (Nat.lt_irrefl 0)
  | succ j ih =>
    intro fuel offset info lines hoff _ hlen hwrap hrun
    rw [Nat.mul_succ] at hlen hwrap
    have hend : offset + maxDirentsToRead ≤ es.length := by omega
    cases fuel with
    | zero => cases hrun
    | succ fuel =>
      obtain ⟨first, info', hfirst, hround⟩ :=
        lsAll_round hcall offset info henc (by decide : maxDirentsToRead ≠ 0)
      rw [hround, if_pos hend] at hrun
      obtain ⟨rest, hrest, rfl⟩ := Option.map_eq_some_iff.mp hrun
      rw [entriesOf_append, hfirst, drop_eq_slice_append maxDirentsToRead, textsOf_append, ne_eq,
        List.append_right_inj]
      by_cases hnow : 2 ^ 32 ≤ offset + maxDirentsToRead
      · -- this is where it comes round: the heads are two different entries
        intro heq
        rw [← slice_eq_drop (N := es.length) (Nat.le_add_left _ _)] at heq
        cases fuel with
        | zero => cases hrest
        | succ fuel =>
          obtain ⟨second, info'', hsecond, hnext⟩ := lsAll_round hcall
            ((offset + maxDirentsToRead) % 2 ^ 32) info' henc (by decide : maxDirentsToRead ≠ 0)
          obtain ⟨more, hmore⟩ : ∃ more, entriesOf rest
              = textsOf (slice es ((offset + maxDirentsToRead) % 2 ^ 32) maxDirentsToRead)
                ++ more := by
            rw [hnext] at hrest
            split at hrest
            · obtain ⟨third, -, rfl⟩ := Option.map_eq_some_iff.mp hrest
              exact ⟨entriesOf third, by rw [entriesOf_append, hsecond]⟩
            · cases hrest
              exact ⟨[], by rw [hsecond, List.append_nil]⟩
          rw [hmore] at heq
          have hstart := slice_start_eq hnodup (by decide) (by omega) (by omega) heq
          omega
      · have hpos : 0 < j := by
          rcases Nat.eq_zero_or_pos j with rfl | h
          · omega
          · exact h
        rw [Nat.mod_eq_of_lt (Nat.not_le.mp hnow)] at hrest
        exact ih fuel _ info' rest (Nat.not_le.mp hnow) hpos (by omega) (by omega) hrest

end All

/-- The two listings agree exactly when `offset` does not come round. -/
theorem listingsAgree_iff {kernel : List Bdfe → DirCall} {T : Nat} {F : UInt32} {enc : FsEnc}
    (hkernel : ListsDirs kernel enc) (henc : Strides enc) :
    ListingsAgree kernel T F enc ↔ NeverWraps T F.toNat := by
  constructor
  · intro h j hj hT
    by_contra hwrap
    obtain ⟨⟨fuel, lines, hrun, hlines⟩, -⟩ :=
      h (distinctDir T) (length_distinctDir T) ⟨0, 0, fun _ => none⟩
    refine lsAll_wrapped (hkernel _) henc (nodup_distinctDir T) j fuel _ _ lines F.toNat_lt hj ?_
      (Nat.not_lt.mp hwrap) hrun hlines
    rwa [length_distinctDir]
  · rintro hwrap es rfl info
    refine ⟨lsAll_drop (hkernel es) henc hwrap info, fun N hN => ?_⟩
    rw [lsRange_slice (hkernel es) henc _ _ info fun j hj _ hT => hwrap j hj hT,
      slice_eq_drop (by omega)]

/-- **The two listings agree in every directory that `total_cnt` can count.** -/
theorem listings_agree (kernel : List Bdfe → DirCall) (T : Nat) (F : UInt32) (enc : FsEnc)
    (hkernel : ListsDirs kernel enc) (henc : Strides enc) (hT : T < 2 ^ 32) :
    ListingsAgree kernel T F enc :=
  (listingsAgree_iff hkernel henc).mpr (neverWraps_of_lt hT)

/-- Three hundred entries from the hundredth on, a multiple of what one call returns. -/
theorem listings_agree_chunks : ListsDirs (listDir · .cp866) .cp866 ∧ Strides .cp866
    ∧ ListingsAgree (listDir · .cp866) 300 100 .cp866 :=
  ⟨listsDirs_listDir .cp866, .inl rfl,
    listings_agree (listDir · .cp866) 300 100 .cp866 (listsDirs_listDir .cp866) (.inl rfl)
      (by decide)⟩

end Umka.Proof.Shell
