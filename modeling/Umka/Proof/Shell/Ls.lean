import Mathlib.Data.List.Nodup
import Umka.Shell.Ls

/-!
# Which slices `ls70` and `ls80` print

The entries from `F` on, `N` of them, are printed in pieces; each piece is the piece of the
directory that belongs there as long as `offset`, a 32-bit number, has not come round. With one
count the program does something else: `-c 100` is what `cmd_ls` takes for no `-c` at all, and
the listing goes on to the end of the directory.
-/

set_option autoImplicit false

namespace Umka.Proof.Shell

open Umka.Kos Umka.Shell

/-! ## What is printed -/

/-- The entry lines of an output. -/
def entriesOf (lines : List LsLine) : List (Option (List Char)) :=
  lines.filterMap fun
    | .entry text => some text
    | _ => none

/-- The lines that stand for `es`. -/
def textsOf (es : List Bdfe) : List (Option (List Char)) := es.map fun b => some (entryText b)

/-- The entries from `F` on, at most `N`. -/
def slice (es : List Bdfe) (F N : Nat) : List Bdfe := (es.drop F).take N

/-- `ls -f F -c N` prints its slice of every directory of `T` entries; `kernel es` lists the one
    with the entries `es`. -/
def LsRight (kernel : List Bdfe → DirCall) (T : Nat) (F N : UInt32) (enc : FsEnc) : Prop :=
  ∀ es : List Bdfe, es.length = T → ∀ info : DirInfo, ∃ fuel lines,
    cmdLs fuel (kernel es) enc F N info = some lines
      ∧ entriesOf lines = textsOf (slice es F.toNat N.toNat)

/-- No piece but the first that is asked for and has entries before it starts at `2^32` or
    above. -/
def NoWrap (T F N : Nat) : Prop :=
  ∀ j, 0 < j → maxDirentsToRead * j < N → F + maxDirentsToRead * j ≤ T →
    F + maxDirentsToRead * j < 2 ^ 32

@[simp] theorem entriesOf_nil : entriesOf [] = [] := rfl

@[simp] theorem entriesOf_append (l₁ l₂ : List LsLine) :
    entriesOf (l₁ ++ l₂) = entriesOf l₁ ++ entriesOf l₂ := List.filterMap_append

@[simp] theorem entriesOf_status (r : F7080Ret) (ls : List LsLine) :
    entriesOf (.status r :: ls) = entriesOf ls := rfl

@[simp] theorem entriesOf_total (n : Int32) (ls : List LsLine) :
    entriesOf (.total n :: ls) = entriesOf ls := rfl

@[simp] theorem textsOf_append (l₁ l₂ : List Bdfe) :
    textsOf (l₁ ++ l₂) = textsOf l₁ ++ textsOf l₂ := List.map_append

@[simp] theorem length_textsOf (l : List Bdfe) : (textsOf l).length = l.length := List.length_map _

section Slice

variable {es : List Bdfe} {F N : Nat}

@[simp] theorem length_slice : (slice es F N).length = min N (es.length - F) := by
  simp [slice]

@[simp] theorem slice_zero : slice es F 0 = [] := List.take_zero

/-- A slice in two pieces. -/
theorem slice_add (M : Nat) : slice es F (M + N) = slice es F M ++ slice es (F + M) N := by
  rw [slice, slice, slice, List.take_add, List.drop_drop]

theorem slice_eq_nil (h : es.length ≤ F) : slice es F N = [] := by
  rw [slice, List.drop_eq_nil_of_le h, List.take_nil]

/-- Behind the end of the directory there is nothing to add. -/
theorem slice_eq_of_le {M : Nat} (h : es.length ≤ F + M) (hMN : M ≤ N) :
    slice es F N = slice es F M := by
  obtain ⟨k, rfl⟩ := Nat.exists_eq_add_of_le hMN
  rw [slice_add, slice_eq_nil h, List.append_nil]

theorem head?_textsOf_slice (hN : 0 < N) :
    (textsOf (slice es F N)).head? = (textsOf es)[F]? := by
  rw [textsOf, textsOf, slice, List.head?_map, List.head?_take, if_neg (Nat.ne_of_gt hN),
    List.head?_drop, List.getElem?_map]

/-- Where all lines differ, the first line printed tells where a slice starts. -/
theorem slice_start_eq {w n : Nat} {more : List (Option (List Char))}
    (hnodup : (textsOf es).Nodup) (hn : 0 < n) (hN : 0 < N) (hw : w < es.length)
    (heq : textsOf (slice es w n) ++ more = textsOf (slice es F N)) : w = F := by
  have hne : textsOf (slice es w n) ≠ [] := by
    rw [← List.length_pos_iff, length_textsOf, length_slice]
    omega
  have hhead := congrArg List.head? heq
  rw [List.head?_append_of_ne_nil _ hne, head?_textsOf_slice hn, head?_textsOf_slice hN] at hhead
  exact (List.getElem?_inj (by rwa [length_textsOf]) hnodup).mp hhead

end Slice

/-! ## One call -/

/-- For these encodings the shell walks the buffer as the kernel filled it. -/
def Strides (enc : FsEnc) : Prop := enc = .cp866 ∨ enc = .utf16 ∨ enc = .utf8

theorem Strides.bdfeLen_eq {enc : FsEnc} (h : Strides enc) : bdfeLen enc = kernelBdfeLen enc := by
  rcases h with rfl | rfl | rfl <;> rfl

section Call

variable {call : DirCall} {es : List Bdfe} {enc : FsEnc} {offset size : Nat} {info : DirInfo}

theorem entriesOf_entryLines (hcall : ListsDir call es enc) (henc : Strides enc) :
    entriesOf (entryLines enc (call offset size info).2) = textsOf (slice es offset size) := by
  have hwalk := congrArg (List.map fun b => LsLine.entry (b.map entryText))
    (hcall.walk offset size info)
  rw [List.map_map, List.map_map] at hwalk
  have hlines : entryLines enc (call offset size info).2
      = (slice es offset size).map fun b => .entry (some (entryText b)) := by
    rw [entryLines, henc.bdfeLen_eq]
    exact hwalk
  rw [hlines, entriesOf, List.filterMap_map]
  exact congrFun List.filterMap_eq_map' (slice es offset size)

theorem replyOk_call (hcall : ListsDir call es enc) :
    replyOk (call offset size info).1 (call offset size info).2 size = true := by
  have hle : ((es.drop offset).take size).length ≤ size := List.length_take_le _ _
  simp only [replyOk, hcall.count, hcall.cnt, hcall.status, decide_eq_true_eq, hle, true_and]
  by_cases heq : ((es.drop offset).take size).length = size
  · exact .inl ⟨if_pos heq, heq⟩
  · exact .inr ⟨if_neg heq, Nat.lt_of_le_of_ne hle heq⟩

theorem endOfFile_call (hcall : ListsDir call es enc) :
    (call offset size info).1.status = .endOfFile
      ↔ ¬ (offset + size ≤ es.length ∨ size = 0) := by
  rw [hcall.status_eq]
  by_cases h : offset + size ≤ es.length ∨ size = 0
  · rw [if_pos h]
    exact ⟨nofun, fun hn => absurd h hn⟩
  · rw [if_neg h]
    exact ⟨fun _ => h, fun _ => rfl⟩

end Call

/-! ## `ls_range` -/

section Range

variable {call : DirCall} {es : List Bdfe} {enc : FsEnc} {requested size : Nat}

theorem lsRangeLoop_zero {fuel offset : Nat} {info : DirInfo} :
    lsRangeLoop call enc fuel 0 size offset info = [] := by
  cases fuel with
  | zero => rfl
  | succ fuel => rfl

/-- One round: its piece, and the rest unless the directory ended. -/
theorem entriesOf_lsRangeLoop (hcall : ListsDir call es enc) (fuel offset : Nat)
    (info : DirInfo) (henc : Strides enc) (hreq : requested ≠ 0) {n : Nat}
    (hn : n = min size requested) :
    ∃ info', entriesOf (lsRangeLoop call enc (fuel + 1) requested size offset info)
      = textsOf (slice es offset n) ++
        if offset + n ≤ es.length ∨ n = 0 then
          entriesOf (lsRangeLoop call enc fuel (requested - n) n
            ((offset + n) % 2 ^ 32) info')
        else [] := by
  have hsize : (if size > requested then requested else size) = n := by
    rw [hn]
    split
    · next h => exact (Nat.min_eq_right (Nat.le_of_lt h)).symm
    · next h => exact (Nat.min_eq_left (Nat.not_lt.mp h)).symm
  refine ⟨(call offset n info).2, ?_⟩
  rw [lsRangeLoop, if_neg hreq]
  simp only [hsize]
  rw [entriesOf_status, if_pos (replyOk_call hcall), entriesOf_append,
    entriesOf_entryLines hcall henc]
  congr 1
  by_cases hend : offset + n ≤ es.length ∨ n = 0
  · rw [if_pos hend, if_neg (mt (endOfFile_call hcall).mp (not_not.mpr hend))]
  · rw [if_neg hend, if_pos ((endOfFile_call hcall).mpr hend), entriesOf_nil]

theorem NoWrap.next {T F N : Nat} (h : NoWrap T F N) :
    NoWrap T (F + maxDirentsToRead) (N - maxDirentsToRead) := by
  intro j hj hN hT
  have hnext := h (j + 1) (Nat.succ_pos j)
  rw [Nat.mul_succ] at hnext
  have hsum := hnext (by omega) (by omega)
  omega

/-- As long as `offset` does not come round, the rounds print the slice. -/
theorem lsRangeLoop_slice (hcall : ListsDir call es enc) (henc : Strides enc) (fuel : Nat) :
    ∀ (requested size offset : Nat) (info : DirInfo), requested ≤ fuel →
      min size requested = min maxDirentsToRead requested → NoWrap es.length offset requested →
      entriesOf (lsRangeLoop call enc fuel requested size offset info)
        = textsOf (slice es offset requested) := by
  induction fuel with
  | zero =>
    intro requested size offset info hfuel _ _
    obtain rfl : requested = 0 := Nat.le_zero.mp hfuel
    rw [slice_zero]
    rfl
  | succ fuel ih =>
    intro requested size offset info hfuel hsize hwrap
    by_cases hreq : requested = 0
    · subst hreq
      rw [lsRangeLoop_zero, slice_zero]
      rfl
    · obtain ⟨info', hround⟩ := entriesOf_lsRangeLoop hcall fuel offset info henc hreq hsize.symm
      rw [hround]
      by_cases hlast : requested ≤ maxDirentsToRead
      · -- the last piece
        rw [Nat.min_eq_right hlast, Nat.sub_self, lsRangeLoop_zero, entriesOf_nil, ite_self,
          List.append_nil]
      · have hlt : maxDirentsToRead < requested := Nat.not_le.mp hlast
        rw [Nat.min_eq_left (Nat.le_of_lt hlt)]
        by_cases hend : offset + maxDirentsToRead ≤ es.length
        · have hoff : offset + maxDirentsToRead < 2 ^ 32 := by
            simpa using hwrap 1 Nat.one_pos (by simpa using hlt) (by simpa using hend)
          have hfuel' : requested - maxDirentsToRead ≤ fuel := by
            have : 0 < maxDirentsToRead := by decide
            omega
          rw [if_pos (.inl hend), Nat.mod_eq_of_lt hoff, ih _ _ _ _ hfuel' rfl hwrap.next,
            ← textsOf_append, ← slice_add, Nat.add_sub_cancel' (Nat.le_of_lt hlt)]
        · have hne : ¬ (offset + maxDirentsToRead ≤ es.length ∨ maxDirentsToRead = 0) := by
            rintro (h | h)
            · exact hend h
            · cases h
          rw [if_neg hne, List.append_nil,
            slice_eq_of_le (Nat.le_of_lt (Nat.not_le.mp hend)) (Nat.le_of_lt hlt)]

theorem lsRange_slice (hcall : ListsDir call es enc) (henc : Strides enc) (offset size : Nat)
    (info : DirInfo) (hwrap : NoWrap es.length offset size) :
    entriesOf (lsRange call enc offset size info) = textsOf (slice es offset size) := by
  have hsize : (if size > maxDirentsToRead then maxDirentsToRead else size)
      = min maxDirentsToRead size := by
    split <;> omega
  rw [lsRange, hsize]
  exact lsRangeLoop_slice hcall henc _ _ _ _ _ (Nat.le_refl _) (by omega) hwrap

/-- Once it has come round, a piece from the front of the directory is printed instead. -/
theorem lsRangeLoop_wrapped (hcall : ListsDir call es enc) (henc : Strides enc)
    (hnodup : (textsOf es).Nodup) (j : Nat) :
    ∀ (fuel requested offset : Nat) (info : DirInfo), requested ≤ fuel → offset < 2 ^ 32 →
      0 < j → maxDirentsToRead * j < requested → offset + maxDirentsToRead * j ≤ es.length →
      2 ^ 32 ≤ offset + maxDirentsToRead * j →
      entriesOf (lsRangeLoop call enc fuel requested maxDirentsToRead offset info)
        ≠ textsOf (slice es offset requested) := by
  have hmax : maxDirentsToRead = 100 := rfl
  induction j with
  | zero => exact fun _ _ _ _ _ _ h => absurd h (Nat.lt_irrefl 0)
  | succ j ih =>
    intro fuel requested offset info hfuel hoff _ hreq hlen hwrap
    rw [Nat.mul_succ] at hreq hlen hwrap
    obtain ⟨fuel, rfl⟩ := Nat.exists_eq_add_one_of_ne_zero (by omega : fuel ≠ 0)
    have hlt : maxDirentsToRead < requested := by omega
    have hend : offset + maxDirentsToRead ≤ es.length := by omega
    obtain ⟨info', hround⟩ := entriesOf_lsRangeLoop hcall fuel offset info henc (by omega)
      (Nat.min_eq_left (Nat.le_of_lt hlt)).symm
    have hslice : slice es offset requested
        = slice es offset maxDirentsToRead
          ++ slice es (offset + maxDirentsToRead) (requested - maxDirentsToRead) := by
      rw [← slice_add, Nat.add_sub_cancel' (Nat.le_of_lt hlt)]
    rw [hround, if_pos (.inl hend), hslice, textsOf_append, ne_eq, List.append_right_inj]
    by_cases hnow : 2 ^ 32 ≤ offset + maxDirentsToRead
    · -- this is where it comes round: the heads are two different entries
      intro heq
      obtain ⟨fuel, rfl⟩ := Nat.exists_eq_add_one_of_ne_zero (by omega : fuel ≠ 0)
      obtain ⟨info'', hnext⟩ := entriesOf_lsRangeLoop hcall fuel
        ((offset + maxDirentsToRead) % 2 ^ 32) info' henc
        (by omega : requested - maxDirentsToRead ≠ 0) rfl
      rw [hnext] at heq
      have hstart := slice_start_eq hnodup (by omega) (by omega) (by omega) heq
      omega
    · have hpos : 0 < j := by
        rcases Nat.eq_zero_or_pos j with rfl | h
        · omega
        · exact h
      rw [Nat.mod_eq_of_lt (Nat.not_le.mp hnow)]
      exact ih fuel _ _ info' (by omega) (Nat.not_le.mp hnow) hpos (by omega) (by omega) (by omega)

end Range

/-! ## `ls_all` -/

section All

variable {call : DirCall} {es : List Bdfe} {enc : FsEnc} {fuel size offset : Nat}
  {info : DirInfo}

/-- One round again. -/
theorem lsAll_round (hcall : ListsDir call es enc) (offset : Nat) (info : DirInfo)
    (henc : Strides enc) (hsize : size ≠ 0) :
    ∃ lines info', entriesOf lines = textsOf (slice es offset size)
      ∧ ∀ fuel, lsAll call enc size (fuel + 1) offset info
        = if offset + size ≤ es.length then
            (lsAll call enc size fuel ((offset + size) % 2 ^ 32) info').map (lines ++ ·)
          else some lines := by
  let reply := call offset size info
  refine ⟨.status reply.1 :: .total (UInt32.ofNat reply.2.totalCnt).toInt32
    :: entryLines enc reply.2, reply.2, ?_, fun fuel => ?_⟩
  · rw [entriesOf_status, entriesOf_total, entriesOf_entryLines hcall henc]
  · rw [lsAll]
    simp only [(replyOk_call hcall), if_true]
    by_cases hend : offset + size ≤ es.length
    · have hcnt : (call offset size info).2.cnt = size := by
        rw [hcall.cnt, List.length_take, List.length_drop]
        omega
      rw [if_pos hend, if_neg (mt (endOfFile_call hcall).mp (not_not.mpr (.inl hend))), hcnt]
    · have hne : ¬ (offset + size ≤ es.length ∨ size = 0) := by
        rintro (h | h)
        · exact hend h
        · exact hsize h
      rw [if_neg hend, if_pos ((endOfFile_call hcall).mpr hne)]

/-- A directory that ends with the first piece. -/
theorem lsAll_slice (hcall : ListsDir call es enc) (info : DirInfo) (henc : Strides enc)
    (hsize : size ≠ 0) (hlen : es.length ≤ offset + size)
    (hwrap : es.length = offset + size → offset + size < 2 ^ 32) :
    ∃ fuel lines, lsAll call enc size fuel offset info = some lines
      ∧ entriesOf lines = textsOf (slice es offset size) := by
  obtain ⟨lines, info', hlines, hround⟩ :=
    lsAll_round hcall offset info henc hsize
  refine ⟨2, ?_⟩
  by_cases hend : offset + size ≤ es.length
  · -- the piece was full; the next call returns nothing
    have heq := Nat.le_antisymm hlen hend
    obtain ⟨lines', info'', hlines', hnext⟩ :=
      lsAll_round hcall (offset + size) info' henc hsize
    rw [hround, if_pos hend, Nat.mod_eq_of_lt (hwrap heq), hnext, if_neg (by omega)]
    refine ⟨lines ++ lines', rfl, ?_⟩
    rw [entriesOf_append, hlines, hlines', slice_eq_nil hlen]
    exact List.append_nil _
  · rw [hround, if_neg hend]
    exact ⟨lines, rfl, hlines⟩

/-- In any other directory more than the piece is printed. -/
theorem length_lsAll_gt {lines : List LsLine} (hcall : ListsDir call es enc)
    (henc : Strides enc) (hsize : size ≠ 0)
    (hend : offset + size ≤ es.length) (hmore : (offset + size) % 2 ^ 32 < es.length)
    (h : lsAll call enc size fuel offset info = some lines) :
    size < (entriesOf lines).length := by
  cases fuel with
  | zero => cases h
  | succ fuel =>
    obtain ⟨first, info', hfirst, hround⟩ :=
      lsAll_round hcall offset info henc hsize
    rw [hround, if_pos hend] at h
    obtain ⟨rest, hrest, rfl⟩ := Option.map_eq_some_iff.mp h
    have hpos : 0 < (entriesOf rest).length := by
      cases fuel with
      | zero => cases hrest
      | succ fuel =>
        obtain ⟨second, info'', hsecond, hnext⟩ :=
          lsAll_round hcall ((offset + size) % 2 ^ 32) info' henc hsize
        rw [hnext] at hrest
        have hlen : 0 < (entriesOf second).length := by
          rw [hsecond, length_textsOf, length_slice]
          omega
        split at hrest
        · obtain ⟨third, -, rfl⟩ := Option.map_eq_some_iff.mp hrest
          rw [entriesOf_append, List.length_append]
          omega
        · cases hrest
          exact hlen
    rw [entriesOf_append, List.length_append, hfirst, length_textsOf, length_slice]
    omega

end All

/-! ## The command -/

/-- A directory of `T` entries whose lines all differ. -/
def distinctDir (T : Nat) : List Bdfe :=
  (List.range T).map fun i => ⟨0, 0, 0, 0, 0, List.replicate i 'a'⟩

@[simp] theorem length_distinctDir (T : Nat) : (distinctDir T).length = T := by
  simp [distinctDir]

theorem nodup_distinctDir (T : Nat) : (textsOf (distinctDir T)).Nodup := by
  rw [textsOf, distinctDir, List.map_map]
  refine List.Nodup.map (fun i j h => ?_) List.nodup_range
  have hlen := congrArg (fun t => (t.map List.length).getD 0) h
  simpa [entryText] using hlen

section Command

variable {kernel : List Bdfe → DirCall} {T : Nat} {F N : UInt32} {enc : FsEnc}

/-- With the count that stands for no count, only a directory that ends there is listed right. -/
theorem LsRight.ends_there (h : LsRight kernel T F N enc) (hkernel : ListsDirs kernel enc)
    (henc : Strides enc) (hN : N.toNat = maxDirentsToRead) :
    T ≤ F.toNat + maxDirentsToRead
      ∧ (T = F.toNat + maxDirentsToRead → F.toNat + maxDirentsToRead < 2 ^ 32) := by
  have hmax : maxDirentsToRead = 100 := rfl
  have hF : F.toNat < 2 ^ 32 := F.toNat_lt
  by_contra hbad
  obtain ⟨fuel, lines, hrun, hlines⟩ :=
    h (distinctDir T) (length_distinctDir T) ⟨0, 0, fun _ => none⟩
  rw [cmdLs, if_neg (not_not.mpr hN), hN] at hrun
  have hgt := length_lsAll_gt (hkernel _) henc (by decide) (by rw [length_distinctDir]; omega)
    (by rw [length_distinctDir]; omega) hrun
  rw [hlines, length_textsOf, length_slice, hN] at hgt
  omega

/-- With any other count the offset must not come round. -/
theorem LsRight.noWrap (h : LsRight kernel T F N enc) (hkernel : ListsDirs kernel enc)
    (henc : Strides enc) (hN : N.toNat ≠ maxDirentsToRead) : NoWrap T F.toNat N.toNat := by
  intro j hj hjN hjT
  by_contra hwrap
  obtain ⟨fuel, lines, hrun, hlines⟩ :=
    h (distinctDir T) (length_distinctDir T) ⟨0, 0, fun _ => none⟩
  have hone := Nat.le_mul_of_pos_right maxDirentsToRead hj
  rw [cmdLs, if_pos hN, Option.some.injEq] at hrun
  rw [← hrun, lsRange, if_pos (Nat.lt_of_le_of_lt hone hjN)] at hlines
  refine lsRangeLoop_wrapped (hkernel _) henc (nodup_distinctDir T) j _ _ _ _ (Nat.le_refl _)
    F.toNat_lt hj hjN ?_ (Nat.not_lt.mp hwrap) hlines
  rwa [length_distinctDir]

end Command

/-- **`ls -f F -c N` prints its slice exactly when the count is not the one that stands for no
    count, or the directory ends there anyway, and the offset does not come round.** -/
theorem lsRight_iff (kernel : List Bdfe → DirCall) (T : Nat) (F N : UInt32) (enc : FsEnc)
    (hkernel : ListsDirs kernel enc) (henc : Strides enc) :
    LsRight kernel T F N enc ↔
      if N.toNat = maxDirentsToRead then
        T ≤ F.toNat + maxDirentsToRead
          ∧ (T = F.toNat + maxDirentsToRead → F.toNat + maxDirentsToRead < 2 ^ 32)
      else NoWrap T F.toNat N.toNat := by
  by_cases hN : N.toNat = maxDirentsToRead
  · rw [if_pos hN]
    refine ⟨fun h => h.ends_there hkernel henc hN, ?_⟩
    rintro ⟨hlen, hwrap⟩ es rfl info
    obtain ⟨fuel, lines, hrun, hlines⟩ := lsAll_slice (hkernel es) info henc (by decide) hlen hwrap
    refine ⟨fuel, lines, ?_, ?_⟩
    · rw [cmdLs, if_neg (not_not.mpr hN), hN]
      exact hrun
    · rw [hN]
      exact hlines
  · rw [if_neg hN]
    refine ⟨fun h => h.noWrap hkernel henc hN, ?_⟩
    rintro hwrap es rfl info
    exact ⟨0, _, if_pos hN, lsRange_slice (hkernel es) henc _ _ info hwrap⟩

theorem lsRight_iff_two : ListsDirs (listDir · .utf8) .utf8 ∧ Strides .utf8
    ∧ (LsRight (listDir · .utf8) 3 0 2 .utf8 ↔ NoWrap 3 0 2) :=
  ⟨listsDirs_listDir .utf8, .inr (.inr rfl),
    lsRight_iff (listDir · .utf8) 3 0 2 .utf8 (listsDirs_listDir .utf8) (.inr (.inr rfl))⟩

/-- Of a directory with 101 entries, `-c 100` prints 101. -/
theorem count_hundred_not_right :
    ListsDirs (listDir · .utf8) .utf8 ∧ ¬ LsRight (listDir · .utf8) 101 0 100 .utf8 := by
  refine ⟨listsDirs_listDir .utf8, fun h => ?_⟩
  exact absurd (h.ends_there (listsDirs_listDir .utf8) (.inr (.inr rfl)) rfl).1 (by decide)

end Umka.Proof.Shell
