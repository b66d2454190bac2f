import Umka.Proof.Shell.Ls

/-!
# The buffer of a listing

Three places decide how long a directory entry is. The kernel writes entries at 304 bytes for the
default encoding and cp866, and `cmd_ls` allocates for that; `ls_range` and `ls_all` step by 304
bytes for cp866 only. So every encoding that `-e` can name is walked as it was written except
`default`, whose second entry is looked for where the kernel wrote nothing of the kind, and whose
later ones lie behind the buffer.

`rangeReplies` and `allReplies` are the replies that the two loops walk; what the loops print is
what these hold.
-/

set_option autoImplicit false

namespace Umka.Proof.Shell

open Umka.Kos Umka.Shell

/-! ## The replies that are walked -/

/-- Those of the loop of `ls_range`. -/
def rangeReplies (call : DirCall) : Nat → Nat → Nat → Nat → DirInfo → List DirInfo
  | 0, _, _, _, _ => []
  | fuel + 1, requested, size, offset, info =>
    if requested = 0 then []
    else
      let size := if size > requested then requested else size
      let (r, info) := call offset size info
      if replyOk r info size then
        info ::
          if r.status = .endOfFile then []
          else rangeReplies call fuel (requested - size) size ((offset + size) % 2 ^ 32) info
      else []

/-- Those of the first `fuel` rounds of `ls_all`. -/
def allReplies (call : DirCall) (size : Nat) : Nat → Nat → DirInfo → List DirInfo
  | 0, _, _ => []
  | fuel + 1, offset, info =>
    let (r, info) := call offset size info
    if replyOk r info size then
      info ::
        if r.status = .endOfFile then []
        else allReplies call size fuel ((offset + info.cnt) % 2 ^ 32) info
    else []

/-- Those of `cmd_ls`. -/
def lsReplies (fuel : Nat) (call : DirCall) (fromIdx count : UInt32) (info : DirInfo) :
    List DirInfo :=
  if count.toNat ≠ maxDirentsToRead then
    rangeReplies call count.toNat count.toNat
      (if count.toNat > maxDirentsToRead then maxDirentsToRead else count.toNat) fromIdx.toNat info
  else allReplies call count.toNat fuel fromIdx.toNat info

section Replies

variable {call : DirCall} {enc : FsEnc}

/-- What `ls_range` prints of entries is what it walks. -/
theorem entriesOf_rangeReplies (fuel : Nat) : ∀ (requested size offset : Nat) (info : DirInfo),
    entriesOf (lsRangeLoop call enc fuel requested size offset info)
      = (rangeReplies call fuel requested size offset info).flatMap
          fun d => entriesOf (entryLines enc d) := by
  induction fuel with
  | zero => exact fun _ _ _ _ => rfl
  | succ fuel ih =>
    intro requested size offset info
    unfold lsRangeLoop rangeReplies
    dsimp only
    split
    · rfl
    · rw [entriesOf_status]
      generalize (if size > requested then requested else size) = asked
      split
      · rw [entriesOf_append, List.flatMap_cons]
        congr 1
        split
        · rfl
        · exact ih _ _ _ _
      · rfl

/-- And `ls_all`, when it is done. -/
theorem entriesOf_allReplies {size : Nat} (fuel : Nat) : ∀ (offset : Nat) (info : DirInfo)
    {lines : List LsLine}, lsAll call enc size fuel offset info = some lines →
    entriesOf lines = (allReplies call size fuel offset info).flatMap
      fun d => entriesOf (entryLines enc d) := by
  induction fuel with
  | zero => exact fun _ _ _ h => nomatch h
  | succ fuel ih =>
    intro offset info lines h
    unfold lsAll at h
    unfold allReplies
    dsimp only at h ⊢
    split at h
    · next hok =>
      rw [if_pos hok, List.flatMap_cons]
      split at h
      · next hend =>
        cases h
        rw [if_pos hend, entriesOf_status, entriesOf_total]
        exact (List.append_nil _).symm
      · next hend =>
        obtain ⟨rest, hrest, rfl⟩ := Option.map_eq_some_iff.mp h
        rw [if_neg hend, entriesOf_append, entriesOf_status, entriesOf_total, ih _ _ hrest]
    · next hok =>
      cases h
      rw [if_neg hok]
      rfl

/-- The program itself checks that a reply has no more entries than it asked for. -/
theorem cnt_le_of_replyOk {r : F7080Ret} {info : DirInfo} {size : Nat}
    (h : replyOk r info size = true) : info.cnt ≤ size := by
  simp only [replyOk, decide_eq_true_eq] at h
  rw [h.2.1]
  exact h.1

theorem cnt_le_of_mem_rangeReplies {m : Nat} (fuel : Nat) : ∀ {requested size offset : Nat}
    {info d : DirInfo}, size ≤ m → d ∈ rangeReplies call fuel requested size offset info →
    d.cnt ≤ m := by
  induction fuel with
  | zero => exact fun _ h => nomatch h
  | succ fuel ih =>
    intro requested size offset info d hsize h
    have hclip : (if size > requested then requested else size) ≤ m := by split <;> omega
    unfold rangeReplies at h
    dsimp only at h
    generalize (if size > requested then requested else size) = asked at h hclip
    split at h
    · cases h
    · split at h
      · next hok =>
        rcases List.mem_cons.mp h with rfl | h
        · exact Nat.le_trans (cnt_le_of_replyOk hok) hclip
        · split at h
          · cases h
          · exact ih hclip h
      · cases h

theorem cnt_le_of_mem_allReplies {size : Nat} (fuel : Nat) : ∀ {offset : Nat} {info d : DirInfo},
    d ∈ allReplies call size fuel offset info → d.cnt ≤ size := by
  induction fuel with
  | zero => exact fun h => nomatch h
  | succ fuel ih =>
    intro offset info d h
    unfold allReplies at h
    dsimp only at h
    split at h
    · next hok =>
      rcases List.mem_cons.mp h with rfl | h
      · exact cnt_le_of_replyOk hok
      · split at h
        · cases h
        · exact ih h
    · cases h

theorem cnt_le_of_mem_lsReplies {fuel : Nat} {fromIdx count : UInt32} {info d : DirInfo}
    (h : d ∈ lsReplies fuel call fromIdx count info) : d.cnt ≤ maxDirentsToRead := by
  unfold lsReplies at h
  split at h
  · refine cnt_le_of_mem_rangeReplies _ ?_ h
    split <;> omega
  · next hcount =>
    rw [← not_not.mp hcount]
    exact cnt_le_of_mem_allReplies _ h

end Replies

/-! ## Where the entries are -/

/-- Each entry of a reply with `cnt` of them is visited where the kernel wrote it, and is in the
    buffer. -/
def WalkRight (enc : FsEnc) (cnt : Nat) : Prop :=
  ∀ i < cnt, i * bdfeLen enc = i * kernelBdfeLen enc
    ∧ i * bdfeLen enc + kernelBdfeLen enc ≤ listingRoom enc

/-- Where the two steps agree, the buffer has room for all. -/
theorem walkRight_of_bdfeLen_eq {enc : FsEnc} {cnt : Nat} (hlen : bdfeLen enc = kernelBdfeLen enc)
    (hroom : listingBdfeLen enc = kernelBdfeLen enc) (hcnt : cnt ≤ maxDirentsToRead) :
    WalkRight enc cnt := by
  intro i hi
  rw [hlen, listingRoom, hroom, Nat.mul_comm _ maxDirentsToRead, ← Nat.succ_mul]
  exact ⟨rfl, Nat.mul_le_mul_right _ (Nat.le_trans hi hcnt)⟩

/-- With the default encoding the first entry is visited, and no other. -/
theorem walkRight_default_iff {cnt : Nat} : WalkRight .default cnt ↔ cnt ≤ 1 := by
  constructor
  · intro h
    by_contra hcnt
    exact absurd (h 1 (Nat.lt_of_not_le hcnt)).1 (by decide)
  · intro hcnt i hi
    obtain rfl : i = 0 := by omega
    exact ⟨rfl, by decide⟩

theorem listingBdfeLen_eq (enc : FsEnc) : listingBdfeLen enc = kernelBdfeLen enc := by
  cases enc <;> rfl

theorem parseEncoding_eq_default_iff {str : List Char} :
    parseEncoding str = .default ↔ str = "default".toList := by
  unfold parseEncoding
  split
  · next h => exact ⟨fun _ => h, fun _ => rfl⟩
  · next h =>
    refine ⟨fun hd => ?_, fun hs => absurd hs h⟩
    split at hd
    · cases hd
    · split at hd
      · cases hd
      · split at hd <;> cases hd

theorem bdfeLen_eq_of_ne_default {enc : FsEnc} (h : enc ≠ .default) :
    bdfeLen enc = kernelBdfeLen enc := by
  cases enc with
  | default => exact absurd rfl h
  | cp866 => rfl
  | utf16 => rfl
  | utf8 => rfl
  | invalid => rfl

/-- **Every entry of a reply is visited where it is exactly when the encoding is not `default`**,
    or there is no second one. -/
theorem lsWalk_iff (str : List Char) {fuel : Nat} {call : DirCall} {fromIdx count : UInt32}
    {info d : DirInfo} (hd : d ∈ lsReplies fuel call fromIdx count info) :
    WalkRight (parseEncoding str) d.cnt ↔ str ≠ "default".toList ∨ d.cnt ≤ 1 := by
  by_cases hstr : str = "default".toList
  · rw [parseEncoding_eq_default_iff.mpr hstr, or_iff_right (not_not.mpr hstr)]
    exact walkRight_default_iff
  · refine iff_of_true ?_ (.inl hstr)
    have hne : parseEncoding str ≠ .default := mt parseEncoding_eq_default_iff.mp hstr
    exact walkRight_of_bdfeLen_eq (bdfeLen_eq_of_ne_default hne) (listingBdfeLen_eq _)
      (cnt_le_of_mem_lsReplies hd)

/-- `ls80 -c 2 -e cp866` of a directory of two entries. -/
theorem lsWalk_iff_cp866 :
    WalkRight (parseEncoding "cp866".toList)
      (listDir (distinctDir 2) .cp866 0 2 ⟨0, 0, fun _ => none⟩).2.cnt :=
  (lsWalk_iff _ (show _ ∈ lsReplies 0 (listDir (distinctDir 2) .cp866) 0 2 ⟨0, 0, fun _ => none⟩
    from List.mem_cons_self)).mpr (.inl (by decide))

/-- With `-e default` the second one is looked for 256 bytes behind its place. -/
theorem default_walk_not_right :
    ∃ d ∈ lsReplies 0 (listDir (distinctDir 2) .default) 0 2 ⟨0, 0, fun _ => none⟩,
      ¬ WalkRight (parseEncoding "default".toList) d.cnt := by
  refine ⟨(listDir (distinctDir 2) .default 0 2 ⟨0, 0, fun _ => none⟩).2, List.mem_cons_self, ?_⟩
  rw [parseEncoding_eq_default_iff.mpr rfl, walkRight_default_iff]
  decide

end Umka.Proof.Shell
