import Mathlib.Logic.Function.Iterate
import Umka.Tools.Randdir

/-!
# Which names `randdir` finds

Going back undoes an attempt that appended something (`pathGoBack_append`), so such attempts stay in
the directory. One for which the path gets too long appends nothing, and going back then leaves the
directory, for good (`count_pathAppend`). And the seeds that are tried are those that the hash goes
through, which need not be all: 0 is its own hash.
-/

set_option autoImplicit false

namespace Umka.Proof.Randdir

open Umka.Lib Umka.Randdir

/-! ## What is looked for -/

/-- A path that is new, short enough and one component below the directory. -/
structure Lands (disk : Disk) (limits : Limits) (dir path : Text) : Prop where
  fresh : path ∉ disk.existing
  short : path.length < limits.pathMax.toNat
  below : ∃ name : Text, name ≠ [] ∧ '/' ∉ name ∧ path = dir ++ "/".toList ++ name

/-- `path_append` returns such a path. -/
def Finds (disk : Disk) (limits : Limits) (dir : Text) (seed : UInt32) : Prop :=
  ∃ rounds path, pathAppend disk limits rounds dir seed = some path ∧ Lands disk limits dir path

/-- There is room for the name of this seed. -/
def Fits (limits : Limits) (dir : Text) (seed : UInt32) : Prop :=
  dir.length + 1 + (nameLen limits seed).toNat < limits.pathMax.toNat

instance (limits : Limits) (dir : Text) (seed : UInt32) : Decidable (Fits limits dir seed) :=
  inferInstanceAs (Decidable (_ < _))

/-- The seed has a name that starts with a letter and is new. -/
structure Yields (disk : Disk) (limits : Limits) (dir : Text) (seed : UInt32) : Prop where
  fits : Fits limits dir seed
  letter : seed.toNat % 27 ≠ 26
  fresh : dir ++ "/".toList ++ nameBuf limits seed ∉ disk.existing

/-- The seed is given up, and the directory is not left. -/
def Passes (disk : Disk) (limits : Limits) (dir : Text) (seed : UInt32) : Prop :=
  (Fits limits dir seed ∧ dir ++ "/".toList ++ nameBuf limits seed ∈ disk.writable) ∨
    (¬ Fits limits dir seed ∧ dir ∈ disk.writable ∧ '/' ∉ dir)

/-! ## Names -/

section

variable {disk : Disk} {limits : Limits} {dir path : Text} {seed : UInt32}

theorem printables_getD {k : Nat} (hk : k < 27) : printables.getD k nul = nul ↔ k = 26 := by
  revert k
  decide

theorem slash_ne_nameChar (seed i : UInt32) : nameChar seed i ≠ '/' := by
  have h : ∀ k, k < 27 → printables.getD k nul ≠ '/' := by decide
  exact h _ (Nat.mod_lt _ (by decide))

theorem slash_notMem_nameBuf : '/' ∉ nameBuf limits seed := by
  intro h
  obtain ⟨i, -, hi⟩ := List.mem_map.mp ((List.takeWhile_sublist _).mem h)
  exact slash_ne_nameChar seed _ hi

theorem nameLen_pos : 0 < (nameLen limits seed).toNat := by
  by_cases h : seed % limits.nameMax = 0
  · rw [nameLen, if_pos h]
    exact Nat.one_pos
  · rw [nameLen, if_neg h]
    exact Nat.pos_of_ne_zero fun hzero => h (UInt32.toNat_inj.mp hzero)

theorem length_nameBuf_le : (nameBuf limits seed).length ≤ (nameLen limits seed).toNat := by
  refine Nat.le_trans (List.takeWhile_sublist _).length_le ?_
  rw [List.length_map, List.length_range]

/-- The name is empty exactly if its first character is the NUL. -/
theorem nameBuf_ne_nil_iff : nameBuf limits seed ≠ [] ↔ seed.toNat % 27 ≠ 26 := by
  have hpos : 0 < (nameLen limits seed).toNat := nameLen_pos
  obtain ⟨n, hn⟩ := Nat.exists_eq_add_one_of_ne_zero hpos.ne'
  have hfirst : nameChar seed (UInt32.ofNat 0) = printables.getD (seed.toNat % 27) nul := by
    have hidx : seed ^^^ 139 * UInt32.ofNat 0 = seed := UInt32.xor_zero
    rw [nameChar, hidx]
    rfl
  have hnul : nameChar seed (UInt32.ofNat 0) = nul ↔ seed.toNat % 27 = 26 := by
    rw [hfirst]
    exact printables_getD (Nat.mod_lt _ (by decide))
  rw [nameBuf, hn, List.range_succ_eq_map, List.map_cons, List.takeWhile_cons]
  refine Iff.trans ?_ (not_congr hnul)
  by_cases h : nameChar seed (UInt32.ofNat 0) = nul
  · rw [if_neg (by rw [h]; decide)]
    exact iff_of_false (fun hne => hne rfl) (fun hne => hne h)
  · rw [if_pos (decide_eq_true h)]
    exact iff_of_true (List.cons_ne_nil _ _) h

/-! ## One attempt -/

theorem pathAppendImpl_fits (h : Fits limits dir seed) :
    pathAppendImpl limits dir seed = dir ++ "/".toList ++ nameBuf limits seed :=
  if_neg (Nat.not_le.mpr h)

theorem pathAppendImpl_long (h : ¬ Fits limits dir seed) : pathAppendImpl limits dir seed = dir :=
  if_pos (Nat.not_lt.mp h)

theorem pathGoBack_append {name : Text} (h : '/' ∉ name) :
    pathGoBack (dir ++ "/".toList ++ name) = dir := by
  have hcut : cutLast '/' (dir ++ '/' :: name) = some dir := cutLast_append h
  have heq : dir ++ "/".toList ++ name = dir ++ '/' :: name := List.append_assoc _ _ _
  rw [pathGoBack, heq, hcut, Option.getD_some]

theorem pathGoBack_eq_self (h : '/' ∉ dir) : pathGoBack dir = dir := by
  rw [pathGoBack, cutLast_none h, Option.getD_none]

theorem count_pathGoBack_lt (h : '/' ∈ dir) : (pathGoBack dir).count '/' < dir.count '/' := by
  obtain ⟨t, ht, hcount⟩ := count_cutLast h
  rw [pathGoBack, ht, Option.getD_some]
  omega

theorem count_pathGoBack_le : (pathGoBack dir).count '/' ≤ dir.count '/' := by
  by_cases h : '/' ∈ dir
  · exact Nat.le_of_lt (count_pathGoBack_lt h)
  · rw [pathGoBack_eq_self h]

theorem count_below {name : Text} :
    (dir ++ "/".toList ++ name).count '/' = dir.count '/' + 1 + name.count '/' := by
  rw [List.count_append, List.count_append]
  rfl

/-- A round that does not end the loop. -/
theorem pathAppend_found {rounds : Nat} (h : pathAppendImpl limits dir seed ∈ disk.writable) :
    pathAppend disk limits (rounds + 1) dir seed =
      pathAppend disk limits rounds (pathGoBack (pathAppendImpl limits dir seed)) (uintHash seed) :=
  if_pos (decide_eq_true h)

theorem pathAppend_new {rounds : Nat} (h : pathAppendImpl limits dir seed ∉ disk.writable) :
    pathAppend disk limits (rounds + 1) dir seed = some (pathAppendImpl limits dir seed) :=
  if_neg fun hd => h (of_decide_eq_true hd)

/-! ## The loop -/

/-- However it ends, there is at most one slash more than at the start. -/
theorem count_pathAppend {rounds : Nat} (h : pathAppend disk limits rounds dir seed = some path) :
    path.count '/' ≤ dir.count '/' + 1 := by
  induction rounds generalizing dir seed with
  | zero => exact nomatch h
  | succ rounds ih =>
    by_cases hfits : Fits limits dir seed
    · by_cases hw : pathAppendImpl limits dir seed ∈ disk.writable
      · rw [pathAppend_found hw, pathAppendImpl_fits hfits,
          pathGoBack_append slash_notMem_nameBuf] at h
        exact ih h
      · rw [pathAppend_new hw, pathAppendImpl_fits hfits, Option.some.injEq] at h
        rw [← h, count_below, List.count_eq_zero_of_not_mem slash_notMem_nameBuf]
    · by_cases hw : pathAppendImpl limits dir seed ∈ disk.writable
      · rw [pathAppend_found hw, pathAppendImpl_long hfits] at h
        exact Nat.le_trans (ih h) (Nat.succ_le_succ count_pathGoBack_le)
      · rw [pathAppend_new hw, pathAppendImpl_long hfits, Option.some.injEq] at h
        rw [← h]
        exact Nat.le_succ _

theorem pathAppend_passes {rounds : Nat} (h : Passes disk limits dir seed) :
    pathAppend disk limits (rounds + 1) dir seed =
      pathAppend disk limits rounds dir (uintHash seed) := by
  rcases h with ⟨hfits, hw⟩ | ⟨hfits, hw, hslash⟩
  · rw [← pathAppendImpl_fits hfits] at hw
    rw [pathAppend_found hw, pathAppendImpl_fits hfits, pathGoBack_append slash_notMem_nameBuf]
  · rw [← pathAppendImpl_long hfits] at hw
    rw [pathAppend_found hw, pathAppendImpl_long hfits, pathGoBack_eq_self hslash]

theorem finds_of_yields (h : Yields disk limits dir seed) : Finds disk limits dir seed := by
  have himpl := pathAppendImpl_fits h.fits
  have hnew : pathAppendImpl limits dir seed ∉ disk.writable := fun hw =>
    h.fresh (himpl ▸ disk.writable_subset hw)
  refine ⟨1, dir ++ "/".toList ++ nameBuf limits seed, ?_, h.fresh, ?_, ?_⟩
  · rw [pathAppend_new hnew, himpl]
  · refine Nat.lt_of_le_of_lt ?_ h.fits
    rw [List.length_append, List.length_append]
    exact Nat.add_le_add_left length_nameBuf_le _
  · exact ⟨_, nameBuf_ne_nil_iff.mpr h.letter, slash_notMem_nameBuf, rfl⟩

theorem Lands.count (h : Lands disk limits dir path) : path.count '/' = dir.count '/' + 1 := by
  obtain ⟨name, -, hname, rfl⟩ := h.below
  rw [count_below, List.count_eq_zero_of_not_mem hname]

/-- A run that finds a path is at its end, or goes on in the directory. -/
theorem yields_or_passes {rounds : Nat}
    (h : pathAppend disk limits (rounds + 1) dir seed = some path)
    (hpath : Lands disk limits dir path) :
    Yields disk limits dir seed ∨ Passes disk limits dir seed := by
  by_cases hfits : Fits limits dir seed
  · by_cases hw : dir ++ "/".toList ++ nameBuf limits seed ∈ disk.writable
    · exact .inr (.inl ⟨hfits, hw⟩)
    · rw [← pathAppendImpl_fits hfits] at hw
      rw [pathAppend_new hw, pathAppendImpl_fits hfits, Option.some.injEq] at h
      subst h
      obtain ⟨name, hne, -, heq⟩ := hpath.below
      rw [← List.append_cancel_left heq] at hne
      exact .inl ⟨hfits, nameBuf_ne_nil_iff.mp hne, hpath.fresh⟩
  · have hcount := hpath.count
    by_cases hw : dir ∈ disk.writable
    · by_cases hslash : '/' ∈ dir
      · -- the directory has been left, and its slash does not come back
        rw [← pathAppendImpl_long hfits] at hw
        rw [pathAppend_found hw, pathAppendImpl_long hfits] at h
        have hle := count_pathAppend h
        have hlt := count_pathGoBack_lt hslash
        omega
      · exact .inr (.inr ⟨hfits, hw, hslash⟩)
    · rw [← pathAppendImpl_long hfits] at hw
      rw [pathAppend_new hw, pathAppendImpl_long hfits, Option.some.injEq] at h
      rw [h] at hcount
      omega

theorem finds_of_passes (h : Passes disk limits dir seed)
    (hfinds : Finds disk limits dir (uintHash seed)) : Finds disk limits dir seed := by
  obtain ⟨rounds, path, hrun, hpath⟩ := hfinds
  exact ⟨rounds + 1, path, (pathAppend_passes h).trans hrun, hpath⟩

/-- A seed that is its own hash and passes is tried for ever. -/
theorem pathAppend_stuck (hseed : uintHash seed = seed) (h : Passes disk limits dir seed)
    (rounds : Nat) : pathAppend disk limits rounds dir seed = none := by
  induction rounds with
  | zero => rfl
  | succ rounds ih => rw [pathAppend_passes h, hseed, ih]

end

/-! ## The seed 0 -/

theorem nameBuf_zero {limits : Limits} : nameBuf limits 0 = "A".toList := by
  have hlen : nameLen limits 0 = 1 := by
    rw [nameLen, UInt32.zero_mod]
    rfl
  rw [nameBuf, hlen]
  decide

theorem passes_zero {disk : Disk} (limits : Limits) (hdot : ".".toList ∈ disk.writable)
    (hA : "./A".toList ∈ disk.writable) : Passes disk limits ".".toList 0 := by
  by_cases hfits : Fits limits ".".toList 0
  · refine .inl ⟨hfits, ?_⟩
    rw [nameBuf_zero]
    exact hA
  · exact .inr ⟨hfits, hdot, by decide⟩

/-- A folder with `A` in it, as an earlier run leaves it. -/
def folderA : Disk where
  existing := [".".toList, "./".toList, "./A".toList]
  writable := [".".toList, "./".toList, "./A".toList]
  writable_subset := List.Subset.refl _

def limits8 : Limits := ⟨255, 8, by decide⟩

/-! ## What is found -/

/-- **`path_append` finds a new name exactly if the hash leads from the seed to one that has a new
    name, and all seeds on the way are given up without leaving the directory.** -/
theorem finds_iff (disk : Disk) (limits : Limits) (dir : Text) (seed : UInt32) :
    Finds disk limits dir seed ↔
      ∃ k, Yields disk limits dir (uintHash^[k] seed) ∧
        ∀ j, j < k → Passes disk limits dir (uintHash^[j] seed) := by
  constructor
  · rintro ⟨rounds, path, h, hpath⟩
    induction rounds generalizing seed with
    | zero => exact nomatch h
    | succ rounds ih =>
      rcases yields_or_passes h hpath with hy | hp
      · exact ⟨0, hy, fun j hj => absurd hj (Nat.not_lt_zero j)⟩
      · rw [pathAppend_passes hp] at h
        obtain ⟨k, hk, hbefore⟩ := ih _ h
        refine ⟨k + 1, ?_, fun j hj => ?_⟩
        · rw [Function.iterate_succ_apply]
          exact hk
        · cases j with
          | zero => exact hp
          | succ j =>
            rw [Function.iterate_succ_apply]
            exact hbefore j (Nat.lt_of_succ_lt_succ hj)
  · rintro ⟨k, hk, hbefore⟩
    induction k generalizing seed with
    | zero => exact finds_of_yields hk
    | succ k ih =>
      rw [Function.iterate_succ_apply] at hk
      refine finds_of_passes (hbefore 0 (Nat.zero_lt_succ k)) (ih _ hk fun j hj => ?_)
      rw [← Function.iterate_succ_apply]
      exact hbefore (j + 1) (Nat.succ_lt_succ hj)

theorem not_finds_zero :
    Yields folderA limits8 ".".toList 1 ∧ ¬ Finds folderA limits8 ".".toList 0 := by
  refine ⟨⟨by decide, by decide, by decide⟩, ?_⟩
  rintro ⟨rounds, path, hrun, -⟩
  have hpass : Passes folderA limits8 ".".toList 0 := passes_zero limits8 (by decide) (by decide)
  rw [pathAppend_stuck (by decide) hpass] at hrun
  exact nomatch hrun

/-- **In a folder that has an `A` in it already, the program does not end.** It starts with the
    seed 0. -/
theorem main_stuck {disk : Disk} (limits : Limits) (hdot : ".".toList ∈ disk.writable)
    (hA : "./A".toList ∈ disk.writable) {count : UInt32} (hcount : count ≠ 0) (rounds : Nat) :
    main limits rounds count disk = none := by
  have hpos : count.toNat ≠ 0 := fun hzero => hcount (UInt32.toNat_inj.mp hzero)
  obtain ⟨todo, htodo⟩ := Nat.exists_eq_add_one_of_ne_zero hpos
  have hhash : uintHash 0 = 0 := by decide
  have hrun := pathAppend_stuck hhash (passes_zero limits hdot hA) rounds
  have hback : pathGoBack ".".toList = ".".toList := by decide
  have hthing : thing limits rounds 0 ⟨".".toList, disk⟩ = none := by
    rw [thing, hhash, if_neg (by decide), if_pos (by decide), hback]
    exact congrArg (Option.map _) hrun
  rw [main, htodo, things, hthing, Option.bind_none]

end Umka.Proof.Randdir
