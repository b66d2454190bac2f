import Umka.Lib.Preorder
import Umka.Tools.Dirtotest

/-!
# What `dirtotest.py` prints

The script goes through the folder in sorted pre-order, each item once (`items_eq`), and the
folder's name at the start of a path is replaced as it should be. But the replacement goes on
through the rest of the path, so the commands are right exactly if the folder's name and a slash
are not there again.
-/

set_option autoImplicit false

namespace Umka.Proof.Dirtotest

open Umka.Lib Umka.Dirtotest

/-! ## What a test of a folder is -/

/-- The path of an item from the folder on. -/
def relative (e : List (Text × Kind)) : Text := "/".toList.intercalate (Forest.names e)

/-- The command for an item; the folder itself is the item with no names on the way. -/
def command (disk : Text) (e : List (Text × Kind)) : Text :=
  match e.getLast? with
  | none => "ls80 ".toList ++ disk ++ "/".toList
  | some (_, .directory) => "ls80 ".toList ++ (disk ++ "/".toList ++ relative e) ++ "/".toList
  | some (_, .file) =>
    "read70 ".toList ++ (disk ++ "/".toList ++ relative e) ++ " 0 16388096 -h".toList

/-- The folder and every item in it once, a directory before what is in it and neighbours by
    name, with the command for each. -/
def Covers (disk : Text) (folder : Folder) (printed : List Text) : Prop :=
  ∃ order : List (List (Text × Kind)), order.Perm ([] :: folder.listing.entries) ∧
    order.Pairwise (fun a b => Forest.names a < Forest.names b) ∧ printed = order.map (command disk)

theorem covers_iff_eq {disk : Text} {folder : Folder} {printed : List Text} :
    Covers disk folder printed ↔
      printed = command disk [] :: folder.listing.preorder.map (command disk) := by
  have hroot : ([] :: folder.listing.preorder).Pairwise
      fun a b => Forest.names a < Forest.names b := by
    refine List.pairwise_cons.mpr ⟨fun e he => ?_, Forest.pairwise_preorder folder.distinct⟩
    obtain ⟨p, e, rfl⟩ := List.exists_cons_of_ne_nil (Forest.ne_nil_of_mem_preorder he)
    exact List.nil_lt_cons _ _
  constructor
  · rintro ⟨order, hperm, hpair, rfl⟩
    rw [Forest.eq_of_ascending hpair hroot (hperm.trans ((Forest.preorder_perm _).cons _).symm),
      List.map_cons]
  · rintro rfl
    exact ⟨[] :: folder.listing.preorder, (Forest.preorder_perm _).cons _, hroot, rfl⟩

/-! ## The recursion -/

theorem append_le_append_iff {p a b : Text} : p ++ a ≤ p ++ b ↔ a ≤ b := by
  induction p with
  | nil => rfl
  | cons c p ih =>
    rw [List.cons_append, List.cons_append, ← ih, ← not_lt, ← not_lt, List.cons_lt_cons_self]

/-- Putting items in order by their paths is putting them in order by their names. -/
theorem inOrder_map {l : List (Text × List (List (Text × Kind)))} {p : Text}
    {g : List (Text × Kind) → Text} :
    inOrder (l.map fun t => (p ++ t.1, t.2.map g))
      = ((Forest.byName l).flatMap Prod.snd).map g := by
  have hsort := List.map_insertionSort (fun a b => a.1 ≤ b.1) (fun a b => a.1 ≤ b.1)
    (fun t : Text × List (List (Text × Kind)) => (p ++ t.1, t.2.map g)) l
    fun a _ b _ => append_le_append_iff.symm
  rw [inOrder, ← hsort, List.flatMap_map, List.map_flatMap]
  rfl

section

variable {folder disk : Text}

/-- What is printed for an item in the directory `path`. -/
def shown (folder disk path : Text) (e : List (Text × Kind)) : Text :=
  match e.getLast? with
  | none => dirCommand folder disk path
  | some (_, .directory) => dirCommand folder disk (path ++ "/".toList ++ relative e)
  | some (_, .file) => handleFile folder disk (path ++ "/".toList ++ relative e)

theorem relative_singleton {p : Text × Kind} : relative [p] = p.1 := List.intercalate_singleton

theorem relative_cons {p : Text × Kind} {e : List (Text × Kind)} (he : e ≠ []) :
    relative (p :: e) = p.1 ++ "/".toList ++ relative e := by
  obtain ⟨q, e, rfl⟩ := List.exists_cons_of_ne_nil he
  exact List.intercalate_cons_cons

theorem shown_directory {path f : Text} :
    shown folder disk path [(f, .directory)]
      = dirCommand folder disk (path ++ "/".toList ++ f) := by
  rw [shown, List.getLast?_singleton, relative_singleton]

theorem shown_file {path f : Text} :
    shown folder disk path [(f, .file)] = handleFile folder disk (path ++ "/".toList ++ f) := by
  rw [shown, List.getLast?_singleton, relative_singleton]

theorem shown_cons {path : Text} {p : Text × Kind} {e : List (Text × Kind)} (he : e ≠ []) :
    shown folder disk path (p :: e) = shown folder disk (path ++ "/".toList ++ p.1) e := by
  have hlast : (p :: e).getLast? = e.getLast? := by
    obtain ⟨q, e, rfl⟩ := List.exists_cons_of_ne_nil he
    exact List.getLast?_cons_cons
  have hpath : path ++ "/".toList ++ relative (p :: e) =
      path ++ "/".toList ++ p.1 ++ "/".toList ++ relative e := by
    rw [relative_cons he]
    simp only [List.append_assoc]
  unfold shown
  rw [hlast, hpath]
  cases h : e.getLast? with
  | none => exact absurd (List.getLast?_eq_none_iff.mp h) he
  | some q =>
    obtain ⟨_, k⟩ := q
    cases k with
    | directory => rfl
    | file => rfl

/-- The items of a directory are its trees, and what they print is what is printed for the
    entries in them. -/
theorem items_eq {listing : Listing} (h : FilesEmpty listing) (path : Text) :
    items folder disk path listing = listing.trees.map fun t =>
      (path ++ "/".toList ++ t.1, t.2.map (shown folder disk path)) := by
  induction listing generalizing path with
  | empty => rfl
  | node f k inner next ihi ihn =>
    cases k with
    | directory =>
      obtain ⟨hinner, hnext⟩ := h
      have hin : inOrder (items folder disk (path ++ "/".toList ++ f) inner) =
          (inner.preorder.map ((f, Kind.directory) :: ·)).map (shown folder disk path) := by
        rw [ihi hinner, inOrder_map, List.map_map]
        refine List.map_congr_left fun e he => ?_
        have hcons : shown folder disk path ((f, .directory) :: e) = _ :=
          shown_cons (Forest.ne_nil_of_mem_preorder he)
        exact hcons.symm
      rw [items, ihn hnext, hin, ← shown_directory]
      rfl
    | file =>
      obtain ⟨rfl, hnext⟩ := h
      rw [items, ihn hnext, ← shown_file]
      rfl

theorem handleDir_eq (tree : Folder) :
    handleDir folder disk folder tree.listing =
      (command disk [] :: tree.listing.preorder.map (shown folder disk folder)) := by
  rw [handleDir, items_eq tree.filesEmpty, inOrder_map, dirCommand, if_pos rfl]
  rfl

/-! ## The paths -/

/-- The name at the start goes, and the replacement goes on behind it. -/
theorem virtualPath_eq {rel : Text} :
    virtualPath folder disk (folder ++ "/".toList ++ rel) =
      disk ++ "/".toList ++ removeAll (folder ++ "/".toList) rel := by
  rw [virtualPath, removeAll_append]
  exact List.append_ne_nil_of_right_ne_nil _ (by decide)

/-- Two commands that differ in the path only are the same if the paths are. -/
theorem around_inj {a d b p q : Text} : a ++ (d ++ p) ++ b = a ++ (d ++ q) ++ b ↔ p = q := by
  rw [List.append_left_inj, List.append_right_inj, List.append_right_inj]

theorem shown_eq_command_iff {e : List (Text × Kind)} (he : e ≠ []) :
    shown folder disk folder e = command disk e ↔ ¬ folder ++ "/".toList <:+: relative e := by
  have hne : folder ++ "/".toList ++ relative e ≠ folder := by
    intro h
    have hlen := congrArg List.length h
    rw [List.length_append, List.length_append, String.length_toList] at hlen
    have : "/".length = 1 := rfl
    omega
  rw [← removeAll_eq_self_iff (List.append_ne_nil_of_right_ne_nil _ (by decide))]
  unfold shown command
  cases h : e.getLast? with
  | none => exact absurd (List.getLast?_eq_none_iff.mp h) he
  | some q =>
    obtain ⟨n, k⟩ := q
    cases k with
    | directory =>
      change dirCommand folder disk _ = _ ↔ _
      rw [dirCommand, if_neg hne, virtualPath_eq]
      exact around_inj
    | file =>
      change handleFile folder disk _ = _ ↔ _
      unfold handleFile
      rw [virtualPath_eq]
      exact around_inj

/-- **The test covers the folder exactly if the folder's name and a slash are on no path in it.** -/
theorem handleDir_covers_iff (folder disk : Text) (tree : Folder) :
    Covers disk tree (handleDir folder disk folder tree.listing) ↔
      ∀ e ∈ tree.listing.entries, ¬ folder ++ "/".toList <:+: relative e := by
  rw [covers_iff_eq, handleDir_eq, List.cons.injEq, and_iff_right rfl, List.map_inj_left]
  refine forall_congr' fun e => ?_
  rw [(Forest.preorder_perm _).mem_iff]
  exact forall_congr' fun he => shown_eq_command_iff fun hnil =>
    Forest.nil_notMem_entries _ (hnil ▸ he)

/-- The folder `t` with `test/f` in it: the command for the file is for `tesf`. -/
def folderT : Folder where
  listing := .node "test".toList .directory (.node "f".toList .file .empty .empty) .empty
  distinct := ⟨rfl, ⟨rfl, trivial, trivial⟩, trivial⟩
  filesEmpty := ⟨⟨rfl, trivial⟩, trivial⟩

theorem handleDir_not_covers :
    ¬ Covers "/hd0/1".toList folderT
      (handleDir "t".toList "/hd0/1".toList "t".toList folderT.listing) := by
  rw [covers_iff_eq]
  decide

end

end Umka.Proof.Dirtotest
