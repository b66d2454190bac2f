import Umka.Fuse.Fs

/-!
# What the mounted file system shows

FUSE clients see the KolibriOS tree through `fs_getattr`, `fs_read` and `fs_readdir`, and each
of them shows only part of it as it is. `fs_getattr` calls everything a directory, the missing
and the files too. `fs_read` returns the size it was asked for, not the number of bytes there
were. `fs_readdir` makes one call for at most `DIRENTS_TO_READ` entries and reports success
whatever the call did.
-/

set_option autoImplicit false

namespace Umka.Proof.Fuse

open Umka.Kos Umka.Fuse

/-! ## Files -/

/-- `-ENOENT`. -/
def enoent : Int := -2

/-- `fs_getattr` tells of `path` what is there: an error exactly when there is nothing, a
    directory exactly when the entry has `KF_FOLDER`, and else a file of its length. -/
def GetattrRight (lfn : Lfn) (fs : KosFs) (path : List Char) : Prop :=
  ∀ (epoch : UInt64 → Int) (file : Bdfe) (st : Stat), ∃ ret st',
    fsGetattr epoch lfn path file st = some (ret, st')
      ∧ (ret = enoent ↔ fs.node? path = none)
      ∧ ∀ node, fs.node? path = some node →
        ret = 0
          ∧ (st'.mode &&& sIfmt = sIfdir ↔ (node.bdfe []).attr &&& kfFolder ≠ 0)
          ∧ ∀ info data, node = .file info data →
              st'.mode &&& sIfmt = sIfreg ∧ st'.size.toNat = data.bytes.length

/-- `fs_read` returns how many bytes of the file there were, and leaves those in the buffer. -/
def ReadRight (lfn : Lfn) (path : List Char) (data : FileData) (offset : UInt64)
    (size : UInt32) : Prop :=
  ∀ buf : Nat → UInt8,
    (fsRead lfn path size offset buf).1
        = (min size.toNat (data.bytes.length - offset.toNat) : Nat)
      ∧ ∀ i, (fsRead lfn path size offset buf).2 i
          = if i < min size.toNat (data.bytes.length - offset.toNat)
            then data.bytes.getD (offset.toNat + i) 0 else buf i

/-- Both agree with what is at `path`. -/
def FuseAgrees (lfn : Lfn) (fs : KosFs) (path : List Char) : Prop :=
  GetattrRight lfn fs path ∧ ∀ info data, fs.node? path = some (.file info data) →
    ∀ offset size, ReadRight lfn path data offset size

section Files

variable {lfn : Lfn} {fs : KosFs} {path : List Char} {info : NodeInfo} {data : FileData}

/-- `fs_getattr` returns 0 and a directory. -/
theorem fsGetattr_eq (epoch : UInt64 → Int) (lfn : Lfn) (path : List Char) (file : Bdfe)
    (st : Stat) :
    ∃ st', fsGetattr epoch lfn path file st = some (0, st') ∧ st'.mode &&& sIfmt = sIfdir := by
  refine ⟨_, rfl, ?_⟩
  show (sIfdir ||| 0o755) &&& sIfmt = sIfdir
  decide

theorem or_and_absorb (a b : UInt32) : (a ||| b) &&& b = b := by
  apply UInt32.toBitVec_inj.mp
  ext i
  simp only [UInt32.toBitVec_and, UInt32.toBitVec_or, BitVec.getElem_and, BitVec.getElem_or]
  cases a.toBitVec[i] <;> cases b.toBitVec[i] <;> rfl

theorem attr_folder (entries : List (List Char × FsNode)) :
    ((FsNode.folder info entries).bdfe []).attr &&& kfFolder ≠ 0 := by
  show (info.attr ||| kfFolder) &&& kfFolder ≠ 0
  rw [or_and_absorb]
  decide

theorem getattrRight_iff :
    GetattrRight lfn fs path ↔ ∃ info entries, fs.node? path = some (.folder info entries) := by
  constructor
  · intro h
    let st : Stat := ⟨0, 0, 0, 0, 0, 0⟩
    let file : Bdfe := ⟨0, 0, 0, 0, 0, []⟩
    obtain ⟨ret, st', hrun, hnone, hsome⟩ := h (fun _ => 0) file st
    obtain ⟨st₀, hrun₀, hdir⟩ := fsGetattr_eq (fun _ => 0) lfn path file st
    rw [hrun₀] at hrun
    cases hrun
    cases hnode : fs.node? path with
    | none => exact absurd (hnone.mpr hnode) (by decide)
    | some node =>
      cases node with
      | folder info entries => exact ⟨info, entries, rfl⟩
      | file info data =>
        have hreg := ((hsome _ hnode).2.2 info data rfl).1
        rw [hdir] at hreg
        exact absurd hreg (by decide)
  · rintro ⟨info, entries, hnode⟩ epoch file st
    obtain ⟨st', hrun, hdir⟩ := fsGetattr_eq epoch lfn path file st
    refine ⟨0, st', hrun, ?_, ?_⟩
    · rw [hnode]
      exact ⟨fun h => absurd h (by decide), nofun⟩
    · intro node hsome
      rw [hnode] at hsome
      cases hsome
      exact ⟨rfl, ⟨fun _ => attr_folder entries, fun _ => hdir⟩, nofun⟩

theorem fsRead_file (hlfn : lfn.Serves fs) (hnode : fs.node? path = some (.file info data))
    (offset : UInt64) (size : UInt32) (buf : Nat → UInt8) :
    (fsRead lfn path size offset buf).2
      = fun i => ((data.bytes.drop offset.toNat).take size.toNat).getD i (buf i) := by
  rw [fsRead, hlfn.readFile hnode]

theorem getD_take_drop (bytes : List UInt8) (off n i : Nat) (d : UInt8) :
    ((bytes.drop off).take n).getD i d
      = if i < min n (bytes.length - off) then bytes.getD (off + i) 0 else d := by
  rw [List.getD_eq_getElem?_getD, List.getElem?_take, List.getElem?_drop]
  by_cases hi : i < min n (bytes.length - off)
  · have hn : i < n := by omega
    have hlen : off + i < bytes.length := by omega
    rw [if_pos hi, if_pos hn, List.getD_eq_getElem?_getD, List.getElem?_eq_getElem hlen]
    rfl
  · rw [if_neg hi]
    by_cases hn : i < n
    · rw [if_pos hn, List.getElem?_eq_none (by omega)]
      rfl
    · rw [if_neg hn]
      rfl

/-- A `size_t` returned as an `int`. -/
theorem toInt_toInt32 (x : UInt32) :
    x.toInt32.toInt = if x.toNat < 2 ^ 31 then (x.toNat : Int) else x.toNat - 2 ^ 32 := by
  rw [← Int32.toInt_toBitVec, UInt32.toBitVec_toInt32, BitVec.toInt_eq_toNat_cond]
  simp only [UInt32.toNat_toBitVec]
  split <;> split <;> omega

/-- The kernel puts the bytes into the buffer; the return value is right when it is the number
    of those bytes, and an `int`. -/
theorem readRight_iff (hlfn : lfn.Serves fs) (hnode : fs.node? path = some (.file info data))
    (offset : UInt64) (size : UInt32) :
    ReadRight lfn path data offset size
      ↔ size.toNat ≤ data.bytes.length - offset.toNat ∧ size.toNat < 2 ^ 31 := by
  have hlt : size.toNat < 2 ^ 32 := size.toNat_lt
  have hret : ∀ buf, (fsRead lfn path size offset buf).1
      = if size.toNat < 2 ^ 31 then (size.toNat : Int) else size.toNat - 2 ^ 32 :=
    fun _ => toInt_toInt32 size
  constructor
  · intro h
    have hk := (h fun _ => 0).1
    rw [hret] at hk
    split at hk <;> omega
  · rintro ⟨hsize, hint⟩ buf
    constructor
    · rw [hret, if_pos hint]
      omega
    · intro i
      rw [fsRead_file hlfn hnode]
      exact getD_take_drop _ _ _ _ _

/-- **The two operations agree with what is at a path exactly when that is a folder.** For a
    file `fs_getattr` never does; `fs_read` by itself does as long as it is not asked for more
    bytes than there are, or than an `int` can count. -/
theorem fuseAgrees_iff (lfn : Lfn) (fs : KosFs) (hlfn : lfn.Serves fs) (path : List Char) :
    (FuseAgrees lfn fs path ↔ ∃ info entries, fs.node? path = some (.folder info entries))
      ∧ ∀ info data, fs.node? path = some (.file info data) →
          ∀ (offset : UInt64) (size : UInt32), ReadRight lfn path data offset size
            ↔ size.toNat ≤ data.bytes.length - offset.toNat ∧ size.toNat < 2 ^ 31 := by
  refine ⟨⟨fun h => getattrRight_iff.mp h.1, fun h => ⟨getattrRight_iff.mpr h, ?_⟩⟩, ?_⟩
  · intro info data hfile
    obtain ⟨info', entries, hfolder⟩ := h
    rw [hfolder] at hfile
    cases hfile
  · intro info data hfile
    exact readRight_iff hlfn hfile

end Files

/-- The root of a file system with one empty file. -/
def oneFile : KosFs where
  root := .folder ⟨0, 0, 0, 0⟩ [(['a'], .file ⟨0, 0, 0, 0⟩ ⟨[], by decide⟩)]
  damaged := fun _ => false

theorem oneFile_file :
    oneFile.node? "/a".toList = some (.file ⟨0, 0, 0, 0⟩ ⟨[], by decide⟩) := by
  have hnames : pathNames "/a".toList = [['a']] := by decide
  rw [KosFs.node?, hnames]
  rfl

/-- A read of nothing is right there, a read of one byte is not. -/
theorem fuseAgrees_iff_oneFile :
    oneFile.lfn.Serves oneFile
      ∧ ReadRight oneFile.lfn "/a".toList ⟨[], by decide⟩ 0 0
      ∧ ¬ ReadRight oneFile.lfn "/a".toList ⟨[], by decide⟩ 0 1 := by
  have h := (fuseAgrees_iff oneFile.lfn oneFile oneFile.serves_lfn "/a".toList).2 _ _ oneFile_file
  exact ⟨oneFile.serves_lfn, (h 0 0).mpr (by decide), fun hread => absurd ((h 0 1).mp hread).1
    (by decide)⟩

/-- A file is shown as a directory. -/
theorem oneFile_not_agrees :
    oneFile.lfn.Serves oneFile ∧ ¬ FuseAgrees oneFile.lfn oneFile "/a".toList := by
  refine ⟨oneFile.serves_lfn, fun h => ?_⟩
  obtain ⟨info, entries, hnode⟩ := getattrRight_iff.mp h.1
  rw [oneFile_file] at hnode
  cases hnode

/-! ## Folders -/

/-- `fs_readdir` reports each entry of a folder, in order; of anything else it reports nothing
    and an error. -/
def ReaddirRight (lfn : Lfn) (fs : KosFs) (path : List Char) : Prop :=
  ∀ dir : DirInfo,
    match fs.entries? path with
    | some entries =>
      fsReaddir lfn path dir = (0, entries.map fun b => some b.name)
    | none => (fsReaddir lfn path dir).1 ≠ 0 ∧ (fsReaddir lfn path dir).2 = []

section Folders

variable {lfn : Lfn} {fs : KosFs} {path : List Char} {entries : List Bdfe}

/-- What one call returned is what is reported. -/
theorem fsReaddir_folder (hlfn : lfn.Serves fs) (h : fs.entries? path = some entries)
    (dir : DirInfo) :
    fsReaddir lfn path dir = (0, (entries.take direntsToRead).map fun b => some b.name) := by
  have hwalk := congrArg (List.map (Option.map (·.name)))
    ((hlfn.readFolder h .utf8).walk 0 direntsToRead dir)
  rw [List.map_map, List.map_map, List.drop_zero] at hwalk
  exact congrArg (Prod.mk (0 : Int)) hwalk

/-- More entries than one call returns are not all reported. -/
theorem ReaddirRight.length_le (hr : ReaddirRight lfn fs path) (hlfn : lfn.Serves fs)
    (h : fs.entries? path = some entries) : entries.length ≤ direntsToRead := by
  have hnames := hr ⟨0, 0, fun _ => none⟩
  rw [h, fsReaddir_folder hlfn h] at hnames
  have hlen := congrArg (fun r => r.2.length) hnames
  simp only [List.length_map, List.length_take] at hlen
  omega

/-- **A listing is right exactly when the path is a folder that can be read and has no more
    entries than one call returns.** -/
theorem readdirRight_iff (lfn : Lfn) (fs : KosFs) (hlfn : lfn.Serves fs) (path : List Char) :
    ReaddirRight lfn fs path
      ↔ ∃ entries, fs.entries? path = some entries ∧ entries.length ≤ direntsToRead := by
  cases h : fs.entries? path with
  | none =>
    constructor
    · intro hr
      have herr := hr ⟨0, 0, fun _ => none⟩
      rw [h] at herr
      exact absurd rfl herr.1
    · rintro ⟨entries, hsome, -⟩
      cases hsome
  | some entries =>
    constructor
    · intro hr
      exact ⟨entries, rfl, hr.length_le hlfn h⟩
    · rintro ⟨es, hsome, hlen⟩ dir
      cases hsome
      rw [h]
      show fsReaddir lfn path dir = _
      rw [fsReaddir_folder hlfn h, List.take_of_length_le hlen]

end Folders

/-- A file system whose root has `n` empty files, of different names. -/
def manyFiles (n : Nat) : KosFs where
  root := .folder ⟨0, 0, 0, 0⟩
    ((List.range n).map fun i => (List.replicate (i + 1) 'a', .file ⟨0, 0, 0, 0⟩ ⟨[], by decide⟩))
  damaged := fun _ => false

theorem entries?_manyFiles (n : Nat) :
    ∃ entries, (manyFiles n).entries? [] = some entries ∧ entries.length = n := by
  refine ⟨_, rfl, ?_⟩
  rw [List.length_map, List.length_map, List.length_range]

theorem readdirRight_iff_hundred :
    (manyFiles 100).lfn.Serves (manyFiles 100)
      ∧ ReaddirRight (manyFiles 100).lfn (manyFiles 100) [] := by
  obtain ⟨entries, hentries, hlen⟩ := entries?_manyFiles 100
  exact ⟨KosFs.serves_lfn _, (readdirRight_iff _ _ (KosFs.serves_lfn _) []).mpr
    ⟨entries, hentries, Nat.le_of_eq hlen⟩⟩

/-- Of 101 entries the last is not reported. -/
theorem manyFiles_not_right :
    (manyFiles 101).lfn.Serves (manyFiles 101)
      ∧ ¬ ReaddirRight (manyFiles 101).lfn (manyFiles 101) [] := by
  refine ⟨KosFs.serves_lfn _, fun h => ?_⟩
  obtain ⟨entries, hentries, hlen⟩ := entries?_manyFiles 101
  have hle := h.length_le (KosFs.serves_lfn _) hentries
  rw [hlen] at hle
  exact absurd hle (by decide)

end Umka.Proof.Fuse
