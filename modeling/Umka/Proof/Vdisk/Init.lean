import Mathlib.Tactic.IntervalCases
import Umka.Proof.Qcow2.Header
import Umka.Proof.Raw.Store
import Umka.Vdisk.Init

/-!
# When opening a disk goes right

`InitRight` is what a caller of `vdisk_init` expects: the call returns; it returns a null pointer
when the file cannot be opened, has no known suffix or holds a header the reader rejects; and a
disk it does return is `Initialised` — opened, of the size the file or its header gives, with its
tables loaded and every sector within reach — and `vdisk_querymedia` tells of no sector of it that
is not in the image. What an uninitialised object held is nobody's choice, so all of that is asked
for whatever it was.

None of the failures inside a back end arrives as a null pointer, so the condition
`InitServed` has to exclude them one by one: `initRight_iff` says that the call goes right
exactly when the name has no known suffix or the back end succeeds on a sound image.
-/

set_option autoImplicit false

namespace Umka.Proof.Vdisk

open Lib Umka.Vdisk Qcow2

/-! ## What is expected -/

/-- A raw disk on an open descriptor, with every sector inside the file. -/
structure RawInitialised (f : HostFile) (fd : Fd) (d : VdiskRaw) : Prop where
  opened : fd ≠ .failed
  sectCnt : d.sectCnt = f.size / d.sectSize
  address : ∀ s < d.sectCnt, d.offsetOf s = (s * d.sectSize : Nat) ∧ (s + 1) * d.sectSize ≤ f.size

/-- A qcow2 disk made from the file's header, with the file's L1 table in its memory and an
    entry of it and a slice of a cluster for every sector. -/
structure Qcow2Initialised (f : HostFile) (fname : List Char) (o : OpenQcow2) : Prop where
  accepted : checkHeader (headerOf f) fname = some o.disk.geom
  sectCnt : o.disk.sectCnt = (headerOf f).size / o.disk.geom.sectSize
  table_in : (headerOf f).l1TableOffset + 8 * o.disk.l1.length ≤ f.size
  table : ∀ i < o.disk.l1.length, o.disk.l1[i]? = some (l1EntryAt f (headerOf f) i)
  l1_index : ∀ s < o.disk.sectCnt, o.disk.geom.l1Index s < o.disk.l1.length
  slice : ∀ s < o.disk.sectCnt, o.disk.geom.sectorOffset s + o.disk.geom.sectSize ≤
    o.disk.geom.clusterSize

def Initialised (f : HostFile) (fname : List Char) : Backend → Prop
  | .raw fd d => RawInitialised f fd d
  | .qcow2 o => Qcow2Initialised f fname o

/-- The size of the image behind a disk: the file's, or the one its header gives. -/
def imageSize (f : HostFile) : Backend → Nat
  | .raw _ _ => f.size
  | .qcow2 _ => (headerOf f).size

/-- The kernel is not told of a sector that is not all in the image. -/
theorem Initialised.media_fits {f : HostFile} {fname : List Char} {disk : OpenVdisk}
    (h : Initialised f fname disk.backend) :
    (vdiskQuerymedia disk).2.capacity * (vdiskQuerymedia disk).2.sectorSize
      ≤ imageSize f disk.backend := by
  obtain ⟨backend, adjustCacheSize, cacheSize⟩ := disk
  cases backend with
  | raw fd d =>
    show d.sectCnt * d.sectSize ≤ f.size
    rw [h.sectCnt]
    exact Nat.div_mul_le_self _ _
  | qcow2 o =>
    show o.disk.sectCnt * o.disk.geom.sectSize ≤ (headerOf f).size
    rw [h.sectCnt]
    exact Nat.div_mul_le_self _ _

/-- The host's answer to the back end's `open`: its first question for a raw image, its second
    for a qcow2 image. -/
def Opened (env : Env) : ImageKind → Prop
  | .raw => env.answer 0 = true
  | .qcow2 => env.answer 1 = true

/-- What `vdisk_init` may return. -/
structure Answered (env : Env) (f : HostFile) (fname : List Char) (r : Option OpenVdisk) :
    Prop where
  null_of_suffix : imageKind fname = none → r = none
  null_of_closed : ∀ kind, imageKind fname = some kind → ¬ Opened env kind → r = none
  null_of_rejected : imageKind fname = some .qcow2 →
    checkHeader (headerOf f) fname = none → r = none
  initialised : ∀ d, r = some d → Initialised f fname d.backend
  media : ∀ d, r = some d →
    (vdiskQuerymedia d).2.capacity * (vdiskQuerymedia d).2.sectorSize ≤ imageSize f d.backend

/-- Opening `fname` goes right on this host, whatever uninitialised objects hold. -/
def InitRight (io : UmkaIo) (fname : List Char) (adjustCacheSize : Int) (cacheSize : Nat)
    (f : HostFile) (env : Env) : Prop :=
  ∀ junk, ∃ r w', (vdiskInit io fname adjustCacheSize cacheSize f.size).run
    { env with junk := junk } () (rawWorld f) = some (r, (), w') ∧ Answered env f fname r

/-! ## The condition -/

/-- The host grants everything, the header arrives and is accepted, the L1 table is there and
    fills the block allocated for it, its read does not return 0, and the block covers the
    disk. -/
structure Qcow2Served (env : Env) (f : HostFile) (fname : List Char) (g : Geometry) : Prop where
  calloc : env.answer 0 = true
  opened : env.answer 1 = true
  header : ∃ m, (atHeader (rawWorld f)).readCount env headerSize = some m ∧ 100 ≤ m
  accepted : checkHeader (headerOf f) fname = some g
  mallocs : env.answer 4 = true ∧ env.answer 6 = true ∧ env.answer 8 = true
  table_in : (headerOf f).l1TableOffset + l1AllocBytes (headerOf f).l1Size ≤ f.size
  table_ret : (env.outcome 10).moved (l1AllocBytes (headerOf f).l1Size) ≠ some 0
  table : ((env.outcome 10).moved (l1AllocBytes (headerOf f).l1Size)).getD 0
    = l1AllocBytes (headerOf f).l1Size
  covers : 0 < (headerOf f).size / g.sectSize → g.sectSize ≤ g.clusterSize ∧
    L1Covers (headerOf f) g ((headerOf f).l1Size % 2 ^ 29)

def InitServed (fname : List Char) (f : HostFile) (env : Env) : Prop :=
  match imageKind fname with
  | none => True
  | some .raw => env.answer 0 = true ∧ env.answer 1 = true ∧ env.answer 2 = true
  | some .qcow2 => ∃ g, Qcow2Served env f fname g

/-! ## Raw images -/

section Raw

variable {env : Env} {w : World}

theorem run_openFile : openFile.run env () w =
    if env.answer w.tick = false then some (.failed, (), w.next)
    else if env.answer (w.tick + 1) = false then some (.zero, (), w.next.next)
    else some (.positive, (), w.next.next) := by
  unfold openFile
  rw [Drv.run_bind, Drv.run_askHost, Option.bind_some]
  split
  · rfl
  · rw [Drv.run_bind, Drv.run_askHost, Option.bind_some]
    split <;> rename_i h <;> rw [World.tick_next] at h
    · rw [if_pos h]
      rfl
    · rw [if_neg h]
      rfl

/-- The only descriptor a raw disk is returned on without a failed `open` is a positive one. -/
theorem run_initRaw_some {fname : List Char} {n : Nat} {fd : Fd} {d : VdiskRaw} {w' : World}
    (hr : (vdiskInitRawFile fname n).run env () w = some (some (fd, d), (), w'))
    (hfd : fd ≠ .failed) :
    env.answer w.tick = true ∧ env.answer (w.tick + 1) = true ∧ env.answer (w.tick + 2) = true := by
  unfold vdiskInitRawFile at hr
  rw [Drv.run_bind, run_openFile] at hr
  cases h0 : env.answer w.tick <;> cases h1 : env.answer (w.tick + 1) <;>
    cases h2 : env.answer (w.tick + 2) <;> simp_all

theorem run_initRaw_of_answers {fname : List Char} {n : Nat} (h0 : env.answer w.tick = true)
    (h1 : env.answer (w.tick + 1) = true) (h2 : env.answer (w.tick + 2) = true) :
    (vdiskInitRawFile fname n).run env () w
      = some (some (.positive, vdiskInitRaw fname n), (), w.next.next.next) := by
  unfold vdiskInitRawFile
  rw [Drv.run_bind, run_openFile]
  simp [h0, h1, h2, lseekEnd]

theorem rawInitialised (fname : List Char) (f : HostFile) :
    RawInitialised f .positive (vdiskInitRaw fname f.size) := by
  refine ⟨by decide, rfl, fun s hs => ?_⟩
  let c : Raw.RawCall (vdiskInitRaw fname f.size) := ⟨⟨.never⟩, s, 1, Block.zero _, hs⟩
  refine ⟨Raw.offsetOf_eq c, ?_⟩
  rw [Nat.add_mul]
  exact Raw.range_le c

end Raw

/-! ## What an uninitialised object must not decide -/

section Junk

theorem checkHeader_refcountOrder {h : Qcow2Header} {fname : List Char} {g : Geometry}
    (hg : checkHeader h fname = some g) : 4 ≤ h.refcountOrder ∧ h.refcountOrder ≤ 6 := by
  unfold checkHeader at hg
  split_ifs at hg with _ _ _ _ _ hr
  omega

theorem be32_mod (x : List UInt8) : be32 x % 256 = byteNat x 3 := by
  have h3 := byteNat_lt x 3
  unfold be32
  simp only [Nat.shiftLeft_eq]
  omega

theorem be64_lt_be64 {x y : List UInt8} (hle : ∀ i < 8, byteNat x i ≤ byteNat y i) {k : Nat}
    (hk : k < 8) (hlt : byteNat x k < byteNat y k) : be64 x < be64 y := by
  have h0 := hle 0 (by decide)
  have h1 := hle 1 (by decide)
  have h2 := hle 2 (by decide)
  have h3 := hle 3 (by decide)
  have h4 := hle 4 (by decide)
  have h5 := hle 5 (by decide)
  have h6 := hle 6 (by decide)
  have h7 := hle 7 (by decide)
  unfold be64
  simp only [Nat.shiftLeft_eq]
  interval_cases k <;> omega

variable {env : Env} {w : World} {fname : List Char}

/-- A header whose last checked byte did not arrive is rejected when that byte happens to be
    zero. -/
theorem moved_of_accepted {g : Geometry} (hj : ∀ i, env.junk (w.tick + 2) i = 0)
    (hg : checkHeader (headerRead env w) fname = some g) :
    ∃ m, (atHeader w).readCount env headerSize = some m ∧ 100 ≤ m := by
  by_contra hno
  have hshort : ((atHeader w).readData env headerSize).length < 100 := by
    unfold World.readData
    rw [HostFile.length_span]
    cases hm : (atHeader w).readCount env headerSize with
    | none => decide
    | some m => exact Nat.lt_of_not_le fun h => hno ⟨m, hm, h⟩
  have hzero : (headerRead env w).refcountOrder % 256 = 0 := by
    unfold headerRead Qcow2Header.ofBlock
    rw [be32_mod, byteNat_drop]
    unfold byteNat
    rw [Block.getD_overlay (by decide), if_neg (Nat.not_lt.mpr (Nat.le_of_lt_succ hshort)),
      Block.bytes_ofFn]
    have h99 : env.junk w.next.next.tick 99 = 0 := hj 99
    simp [headerSize, h99, -World.tick_next]
  have := checkHeader_refcountOrder hg
  omega

/-- The table entry at which a short transfer stopped depends on what was there before. -/
theorem l1_entry_lt {data : List UInt8} {n : Nat} (hn : n % 8 = 0) (hd : data.length < n) :
    be64 (((Block.ofFn n fun _ => 0).overlay data).bytes.drop (8 * (data.length / 8))) <
      be64 (((Block.ofFn n fun _ => 255).overlay data).bytes.drop (8 * (data.length / 8))) := by
  have hbyte : ∀ (v : UInt8) (i : Nat), i < 8 →
      byteNat (((Block.ofFn n fun _ => v).overlay data).bytes.drop (8 * (data.length / 8))) i
        = if 8 * (data.length / 8) + i < data.length
          then byteNat data (8 * (data.length / 8) + i) else v.toNat := by
    intro v i hi
    have hlt : 8 * (data.length / 8) + i < n := by omega
    rw [byteNat_drop]
    unfold byteNat
    rw [Block.getD_overlay hlt]
    split
    · rfl
    · simp [hlt]
  refine be64_lt_be64 (fun i hi => ?_) (k := data.length % 8) (Nat.mod_lt _ (by decide)) ?_
  · rw [hbyte _ _ hi, hbyte _ _ hi]
    split
    · exact Nat.le_refl _
    · decide
  · rw [hbyte _ _ (Nat.mod_lt _ (by decide)), hbyte _ _ (Nat.mod_lt _ (by decide)),
      if_neg (by omega), if_neg (by omega)]
    decide

end Junk

/-! ## What `vdisk_init` makes of its back end -/

section Backend

variable {io : UmkaIo} {fname : List Char} {f : HostFile} {env : Env} {adjustCacheSize : Int}
  {cacheSize : Nat}

/-- A null pointer from the back end is stored through, so a call that goes right is one whose
    back end returns a disk. -/
theorem initRight_iff_backend {kind : ImageKind} (hk : imageKind fname = some kind) :
    InitRight io fname adjustCacheSize cacheSize f env ↔
      ∀ junk, ∃ b w', (initBackend io fname f.size kind).run { env with junk := junk } ()
        (rawWorld f) = some (some b, (), w') ∧ Initialised f fname b ∧ Opened env kind ∧
        (kind = .qcow2 → checkHeader (headerOf f) fname ≠ none) := by
  refine forall_congr' fun junk => ⟨?_, ?_⟩
  · rintro ⟨r, w', hr, ha⟩
    unfold vdiskInit at hr
    simp only [hk, Drv.run_bind] at hr
    cases hb : (initBackend io fname f.size kind).run { env with junk := junk } () (rawWorld f) with
    | none => simp [hb] at hr
    | some p =>
      obtain ⟨b, ⟨⟩, w₁⟩ := p
      rw [hb, Option.bind_some] at hr
      cases b with
      | none => simp at hr
      | some b =>
        simp only [Drv.run_pure, Option.some.injEq, Prod.mk.injEq, true_and] at hr
        obtain ⟨rfl, rfl⟩ := hr
        refine ⟨b, w₁, rfl, ha.initialised _ rfl, ?_, fun hq hnone => ?_⟩
        · by_contra hno
          cases ha.null_of_closed kind hk hno
        · subst hq
          cases ha.null_of_rejected hk hnone
  · rintro ⟨b, w', hb, hi, hopen, hacc⟩
    refine ⟨some ⟨b, adjustCacheSize, cacheSize⟩, w', ?_, ?_, ?_, ?_, ?_, ?_⟩
    · unfold vdiskInit
      simp only [hk, Drv.run_bind, hb, Option.bind_some, Drv.run_pure]
    · intro hnone
      cases hk.symm.trans hnone
    · intro kind' hk' hno
      cases hk.symm.trans hk'
      exact absurd hopen hno
    · intro hk' hnone
      cases hk.symm.trans hk'
      exact absurd hnone (hacc rfl)
    · intro d hd
      cases hd
      exact hi
    · intro d hd
      cases hd
      exact Initialised.media_fits hi

/-- Both back ends are wrapped the same way. -/
theorem run_wrap_eq_some {α β : Type} {x : Drv Unit (Option α)} {c : α → β} {w w' : World} {b : β} :
    (x >>= fun r => pure (r.map c)).run env () w = some (some b, (), w') ↔
      ∃ a, x.run env () w = some (some a, (), w') ∧ c a = b := by
  rw [Drv.run_bind]
  cases x.run env () w with
  | none => simp
  | some p =>
    obtain ⟨a, ⟨⟩, w₁⟩ := p
    cases a <;> simp [and_comm]

end Backend

/-! ## qcow2 images -/

section Qcow2

variable {io : UmkaIo} {fname : List Char} {f : HostFile} {env : Env}

theorem l1_of_run {w w' : World} {h : Qcow2Header} {g : Geometry} {o : OpenQcow2} {v : UInt8}
    (hr : (loadTables io h g).run { env with junk := fun _ _ => v } () w = some (some o, (), w')) :
    o.disk.l1 = l1OfBytes ((Block.ofFn (l1AllocBytes h.l1Size) fun _ => v).overlay
      ((atL1 w h).readData env (l1AllocBytes h.l1Size))).bytes := by
  obtain ⟨rfl, -⟩ := loadTables_inv hr
  rfl

/-- The world `vdisk_init_qcow2` loads the tables in. -/
def atTables (env : Env) (f : HostFile) : World :=
  (atHeader (rawWorld f)).afterRead env headerSize

/-- The L1 transfer of a table that lies in the file. -/
theorem readCount_l1 {h : Qcow2Header} {n : Nat} (hin : h.l1TableOffset + n ≤ f.size) :
    (atL1 (atTables env f) h).readCount env n = (env.outcome 10).moved n := by
  have hpos : (atL1 (atTables env f) h).pos = h.l1TableOffset := pos_atL1 hin
  have htick : (atL1 (atTables env f) h).tick = 10 := by
    unfold atL1
    rw [World.tick_lseek]
    rfl
  have hfile : (atL1 (atTables env f) h).file = f := by
    unfold atL1
    rw [World.file_lseek]
    rfl
  unfold World.readCount
  rw [htick, hpos, hfile, Nat.min_eq_left (by omega)]

/-- An opening that goes right whether fresh memory is all zero or all ones fills the block
    allocated for the L1 table. -/
theorem table_of_right {h : Qcow2Header} {g g' : Geometry} {o o' : OpenQcow2} {w w₁ w₁' : World}
    (hr : (loadTables io h g).run { env with junk := fun _ _ => 0 } () w = some (some o, (), w₁))
    (hr' : (loadTables io h g').run { env with junk := fun _ _ => 255 } () w
      = some (some o', (), w₁'))
    (hsame : ∀ i < h.l1Size % 2 ^ 29, o.disk.l1[i]? = o'.disk.l1[i]?) :
    ((atL1 w h).readCount env (l1AllocBytes h.l1Size)).getD 0 = l1AllocBytes h.l1Size := by
  set data := (atL1 w h).readData env (l1AllocBytes h.l1Size) with hdata
  have hlen : data.length = ((atL1 w h).readCount env (l1AllocBytes h.l1Size)).getD 0 :=
    HostFile.length_span
  have hle : data.length ≤ l1AllocBytes h.l1Size := by
    rw [hlen]
    cases hm : (atL1 w h).readCount env (l1AllocBytes h.l1Size) with
    | none => exact Nat.zero_le _
    | some m => exact World.readCount_le hm
  rw [← hlen]
  refine Nat.le_antisymm hle (Nat.le_of_not_lt fun hlt => ?_)
  have halloc := l1AllocBytes_eq h.l1Size
  have hi : data.length / 8 < l1AllocBytes h.l1Size / 8 := by omega
  have heq := hsame (data.length / 8) (by omega)
  have hl : o.disk.l1 = l1OfBytes
      ((Block.ofFn (l1AllocBytes h.l1Size) fun _ => 0).overlay data).bytes :=
    l1_of_run hr
  have hl' : o'.disk.l1 = l1OfBytes
      ((Block.ofFn (l1AllocBytes h.l1Size) fun _ => 255).overlay data).bytes :=
    l1_of_run hr'
  rw [hl, hl', getElem?_l1OfBytes, getElem?_l1OfBytes, Block.size_eq, Block.size_eq, if_pos hi,
    if_pos hi, Option.some.injEq] at heq
  exact Nat.ne_of_lt (l1_entry_lt (by omega) hlt) heq

/-- The opening of a qcow2 image ends in an initialised disk, whatever fresh memory holds. -/
def Qcow2Right (io : UmkaIo) (fname : List Char) (f : HostFile) (env : Env) : Prop :=
  ∀ junk, ∃ o w', (vdiskInitQcow2 io fname).run { env with junk := junk } () (rawWorld f)
    = some (some o, (), w') ∧ Qcow2Initialised f fname o

/-- **What a right opening of a qcow2 image needs.** -/
theorem served_of_right (io : UmkaIo) (h : Qcow2Right io fname f env) :
    ∃ g, Qcow2Served env f fname g := by
  -- Two openings, with the uninitialised memory all zero and all ones.
  obtain ⟨o, w', hr, ho⟩ := h fun _ _ => 0
  obtain ⟨o', w'', hr', ho'⟩ := h fun _ _ => 255
  obtain ⟨g, hg, hload⟩ := init_inv hr
  obtain ⟨g', -, hload'⟩ := init_inv hr'
  obtain ⟨m, hm, h100⟩ := moved_of_accepted (fun _ => rfl) hg
  have hhdr : headerRead { env with junk := fun _ _ => 0 } (rawWorld f) = headerOf f :=
    headerRead_eq_of_moved hm h100 rfl
  have hhdr' : headerRead { env with junk := fun _ _ => 255 } (rawWorld f) = headerOf f :=
    headerRead_eq_of_moved hm h100 rfl
  obtain ⟨hcalloc, hopen, -, -⟩ := init_runs_iff.mp ⟨o, w', hr⟩
  obtain ⟨hcnt, -, hlen⟩ := init_disk hr
  obtain ⟨-, -, hlen'⟩ := init_disk hr'
  rw [hhdr] at hg hload hcnt hlen
  rw [hhdr'] at hload' hlen'
  obtain ⟨hc, hcmp, hl1, hret⟩ := loadTables_runs_iff.mp ⟨o, w', hload⟩
  have hgeom : g = o.disk.geom := Option.some.inj (hg.symm.trans ho.accepted)
  have hin : (headerOf f).l1TableOffset + l1AllocBytes (headerOf f).l1Size ≤ f.size := by
    have := ho.table_in
    rwa [hlen, ← l1AllocBytes_eq] at this
  have hcount : (atL1 (atTables env f) (headerOf f)).readCount env
        (l1AllocBytes (headerOf f).l1Size)
      = _ := readCount_l1 hin
  refine ⟨g, hcalloc, hopen, ⟨m, hm, h100⟩, hg, ⟨hc, hcmp, hl1⟩, hin, fun h0 => ?_, ?_,
    fun hpos => ?_⟩
  · rw [← hcount, ← World.readRet_eq_iff] at h0
    exact hret h0
  · rw [← hcount]
    refine table_of_right hload hload' fun i hi => ?_
    rw [ho.table i (by rwa [hlen]), ho'.table i (by rwa [hlen'])]
  · rw [hgeom] at hpos ⊢
    rw [← ho.sectCnt] at hpos
    have hfit := (Geometry.sectorOffset_add_le_iff 0).mp (ho.slice 0 hpos)
    refine ⟨hfit, (l1Covers_iff (ofBlock_size_lt _) hfit).mpr fun s hs => ?_⟩
    rw [← hlen]
    exact ho.l1_index s (by rwa [ho.sectCnt])

/-- **What is needed is enough.** -/
theorem right_of_served (io : UmkaIo) {g : Geometry} (h : Qcow2Served env f fname g) :
    Qcow2Right io fname f env := by
  intro junk
  obtain ⟨m, hm, h100⟩ := h.header
  have hhdr : headerRead { env with junk := junk } (rawWorld f) = headerOf f :=
    headerRead_eq_of_moved hm h100 rfl
  have hcount : (atL1 (atTables env f) (headerOf f)).readCount env
        (l1AllocBytes (headerOf f).l1Size)
      = _ := readCount_l1 h.table_in
  have hload : ∃ o w', (loadTables io (headerOf f) g).run { env with junk := junk } ()
      (atTables env f) = some (some o, (), w') := by
    refine loadTables_runs_iff.mpr ⟨h.mallocs.1, h.mallocs.2.1, h.mallocs.2.2, fun h0 => ?_⟩
    exact h.table_ret (hcount ▸ World.readRet_eq_iff.mp h0)
  obtain ⟨o, w', hr⟩ : ∃ o w', (vdiskInitQcow2 io fname).run { env with junk := junk } ()
    (rawWorld f)
      = some (some o, (), w') := by
    refine init_runs_iff.mpr ⟨h.calloc, h.opened, ?_, g, by rw [hhdr, h.accepted], ?_⟩
    · exact World.readRet_ne_zero hm (Nat.lt_of_lt_of_le (by decide) h100)
    · rw [hhdr]
      exact hload
  refine ⟨o, w', hr, ?_⟩
  obtain ⟨hcnt, -, hlen⟩ := init_disk hr
  obtain ⟨g', hg', hload'⟩ := init_inv hr
  rw [hhdr] at hg' hload' hcnt hlen
  have hl1 := loadTables_l1 hload' h.table_in (by
    show HostFile.span _ _ ((World.readCount (atL1 (atTables env f) (headerOf f)) env _).getD 0) = _
    rw [hcount, h.table])
  have hgeom : g' = o.disk.geom := by
    obtain ⟨rfl, -⟩ := loadTables_inv hload'
    rfl
  obtain rfl : g' = g := Option.some.inj (hg'.symm.trans h.accepted)
  subst hgeom
  refine ⟨hg', hcnt, ?_, fun i hi => ?_, fun s hs => ?_, fun s hs => ?_⟩
  · rw [hlen, ← l1AllocBytes_eq]
    exact h.table_in
  · rw [hl1, if_pos (by rwa [← hlen])]
    rfl
  · rw [hcnt] at hs
    obtain ⟨hfit, hcov⟩ := h.covers (Nat.zero_lt_of_lt hs)
    rw [hlen]
    exact (l1Covers_iff (ofBlock_size_lt _) hfit).mp hcov s hs
  · rw [hcnt] at hs
    exact Geometry.sectorOffset_add_le (h.covers (Nat.zero_lt_of_lt hs)).1 s

end Qcow2

/-! ## Both -/

/-- **Opening a disk goes right exactly when the name has no known suffix or the back end's
    opening succeeds on a sound image.** -/
theorem initRight_iff (io : UmkaIo) (fname : List Char) (adjustCacheSize : Int) (cacheSize : Nat)
    (f : HostFile) (env : Env) :
    InitRight io fname adjustCacheSize cacheSize f env ↔ InitServed fname f env := by
  unfold InitServed
  cases hk : imageKind fname with
  | none =>
    refine iff_of_true (fun junk => ⟨none, rawWorld f, ?_, fun _ => rfl, fun _ _ _ => rfl,
      fun _ _ => rfl, fun d hd => (nomatch hd), fun d hd => (nomatch hd)⟩) trivial
    unfold vdiskInit
    rw [hk]
    rfl
  | some kind =>
    rw [initRight_iff_backend hk]
    cases kind with
    | raw =>
      constructor
      · intro h
        obtain ⟨b, w', hb, hi, -⟩ := h fun _ _ => 0
        obtain ⟨⟨fd, d⟩, hr, rfl⟩ := run_wrap_eq_some.mp hb
        exact run_initRaw_some hr hi.opened
      · rintro ⟨h0, h1, h2⟩ junk
        refine ⟨_, _, run_wrap_eq_some.mpr ⟨_, run_initRaw_of_answers h0 h1 h2, rfl⟩,
          rawInitialised fname f, h0, by simp⟩
    | qcow2 =>
      constructor
      · intro h
        refine served_of_right io fun junk => ?_
        obtain ⟨b, w', hb, hi, -⟩ := h junk
        obtain ⟨o, hr, rfl⟩ := run_wrap_eq_some.mp hb
        exact ⟨o, w', hr, hi⟩
      · rintro ⟨g, hg⟩ junk
        obtain ⟨o, w', hr, ho⟩ := right_of_served io hg junk
        refine ⟨_, w', run_wrap_eq_some.mpr ⟨o, hr, rfl⟩, ho, hg.opened, fun _ => ?_⟩
        rw [hg.accepted]
        exact Option.some_ne_none g

/-- A host that refuses every request but one. -/
def onlyGrants (t : Nat) : Env := ⟨fun _ => .full, fun i => decide (i = t), fun _ _ => 0⟩

def emptyFile : HostFile := ⟨0, fun _ => 0, by decide⟩

/-- A raw image that cannot be opened becomes a disk of almost `2^55` sectors on descriptor `-1`,
    and a qcow2 image that cannot be opened a store through a null pointer. -/
theorem missing_file_not_right :
    (∃ w', (vdiskInit ⟨.never⟩ "a.raw".toList 0 0 0).run (onlyGrants 1) () (rawWorld emptyFile)
      = some (some ⟨.raw .failed ⟨512, 36028797018963967⟩, 0, 0⟩, (), w')) ∧
    (vdiskInit ⟨.never⟩ "a.qcow2".toList 0 0 0).run (onlyGrants 0) () (rawWorld emptyFile) = none ∧
    ¬ InitRight ⟨.never⟩ "a.raw".toList 0 0 emptyFile (onlyGrants 1) ∧
    ¬ InitRight ⟨.never⟩ "a.qcow2".toList 0 0 emptyFile (onlyGrants 0) := by
  have hraw : ∃ w', (vdiskInit ⟨.never⟩ "a.raw".toList 0 0 0).run (onlyGrants 1) ()
        (rawWorld emptyFile)
      = some (some ⟨.raw .failed ⟨512, 36028797018963967⟩, 0, 0⟩, (), w') := ⟨_, rfl⟩
  have hqcow : (vdiskInit ⟨.never⟩ "a.qcow2".toList 0 0 0).run (onlyGrants 0) ()
        (rawWorld emptyFile)
      = none := rfl
  refine ⟨hraw, hqcow, fun h => ?_, fun h => ?_⟩
  · have hk : imageKind "a.raw".toList = some .raw := rfl
    obtain ⟨b, w', hb, hi, -⟩ := (initRight_iff_backend hk).mp h fun _ _ => 0
    obtain ⟨⟨fd, d⟩, hr, rfl⟩ := run_wrap_eq_some.mp hb
    exact absurd (run_initRaw_some hr hi.opened).1 (by decide)
  · obtain ⟨r, w', hr, -⟩ := h fun _ _ => 0
    exact absurd (hqcow.symm.trans hr) (Option.some_ne_none _).symm

end Umka.Proof.Vdisk
