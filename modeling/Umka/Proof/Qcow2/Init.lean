import Umka.Proof.Qcow2.Sector

/-!
# What an accepted image looks like

`vdisk_init_qcow2` asks the host five yes-or-no questions, makes two transfers and checks the
header. `init_inv` is its inversion: a returned disk comes from a header that passed
`checkHeader`, its table is the allocated block decoded, and its cache is empty.

For the reads that follow, two things matter about the *image* rather than about the call:
`headerOf` and `l1EntryAt` say what the file holds, and `TablesInFile` says that the header and
the L1 table lie in it. Under it a freshly opened disk is determined by the file up to the
contents of its uninitialised buffers (`FreshDisk.spec`), and every such content occurs
(`exists_freshDisk`).
-/

set_option autoImplicit false

namespace Umka.Proof.Qcow2

open Lib Vdisk

/-! ## The allocated table -/

/-- How many L1 entries the allocation holds: the product `l1_size * 8` wraps at `2^32`. -/
theorem l1AllocBytes_eq (n : Nat) : l1AllocBytes n = 8 * (n % 2 ^ 29) := by
  unfold l1AllocBytes
  omega

theorem getElem?_l1OfBytes {bytes : List UInt8} {i : Nat} :
    (l1OfBytes bytes)[i]? = if i < bytes.length / 8 then some (be64 (bytes.drop (8 * i)))
      else none := by
  unfold l1OfBytes
  split
  · rename_i h
    simp [h]
  · rename_i h
    simp [Nat.le_of_not_lt h]

theorem byteNat_lt (x : List UInt8) (i : Nat) : byteNat x i < 256 := UInt8.toNat_lt _

@[simp] theorem byteNat_drop (x : List UInt8) (k i : Nat) :
    byteNat (x.drop k) i = byteNat x (k + i) := by
  simp [byteNat, List.getD_eq_getElem?_getD]

/-! The fields of the format, as functions of the bytes they look at. -/

theorem be32_congr {x y : List UInt8} (h : ∀ i < 4, byteNat x i = byteNat y i) :
    be32 x = be32 y := by
  unfold be32
  rw [h 0 (by decide), h 1 (by decide), h 2 (by decide), h 3 (by decide)]

theorem be64_congr {x y : List UInt8} (h : ∀ i < 8, byteNat x i = byteNat y i) :
    be64 x = be64 y := by
  unfold be64
  rw [h 0 (by decide), h 1 (by decide), h 2 (by decide), h 3 (by decide), h 4 (by decide),
    h 5 (by decide), h 6 (by decide), h 7 (by decide)]

theorem be64_take (x : List UInt8) : be64 (x.take 8) = be64 x := by
  apply be64_congr
  intro i hi
  unfold byteNat
  simp [hi]

theorem be64_lt (x : List UInt8) : be64 x < 2 ^ 64 := by
  have h0 := byteNat_lt x 0
  have h1 := byteNat_lt x 1
  have h2 := byteNat_lt x 2
  have h3 := byteNat_lt x 3
  have h4 := byteNat_lt x 4
  have h5 := byteNat_lt x 5
  have h6 := byteNat_lt x 6
  have h7 := byteNat_lt x 7
  unfold be64
  simp only [Nat.shiftLeft_eq]
  omega

/-! ## The header and the first table, as the file has them -/

def headerOf (f : HostFile) : Qcow2Header :=
  Qcow2Header.ofBlock ⟨f.span 0 headerSize, HostFile.length_span⟩

def l1EntryAt (f : HostFile) (h : Qcow2Header) (i : Nat) : Nat :=
  be64 (f.span (h.l1TableOffset + 8 * i) 8)

/-- What the two tables of the image say about a sector. -/
def entryAt (f : HostFile) (h : Qcow2Header) (g : Geometry) (s : Nat) : Entry :=
  entryOf f (l1EntryAt f h (g.l1Index s)) (g.l2Index s)

theorem ofBlock_size_lt (b : Block headerSize) : (Qcow2Header.ofBlock b).size < 2 ^ 64 :=
  be64_lt _

/-- The reader looks at the first hundred bytes of the struct. -/
theorem ofBlock_congr {b c : Block headerSize}
    (h : ∀ i < 100, byteNat b.bytes i = byteNat c.bytes i) :
    Qcow2Header.ofBlock b = Qcow2Header.ofBlock c := by
  have h32 : ∀ k, k + 4 ≤ 100 → be32 (b.bytes.drop k) = be32 (c.bytes.drop k) := by
    intro k hk
    apply be32_congr
    intro i hi
    rw [byteNat_drop, byteNat_drop, h (k + i) (by omega)]
  have h64 : ∀ k, k + 8 ≤ 100 → be64 (b.bytes.drop k) = be64 (c.bytes.drop k) := by
    intro k hk
    apply be64_congr
    intro i hi
    rw [byteNat_drop, byteNat_drop, h (k + i) (by omega)]
  have hmagic : b.bytes.take 4 = c.bytes.take 4 := by
    have hb := b.size_eq
    have hc := c.size_eq
    unfold headerSize at hb hc
    apply List.ext_getElem
    · simp [hb, hc]
    · intro i hi _
      have hi4 : i < 4 := (List.length_take_le 4 _).trans_lt' hi
      have hn := h i (by omega)
      unfold byteNat at hn
      simpa [List.getD_eq_getElem?_getD, hb, hc, show i < 104 by omega] using UInt8.toNat_inj.mp hn
  unfold Qcow2Header.ofBlock
  rw [hmagic, h32 4 (by decide), h64 8 (by decide), h32 20 (by decide), h64 24 (by decide),
    h32 32 (by decide), h32 36 (by decide), h64 40 (by decide), h64 72 (by decide),
    h32 96 (by decide)]

/-! ## Inversion -/

/-- The world in which the header is read: two questions and the local struct. -/
def atHeader (w : World) : World := w.next.next.next

/-- The header `vdisk_init_qcow2` works with. -/
def headerRead (env : Env) (w : World) : Qcow2Header :=
  Qcow2Header.ofBlock
    ((Block.ofFn headerSize (env.junk w.next.next.tick)).overlay
      ((atHeader w).readData env headerSize))

/-- The world in which the L1 table is read. -/
def atL1 (w : World) (h : Qcow2Header) : World :=
  w.next.next.next.next.next.next.lseek (toOffT h.l1TableOffset)

theorem loadTables_inv {io : UmkaIo} {h : Qcow2Header} {g : Geometry} {env : Env} {w w' : World}
    {o : OpenQcow2}
    (hr : (loadTables io h g).run env () w = some (some o, (), w')) :
    o = { disk := { geom := g, sectCnt := h.size / g.sectSize, l1Size := h.l1Size
                    l1 := l1OfBytes
                      ((Block.ofFn (l1AllocBytes h.l1Size) (env.junk (w.tick + 5))).overlay
                        ((atL1 w h).readData env (l1AllocBytes h.l1Size))).bytes }
          cache := { prevClusterIndex := 2 ^ 64 - 1
                     cluster := Block.ofFn g.clusterSize (env.junk (w.tick + 1))
                     cmpCluster := Block.ofFn (g.clusterSize * 2) (env.junk (w.tick + 3))
                     inflateCalls := [] } } ∧
      (atL1 w h).readRet env (l1AllocBytes h.l1Size) ≠ 0 := by
  unfold loadTables at hr
  simp only [ioRead_eq, Drv.run_bind, Drv.run_askHost, Option.bind_some] at hr
  split at hr
  · simp at hr
  · simp only [Drv.run_bind, Drv.run_uninitialised, Drv.run_askHost, Option.bind_some] at hr
    split at hr
    · simp at hr
    · simp only [Drv.run_bind, Drv.run_uninitialised, Drv.run_askHost, Option.bind_some] at hr
      split at hr
      · simp at hr
      · simp only [Drv.run_bind, Drv.run_uninitialised, Drv.run_seekTo, Drv.run_readBytes,
          Option.bind_some] at hr
        split at hr
        · simp at hr
        · rename_i hret
          simp only [Drv.run_pure, Option.some.injEq, Prod.mk.injEq] at hr
          exact ⟨hr.1.symm, hret⟩

/-- **An accepted image passed the header checks**, and the disk is what the rest of
    `vdisk_init_qcow2` makes of the accepted header. -/
theorem init_inv {io : UmkaIo} {fname : List Char} {env : Env} {w w' : World} {o : OpenQcow2}
    (hr : (vdiskInitQcow2 io fname).run env () w = some (some o, (), w')) :
    ∃ g, checkHeader (headerRead env w) fname = some g ∧
      (loadTables io (headerRead env w) g).run env () ((atHeader w).afterRead env headerSize)
        = some (some o, (), w') := by
  unfold vdiskInitQcow2 at hr
  simp only [ioRead_eq, Drv.run_bind, Drv.run_askHost, Option.bind_some] at hr
  split at hr
  · simp at hr
  · simp only [Drv.run_bind, Drv.run_askHost, Option.bind_some] at hr
    split at hr
    · simp at hr
    · simp only [Drv.run_bind, Drv.run_uninitialised, Drv.run_readBytes, Option.bind_some] at hr
      split at hr
      · simp at hr
      · split at hr
        · simp at hr
        · rename_i g hg
          exact ⟨g, hg, hr⟩

/-! Which answers of the host let an opening through. -/

theorem loadTables_runs_iff {io : UmkaIo} {h : Qcow2Header} {g : Geometry} {env : Env} {w : World} :
    (∃ o w', (loadTables io h g).run env () w = some (some o, (), w')) ↔
      env.answer w.tick = true ∧ env.answer (w.tick + 2) = true ∧ env.answer (w.tick + 4) = true ∧
      (atL1 w h).readRet env (l1AllocBytes h.l1Size) ≠ 0 := by
  have hfold : w.next.next.next.next.next.next.lseek (toOffT h.l1TableOffset) = atL1 w h := rfl
  unfold loadTables
  cases h0 : env.answer w.tick <;> cases h2 : env.answer (w.tick + 2) <;>
    cases h4 : env.answer (w.tick + 4) <;>
    simp only [ioRead_eq, Drv.run_bind, Drv.run_askHost, Drv.run_uninitialised, Drv.run_seekTo,
      Drv.run_readBytes, Option.bind_some, World.tick_next, h0, h2, h4, if_true, if_false,
      Drv.run_pure, Bool.true_eq_false, hfold]
  all_goals try simp
  by_cases hr : (atL1 w h).readRet env (l1AllocBytes h.l1Size) = 0
  · simp [hr]
  · simp [hr]

theorem init_runs_iff {io : UmkaIo} {fname : List Char} {env : Env} {w : World} :
    (∃ o w', (vdiskInitQcow2 io fname).run env () w = some (some o, (), w')) ↔
      env.answer w.tick = true ∧ env.answer (w.tick + 1) = true ∧
      (atHeader w).readRet env headerSize ≠ 0 ∧
      ∃ g, checkHeader (headerRead env w) fname = some g ∧
        ∃ o w', (loadTables io (headerRead env w) g).run env ()
          ((atHeader w).afterRead env headerSize) = some (some o, (), w') := by
  have hfold : w.next.next.next = atHeader w := rfl
  unfold vdiskInitQcow2
  cases h0 : env.answer w.tick <;> cases h1 : env.answer (w.tick + 1) <;>
    simp only [ioRead_eq, Drv.run_bind, Drv.run_askHost, Drv.run_uninitialised, Drv.run_readBytes,
      Option.bind_some, World.tick_next, h0, h1, if_true, if_false, Drv.run_pure,
      Bool.true_eq_false, hfold]
  all_goals try simp
  by_cases hr : (atHeader w).readRet env headerSize = 0
  · simp [hr]
  · rw [if_neg hr]
    split
    · rename_i hnone
      have hcheck : checkHeader (headerRead env w) fname = none := hnone
      simp [hcheck]
    · rename_i g hg
      have hcheck : checkHeader (headerRead env w) fname = some g := hg
      simp only [hcheck, Option.some.injEq, exists_eq_left']
      show (∃ o w', (loadTables io (headerRead env w) g).run env () _ = _) ↔ _
      simp [hr]

/-! ## Fresh disks -/

/-- `o` is what `vdisk_init_qcow2` returns for the image `f`, on a host whose transfers move
    all they can. -/
def FreshDisk (io : UmkaIo) (f : HostFile) (fname : List Char) (o : OpenQcow2) : Prop :=
  ∃ env w w', env.AllFull ∧ w.file = f ∧ w.pos = 0 ∧
    (vdiskInitQcow2 io fname).run env () w = some (some o, (), w')

/-- The header and the L1 table lie in the file. -/
structure TablesInFile (f : HostFile) : Prop where
  header : headerSize ≤ f.size
  l1 : (headerOf f).l1TableOffset + l1AllocBytes (headerOf f).l1Size ≤ f.size

/-- A transfer that brings the first hundred bytes brings the header. -/
theorem headerRead_eq_of_moved {env : Env} {w : World} {m : Nat}
    (hm : (atHeader w).readCount env headerSize = some m) (h100 : 100 ≤ m) (hpos : w.pos = 0) :
    headerRead env w = headerOf w.file := by
  have hdata : (atHeader w).readData env headerSize = w.file.span 0 m := by
    unfold World.readData
    rw [hm]
    simp [atHeader, hpos]
  unfold headerRead headerOf
  apply ofBlock_congr
  intro i hi
  have hi' : i < headerSize := Nat.lt_trans hi (by decide)
  unfold byteNat
  rw [hdata, Block.getD_overlay hi', HostFile.length_span, if_pos (by omega),
    HostFile.getD_span (by omega), HostFile.getD_span hi']

theorem headerRead_eq {env : Env} {w : World} (hfull : env.AllFull) (hpos : w.pos = 0)
    (hin : headerSize ≤ w.file.size) : headerRead env w = headerOf w.file := by
  have hw : (atHeader w).Whole env headerSize :=
    World.whole_of_full (hfull _) (by simpa [atHeader, hpos] using hin)
  exact headerRead_eq_of_moved hw (by decide) hpos

/-- A table that lies in the file is at an offset `off_t` can hold. -/
theorem pos_atL1 {w : World} {h : Qcow2Header} {n : Nat} (hin : h.l1TableOffset + n ≤ w.file.size) :
    (atL1 w h).pos = h.l1TableOffset := by
  have h2 := w.file.size_lt
  have hoff : toOffT h.l1TableOffset = (h.l1TableOffset : Nat) := if_pos (by omega)
  unfold atL1
  rw [hoff, World.pos_lseek_nat]

theorem whole_atL1 {env : Env} {w : World} {h : Qcow2Header} {n : Nat} (hfull : env.AllFull)
    (hin : h.l1TableOffset + n ≤ w.file.size) : (atL1 w h).Whole env n := by
  refine World.whole_of_full (hfull _) ?_
  rw [pos_atL1 hin]
  simpa [atL1] using hin

/-- The table of a disk whose L1 transfer filled the block is the file's. -/
theorem loadTables_l1 {io : UmkaIo} {h : Qcow2Header} {g : Geometry} {env : Env} {w w' : World}
    {o : OpenQcow2} (hr : (loadTables io h g).run env () w = some (some o, (), w'))
    (hin : h.l1TableOffset + l1AllocBytes h.l1Size ≤ w.file.size)
    (hw : (atL1 w h).readData env (l1AllocBytes h.l1Size)
      = (atL1 w h).file.span (atL1 w h).pos (l1AllocBytes h.l1Size)) (i : Nat) :
    o.disk.l1[i]? = if i < h.l1Size % 2 ^ 29 then some (l1EntryAt w.file h i) else none := by
  obtain ⟨rfl, -⟩ := loadTables_inv hr
  have hlen : l1AllocBytes h.l1Size / 8 = h.l1Size % 2 ^ 29 := by
    rw [l1AllocBytes_eq, Nat.mul_div_cancel_left _ (by decide)]
  have hfile : (atL1 w h).file = w.file := by simp [atL1]
  rw [getElem?_l1OfBytes, Block.size_eq, hlen]
  by_cases hi : i < h.l1Size % 2 ^ 29
  · rw [if_pos hi, if_pos hi, hw, Block.bytes_overlay_full (by simp), ← be64_take,
      HostFile.take_drop_span (by rw [l1AllocBytes_eq]; omega), hfile, pos_atL1 hin]
    rfl
  · rw [if_neg hi, if_neg hi]

/-- **A fresh disk is determined by its image**, its uninitialised buffers apart. -/
theorem FreshDisk.spec {io : UmkaIo} {f : HostFile} {fname : List Char} {o : OpenQcow2}
    (ho : FreshDisk io f fname o) (ht : TablesInFile f) :
    checkHeader (headerOf f) fname = some o.disk.geom ∧
      o.disk.sectCnt = (headerOf f).size / o.disk.geom.sectSize ∧
      o.disk.l1Size = (headerOf f).l1Size ∧
      (∀ i, o.disk.l1[i]? = if i < (headerOf f).l1Size % 2 ^ 29
        then some (l1EntryAt f (headerOf f) i) else none) ∧
      o.cache.prevClusterIndex = 2 ^ 64 - 1 := by
  obtain ⟨env, w, w', hfull, hf, hpos, hr⟩ := ho
  subst hf
  obtain ⟨g, hg, hload⟩ := init_inv hr
  rw [headerRead_eq hfull hpos ht.header] at hg hload
  have hw : (atL1 ((atHeader w).afterRead env headerSize) (headerOf w.file)).Whole env
      (l1AllocBytes (headerOf w.file).l1Size) := whole_atL1 hfull ht.l1
  have hl1 := loadTables_l1 hload ht.l1 hw.readData
  obtain ⟨rfl, -⟩ := loadTables_inv hload
  exact ⟨hg, rfl, rfl, hl1, rfl⟩

/-- An L1 table of no bytes is noticed: its read returns 0. -/
theorem FreshDisk.l1Size_ne_zero {io : UmkaIo} {f : HostFile} {fname : List Char} {o : OpenQcow2}
    (ho : FreshDisk io f fname o) (ht : TablesInFile f) : (headerOf f).l1Size % 2 ^ 29 ≠ 0 := by
  obtain ⟨env, w, w', hfull, rfl, hpos, hr⟩ := ho
  obtain ⟨g, -, hload⟩ := init_inv hr
  rw [headerRead_eq hfull hpos ht.header] at hload
  obtain ⟨-, hret⟩ := loadTables_inv hload
  intro h0
  apply hret
  unfold World.readRet World.readCount
  rw [hfull, l1AllocBytes_eq, h0]
  simp [Outcome.moved]

/-- Whatever the allocator leaves in the cluster buffer, some opening of an acceptable image
    finds it there. -/
theorem exists_freshDisk (io : UmkaIo) {f : HostFile} {fname : List Char} {g : Geometry}
    (ht : TablesInFile f) (hg : checkHeader (headerOf f) fname = some g)
    (hl1 : (headerOf f).l1Size % 2 ^ 29 ≠ 0) (v : UInt8) :
    ∃ o : OpenQcow2, FreshDisk io f fname o ∧ o.cache.cluster.bytes =
      List.replicate o.disk.geom.clusterSize v := by
  obtain ⟨env, hfull, hans, hjunk⟩ : ∃ env : Env, env.AllFull ∧ (∀ t, env.answer t = true) ∧
      ∀ t i, env.junk t i = v :=
    ⟨⟨fun _ => .full, fun _ => true, fun _ _ => v⟩, fun _ => rfl, fun _ => rfl, fun _ _ => rfl⟩
  obtain ⟨w, rfl, hpos⟩ : ∃ w : World, w.file = f ∧ w.pos = 0 := ⟨⟨f, .rdonly, 0, 0, []⟩, rfl, rfl⟩
  have hhdr := headerRead_eq hfull hpos ht.header
  have hwh : (atHeader w).Whole env headerSize :=
    World.whole_of_full (hfull _) (by simpa [atHeader, hpos] using ht.header)
  have hwl : (atL1 ((atHeader w).afterRead env headerSize) (headerOf w.file)).Whole env
      (l1AllocBytes (headerOf w.file).l1Size) := whole_atL1 hfull ht.l1
  have hload : ∃ o w', (loadTables io (headerOf w.file) g).run env ()
      ((atHeader w).afterRead env headerSize) = some (some o, (), w') := by
    refine loadTables_runs_iff.mpr ⟨hans _, hans _, hans _, ?_⟩
    rw [hwl.readRet, l1AllocBytes_eq]
    omega
  obtain ⟨o, w', hrun⟩ :
      ∃ o w', (vdiskInitQcow2 io fname).run env () w = some (some o, (), w') := by
    refine init_runs_iff.mpr ⟨hans _, hans _, ?_, g, ?_, ?_⟩
    · rw [hwh.readRet]
      decide
    · rw [hhdr, hg]
    · rw [hhdr]
      exact hload
  refine ⟨o, ⟨env, w, w', hfull, rfl, hpos, hrun⟩, ?_⟩
  obtain ⟨g', -, hload'⟩ := init_inv hrun
  obtain ⟨rfl, -⟩ := loadTables_inv hload'
  exact List.eq_replicate_iff.mpr ⟨by simp, by simp [hjunk]⟩

end Umka.Proof.Qcow2
