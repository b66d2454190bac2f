import Umka.Proof.Qcow2.Contents

/-!
# Compressed clusters

A compressed L2 entry is two bit fields whose widths depend on the cluster size: where the
compressed data starts, and how many further host sectors it reaches into. `extentSize_le` says
that the extent always fits the buffer allocated for it.

The rest of the branch is wrong twice. It asks the host for a cluster's worth of bytes, whatever
the extent's size is, and it hands the inflater the two buffers in the wrong order: the stale
cluster buffer is inflated over the data that was just read, and the stale cluster buffer is
what the guest gets. So no compressed cluster is read as it should be (`compressedRead_never`);
the bytes come out right all the same when the stale buffer happens to hold the inflated cluster
already (`compressedServed_iff`).
-/

set_option autoImplicit false

namespace Umka.Proof.Qcow2

open Lib Vdisk

/-! ## The bit fields -/

section Fields

variable (g : Geometry) (e : Nat)

/-- The low `62 - (cluster_bits - 8)` bits. -/
def extentOffset : Nat := e % 2 ^ (62 - (g.clusterBits - 8))

/-- The bits above them, below bit 62. -/
def extentCount : Nat := e / 2 ^ (62 - (g.clusterBits - 8)) % 2 ^ (g.clusterBits - 8)

/-- To the end of the first host sector, and the further ones. -/
def extentSize : Nat := 512 - extentOffset g e % 512 + extentCount g e * 512

variable {g e}

theorem cmpOffset_eq : cmpOffset g e = extentOffset g e := by
  unfold cmpOffset Geometry.l2EntryCmpOffsetMask
  rw [Nat.and_comm, Nat.and_two_pow_sub_one_eq_mod]
  rfl

theorem cmpCount_eq : (e &&& g.l2EntryCmpSectCntMask) >>> g.l2EntryCmpX = extentCount g e := by
  have h9 := g.bits_ge
  have h21 := g.bits_le
  apply Nat.eq_of_testBit_eq
  intro i
  unfold Geometry.l2EntryCmpSectCntMask Geometry.l2EntryCmpOffsetMask
    Geometry.l2EntryCmpX extentCount
  rw [Nat.testBit_shiftRight, Nat.testBit_and, Nat.testBit_xor, Nat.testBit_two_pow_sub_one,
    Nat.testBit_two_pow_sub_one, Nat.testBit_mod_two_pow, Nat.testBit_div_two_pow]
  have hlow : ¬ 62 - (g.clusterBits - 8) + i < 62 - (g.clusterBits - 8) := by omega
  by_cases hi : i < g.clusterBits - 8
  · have hhigh : 62 - (g.clusterBits - 8) + i < 62 := by omega
    rw [Nat.add_comm i]
    simp [hlow, hhigh, hi]
  · have hhigh : ¬ 62 - (g.clusterBits - 8) + i < 62 := by omega
    simp [hlow, hhigh, hi]

theorem extentCount_lt : extentCount g e < 2 ^ (g.clusterBits - 8) :=
  Nat.mod_lt _ (Nat.two_pow_pos _)

/-- **The extent fits `cmp_cluster`**, for every cluster size and every entry. -/
theorem extentSize_le : extentSize g e ≤ 2 * g.clusterSize := by
  have h9 := g.bits_ge
  have hcnt := extentCount_lt (g := g) (e := e)
  have hpow : 2 * g.clusterSize = 2 ^ (g.clusterBits - 8) * 512 := by
    unfold Geometry.clusterSize
    rw [show (512 : Nat) = 2 ^ 9 by rfl, ← Nat.pow_add, ← Nat.pow_succ']
    congr 1
    omega
  unfold extentSize
  omega

theorem extentSize_pos : 0 < extentSize g e := by
  have := Nat.mod_lt (extentOffset g e) (show 0 < 512 by decide)
  unfold extentSize
  omega

theorem cmpSize_eq : cmpSize g e = extentSize g e := by
  unfold cmpSize extentSize
  rw [cmpCount_eq, cmpOffset_eq, show (511 : Nat) = 2 ^ 9 - 1 by rfl,
    Nat.and_two_pow_sub_one_eq_mod]

end Fields

/-! ## The branch -/

section Branch

variable {emInflate : List UInt8 → Nat → List UInt8} {io : UmkaIo} {g : Geometry} {env : Env}
variable {c : ClusterCache g} {w : World} {l1Entry l2Index e : Nat}

/-- The cache after the branch: the bytes that arrived, and over them what inflating the cluster
    buffer gives. -/
def afterCompressed (emInflate : List UInt8 → Nat → List UInt8) (g : Geometry) (e : Nat)
    (c : ClusterCache g) (data : List UInt8) : ClusterCache g :=
  let c₁ := { c with cmpCluster := c.cmpCluster.overlay data }
  c₁.inflate emInflate ⟨c.cluster.bytes, .cmpCluster, extentSize g e⟩

/-- The sizes are too small to wrap. -/
theorem cmpSize_mod : (512 - (cmpOffset g e &&& 511) +
    ((e &&& g.l2EntryCmpSectCntMask) >>> g.l2EntryCmpX) % 2 ^ 32 * 512) % 2 ^ 32
    = extentSize g e := by
  have h21 := g.bits_le
  have hle := extentSize_le (g := g) (e := e)
  have hcl := g.clusterSize_le
  have hcnt : extentCount g e % 2 ^ 32 = extentCount g e := by
    refine Nat.mod_eq_of_lt
      (Nat.lt_of_lt_of_le extentCount_lt (Nat.pow_le_pow_right (by decide) ?_))
    omega
  rw [← cmpSize_eq] at hle ⊢
  rw [cmpCount_eq, hcnt, ← cmpCount_eq]
  exact Nat.mod_eq_of_lt (Nat.lt_of_le_of_lt hle (by omega))

theorem run_loadCluster_compressed (he : entryOf w.file l1Entry l2Index = .compressed e)
    (hw : (atL2 w l1Entry l2Index).Whole env 8) :
    (loadCluster emInflate io g l1Entry l2Index).run env c w =
      let w₁ := atCluster w env l1Entry l2Index (extentOffset g e)
      let data := w₁.readData env g.clusterSize
      if w₁.readRet env g.clusterSize = 0 then
        some (.failed, { c with cmpCluster := c.cmpCluster.overlay data },
          w₁.afterRead env g.clusterSize)
      else
        some (.loaded, afterCompressed emInflate g e c data, w₁.afterRead env g.clusterSize) := by
  obtain ⟨ht, hd⟩ := table_of_entryOf he (by simp)
  obtain ⟨hf, hentry⟩ := bits_of_compressed hd
  have hfold : ((atL2 w l1Entry l2Index).afterRead env 8).lseek (extentOffset g e : Nat)
      = atCluster w env l1Entry l2Index (extentOffset g e) := rfl
  have hoff : g.l2EntryCmpOffsetMask &&& e = extentOffset g e := cmpOffset_eq
  have hsize := cmpSize_mod (g := g) (e := e)
  rw [cmpOffset_eq] at hsize
  rw [run_loadCluster_table ht hw, if_neg hf, hentry]
  unfold loadCompressed
  simp only [ioReadInto_eq, Drv.run_bind, Drv.run_seekTo, Drv.run_readInto, Option.bind_some, hoff,
    hfold, hsize]
  split
  · rfl
  · rfl

end Branch

/-! ## Reading a compressed cluster -/

/-- What the cluster's data inflates to. -/
def inflatedCluster (emInflate : List UInt8 → Nat → List UInt8) (f : HostFile) (g : Geometry)
    (e : Nat) : List UInt8 :=
  emInflate (f.span (extentOffset g e) (extentSize g e)) g.clusterSize

/-- A sector's part of a cluster. -/
def sectorSlice (g : Geometry) (data : List UInt8) (s : Nat) : List UInt8 :=
  (data.drop (s * g.sectSize % g.clusterSize)).take g.sectSize

/-- The last transfer brought the extent's bytes from its place, `cmp_cluster` holds them, and
    the cluster buffer holds what they inflate to. -/
structure Inflated (emInflate : List UInt8 → Nat → List UInt8) (f : HostFile) {g : Geometry}
    (e : Nat) (c : ClusterCache g) (w : World) : Prop where
  moved : w.log.head?.bind Transfer.moved = some (extentSize g e)
  pos : w.pos = extentOffset g e + extentSize g e
  input : c.cmpCluster.bytes.take (extentSize g e) = f.span (extentOffset g e) (extentSize g e)
  output : c.cluster.bytes = inflatedCluster emInflate f g e

section Read

variable (emInflate : List UInt8 → Nat → List UInt8) (io : UmkaIo) (d : VdiskQcow2) (env : Env)
variable (c : ClusterCache d.geom) (w : World) (l1Entry s e : Nat) (buf : Block d.geom.sectSize)

/-- The bytes `b` are the sector's, and until another cluster is read every later read gets its
    sector's bytes too. -/
structure Serves (f : HostFile) (b : Block d.geom.sectSize) (c' : ClusterCache d.geom)
    (w' : World) : Prop where
  inflated : Inflated emInflate f e c' w'
  sector : b.bytes = sectorSlice d.geom (inflatedCluster emInflate f d.geom e) s
  later : ∀ io' env' t buf' w₂, d.geom.clusterIndex t = d.geom.clusterIndex s →
    ∃ b', (qcow2ReadGuestSector emInflate io' d t buf').run env' c' w₂ = some (b', c', w₂) ∧
      b'.bytes = sectorSlice d.geom (inflatedCluster emInflate f d.geom e) t

/-- The first read of a sector of the compressed cluster, and every later one, shows the guest
    what it should. -/
def CompressedServed : Prop :=
  ∃ b c' w', (qcow2ReadGuestSector emInflate io d s buf).run env c w = some (b, c', w') ∧
    Serves emInflate d s e w.file b c' w'

/-- The call that inflates the extent `f` has for the entry into the cluster buffer. -/
def rightCall (f : HostFile) : InflateCall :=
  ⟨f.span (extentOffset d.geom e) (extentSize d.geom e), .cluster, d.geom.clusterSize⟩

/-- The extent fits `cmp_cluster`, the inflater is called on it, and the guest gets what it
    gives. -/
def CompressedRight : Prop :=
  extentSize d.geom e ≤ 2 * d.geom.clusterSize ∧
  ∃ b c' w', (qcow2ReadGuestSector emInflate io d s buf).run env c w = some (b, c', w') ∧
    c'.inflateCalls = rightCall d e w.file :: c.inflateCalls ∧
    Serves emInflate d s e w.file b c' w'

/-- The host delivers just the extent to a request for a cluster, the cluster buffer holds the
    inflated cluster before it is read, and inflating that over the extent changes nothing. -/
structure CompressedByLuck : Prop where
  fits : d.geom.sectSize ≤ d.geom.clusterSize
  moved : (atCluster w env l1Entry (d.geom.l2Index s) (extentOffset d.geom e)).readCount env
    d.geom.clusterSize = some (extentSize d.geom e)
  stale : c.cluster.bytes = inflatedCluster emInflate w.file d.geom e
  input : (emInflate c.cluster.bytes (extentSize d.geom e)).take (extentSize d.geom e) <+:
    w.file.span (extentOffset d.geom e) (extentSize d.geom e)

end Read

section Right

variable {emInflate : List UInt8 → Nat → List UInt8} {io : UmkaIo} {d : VdiskQcow2} {env : Env}
variable {c : ClusterCache d.geom} {w : World} {l1Entry s e : Nat}

theorem slice?_sector (hc : d.geom.sectSize ≤ d.geom.clusterSize) (t : Nat) :
    ∃ b, c.cluster.slice? (d.geom.sectorOffset t) d.geom.sectSize = some b ∧
      b.bytes = sectorSlice d.geom c.cluster.bytes t := by
  obtain ⟨b, hb, hbytes⟩ := Block.slice?_eq_some (b := c.cluster)
    (Geometry.sectorOffset_add_le hc t)
  exact ⟨b, hb, by rw [hbytes, Geometry.sectorOffset_eq hc]; rfl⟩

/-- Every sector of a cached cluster is copied out of the buffer, and the cache stays as it is. -/
theorem run_readSector_serves (hl : d.l1[d.geom.l1Index s]? = some l1Entry)
    (hc : d.geom.sectSize ≤ d.geom.clusterSize) (htag : c.prevClusterIndex = d.geom.clusterIndex s)
    {t : Nat} (ht : d.geom.clusterIndex t = d.geom.clusterIndex s) (buf : Block d.geom.sectSize) :
    ∃ b, (qcow2ReadGuestSector emInflate io d t buf).run env c w = some (b, c, w) ∧
      b.bytes = sectorSlice d.geom c.cluster.bytes t := by
  have hlt : d.l1[d.geom.l1Index t]? = some l1Entry := by
    rw [← hl]
    unfold Geometry.l1Index
    rw [ht]
  obtain ⟨b, hb, hbytes⟩ := slice?_sector hc t
  refine ⟨b, ?_, hbytes⟩
  rw [run_readSector_cached hlt (ht.trans htag.symm), hb]
  rfl

/-- The first read of a compressed cluster: the tag moves, and the cluster buffer stays. -/
theorem run_readSector_compressed (hl : d.l1[d.geom.l1Index s]? = some l1Entry)
    (he : entryOf w.file l1Entry (d.geom.l2Index s) = .compressed e)
    (hmiss : d.geom.clusterIndex s ≠ c.prevClusterIndex)
    (hw : (atL2 w l1Entry (d.geom.l2Index s)).Whole env 8) (buf : Block d.geom.sectSize) :
    (qcow2ReadGuestSector emInflate io d s buf).run env c w =
      let c₁ := { c with prevClusterIndex := d.geom.clusterIndex s }
      let w₁ := atCluster w env l1Entry (d.geom.l2Index s) (extentOffset d.geom e)
      let data := w₁.readData env d.geom.clusterSize
      if w₁.readRet env d.geom.clusterSize = 0 then
        some (buf, { c₁ with cmpCluster := c.cmpCluster.overlay data },
          w₁.afterRead env d.geom.clusterSize)
      else
        (c.cluster.slice? (d.geom.sectorOffset s) d.geom.sectSize).map fun b =>
          (b, afterCompressed emInflate d.geom e c₁ data, w₁.afterRead env d.geom.clusterSize) := by
  have hwalk : (loadCluster emInflate io d.geom l1Entry (d.geom.l2Index s)).run env
      { c with prevClusterIndex := d.geom.clusterIndex s } w = _ := run_loadCluster_compressed he hw
  dsimp only at hwalk ⊢
  split at hwalk
  · rename_i h0
    rw [run_readSector_miss hl hmiss hwalk, if_pos h0]
  · rename_i h0
    rw [run_readSector_miss hl hmiss hwalk, if_neg h0]
    rfl

/-- What the branch leaves is right just by luck. -/
theorem inflated_iff {w₁ : World} (hpos : w₁.pos = extentOffset d.geom e)
    (hmoved : w₁.readCount env d.geom.clusterSize = some (extentSize d.geom e)) :
    Inflated emInflate w₁.file e (afterCompressed emInflate d.geom e c
        (w₁.readData env d.geom.clusterSize)) (w₁.afterRead env d.geom.clusterSize) ↔
      c.cluster.bytes = inflatedCluster emInflate w₁.file d.geom e ∧
      (emInflate c.cluster.bytes (extentSize d.geom e)).take (extentSize d.geom e) <+:
        w₁.file.span (extentOffset d.geom e) (extentSize d.geom e) := by
  have hdata : w₁.readData env d.geom.clusterSize
      = w₁.file.span (extentOffset d.geom e) (extentSize d.geom e) := by
    unfold World.readData
    rw [hmoved, hpos]
    rfl
  have htake :
      (afterCompressed emInflate d.geom e c
          (w₁.readData env d.geom.clusterSize)).cmpCluster.bytes.take (extentSize d.geom e)
        = w₁.file.span (extentOffset d.geom e) (extentSize d.geom e) ↔
      (emInflate c.cluster.bytes (extentSize d.geom e)).take (extentSize d.geom e) <+:
        w₁.file.span (extentOffset d.geom e) (extentSize d.geom e) := by
    have hlen : (w₁.file.span (extentOffset d.geom e) (extentSize d.geom e)).length
        = extentSize d.geom e := HostFile.length_span
    have hfit : extentSize d.geom e ≤ d.geom.clusterSize * 2 := by
      rw [Nat.mul_comm]
      exact extentSize_le
    have h :
      ((c.cmpCluster.overlay (w₁.file.span (extentOffset d.geom e) (extentSize d.geom e))).overlay
          (emInflate c.cluster.bytes (extentSize d.geom e))).bytes.take _ = _ ↔ _ :=
      Block.take_overlay_overlay (by rw [hlen]; exact hfit)
    rw [hlen] at h
    rw [hdata]
    exact h
  constructor
  · exact fun h => ⟨h.output, htake.mp h.input⟩
  · rintro ⟨hout, hin⟩
    refine ⟨?_, ?_, htake.mpr hin, hout⟩
    · exact hmoved
    · unfold World.afterRead
      rw [hmoved, hpos]
      rfl

/-- The guest is shown what it should see exactly when the stale buffer held it already. -/
theorem compressedServed_iff (hl : d.l1[d.geom.l1Index s]? = some l1Entry)
    (he : entryOf w.file l1Entry (d.geom.l2Index s) = .compressed e)
    (hmiss : d.geom.clusterIndex s ≠ c.prevClusterIndex)
    (hw : (atL2 w l1Entry (d.geom.l2Index s)).Whole env 8) (buf : Block d.geom.sectSize) :
    CompressedServed emInflate io d env c w s e buf ↔
      CompressedByLuck emInflate d env c w l1Entry s e := by
  have hrun : (qcow2ReadGuestSector emInflate io d s buf).run env c w = _ :=
    run_readSector_compressed hl he hmiss hw buf
  dsimp only at hrun
  have hpos₁ : (atCluster w env l1Entry (d.geom.l2Index s) (extentOffset d.geom e)).pos
      = extentOffset d.geom e := pos_atCluster
  have hfile₁ : (atCluster w env l1Entry (d.geom.l2Index s) (extentOffset d.geom e)).file
      = w.file :=
    file_atCluster
  obtain ⟨w₁, hw₁⟩ :
      ∃ w₁, atCluster w env l1Entry (d.geom.l2Index s) (extentOffset d.geom e) = w₁ := ⟨_, rfl⟩
  rw [hw₁] at hrun hpos₁ hfile₁
  -- A transfer of nothing is not the extent's.
  have hret : w₁.readCount env d.geom.clusterSize = some (extentSize d.geom e) →
      w₁.readRet env d.geom.clusterSize ≠ 0 := fun hmoved =>
        World.readRet_ne_zero hmoved extentSize_pos
  unfold CompressedServed
  rw [hrun]
  constructor
  · rintro ⟨b, c', w', hr, hinf, -, -⟩
    split at hr
    · rename_i h0
      cases hr
      exact absurd h0 (hret hinf.moved)
    · obtain ⟨b₀, hb₀, heq⟩ := Option.map_eq_some_iff.mp hr
      cases heq
      have hmoved : w₁.readCount env d.geom.clusterSize = some (extentSize d.geom e) := hinf.moved
      rw [← hfile₁, inflated_iff hpos₁ hmoved] at hinf
      refine ⟨?_, hw₁ ▸ hmoved, hfile₁ ▸ hinf.1, hfile₁ ▸ hinf.2⟩
      by_contra hno
      rw [Block.slice?_eq_none (fun h => hno ((Geometry.sectorOffset_add_le_iff s).mp h))] at hb₀
      cases hb₀
  · rintro ⟨hfits, hmoved, hstale, hinput⟩
    rw [hw₁] at hmoved
    obtain ⟨b, hb, hbytes⟩ := slice?_sector (c := c) hfits s
    refine ⟨b, _, _, by rw [if_neg (hret hmoved), hb]; rfl, ?_, ?_, ?_⟩
    · rw [← hfile₁] at hstale hinput ⊢
      exact (inflated_iff hpos₁ hmoved).mpr ⟨hstale, hinput⟩
    · rw [hbytes, hstale]
    · intro io' env' t buf' w₂ ht
      rw [← hstale]
      exact run_readSector_serves hl hfits rfl ht buf'

/-- If the branch calls the inflater at all, it points it at the cluster buffer and has it write
    to `cmp_cluster`. -/
theorem inflateCalls_compressed (hl : d.l1[d.geom.l1Index s]? = some l1Entry)
    (he : entryOf w.file l1Entry (d.geom.l2Index s) = .compressed e)
    (hmiss : d.geom.clusterIndex s ≠ c.prevClusterIndex)
    (hw : (atL2 w l1Entry (d.geom.l2Index s)).Whole env 8) (buf : Block d.geom.sectSize)
    {b : Block d.geom.sectSize} {c' : ClusterCache d.geom} {w' : World}
    (hr : (qcow2ReadGuestSector emInflate io d s buf).run env c w = some (b, c', w')) :
    c'.inflateCalls = c.inflateCalls ∨ c'.inflateCalls =
      ⟨c.cluster.bytes, .cmpCluster, extentSize d.geom e⟩ :: c.inflateCalls := by
  have hrun : (qcow2ReadGuestSector emInflate io d s buf).run env c w = _ :=
    run_readSector_compressed hl he hmiss hw buf
  dsimp only at hrun
  rw [hrun] at hr
  split at hr
  · cases hr
    exact .inl rfl
  · obtain ⟨b₀, -, heq⟩ := Option.map_eq_some_iff.mp hr
    cases heq
    exact .inr rfl

/-- **No compressed cluster is read right.** The extent fits its buffer, but whenever the
    inflater is called its input is the cluster buffer and its output is not, so that what the
    guest sees is right only by luck. -/
theorem compressedRead_never (hl : d.l1[d.geom.l1Index s]? = some l1Entry)
    (he : entryOf w.file l1Entry (d.geom.l2Index s) = .compressed e)
    (hmiss : d.geom.clusterIndex s ≠ c.prevClusterIndex)
    (hw : (atL2 w l1Entry (d.geom.l2Index s)).Whole env 8) (buf : Block d.geom.sectSize) :
    extentSize d.geom e ≤ 2 * d.geom.clusterSize ∧
    (∀ b c' w', (qcow2ReadGuestSector emInflate io d s buf).run env c w = some (b, c', w') →
      c'.inflateCalls = c.inflateCalls ∨ c'.inflateCalls =
        ⟨c.cluster.bytes, .cmpCluster, extentSize d.geom e⟩ :: c.inflateCalls) ∧
    (CompressedServed emInflate io d env c w s e buf ↔
      CompressedByLuck emInflate d env c w l1Entry s e) ∧
    ¬ CompressedRight emInflate io d env c w s e buf := by
  refine ⟨extentSize_le, fun b c' w' hr => inflateCalls_compressed hl he hmiss hw buf hr,
    compressedServed_iff hl he hmiss hw buf, ?_⟩
  rintro ⟨-, b, c', w', hr, hcall, -⟩
  rcases inflateCalls_compressed hl he hmiss hw buf hr with hnone | hwrong
  · rw [hnone] at hcall
    exact List.cons_ne_self _ _ hcall.symm
  · rw [hwrong, List.cons.injEq] at hcall
    cases congrArg InflateCall.output hcall.1

end Right

/-! ## A small image

Clusters and sectors of 512 bytes, an L2 table at 512 whose first entry is compressed, and the
extent it names, one cluster at 1024, all ones. -/

def cmpDisk : VdiskQcow2 := ⟨smallGeometry, 1, 1, [512]⟩

def cmpEntry : Nat := 2 ^ 62 + 1024

def cmpImage : HostFile where
  size := 2048
  byte i := if i = 512 then 0x40 else if i = 518 then 0x04 else if 1024 ≤ i then 1 else 0
  size_lt := by decide

def cmpWorld : World := ⟨cmpImage, .rdonly, 0, 0, []⟩

/-- An empty cache whose cluster buffer holds `v`s. -/
def cmpCache (v : UInt8) : ClusterCache cmpDisk.geom :=
  ⟨2 ^ 64 - 1, Block.ofFn _ fun _ => v, Block.zero _, []⟩

/-- The format's "stored" data: it inflates to itself. -/
def storeInflate (data : List UInt8) (room : Nat) : List UInt8 := data.take room

theorem entryOf_cmpImage :
    entryOf cmpWorld.file 512 (cmpDisk.geom.l2Index 0) = .compressed cmpEntry := by
  decide +kernel

theorem whole_cmpImage : (atL2 cmpWorld 512 (cmpDisk.geom.l2Index 0)).Whole .willing 8 := by
  refine World.whole_of_full rfl ?_
  decide

/-- With ones in the buffer the guest happens to see the extent of ones, through a call with the
    buffers exchanged; -/
theorem compressedRead_never_ones :
    CompressedServed storeInflate ⟨.never⟩ cmpDisk .willing (cmpCache 1) cmpWorld 0 cmpEntry
      (Block.zero _) ∧
    ¬ CompressedRight storeInflate ⟨.never⟩ cmpDisk .willing (cmpCache 1) cmpWorld 0 cmpEntry
      (Block.zero _) := by
  obtain ⟨-, -, hserved, hnever⟩ := @compressedRead_never storeInflate ⟨.never⟩ cmpDisk _
    (cmpCache 1) _ _ _ _ rfl entryOf_cmpImage (by decide) whole_cmpImage (Block.zero _)
  refine ⟨hserved.mpr ⟨?_, ?_, ?_, ?_⟩, hnever⟩
  · decide
  · decide +kernel
  · decide +kernel
  · decide +kernel

/-- with zeros in it the guest reads zeros. -/
theorem stale_buffer_not_right :
    (∃ c' w', (qcow2ReadGuestSector storeInflate ⟨.never⟩ cmpDisk 0 (Block.zero _)).run .willing
      (cmpCache 0) cmpWorld = some (Block.zero _, c', w')) ∧
    inflatedCluster storeInflate cmpImage smallGeometry cmpEntry = List.replicate 512 1 ∧
    ¬ CompressedRight storeInflate ⟨.never⟩ cmpDisk .willing (cmpCache 0) cmpWorld 0 cmpEntry
      (Block.zero _) := by
  have hrun : (qcow2ReadGuestSector storeInflate ⟨.never⟩ cmpDisk 0 (Block.zero _)).run .willing
      (cmpCache 0) cmpWorld = _ :=
    run_readSector_compressed rfl entryOf_cmpImage (by decide) whole_cmpImage _
  have hslice : (cmpCache 0).cluster.slice? (cmpDisk.geom.sectorOffset 0) cmpDisk.geom.sectSize
      = some (Block.zero _) := by decide +kernel
  dsimp only at hrun
  rw [if_neg (by decide +kernel), hslice, Option.map_some] at hrun
  refine ⟨⟨_, _, hrun⟩, by decide +kernel, ?_⟩
  rintro ⟨-, b, c', w', hr, -, hserves⟩
  cases hrun.symm.trans hr
  exact absurd hserves.sector (by decide +kernel)

end Umka.Proof.Qcow2
