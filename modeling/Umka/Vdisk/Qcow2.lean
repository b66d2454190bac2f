import Umka.Vdisk.Basic

/-!
# `vdisk/qcow2.c`

The qcow2 reader: a header check that decides the disk's geometry, a two-level table walk, and a
one-cluster cache in front of it.

`struct vdisk_qcow2` is split in two. What `vdisk_init_qcow2` fixes once is `VdiskQcow2`; what a
read changes — `prev_cluster_index` and the two buffers — is `ClusterCache`, the private state of
the driver programs below, which also keeps a record of the inflater's calls. Sizes that the code
computes in `size_t` wrap at `2^32`, those it computes in `uint64_t` at `2^64`, and both wraps are
written out where they happen. Messages to the terminal are left out.
-/

set_option autoImplicit false

namespace Umka.Vdisk

open Lib

/-! ## Big-endian fields -/

/-- Byte `i` of an object, as the number `(uint64_t)x[i]`. -/
def byteNat (x : List UInt8) (i : Nat) : Nat := (x.getD i 0).toNat

@[irreducible] def be32 (x : List UInt8) : Nat :=
  (byteNat x 3 <<< 0) + (byteNat x 2 <<< 8) + (byteNat x 1 <<< 16) + (byteNat x 0 <<< 24)

@[irreducible] def be64 (x : List UInt8) : Nat :=
  (byteNat x 7 <<< 0) + (byteNat x 6 <<< 8) + (byteNat x 5 <<< 16) + (byteNat x 4 <<< 24)
    + (byteNat x 3 <<< 32) + (byteNat x 2 <<< 40) + (byteNat x 1 <<< 48) + (byteNat x 0 <<< 56)

/-! ## The header -/

/-- `struct qcow2_header`, each number already through `be32` or `be64`. The fields the code
    never looks at are left out, except `back_file_offset`. -/
structure Qcow2Header where
  magic : List UInt8
  version : Nat
  backFileOffset : Nat
  clusterBits : Nat
  size : Nat
  cryptMethod : Nat
  l1Size : Nat
  l1TableOffset : Nat
  incompatibleFeatures : Nat
  refcountOrder : Nat
deriving DecidableEq, Repr

/-- `sizeof(struct qcow2_header)`. -/
def headerSize : Nat := 104

/-- The header in the 104 bytes the struct occupies. -/
def Qcow2Header.ofBlock (b : Block headerSize) : Qcow2Header where
  magic := b.bytes.take 4
  version := be32 (b.bytes.drop 4)
  backFileOffset := be64 (b.bytes.drop 8)
  clusterBits := be32 (b.bytes.drop 20)
  size := be64 (b.bytes.drop 24)
  cryptMethod := be32 (b.bytes.drop 32)
  l1Size := be32 (b.bytes.drop 36)
  l1TableOffset := be64 (b.bytes.drop 40)
  incompatibleFeatures := be64 (b.bytes.drop 72)
  refcountOrder := be32 (b.bytes.drop 96)

/-- `QCOW2_MAGIC`, `"QFI\xfb"`. -/
def qcow2Magic : List UInt8 := [0x51, 0x46, 0x49, 0xfb]

/-- The cluster and sector size of an accepted image, with the bounds that accepting it
    established. -/
structure Geometry where
  clusterBits : Nat
  sectSize : Nat
  bits_ge : 9 ≤ clusterBits
  bits_le : clusterBits ≤ 21
  sect_mem : sectSize = 512 ∨ sectSize = 2048 ∨ sectSize = 4096
deriving DecidableEq

namespace Geometry

variable (g : Geometry)

def clusterSize : Nat := 2 ^ g.clusterBits

/-- `sector_idx_mask = cluster_size / sect_size - 1ULL`, in `uint64_t`. -/
def sectorIdxMask : Nat := (g.clusterSize / g.sectSize + (2 ^ 64 - 1)) % 2 ^ 64

/-- `l2_entries = cluster_size / sizeof(uint64_t)`. -/
def l2Entries : Nat := g.clusterSize / 8

def l2EntryCmpX : Nat := 62 - (g.clusterBits - 8)

def l2EntryCmpOffsetMask : Nat := 2 ^ g.l2EntryCmpX - 1

def l2EntryCmpSectCntMask : Nat := (2 ^ 62 - 1) ^^^ g.l2EntryCmpOffsetMask

/-- `cluster_index` of a sector. -/
def clusterIndex (sector : Nat) : Nat := (sector * g.sectSize) % 2 ^ 64 / g.clusterSize

def l1Index (sector : Nat) : Nat := g.clusterIndex sector / g.l2Entries

def l2Index (sector : Nat) : Nat := g.clusterIndex sector % g.l2Entries

/-- Where in the cluster buffer a sector starts: `(sector & sector_idx_mask) * sect_size`. -/
def sectorOffset (sector : Nat) : Nat := ((sector &&& g.sectorIdxMask) * g.sectSize) % 2 ^ 64

end Geometry

/-- The header checks of `vdisk_init_qcow2`, in their order. -/
def checkHeader (h : Qcow2Header) (fname : List Char) : Option Geometry :=
  if h.magic ≠ qcow2Magic then none
  else if h.version ≠ 3 then none
  else if hb : 9 ≤ h.clusterBits ∧ h.clusterBits ≤ 21 then
    if h.cryptMethod ≠ 0 then none
    else if h.incompatibleFeatures ≠ 0 then none
    else if h.refcountOrder < 4 ∨ 6 < h.refcountOrder then none
    else some ⟨h.clusterBits, sectSizeOf fname, hb.1, hb.2, sectSizeOf_mem fname⟩
  else none

/-! ## The disk -/

/-- What `vdisk_init_qcow2` fixes. `l1` is the table as it lies in the allocated block, so it
    has as many entries as were allocated, not `l1Size` of them. -/
structure VdiskQcow2 where
  geom : Geometry
  sectCnt : Nat
  l1Size : Nat
  l1 : List Nat

/-- The two buffers of a disk. -/
inductive Buffer
  | cluster
  | cmpCluster
deriving DecidableEq, Repr

/-- A call of `em_inflate`: the bytes it is pointed at, the buffer its output goes to, and how
    much output there may be. -/
structure InflateCall where
  input : List UInt8
  output : Buffer
  room : Nat
deriving DecidableEq, Repr

/-- What a read changes. The calls of the inflater are a record, the latest first; no program
    looks at it. -/
structure ClusterCache (g : Geometry) where
  prevClusterIndex : Nat
  cluster : Block g.clusterSize
  cmpCluster : Block (g.clusterSize * 2)
  inflateCalls : List InflateCall

/-- A disk as `vdisk_init_qcow2` returns it. -/
structure OpenQcow2 where
  disk : VdiskQcow2
  cache : ClusterCache disk.geom

def l1EntryOffsetMask : Nat := 0x00ffffffffffff00
def l2EntryStdZeroed : Nat := 0x1
def l2EntryStdOffset : Nat := 0x00ffffffffffff00
def l2EntryFormat : Nat := 0x4000000000000000

/-- `l1_size * sizeof(uint64_t)`, a product in 32-bit `size_t`. -/
def l1AllocBytes (l1Size : Nat) : Nat := (l1Size * 8) % 2 ^ 32

/-- The entries of the allocated block, each through `be64`. The conversion loop compares
    pointers, so it runs over the allocated block too. -/
def l1OfBytes (bytes : List UInt8) : List Nat :=
  (List.range (bytes.length / 8)).map fun i => be64 (bytes.drop (8 * i))

/-- `vdisk_init_qcow2` from the accepted header on: three allocations and the L1 table. -/
def loadTables (io : UmkaIo) (h : Qcow2Header) (g : Geometry) :
    Drv Unit (Option OpenQcow2) := do
  let okCluster ← Drv.askHost
  if okCluster = false then pure none else
  let cluster ← Drv.uninitialised g.clusterSize
  let okCmp ← Drv.askHost
  if okCmp = false then pure none else
  let cmpCluster ← Drv.uninitialised (g.clusterSize * 2)
  let okL1 ← Drv.askHost
  if okL1 = false then pure none else
  let l1 ← Drv.uninitialised (l1AllocBytes h.l1Size)
  Drv.seekTo (toOffT h.l1TableOffset)
  let r ← ioRead io (l1AllocBytes h.l1Size)
  if r.1 = 0 then pure none else
  pure (some
    { disk := { geom := g, sectCnt := h.size / g.sectSize, l1Size := h.l1Size
                l1 := l1OfBytes (l1.overlay r.2).bytes }
      cache := { prevClusterIndex := 2 ^ 64 - 1, cluster := cluster, cmpCluster := cmpCluster
                 inflateCalls := [] } })

/-- The struct is on the stack when it is read into, so a short read leaves it partly
    uninitialised; only a count of zero is noticed. -/
def vdiskInitQcow2 (io : UmkaIo) (fname : List Char) : Drv Unit (Option OpenQcow2) := do
  let okCalloc ← Drv.askHost
  if okCalloc = false then pure none else
  let okOpen ← Drv.askHost
  if okOpen = false then pure none else
  let header ← Drv.uninitialised headerSize
  let r ← ioRead io headerSize
  if r.1 = 0 then pure none else
  let h := Qcow2Header.ofBlock (header.overlay r.2)
  match checkHeader h fname with
  | none => pure none
  | some g => loadTables io h g

/-! ## Reading -/

/-- How the table walk for one sector ends: the guest sees zeros, the function returns with
    the caller's buffer as it was, or the cluster buffer has been filled. -/
inductive Load
  | zeroed
  | failed
  | loaded
deriving DecidableEq, Repr

section Read

-- `em_inflate`: the bytes it writes for an input, given the room for its output.
variable (emInflate : List UInt8 → Nat → List UInt8)

/-- The standard-cluster branch. -/
def loadStandard (io : UmkaIo) (g : Geometry) (l2Entry : Nat) : Drv (ClusterCache g) Load := do
  if l2Entry &&& l2EntryStdZeroed ≠ 0 then pure .zeroed else
  Drv.seekTo (l2Entry &&& l2EntryStdOffset : Nat)
  let r ← ioReadInto io g.clusterSize fun data c => { c with cluster := c.cluster.overlay data }
  if r = 0 then pure .failed else pure .loaded

/-- The cache after a call of the inflater. -/
def ClusterCache.inflate {g : Geometry} (c : ClusterCache g) (call : InflateCall) :
    ClusterCache g :=
  let out := emInflate call.input call.room
  match call.output with
  | .cluster =>
    { c with cluster := c.cluster.overlay out, inflateCalls := call :: c.inflateCalls }
  | .cmpCluster =>
    { c with cmpCluster := c.cmpCluster.overlay out, inflateCalls := call :: c.inflateCalls }

/-- The compressed-cluster branch. The inflater's arguments are the source's: its input is the
    cluster buffer and its output goes to `cmp_cluster`. -/
def loadCompressed (io : UmkaIo) (g : Geometry) (l2Entry : Nat) : Drv (ClusterCache g) Load := do
  let cmpOffset := g.l2EntryCmpOffsetMask &&& l2Entry
  Drv.seekTo cmpOffset
  let additionalSectors := ((l2Entry &&& g.l2EntryCmpSectCntMask) >>> g.l2EntryCmpX) % 2 ^ 32
  let cmpSize := (512 - (cmpOffset &&& 511) + additionalSectors * 512) % 2 ^ 32
  let r ← ioReadInto io g.clusterSize
    fun data c => { c with cmpCluster := c.cmpCluster.overlay data }
  if r = 0 then pure .failed else
  let c ← Drv.getState
  Drv.setState (c.inflate emInflate ⟨c.cluster.bytes, .cmpCluster, cmpSize⟩)
  pure .loaded

/-- The table walk: L1 entry to L2 entry to cluster. -/
def loadCluster (io : UmkaIo) (g : Geometry) (l1Entry l2Index : Nat) :
    Drv (ClusterCache g) Load := do
  let l2TableOffset := l1Entry &&& l1EntryOffsetMask
  if l2TableOffset = 0 then pure .zeroed else
  Drv.seekTo (l2TableOffset + l2Index * 8 : Nat)
  let entry ← Drv.uninitialised 8
  let r ← ioRead io 8
  if r.1 = 0 then pure .failed else
  let l2Entry := be64 (entry.overlay r.2).bytes
  if l2Entry &&& l2EntryFormat = 0 then loadStandard io g l2Entry
  else loadCompressed emInflate io g l2Entry

/-- One sector into `buf`; the result is what `buf` holds afterwards. The L1 entry is fetched
    before the cache is consulted, and the cache tag is set before anything is read. -/
def qcow2ReadGuestSector (io : UmkaIo) (d : VdiskQcow2) (sector : Nat)
    (buf : Block d.geom.sectSize) : Drv (ClusterCache d.geom) (Block d.geom.sectSize) := do
  let l1Entry ← Drv.ofOption d.l1[d.geom.l1Index sector]?
  let c ← Drv.getState
  if d.geom.clusterIndex sector = c.prevClusterIndex then
    Drv.ofOption (c.cluster.slice? (d.geom.sectorOffset sector) d.geom.sectSize)
  else
    Drv.setState { c with prevClusterIndex := d.geom.clusterIndex sector }
    let l ← loadCluster emInflate io d.geom l1Entry (d.geom.l2Index sector)
    match l with
    | .zeroed => pure (Block.zero d.geom.sectSize)
    | .failed => pure buf
    | .loaded =>
      let c' ← Drv.getState
      Drv.ofOption (c'.cluster.slice? (d.geom.sectorOffset sector) d.geom.sectSize)

/-- The loop of `vdisk_qcow2_read`; the caller's buffer is given as its sectors. -/
def readSectors (io : UmkaIo) (d : VdiskQcow2) :
    Nat → List (Block d.geom.sectSize) →
      Drv (ClusterCache d.geom) (List (Block d.geom.sectSize))
  | _, [] => pure []
  | sector, buf :: bufs => do
    let buf' ← qcow2ReadGuestSector emInflate io d (sector % 2 ^ 64) buf
    let bufs' ← readSectors io d (sector + 1) bufs
    pure (buf' :: bufs')

/-- `numsectors` is the number of sectors `bufs` has. -/
def vdiskQcow2Read (io : UmkaIo) (d : VdiskQcow2) (startsector : Nat)
    (bufs : List (Block d.geom.sectSize)) :
    Drv (ClusterCache d.geom) (KosError × List (Block d.geom.sectSize)) := do
  let bufs' ← readSectors emInflate io d startsector bufs
  pure (.success, bufs')

/-- Writing is not implemented, and says so. -/
def vdiskQcow2Write (d : VdiskQcow2) (_startsector : Nat)
    (_bufs : List (Block d.geom.sectSize)) : Drv (ClusterCache d.geom) KosError :=
  pure .unsupportedFs

end Read

end Umka.Vdisk
