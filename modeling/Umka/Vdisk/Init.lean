import Umka.Vdisk.Qcow2
import Umka.Vdisk.Raw

/-!
# `vdisk.c`

`vdisk_init` picks a back end by the file name's suffix, lets it open the file, and then stores
the functions and settings all disks share into what it got. The two back ends report failure
differently. `vdisk_init_qcow2` returns a null pointer for every failure it notices.
`vdisk_init_raw` compares the descriptor with 0, so a failed `open` (`-1`) goes on: the two
`lseek`s fail as well, and the size of the disk is computed from `-1`. Neither `vdisk_init_raw`
after its `malloc` nor `vdisk_init` after the back end looks at the pointer it stores through.
-/

set_option autoImplicit false

namespace Umka.Vdisk

open Lib

/-- What `open` returned: `-1`, descriptor 0, or another descriptor. -/
inductive Fd
  | failed
  | zero
  | positive
deriving DecidableEq, Repr

/-- `open(fname, O_RDONLY | O_BINARY)`; whether it succeeds and whether it then finds
    descriptor 0 free are the host's to say. -/
def openFile : Drv Unit Fd := do
  let ok ← Drv.askHost
  if ok = false then pure .failed else
  let taken ← Drv.askHost
  if taken = false then pure .zero else pure .positive

/-- `(uint64_t)lseek(fd, 0, SEEK_END)`, for a file of `fsize` bytes. -/
def lseekEnd (fd : Fd) (fsize : Nat) : Nat := if fd = .failed then 2 ^ 64 - 1 else fsize

/-- `vdisk_init_raw` with its `open`; the returned disk keeps the descriptor. -/
def vdiskInitRawFile (fname : List Char) (fsize : Nat) : Drv Unit (Option (Fd × VdiskRaw)) := do
  let fd ← openFile
  if fd = .zero then pure none else
  let okMalloc ← Drv.askHost
  -- `*disk = ...` is stored without a look at `disk`.
  if okMalloc = false then Drv.fault else
  pure (some (fd, vdiskInitRaw fname (lseekEnd fd fsize)))

/-! ## Choosing the back end -/

inductive ImageKind
  | raw
  | qcow2
deriving DecidableEq, Repr

/-- `fname_len > suffix_len && !strcmp(fname + fname_len - suffix_len, suffix)`. -/
def hasSuffix (fname suffix : List Char) : Bool :=
  decide (suffix.length < fname.length) && decide
    (fname.drop (fname.length - suffix.length) = suffix)

def imageKind (fname : List Char) : Option ImageKind :=
  if hasSuffix fname ".raw".toList || hasSuffix fname ".iso".toList then some .raw
  else if hasSuffix fname ".qcow2".toList then some .qcow2
  else none

/-- A disk of either kind behind `struct vdisk *`. -/
inductive Backend
  | raw (fd : Fd) (d : VdiskRaw)
  | qcow2 (o : OpenQcow2)

/-- `struct vdisk`: what the back end filled in and the two settings of the cache. -/
structure OpenVdisk where
  backend : Backend
  adjustCacheSize : Int
  cacheSize : Nat

def Backend.sectSize : Backend → Nat
  | .raw _ d => d.sectSize
  | .qcow2 o => o.disk.geom.sectSize

def Backend.sectCnt : Backend → Nat
  | .raw _ d => d.sectCnt
  | .qcow2 o => o.disk.sectCnt

/-- `diskmediainfo_t`. -/
structure DiskMediaInfo where
  flags : Nat
  sectorSize : Nat
  capacity : Nat
deriving DecidableEq, Repr

def vdiskQuerymedia (disk : OpenVdisk) : KosError × DiskMediaInfo :=
  (.success, { flags := 0, sectorSize := disk.backend.sectSize, capacity := disk.backend.sectCnt })

def vdiskAdjustCacheSize (disk : OpenVdisk) (suggestedSize : Nat) : Nat :=
  if disk.adjustCacheSize ≠ 0 then disk.cacheSize else suggestedSize

def initBackend (io : UmkaIo) (fname : List Char) (fsize : Nat) :
    ImageKind → Drv Unit (Option Backend)
  | .raw => do
    let r ← vdiskInitRawFile fname fsize
    pure (r.map fun p => .raw p.1 p.2)
  | .qcow2 => do
    let o ← vdiskInitQcow2 io fname
    pure (o.map .qcow2)

/-- `vdisk_init`, for a file of `fsize` bytes under that name. -/
def vdiskInit (io : UmkaIo) (fname : List Char) (adjustCacheSize : Int) (cacheSize fsize : Nat) :
    Drv Unit (Option OpenVdisk) :=
  match imageKind fname with
  | none => pure none
  | some kind => do
    let disk ← initBackend io fname fsize kind
    match disk with
    -- The fields are stored through the null pointer.
    | none => Drv.fault
    | some b => pure (some ⟨b, adjustCacheSize, cacheSize⟩)

end Umka.Vdisk
