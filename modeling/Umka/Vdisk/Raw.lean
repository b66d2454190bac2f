import Umka.Vdisk.Basic

/-!
# `vdisk/raw.c`

A raw image is its own contents: sector `s` is the `sect_size` bytes at `s * sect_size`. A call
is one `lseek` and one transfer, whose count `*numsectors * sect_size` is computed in 32-bit
`size_t`; the transfer's result is not looked at. `vdisk_init_raw` opens the file `O_RDONLY`, so
the world a raw disk lives in has that mode.
-/

set_option autoImplicit false

namespace Umka.Vdisk

open Lib

structure VdiskRaw where
  sectSize : Nat
  sectCnt : Nat
deriving DecidableEq, Repr

/-- `vdisk_init_raw`, from the size `lseek(fd, 0, SEEK_END)` reports for the opened file. -/
def vdiskInitRaw (fname : List Char) (fsize : Nat) : VdiskRaw where
  sectSize := sectSizeOf fname
  sectCnt := fsize / sectSizeOf fname

/-- The world `vdisk_init_raw` leaves behind: the file opened for reading, at its start. -/
def rawWorld (f : HostFile) : World := ⟨f, .rdonly, 0, 0, []⟩

namespace VdiskRaw

variable (d : VdiskRaw)

/-- `startsector * sect_size`, handed to `lseek`. -/
def offsetOf (startsector : Nat) : Int := toOffT ((startsector * d.sectSize) % 2 ^ 64)

/-- `*numsectors * sect_size`. -/
def countOf (numsectors : Nat) : Nat := (numsectors * d.sectSize) % 2 ^ 32

end VdiskRaw

def vdiskRawRead (io : UmkaIo) (d : VdiskRaw) (startsector numsectors : Nat)
    (buffer : Block (numsectors * d.sectSize)) :
    Drv Unit (KosError × Block (numsectors * d.sectSize)) := do
  Drv.seekTo (d.offsetOf startsector)
  let r ← ioRead io (d.countOf numsectors)
  pure (.success, buffer.overlay r.2)

def vdiskRawWrite (io : UmkaIo) (d : VdiskRaw) (startsector numsectors : Nat)
    (buffer : Block (numsectors * d.sectSize)) : Drv Unit KosError := do
  Drv.seekTo (d.offsetOf startsector)
  let _ ← ioWrite io (buffer.bytes.take (d.countOf numsectors))
  pure .success

end Umka.Vdisk
