import Umka.Kos.Lfn

/-!
# `umka_fuse.c`: a KolibriOS file system mounted on the host

Each operation makes one call of `umka_sys_lfn` and turns its answer into what FUSE wants. The
status of the call is not looked at. Objects on the stack and from `malloc` hold what they hold
until the kernel writes them, so they are arguments here.
-/

set_option autoImplicit false

namespace Umka.Fuse

open Kos

/-- `DIRENTS_TO_READ`. -/
def direntsToRead : Nat := 100

/-- `S_IFMT` and the two kinds used. -/
def sIfmt : UInt32 := 0o170000
def sIfdir : UInt32 := 0o040000
def sIfreg : UInt32 := 0o100000

/-- `struct stat`. -/
structure Stat where
  mode : UInt32
  nlink : Nat
  size : UInt64
  atime : Int
  mtime : Int
  ctime : Int
deriving DecidableEq

/-- `bdfe_to_stat`. The test of `KF_FOLDER` is commented out and `st` itself is tested, so the
    branch for files is taken with a NULL, which it dereferences. `epoch` is
    `kos_time_to_epoch`. -/
def bdfeToStat (epoch : UInt64 → Int) (kf : Bdfe) (st : Option Stat) : Option Stat :=
  st.map fun st => { st with
    mode := sIfdir ||| 0o755
    nlink := 2
    atime := epoch kf.atime
    mtime := epoch kf.mtime
    ctime := epoch kf.ctime }

/-- `fs_getattr`: what it returns, and `*stbuf`; `file` is the uninitialised entry. -/
def fsGetattr (epoch : UInt64 → Int) (lfn : Lfn) (path : List Char) (file : Bdfe) (st : Stat) :
    Option (Int × Stat) :=
  let (_, file) := lfn.getInfo path file
  (bdfeToStat epoch file (some st)).map fun st => (0, st)

/-- `fs_read`: what it returns, and the buffer. The return type is `int`. -/
def fsRead (lfn : Lfn) (path : List Char) (size : UInt32) (offset : UInt64) (buf : Nat → UInt8) :
    Int × (Nat → UInt8) :=
  let (_, buf) := lfn.readFile path offset.toNat size.toNat buf
  (size.toInt32.toInt, buf)

/-- `fs_readdir`: what it returns, and the names handed to `filler`; `dir` is the memory that
    `malloc` returned. -/
def fsReaddir (lfn : Lfn) (path : List Char) (dir : DirInfo) : Int × List (Option (List Char)) :=
  let (_, dir) := lfn.readFolder path .utf8 0 direntsToRead dir
  (0, (List.range dir.cnt).map fun i => (dir.bdfes (i * bdfeLenUnicode)).map (·.name))

end Umka.Fuse
