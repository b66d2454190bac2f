import Umka.Kos.Lfn

/-!
# `shell.c`: `ls70` and `ls80`

`cmd_ls` lists a directory in pieces of at most `MAX_DIRENTS_TO_READ` entries. Given a count, it
runs `ls_range`, which asks for no more than was requested; given none, it runs `ls_all`, which
goes on to the end of the directory. What tells the two apart is the count itself: it is
`MAX_DIRENTS_TO_READ` unless `-c` says something else. The options are taken as parsed: first
index, count and encoding are the three 32-bit numbers.
-/

set_option autoImplicit false

namespace Umka.Shell

open Kos Vdisk

/-- `MAX_DIRENTS_TO_READ`. -/
def maxDirentsToRead : Nat := 100

/-- A line of output: a status, the total, or an entry; an entry is the one that starts where
    the line is printed from, if one does. -/
inductive LsLine
  | status (r : F7080Ret)
  | total (n : Int32)
  | entry (text : Option (List Char))
deriving DecidableEq, Repr

/-- `convert_f70_file_attr`. -/
def convertF70FileAttr (attr : UInt32) : List Char :=
  [if attr &&& 0x01 ≠ 0 then 'r' else '-',
   if attr &&& 0x02 ≠ 0 then 'h' else '-',
   if attr &&& 0x04 ≠ 0 then 's' else '-',
   if attr &&& 0x08 ≠ 0 then 'l' else '-',
   if attr &&& kfFolder ≠ 0 then 'f' else '-']

/-- The line of an entry. -/
def entryText (b : Bdfe) : List Char := convertF70FileAttr b.attr ++ ' ' :: b.name

/-- `bdfe_len` of `ls_range` and `ls_all`. -/
def bdfeLen (enc : FsEnc) : Nat := if enc = .cp866 then bdfeLenCp866 else bdfeLenUnicode

/-- The loop over the entries that were returned. -/
def entryLines (enc : FsEnc) (info : DirInfo) : List LsLine :=
  (List.range info.cnt).map fun i => .entry ((info.bdfes (i * bdfeLen enc)).map entryText)

/-- `parse_encoding`. -/
def parseEncoding (str : List Char) : FsEnc :=
  if str = "default".toList then .default
  else if str = "cp866".toList then .cp866
  else if str = "utf16".toList then .utf16
  else if str = "utf8".toList then .utf8
  else .invalid

/-- `bdfe_len` of `cmd_ls`; the comparison is `readdir_enc <= CP866`. -/
def listingBdfeLen (enc : FsEnc) : Nat :=
  if enc = .default ∨ enc = .cp866 then bdfeLenCp866 else bdfeLenUnicode

/-- The bytes that `cmd_ls` allocates for entries. -/
def listingRoom (enc : FsEnc) : Nat := listingBdfeLen enc * maxDirentsToRead

/-- What `ls_range` and `ls_all` call `ok`. -/
def replyOk (r : F7080Ret) (info : DirInfo) (size : Nat) : Bool :=
  r.count ≤ size ∧ info.cnt = r.count
    ∧ ((r.status = .success ∧ r.count = size) ∨ (r.status = .endOfFile ∧ r.count < size))

/-- The loop of `ls_range`. Each round takes `size` off `requested`, so `requested` rounds are
    enough for it. -/
def lsRangeLoop (call : DirCall) (enc : FsEnc) : Nat → Nat → Nat → Nat → DirInfo → List LsLine
  | 0, _, _, _, _ => []
  | fuel + 1, requested, size, offset, info =>
    if requested = 0 then []
    else
      let size := if size > requested then requested else size
      let (r, info) := call offset size info
      .status r ::
        if replyOk r info size then
          entryLines enc info ++
            if r.status = .endOfFile then []
            else lsRangeLoop call enc fuel (requested - size) size ((offset + size) % 2 ^ 32) info
        else []

/-- `ls_range`. -/
def lsRange (call : DirCall) (enc : FsEnc) (offset size : Nat) (info : DirInfo) : List LsLine :=
  lsRangeLoop call enc size size (if size > maxDirentsToRead then maxDirentsToRead else size)
    offset info

/-- `ls_all` for at most `fuel` rounds; `none` when it is not done by then. -/
def lsAll (call : DirCall) (enc : FsEnc) (size : Nat) :
    Nat → Nat → DirInfo → Option (List LsLine)
  | 0, _, _ => none
  | fuel + 1, offset, info =>
    let (r, info) := call offset size info
    if replyOk r info size then
      let lines := .status r :: .total (UInt32.ofNat info.totalCnt).toInt32 :: entryLines enc info
      if r.status = .endOfFile then some lines
      else (lsAll call enc size fuel ((offset + info.cnt) % 2 ^ 32) info).map (lines ++ ·)
    else some [.status r]

/-- `cmd_ls` with its options parsed; `info` is what `malloc` returned. -/
def cmdLs (fuel : Nat) (call : DirCall) (enc : FsEnc) (fromIdx count : UInt32) (info : DirInfo) :
    Option (List LsLine) :=
  if count.toNat ≠ maxDirentsToRead then some (lsRange call enc fromIdx.toNat count.toNat info)
  else lsAll call enc count.toNat fuel fromIdx.toNat info

end Umka.Shell
