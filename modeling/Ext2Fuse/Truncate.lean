import Ext2Fuse.Perms

/-!
# Reading, writing and resizing files

`truncate.c` and the file routines of `ext2fs.c`. A handle is passed in and handed
back: its copy of the inode is what these routines read sizes from and write to disk.
-/

namespace Ext2Fuse

open Lib Program

variable {δ : Type}

/-- `set_file_size`: change the size in a copy of the inode and write the copy. -/
def setFileSize (ino : Nat) (inode : Inode) (desiredSize : Nat) : Prog δ (Errcode × Inode) := do
  let now ← lift .time
  let inode := { inode with iMtime := now, iSize := desiredSize % 2 ^ 32, iSizeHigh := 0 }
  let rc ← lift (.writeInode ino inode)
  return (rc, inode)

/-- `do_shorten`: record the new size, let the iterator release the blocks behind
it, and put the number of blocks kept into the inode read back from disk. -/
def doShorten (fh : File) (ino length : Nat) : Prog δ (Errcode × File) := do
  if length = fh.inode.iSize then return (0, fh)
  if length > fh.inode.iSize then return (EFAULT, fh)
  let super ← lift .super
  let info : TruncateBlocksInfo :=
    { lastBlockToKeep := if length = 0 then -1 else ((length - 1) / super.blocksize : Nat)
      numInIndirectBlock := super.addrPerBlock }
  let (rc, inode) ← setFileSize ino fh.inode length
  let fh := { fh with inode := inode }
  if rc ≠ 0 then return (rc, fh)
  let (_, info) ← lift (.blockIterateTruncate ino info)
  match ← lift (.readInode ino) with
  | .error rc => return (rc, fh)
  | .ok inode =>
      let rc ← lift (.writeInode ino
        { inode with iBlocks := info.totalNumBlocks * super.blocksize % 2 ^ 32 / 512 })
      return (rc, fh)

/-- `do_lengthen`: write zeros from the end of the file up to `length`, restoring
the position afterwards. -/
def doLengthen (fh : File) (ino length : Nat) : Prog δ (Errcode × File) := do
  let startPos := fh.pos
  let gapSize := length - fh.inode.iSize
  if length = fh.inode.iSize then return (0, fh)
  if length < fh.inode.iSize then return (EFAULT, fh)
  let fh := { fh with pos := fh.inode.ext2ISize }
  let (rc, written, fh) ← lift (.fileWrite fh (List.replicate (gapSize % 2 ^ 32) 0))
  let fh := { fh with pos := startPos }
  if rc ≠ 0 then return (rc, fh)
  if written ≠ gapSize then return ( EIO, fh)
  let (rc, inode) ← setFileSize ino fh.inode length
  return (rc, { fh with inode := inode })

/-- `do_ftruncate`. -/
def doFtruncate (fh : File) (ino length : Nat) : Prog δ (Errcode × File) :=
  if length > fh.inode.iSize then doLengthen fh ino length else doShorten fh ino length

/-- The open flags the code looks at. -/
structure OpenFlags where
  wronly : Bool := false
  rdwr : Bool := false
  trunc : Bool := false
  creat : Bool := false

/-- `do_open`; the error is the errno that goes with the null pointer. The test
`flags & (O_RDWR || O_WRONLY)` looks at the lowest bit, `O_WRONLY`, alone. -/
def doOpen (perms : Perms) (ino : Nat) (flags : OpenFlags) : Prog δ (Except Errcode File) := do
  let flags := if flags.trunc && !flags.wronly then { flags with rdwr := true } else flags
  let rc ← checkPerms perms ino (if flags.wronly || flags.rdwr then W_OK else R_OK)
  if rc ≠ 0 then return .error rc
  match ← lift (.fileOpen ino (flags.rdwr || flags.wronly)) with
  | .error rc => return .error rc
  | .ok efile =>
      if flags.trunc then
        let (_, efile) ← doFtruncate efile ino 0
        return .ok efile
      else return .ok efile

/-- `do_file_flush`. -/
def doFileFlush (fh : File) : Prog δ (Errcode × File) := lift (.fileFlush fh)

/-- `do_file_close`: flush, and free the handle. -/
def doFileClose (fh : File) : Prog δ Errcode := do
  let (rc, _) ← lift (.fileFlush fh)
  return rc

/-- `do_truncate`. -/
def doTruncate (perms : Perms) (ino length : Nat) : Prog δ Errcode := do
  match ← doOpen perms ino { creat := true, wronly := true } with
  | .error rc => return rc
  | .ok fh =>
      let (rc, fh) ← doFtruncate fh ino length
      let closeRc ← doFileClose fh
      return if rc ≠ 0 then rc else closeRc

/-- `do_read`: the bytes read, and the handle with the access time set; the whole
copy of the inode goes to disk. -/
def doRead (fh : File) (ino size off : Nat) : Prog δ (Errcode × List UInt8 × File) := do
  let fh := { fh with pos := off }
  let (rc, got, fh) ← lift (.fileRead fh (size % 2 ^ 32))
  if rc ≠ 0 then return (rc, got, fh)
  let now ← lift .time
  let fh := { fh with inode := { fh.inode with iAtime := now } }
  let rc ← lift (.writeInode ino fh.inode)
  return (rc, got, fh)

/-- The part of `do_write` after the gap is filled: seek, write, set the size. -/
def writeData (fh : File) (ino : Nat) (data : List UInt8) (off : Nat) :
    Prog δ (Errcode × Nat × File) := do
  let fh := { fh with pos := off }
  let (rc, bytes, fh) ← lift (.fileWrite fh (data.take (data.length % 2 ^ 32)))
  if rc ≠ 0 then return ( EIO, bytes, fh)
  if bytes ≠ data.length then return ( EIO, bytes, fh)
  if off + data.length ≤ fh.inode.iSize then return (0, bytes, fh)
  if off > fh.inode.iSize then return ( EIO, bytes, fh)
  let (rc, inode) ← setFileSize ino fh.inode (off + data.length)
  return (rc, bytes, { fh with inode := inode })

/-- `do_write`: fill the gap when writing past the end, then write. -/
def doWrite (fh : File) (ino : Nat) (data : List UInt8) (off : Nat) :
    Prog δ (Errcode × Nat × File) := do
  if off > fh.inode.iSize then
    let (rc, fh) ← doFtruncate fh ino off
    if rc ≠ 0 then return (rc, 0, fh)
    writeData fh ino data off
  else writeData fh ino data off

end Ext2Fuse
