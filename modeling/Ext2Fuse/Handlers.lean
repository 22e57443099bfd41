import Ext2Fuse.Ops

/-!
# FUSE handlers

The handlers of `fuse-ext2fs.c`, `symlink.c` and `readdir.c`. A handler is a program
that ends with the replies it has sent, in order. What libfuse and the kernel do with
directory records is a parameter.
-/

namespace Ext2Fuse

open Lib Program

/-- `struct stat` as `fill_statbuf` fills it. -/
structure Stat where
  stIno : Nat
  stMode : Nat
  stNlink : Nat
  stUid : Nat
  stGid : Nat
  stSize : Nat
  stBlksize : Nat
  stBlocks : Nat
  stAtime : Nat
  stMtime : Nat
  stCtime : Nat
deriving DecidableEq

/-- `fill_statbuf`. -/
def fillStatbuf (super : Super) (ino : Nat) (inode : Inode) : Stat where
  stIno := ino
  stMode := inode.iMode
  stNlink := inode.iLinksCount
  stUid := inode.iUid
  stGid := inode.iGid
  stSize := inode.iSize
  stBlksize := super.blocksize
  stBlocks := inode.iBlocks
  stAtime := inode.iAtime
  stMtime := inode.iMtime
  stCtime := inode.iCtime

/-- The `fuse_reply_*` calls. An entry carries the inode number, the generation and
the attributes; the replies to open and create carry the handle put into `fi->fh`. -/
inductive Reply where
  | err (rc : Errcode)
  | attr (stat : Stat)
  | entry (ino generation : Nat) (stat : Stat)
  | open (file : File)
  | create (ino generation : Nat) (stat : Stat) (file : File)
  | buf (bytes : List UInt8)
  | write (count : Nat)
  | readlink (target : List UInt8)
  | statfs (statvfs : Statvfs)

/-- The reply reports success. -/
def Reply.ok : Reply → Bool
  | err rc => rc == 0
  | _ => true

variable {δ : Type}

/-- `op_access`. The volume is mounted for writing, so that only the check is left. -/
def opAccess (ctx : FuseCtx) (ino mask : Nat) : Prog δ (List Reply) := do
  let rc ← checkPerms (some ctx) (EXT2FS_INO ino) mask
  return [.err rc]

/-- `op_getattr`. -/
def opGetattr (ino : Nat) : Prog δ (List Reply) := do
  match ← readInode (EXT2FS_INO ino) with
  | .error _ => return [.err ENOENT]
  | .ok inode =>
      let super ← lift .super
      return [.attr (fillStatbuf super (EXT2FS_INO ino) inode)]

/-- The name `op_lookup` takes for a null pointer that has been printed. -/
def nullName : Name := [0x28, 0x6e, 0x75, 0x6c, 0x6c, 0x29]

/-- `op_lookup`. -/
def opLookup (ctx : FuseCtx) (parent : Nat) (name : Name) : Prog δ (List Reply) := do
  if nullName.isPrefixOf name then return [.err ENOENT]
  match ← doLookup (some ctx) (EXT2FS_INO parent) name with
  | .error _ => return [.err ENOENT]
  | .ok (ino, inode) =>
      let super ← lift .super
      return [.entry ino inode.iGeneration (fillStatbuf super ino inode)]

/-- `op_open`, and `opendir`. -/
def opOpen (ctx : FuseCtx) (ino : Nat) (flags : OpenFlags) : Prog δ (List Reply) := do
  match ← doOpen (some ctx) (EXT2FS_INO ino) flags with
  | .error rc => return [.err rc]
  | .ok efile => return [.open efile]

/-- `op_create`. -/
def opCreate (ctx : FuseCtx) (parent : Nat) (name : Name) (mode : Nat) (flags : OpenFlags) :
    Prog δ (List Reply) := do
  match ← doCreate (some ctx) (EXT2FS_INO parent) name (LINUX_S_IFREG ||| (mode &&& 0o777))
      EXT2_FT_REG_FILE with
  | .error rc => return [.err rc]
  | .ok (ino, inode) =>
      match ← doOpen none ino { flags with creat := false } with
      | .error rc => return [.err rc]
      | .ok efile =>
          let super ← lift .super
          return [.create ino inode.iGeneration (fillStatbuf super ino inode) efile]

/-- `op_unlink`. -/
def opUnlink (ctx : FuseCtx) (parent : Nat) (name : Name) : Prog δ (List Reply) := do
  let ret ← checkPerms (some ctx) (EXT2FS_INO parent) W_OK
  if ret ≠ 0 then return [.err ret]
  let ret ← doUnlink (EXT2FS_INO parent) name (-1)
  return [.err ret]

/-- `op_rename`. -/
def opRename (ctx : FuseCtx) (parent : Nat) (name : Name) (newparent : Nat) (newname : Name) :
    Prog δ (List Reply) := do
  let first ← checkPerms (some ctx) (EXT2FS_INO parent) W_OK
  let second ← checkPerms (some ctx) (EXT2FS_INO newparent) W_OK
  let ret := first ||| second
  if ret ≠ 0 then return [.err ret]
  let ret ← doRename (some ctx) (EXT2FS_INO parent) name (EXT2FS_INO newparent) newname
  return [.err ret]

/-- `op_link`. -/
def opLink (ctx : FuseCtx) (ino newparent : Nat) (newname : Name) : Prog δ (List Reply) := do
  let ret ← checkPerms (some ctx) (EXT2FS_INO newparent) W_OK
  if ret ≠ 0 then return [.err ret]
  match ← readInode (EXT2FS_INO ino) with
  | .error _ => return [.err EIO]
  | .ok inode =>
      let inode := inode.raiseLinks
      let ret ← writeInode (EXT2FS_INO ino) inode
      if ret ≠ 0 then return [.err EIO]
      let ret ← doLink (EXT2FS_INO newparent) newname (EXT2FS_INO ino) (ext2FileType inode.iMode)
      if ret ≠ 0 then
        let ret ← writeInode (EXT2FS_INO ino) inode.lowerLinks
        if ret ≠ 0 then return [.err EIO]
        return [.err ENOENT]
      else
        let super ← lift .super
        return [.entry (EXT2FS_INO ino) inode.iGeneration
          (fillStatbuf super (EXT2FS_INO ino) inode)]

/-- `op_mkdir` after `do_mkdir`, which never returns `EXT2_ET_DIR_NO_SPACE`: its loop goes on, and
there is no reply yet. -/
def replyMkdir : Except Errcode Nat → Prog δ (List Reply)
  | .error rc => if rc = EXT2_ET_DIR_NO_SPACE then return [] else return [.err rc]
  | .ok ino => do
      match ← readInode ino with
      | .error _ => return [.err EIO]
      | .ok inode =>
          let super ← lift .super
          return [.entry ino inode.iGeneration (fillStatbuf super ino inode)]

/-- `op_mkdir`, the loop of `do_mkdir` followed for a number of turns. -/
def opMkdirWithin (turns : Nat) (ctx : FuseCtx) (parent : Nat) (name : Name) :
    Prog δ (List Reply) := do
  replyMkdir (← doMkdirWithin turns (some ctx) (EXT2FS_INO parent) name)

/-- `op_mkdir`. -/
def opMkdir (ctx : FuseCtx) (parent : Nat) (name : Name) : Prog δ (List Reply) := do
  replyMkdir (← doMkdir (some ctx) (EXT2FS_INO parent) name)

/-- `op_rmdir`. -/
def opRmdir (ctx : FuseCtx) (parent : Nat) (name : Name) : Prog δ (List Reply) := do
  let ret ← checkPerms (some ctx) (EXT2FS_INO parent) W_OK
  if ret ≠ 0 then return [.err ret]
  let ret ← doRmdir (some ctx) (EXT2FS_INO parent) name
  return [.err ret]

/-- `op_symlink`: create the file, then write the target with its NUL as the file's
contents. -/
def opSymlink (ctx : FuseCtx) (link : Name) (parent : Nat) (name : Name) :
    Prog δ (List Reply) := do
  match ← doCreate (some ctx) (EXT2FS_INO parent) name (LINUX_S_IFLNK ||| 0o777)
      EXT2_FT_UNKNOWN with
  | .error rc => return [.err rc]
  | .ok (ino, inode) =>
      match ← doOpen none ino { wronly := true } with
      | .error rc => return [.err rc]
      | .ok efile =>
          let (rc, bytes, efile) ← doWrite efile ino (link ++ [0]) 0
          if rc ≠ 0 then return [.err rc]
          let rc ← doFileClose efile
          if rc ≠ 0 then return [.err rc]
          let super ← lift .super
          let reply := Reply.entry ino inode.iGeneration (fillStatbuf super ino inode)
          if bytes ≠ link.length + 1 then return [.err EIO, reply]
          else return [reply]

/-- `op_read`. The handle is returned beside the reply; without memory for the bytes
`do_read` leaves it as it is. -/
def opRead (fh : File) (ino size off : Nat) : Prog δ (List Reply × File) := do
  if !(← lift (.malloc size)) then return ([.err ENOMEM], fh)
  let (rc, got, fh) ← doRead fh (EXT2FS_INO ino) size off
  if rc ≠ 0 then return ([.err rc], fh)
  return ([.buf got], fh)

/-- `op_write`. -/
def opWrite (fh : File) (ino : Nat) (data : List UInt8) (off : Nat) :
    Prog δ (List Reply × File) := do
  let (rc, bytes, fh) ← doWrite fh ino data off
  if rc ≠ 0 then return ([.err rc], fh)
  return ([.write bytes], fh)

/-- `op_flush`. -/
def opFlush (fh : File) : Prog δ (List Reply × File) := do
  let (rc, fh) ← doFileFlush fh
  return ([.err rc], fh)

/-- `op_release`, and `releasedir`. -/
def opRelease (fh : File) : Prog δ (List Reply) := do
  let rc ← doFileClose fh
  if rc ≠ 0 then return [.err EIO]
  return [.err 0]

/-- The fields a `op_setattr` request selects, with their values; a `time_t` has a sign. -/
structure SetAttr where
  mode : Option Nat := none
  uid : Option Nat := none
  gid : Option Nat := none
  size : Option Nat := none
  atime : Option Int := none
  mtime : Option Int := none

/-- One field of `op_setattr`: set it if it is selected and the caller may. -/
def setSelected {α : Type} (ctx : FuseCtx) (selected : Option α) (set : Inode → α → Inode)
    (inode : Inode) : Inode :=
  match selected with
  | some value => if checkOwner (some ctx) inode = 0 then set inode value else inode
  | none => inode

/-- The inode `op_setattr` writes: the selected fields set one after the other, and
the modification time to now if it was not selected. -/
def applyAttr (ctx : FuseCtx) (attr : SetAttr) (now : Nat) (inode : Inode) : Inode :=
  let inode := setSelected ctx attr.mode
    (fun inode mode => { inode with iMode := (inode.iMode &&& 0o177000 ||| mode) % 2 ^ 16 }) inode
  let inode := setSelected ctx attr.uid (fun inode uid => { inode with iUid := uid % 2 ^ 16 }) inode
  let inode := setSelected ctx attr.gid (fun inode gid => { inode with iGid := gid % 2 ^ 16 }) inode
  let inode := setSelected ctx attr.atime
    (fun inode atime => { inode with iAtime := (atime % 2 ^ 32).toNat }) inode
  setSelected ctx (some (attr.mtime.getD now))
    (fun inode mtime => { inode with iMtime := (mtime % 2 ^ 32).toNat }) inode

/-- `op_setattr` after the truncation. -/
def setAttrRest (ctx : FuseCtx) (ino : Nat) (attr : SetAttr) : Prog δ (List Reply) := do
  match ← readInode (EXT2FS_INO ino) with
  | .error _ => return [.err ENOENT]
  | .ok inode =>
      let now ← lift .time
      let inode := applyAttr ctx attr now inode
      let rc ← writeInode (EXT2FS_INO ino) inode
      if rc ≠ 0 then return [.err EIO]
      let super ← lift .super
      return [.attr (fillStatbuf super (EXT2FS_INO ino) inode)]

/-- `op_setattr`: the size first, as truncating changes the inode on disk. -/
def opSetattr (ctx : FuseCtx) (ino : Nat) (attr : SetAttr) : Prog δ (List Reply) := do
  match attr.size with
  | none => setAttrRest ctx ino attr
  | some size =>
      let rc ← doTruncate (some ctx) (EXT2FS_INO ino) size
      if rc ≠ 0 then return [.err rc]
      setAttrRest ctx ino attr

/-- `op_statfs`. A division by zero in `do_statvfs` ends the process, and after an overflow of a
signed number nothing is promised: there is no reply. -/
def opStatfs : Prog δ (List Reply) := do
  let sb ← lift .superBlock
  match sb.doStatvfs with
  | none => return []
  | some statvfs => return [.statfs statvfs]

/-- `op_fsync`. The return code of `ext2fs_flush` is not looked at. -/
def opFsync : Prog δ (List Reply) := do
  let _ ← lift .flush
  return [.err 0]

/-- What the handlers use of libfuse for directory listings. -/
structure FuseDir where
  /-- `fuse_dirent_size` of a name length. -/
  direntSize : Nat → Nat
  /-- The record `fuse_add_dirent` writes for a name, an inode number and an offset. -/
  addDirent : Name → Nat → Nat → List UInt8

/-- The string `walk_dir` copies a name to ends at its first NUL. -/
def cString (name : Name) : Name := name.takeWhile (· ≠ 0)

/-- The bytes of `i_block`, the words in little-endian order. -/
def Inode.blockBytes (inode : Inode) : List UInt8 :=
  (List.range (EXT2_N_BLOCKS * 4)).map fun index =>
    UInt8.ofNat (inode.iBlock (index / 4) / 256 ^ (index % 4))

/-- `op_readlink`: a symlink without blocks is kept in `i_block`. The buffer is handed out
as a C string; `behind` are the bytes behind it in memory. -/
def opReadlink (ctx : FuseCtx) (ino : Nat) (behind : List UInt8) : Prog δ (List Reply) := do
  match ← readInode (EXT2FS_INO ino) with
  | .error _ => return [.err EIO]
  | .ok inode =>
      if !(← lift (.malloc (inode.iSize + 1))) then return [.err ENOMEM]
      if inode.iBlocks = 0 then return [.readlink (cString (inode.blockBytes ++ behind))]
      match ← doOpen (some ctx) (EXT2FS_INO ino) {} with
      | .error rc => return [.err rc]
      | .ok efile =>
          let (rc, got, efile) ← doRead efile (EXT2FS_INO ino) inode.iSize 0
          if rc ≠ 0 then return [.err rc]
          let rc ← doFileClose efile
          if rc ≠ 0 then return [.err rc]
          if got.length ≠ inode.iSize then return [.err EIO]
          return [.readlink (cString (got ++ behind))]

/-- What `dirbuf_add` makes of the buffer: one record more, whose offset is the new size. -/
def FuseDir.added (fuse : FuseDir) (buf : List UInt8) (name : Name) (ino : Nat) : List UInt8 :=
  buf ++ fuse.addDirent name ino (buf.length + fuse.direntSize name.length)

/-- `dirbuf_add`. Without memory the record is written to a null pointer, which ends the process. -/
def dirbufAdd (fuse : FuseDir) (buf : List UInt8) (name : Name) (ino : Nat) :
    Prog δ (Option (List UInt8)) := do
  if !(← lift (.realloc (buf.length + fuse.direntSize name.length))) then return none
  return some (fuse.added buf name ino)

/-- `walk_dir`. Without memory for the name it returns `-ENOMEM`, in which
`ext2fs_process_dir_block` sees neither `DIRENT_CHANGED` nor `DIRENT_ABORT`: the walk goes on
without the entry. -/
def walkDir (fuse : FuseDir) (buf : List UInt8) (entry : Dirent) :
    Prog δ (Option (List UInt8)) := do
  if !(← lift (.malloc (entry.name.length + 1))) then return some buf
  dirbufAdd fuse buf (cString entry.name) entry.inode

/-- The walk over the entries of the directory. -/
def walkEntries (fuse : FuseDir) : List Dirent → List UInt8 → Prog δ (Option (List UInt8))
  | [], buf => return some buf
  | entry :: entries, buf => do
      match ← walkDir fuse buf entry with
      | none => return none
      | some buf => walkEntries fuse entries buf

/-- `reply_buf_limited`. -/
def replyBufLimited (buf : List UInt8) (off maxsize : Nat) : Reply :=
  if off < buf.length then .buf ((buf.drop off).take (min (buf.length - off) maxsize))
  else .buf []

/-- `op_readdir`. -/
def opReaddir (fuse : FuseDir) (ctx : FuseCtx) (ino size off : Nat) : Prog δ (List Reply) := do
  let rc ← checkPerms (some ctx) (EXT2FS_INO ino) R_OK
  if rc ≠ 0 then return [.err rc]
  let (rc, entries) ← lift (.dirIterate (EXT2FS_INO ino))
  match ← walkEntries fuse entries [] with
  | none => return []
  | some buf =>
      if rc ≠ 0 then return [.err EIO]
      return [replyBufLimited buf off size]

/-- With memory the walk adds a record for every entry. -/
def FuseDir.walked (fuse : FuseDir) (entries : List Dirent) (buf : List UInt8) : List UInt8 :=
  entries.foldl (fun buf entry => fuse.added buf (cString entry.name) entry.inode) buf

end Ext2Fuse
