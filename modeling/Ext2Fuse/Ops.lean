import Ext2Fuse.Truncate

/-!
# Operations on the name space

The routines of `ext2fs.c`, `mkdir.c` and `rename.c` that create, link, remove and
rename, call by call in the order of the source. A link count is a 16-bit
word: raising and lowering it is modulo 2^16.
-/

namespace Ext2Fuse

open Lib Program

variable {δ : Type}

/-- `i_links_count++` -/
def Inode.raiseLinks (inode : Inode) : Inode :=
  { inode with iLinksCount := (inode.iLinksCount + 1) % 2 ^ 16 }

/-- `i_links_count--` -/
def Inode.lowerLinks (inode : Inode) : Inode :=
  { inode with iLinksCount := (inode.iLinksCount + (2 ^ 16 - 1)) % 2 ^ 16 }

/-- `get_ino_by_name`. -/
def getInoByName (parent : Nat) (name : Name) : Prog δ (Except Errcode Nat) :=
  lift (.namei parent name)

/-- `do_lookup`: the inode number and the inode of a name. -/
def doLookup (perms : Perms) (parent : Nat) (name : Name) :
    Prog δ (Except Errcode (Nat × Inode)) := do
  match ← readInode parent with
  | .error rc => return .error (if rc = EXT2_ET_FILE_NOT_FOUND then ENOENT else rc)
  | .ok parentInode =>
      if checkPermsInInode perms parentInode X_OK ≠ 0 then return .error EACCES
      match ← lift (.lookup parent name) with
      | .error _ => return .error ENOENT
      | .ok ino =>
          match ← readInode ino with
          | .error _ => return .error EIO
          | .ok inode => return .ok (ino, inode)

/-- `do_link`: link, expanding the directory once if there is no space. -/
def doLink (parent : Nat) (name : Name) (ino filetype : Nat) : Prog δ Errcode := do
  let rc ← lift (.link parent name ino filetype)
  if rc = EXT2_ET_DIR_NO_SPACE then
    let rc ← lift (.expandDir parent)
    if rc ≠ 0 then return EIO
    let rc ← lift (.link parent name ino filetype)
    return if rc ≠ 0 then EIO else 0
  else return if rc ≠ 0 then EIO else 0

/-- `do_create`: returns the new inode number and the inode as first written. -/
def doCreate (perms : Perms) (parent : Nat) (name : Name) (mode filetypeInDir : Nat) :
    Prog δ (Except Errcode (Nat × Inode)) := do
  match ← readInode parent with
  | .error _ => return .error EIO
  | .ok parentInode =>
      if checkPermsInInode perms parentInode W_OK ≠ 0 then return .error EACCES
      match ← lift (.newInode parent) with
      | .error _ => return .error ENOSPC
      | .ok ino =>
          let now ← lift .time
          let inode : Inode := { setPerms perms {} with
            iMode := mode, iAtime := now, iCtime := now, iMtime := now, iLinksCount := 1 }
          let rc ← lift (.writeNewInode ino inode)
          if rc ≠ 0 then return .error EIO
          lift (.inodeAllocStats2 ino true false)
          let rc ← doLink parent name ino filetypeInDir
          if rc ≠ 0 then return .error rc
          return .ok (ino, inode)

/-- `kill_file_by_inode`: save the inode with no links, then release its blocks and
its number, unless its block pointers are not block numbers. -/
def killFileByInode (ino : Nat) (inode : Inode) : Prog δ Unit := do
  let now ← lift .time
  let inode := { inode with iLinksCount := 0, iDtime := now }
  let rc ← writeInode ino inode
  if rc ≠ 0 then return ()
  if !ext2fsInodeHasValidBlocks inode then return ()
  let _ ← lift (.blockIterateRelease ino)
  lift (.inodeAllocStats2 ino false (LINUX_S_ISDIR inode.iMode))
  lift (.unmarkInodeBitmap ino)

/-- `do_unlink_on_ino`. The return code of `ext2fs_unlink` is only logged. -/
def doUnlinkOnIno (parent : Nat) (name : Name) (ino : Nat) (links : Int) : Prog δ Errcode := do
  match ← readInode ino with
  | .error _ => return EIO
  | .ok inode =>
      if LINUX_S_ISDIR inode.iMode then return ENOTDIR
      let inode := if inode.iLinksCount > 0 then
          { inode with iLinksCount := ((inode.iLinksCount + links) % 2 ^ 16).toNat }
        else inode
      let _ ← lift (.unlink parent name ino)
      if inode.iLinksCount < 1 then
        killFileByInode ino inode
        return 0
      else
        let rc ← writeInode ino inode
        return if rc ≠ 0 then EIO else 0

/-- `do_unlink`. -/
def doUnlink (parent : Nat) (name : Name) (links : Int) : Prog δ Errcode := do
  match ← lift (.namei parent name) with
  | .error _ => return ENOENT
  | .ok ino => doUnlinkOnIno parent name ino links

/-- `new_ext2fs_mkdir`. The mode is `LINUX_S_IFDIR | (0777 & ~fs->umask)` with the
umask 022 `ext2fs_open` sets. The parent's inode is written back as read before the
link. -/
def newExt2fsMkdir (perms : Perms) (parent : Nat) (name : Name) : Prog δ Errcode := do
  match ← lift (.newInode parent) with
  | .error rc => return rc
  | .ok ino =>
  match ← lift (.newBlock 0) with
  | .error rc => return rc
  | .ok blk =>
  match ← lift (.newDirBlock ino parent) with
  | .error rc => return rc
  | .ok block =>
  let parentInode := (← lift (.readInode parent)).toOption.getD {}
  if checkPermsInInode perms parentInode 2 ≠ 0 then return EACCES
  let super ← lift .super
  let now ← lift .time
  let inode : Inode := { setPerms perms {} with
    iMode := LINUX_S_IFDIR ||| 0o755
    iBlocks := super.blocksize / 512
    iBlock := Function.update (fun _ => 0) 0 blk
    iLinksCount := 2
    iCtime := now, iAtime := now, iMtime := now
    iSize := super.blocksize }
  lift (.blockAllocStats blk true)
  lift (.inodeAllocStats2 ino true true)
  let rc ← lift (.writeDirBlock ino blk block)
  if rc ≠ 0 then return rc
  let rc ← lift (.writeNewInode ino inode)
  if rc ≠ 0 then return rc
  match ← lift (.lookup parent name) with
  | .ok _ => return EXT2_ET_DIR_EXISTS
  | .error rc =>
  if rc ≠ EXT2_ET_FILE_NOT_FOUND then return rc
  let rc ← lift (.link parent name ino EXT2_FT_DIR)
  if rc ≠ 0 then return rc
  lift (.writeInode parent parentInode.raiseLinks)

/-- The `try_again` loop of `do_mkdir`, followed for a number of turns. `EXT2_ET_DIR_NO_SPACE`, with
which the loop never ends, says that it goes on after them. -/
def mkdirLoop (perms : Perms) (parent : Nat) (name : Name) : Nat → Prog δ Errcode
  | 0 => return EXT2_ET_DIR_NO_SPACE
  | turns + 1 => do
      let rc ← newExt2fsMkdir perms parent name
      if rc = EXT2_ET_DIR_NO_SPACE then
        let rc ← lift (.expandDir parent)
        if rc ≠ 0 then return ENOSPC
        mkdirLoop perms parent name turns
      else return rc

/-- `do_mkdir` after its loop. -/
def mkdirFinish (parent : Nat) (name : Name) (rc : Errcode) : Prog δ (Except Errcode Nat) := do
  if rc ≠ 0 then return .error rc
  match ← lift (.lookup parent name) with
  | .error _ => return .error ENOENT
  | .ok ino => return .ok ino

/-- `do_mkdir`, its loop followed for a number of turns. -/
def doMkdirWithin (turns : Nat) (perms : Perms) (parent : Nat) (name : Name) :
    Prog δ (Except Errcode Nat) := do
  mkdirFinish parent name (← mkdirLoop perms parent name turns)

/-- `do_mkdir`. Every turn of the loop takes an inode, so it has come to its end after as many turns
as there are inodes. -/
def doMkdir (perms : Perms) (parent : Nat) (name : Name) : Prog δ (Except Errcode Nat) := do
  let super ← lift .super
  doMkdirWithin (super.sInodesCount + 1) perms parent name

/-- `struct rd_struct`. -/
structure RdStruct where
  parent : Nat := 0
  empty : Bool := true
deriving DecidableEq

/-- `rmdir_proc` on a live entry. -/
def rmdirProc (rds : RdStruct) (entry : Dirent) : RdStruct :=
  if entry.inode = 0 then rds
  else if entry.name = dotName then rds
  else if entry.name = dotDotName then { rds with parent := entry.inode }
  else { rds with empty := false }

/-- `do_rmdir_on_ino`. -/
def doRmdirOnIno (perms : Perms) (parent : Nat) (name : Name) (ino : Nat) : Prog δ Errcode := do
  match ← readInode ino with
  | .error _ => return EIO
  | .ok inode =>
      if checkPermsInInode perms inode W_OK ≠ 0 then return EACCES
      if !LINUX_S_ISDIR inode.iMode then return ENOTDIR
      let (rc, entries) ← lift (.dirIterate ino)
      let rds := entries.foldl rmdirProc {}
      if rc ≠ 0 then return EIO
      if !rds.empty then return ENOTEMPTY
      let rc ← lift (.unlink parent name ino)
      if rc ≠ 0 then return EIO
      killFileByInode ino inode
      if rds.parent = 0 then return 0
      match ← readInode parent with
      | .error rc => return rc
      | .ok parentInode =>
          writeInode parent
            (if parentInode.iLinksCount > 1 then parentInode.lowerLinks else parentInode)

/-- `do_rmdir`. -/
def doRmdir (perms : Perms) (parent : Nat) (name : Name) : Prog δ Errcode := do
  match ← lift (.namei parent name) with
  | .error _ => return ENOENT
  | .ok ino => doRmdirOnIno perms parent name ino

/-- The `cleanup:` part of `do_rename`. For a file the code that is returned is the
one of the last `write_inode`. -/
def renameCleanup (newparent : Nat) (newname : Name) (ino : Nat) (inode : Inode)
    (ret : Errcode) : Prog δ Errcode := do
  let rc ← lift (.unlink newparent newname ino)
  if rc ≠ 0 then return ret
  if !LINUX_S_ISDIR inode.iMode then
    let rc ← writeInode ino inode.lowerLinks
    return if rc ≠ 0 then EIO else 0
  else
    match ← lift (.readInode newparent) with
    | .error _ => return ret
    | .ok newparentInode =>
        let _ ← lift (.writeInode newparent newparentInode.lowerLinks)
        return ret

/-- The last part of `do_rename` for a file: remove the old name. -/
def renameFileOld (parent : Nat) (name : Name) (newparent : Nat) (newname : Name) (ino : Nat)
    (inode : Inode) : Prog δ Errcode := do
  let ret ← doUnlink parent name (-1)
  if ret ≠ 0 then renameCleanup newparent newname ino inode ret
  else return 0

/-- The last part of `do_rename` for a directory: exchange `..`, remove the old name
and lower the old parent's count. -/
def renameDirOld (parent : Nat) (name : Name) (newparent : Nat) (newname : Name) (ino : Nat)
    (inode : Inode) : Prog δ Errcode := do
  let ret ← doLink ino dotDotName (EXT2FS_INO newparent) EXT2_FT_DIR
  if ret ≠ 0 then renameCleanup newparent newname ino inode ret
  else
    let rc ← lift (.unlink ino dotDotName parent)
    if rc ≠ 0 then renameCleanup newparent newname ino inode EIO
    else
      let rc ← lift (.unlink parent name 0)
      if rc ≠ 0 then renameCleanup newparent newname ino inode EIO
      else
        match ← lift (.readInode parent) with
        | .error rc => return rc
        | .ok parentInode => lift (.writeInode parent parentInode.lowerLinks)

/-- `do_rename` from the new link on: delete what had the new name, then the old name. -/
def renameLinked (perms : Perms) (parent : Nat) (name : Name) (newparent : Nat)
    (newname : Name) (ino target : Nat) (inode : Inode) : Prog δ Errcode := do
  if target ≠ 0 then
    match ← readInode target with
    | .error _ => renameCleanup newparent newname ino inode EIO
    | .ok targetInode =>
        if LINUX_S_ISDIR inode.iMode then
          if !LINUX_S_ISDIR targetInode.iMode then
            renameCleanup newparent newname ino inode ENOTDIR
          else
            let ret ← doRmdirOnIno perms newparent newname target
            if ret ≠ 0 then renameCleanup newparent newname ino inode ret
            else renameDirOld parent name newparent newname ino inode
        -- this error leaves without cleaning up
        else if LINUX_S_ISDIR targetInode.iMode then return EISDIR
        else
          let ret ← doUnlinkOnIno newparent newname target (-1)
          if ret ≠ 0 then renameCleanup newparent newname ino inode ret
          else renameFileOld parent name newparent newname ino inode
  else if LINUX_S_ISDIR inode.iMode then renameDirOld parent name newparent newname ino inode
  else renameFileOld parent name newparent newname ino inode

/-- The count `do_rename` raises first: the file's own, or the new parent's when a
directory moves. Returns the copy of the inode the rest works with. -/
def renameRaise (newparent ino : Nat) (inode : Inode) : Prog δ (Except Errcode Inode) := do
  if !LINUX_S_ISDIR inode.iMode then
    let rc ← writeInode ino inode.raiseLinks
    return if rc ≠ 0 then .error EIO else .ok inode.raiseLinks
  else
    match ← lift (.readInode newparent) with
    | .error rc => return .error rc
    | .ok newparentInode =>
        let rc ← lift (.writeInode newparent newparentInode.raiseLinks)
        return if rc ≠ 0 then .error rc else .ok inode

/-- `do_rename`. -/
def doRename (perms : Perms) (parent : Nat) (name : Name) (newparent : Nat) (newname : Name) :
    Prog δ Errcode := do
  match ← getInoByName parent name with
  | .error _ => return ENOENT
  | .ok ino =>
      let target := (← getInoByName newparent newname).toOption.getD 0
      match ← readInode ino with
      | .error _ => return EIO
      | .ok inode =>
          match ← renameRaise newparent ino inode with
          | .error rc => return rc
          | .ok inode =>
              let ret ← doLink newparent newname ino (ext2FileType inode.iMode)
              if ret ≠ 0 then renameCleanup newparent newname ino inode ret
              else renameLinked perms parent name newparent newname ino target inode

end Ext2Fuse
