import Ext2Fuse.Lib.Bytes

/-!
# On-disk format and error codes

The constants, inode and directory-entry records of `lib/ext2fs/ext2_fs.h` and
`lib/ext2fs/ext2fs.h`, and the errno and `EXT2_ET_*` values of the functions
modelled here. Machine integers are natural numbers; the operations that can wrap
reduce modulo the width of the field they store to. Inode numbers (`ext2_ino_t`)
and block numbers (`blk_t`) are such naturals too, with 0 for none.
-/

namespace Ext2Fuse

open Lib

/-- `errcode_t` or errno; 0 is success. -/
abbrev Errcode := Nat

/-- A file name: the bytes of a C string, without the NUL. -/
abbrev Name := List UInt8

/-- The contents of one block, by byte offset. -/
abbrev Block := Bytes

def ENOENT : Errcode := 2
def EIO : Errcode := 5
def ENOMEM : Errcode := 12
def EACCES : Errcode := 13
def EFAULT : Errcode := 14
def ENOTDIR : Errcode := 20
def EISDIR : Errcode := 21
def ENOSPC : Errcode := 28
def EMLINK : Errcode := 31
def ENOTEMPTY : Errcode := 39

def EXT2_ET_DIR_CORRUPTED : Errcode := 2133571363
def EXT2_ET_DIR_NO_SPACE : Errcode := 2133571366
def EXT2_ET_BAD_INODE_NUM : Errcode := 2133571369
def EXT2_ET_EXPAND_DIR_ERR : Errcode := 2133571371
def EXT2_ET_BLOCK_ALLOC_FAIL : Errcode := 2133571400
def EXT2_ET_INODE_ALLOC_FAIL : Errcode := 2133571401
def EXT2_ET_NO_DIRECTORY : Errcode := 2133571402
def EXT2_ET_FILE_NOT_FOUND : Errcode := 2133571404
def EXT2_ET_FILE_RO : Errcode := 2133571405
def EXT2_ET_DIR_EXISTS : Errcode := 2133571407
def EXT2_ET_FILE_TOO_BIG : Errcode := 2133571410

/-- `EXT2_ROOT_INO`. -/
def EXT2_ROOT_INO : Nat := 2

/-- `EXT2FS_INO`: the inode number of a request; FUSE calls the root 1. -/
def EXT2FS_INO (ino : Nat) : Nat := if ino < EXT2_ROOT_INO then EXT2_ROOT_INO else ino

/-- `EXT2_LINK_MAX`. -/
def EXT2_LINK_MAX : Nat := 65000

/-- `EXT2_NAME_LEN`. -/
def EXT2_NAME_LEN : Nat := 255

def EXT2_NDIR_BLOCKS : Nat := 12
def EXT2_IND_BLOCK : Nat := 12
def EXT2_DIND_BLOCK : Nat := 13
def EXT2_TIND_BLOCK : Nat := 14
def EXT2_N_BLOCKS : Nat := 15

def EXT2_FT_UNKNOWN : Nat := 0
def EXT2_FT_REG_FILE : Nat := 1
def EXT2_FT_DIR : Nat := 2
def EXT2_FT_CHRDEV : Nat := 3
def EXT2_FT_BLKDEV : Nat := 4
def EXT2_FT_FIFO : Nat := 5
def EXT2_FT_SOCK : Nat := 6
def EXT2_FT_SYMLINK : Nat := 7

/-- `EXT2_INDEX_FL`. -/
def EXT2_INDEX_FL : Nat := 0x1000

def LINUX_S_IFMT : Nat := 0o170000
def LINUX_S_IFSOCK : Nat := 0o140000
def LINUX_S_IFLNK : Nat := 0o120000
def LINUX_S_IFREG : Nat := 0o100000
def LINUX_S_IFBLK : Nat := 0o060000
def LINUX_S_IFDIR : Nat := 0o040000
def LINUX_S_IFCHR : Nat := 0o020000
def LINUX_S_IFIFO : Nat := 0o010000

/-- The `LINUX_S_IS*` tests: compare the file-type bits of `mode` with `kind`. -/
def hasType (kind mode : Nat) : Bool := mode &&& LINUX_S_IFMT == kind

def LINUX_S_ISDIR (mode : Nat) : Bool := hasType LINUX_S_IFDIR mode
def LINUX_S_ISREG (mode : Nat) : Bool := hasType LINUX_S_IFREG mode
def LINUX_S_ISLNK (mode : Nat) : Bool := hasType LINUX_S_IFLNK mode
def LINUX_S_ISCHR (mode : Nat) : Bool := hasType LINUX_S_IFCHR mode
def LINUX_S_ISBLK (mode : Nat) : Bool := hasType LINUX_S_IFBLK mode
def LINUX_S_ISFIFO (mode : Nat) : Bool := hasType LINUX_S_IFIFO mode
def LINUX_S_ISSOCK (mode : Nat) : Bool := hasType LINUX_S_IFSOCK mode

/-- The type bits of a mode `op_create` makes are those of a regular file. -/
theorem regular_mode (mode : Nat) :
    (LINUX_S_IFREG ||| (mode &&& 0o777)) &&& LINUX_S_IFMT = LINUX_S_IFREG := by
  rw [Nat.and_or_distrib_right, Nat.and_assoc]
  have noType : 0o777 &&& LINUX_S_IFMT = 0 := by decide
  rw [noType, Nat.and_zero]
  decide

/-- The mode of a regular file is not a directory's. -/
theorem regular_isFile (mode : Nat) :
    LINUX_S_ISDIR (LINUX_S_IFREG ||| (mode &&& 0o777)) = false := by
  simp only [LINUX_S_ISDIR, hasType, regular_mode]
  decide

/-- `ext2_file_type`: the directory-entry type of a mode. -/
def ext2FileType (mode : Nat) : Nat :=
  if LINUX_S_ISREG mode then EXT2_FT_REG_FILE
  else if LINUX_S_ISDIR mode then EXT2_FT_DIR
  else if LINUX_S_ISCHR mode then EXT2_FT_CHRDEV
  else if LINUX_S_ISBLK mode then EXT2_FT_BLKDEV
  else if LINUX_S_ISLNK mode then EXT2_FT_SYMLINK
  else if LINUX_S_ISFIFO mode then EXT2_FT_FIFO
  else if LINUX_S_ISSOCK mode then EXT2_FT_SOCK
  else 0

/-- `struct ext2_inode`, less the OS-dependent words no modelled function reads.
`iBlock` holds the fifteen block pointers at the indices below `EXT2_N_BLOCKS`;
`iSizeHigh` is the word the format shares with `i_dir_acl`. -/
structure Inode where
  iMode : Nat := 0
  iUid : Nat := 0
  iSize : Nat := 0
  iAtime : Nat := 0
  iCtime : Nat := 0
  iMtime : Nat := 0
  iDtime : Nat := 0
  iGid : Nat := 0
  iLinksCount : Nat := 0
  iBlocks : Nat := 0
  iFlags : Nat := 0
  iBlock : Nat → Nat := fun _ => 0
  iGeneration : Nat := 0
  iFileAcl : Nat := 0
  iSizeHigh : Nat := 0

/-- `EXT2_I_SIZE`: the 64-bit size. -/
def Inode.ext2ISize (inode : Inode) : Nat := inode.iSize + inode.iSizeHigh * 2 ^ 32

/-- The inode without the fields that say how large it is. -/
def Inode.unsized (inode : Inode) : Inode :=
  { inode with iSize := 0, iBlocks := 0, iBlock := fun _ => 0 }

/-- The inode `ext2fs_link` leaves a directory with: without the hash-index flag. -/
def Inode.unindexed (inode : Inode) : Inode :=
  if inode.iFlags &&& EXT2_INDEX_FL ≠ 0 then { inode with iFlags := inode.iFlags - EXT2_INDEX_FL }
  else inode

/-- A live directory entry as the iterator hands it out. -/
structure Dirent where
  name : Name
  inode : Nat
  fileType : Nat
deriving DecidableEq

/-- The name `.` -/
def dotName : Name := [0x2e]

/-- The name `..` -/
def dotDotName : Name := [0x2e, 0x2e]

/-- `ext2fs_inode_has_valid_blocks`: do the entries of `i_block` name blocks? -/
def ext2fsInodeHasValidBlocks (inode : Inode) : Bool :=
  if !LINUX_S_ISDIR inode.iMode && !LINUX_S_ISREG inode.iMode && !LINUX_S_ISLNK inode.iMode then
    false
  else if LINUX_S_ISLNK inode.iMode then
    if inode.iFileAcl = 0 then
      -- without an attribute block, i_blocks = 0 means a fast symlink
      !(inode.iBlocks == 0)
    else if inode.iSize ≥ EXT2_N_BLOCKS * 4 then true
    else decide (inode.iSize > 4) && inode.iBlock 1 == 0
  else true

end Ext2Fuse
