import Ext2Fuse.Lib.Program
import Ext2Fuse.FileIo

/-!
# The library as seen by the handlers

The handlers under `src/` are programs over the calls they make into `libext2fs`
and the C library; `lib` says what each call does to the filesystem. The
block iterations come with the callback the caller passes: `release_blocks_proc` of
`ext2fs.c` and `truncate_blocks_proc` of `truncate.c`.
-/

namespace Ext2Fuse

open Lib Volume

/-- `struct truncate_blocks_info`; the flags `deleteSingle`, `deleteAllButTriple`
and `deleteAll` are the bits of `delete_indirect_flags`. -/
structure TruncateBlocksInfo where
  lastBlockToKeep : Int
  numInIndirectBlock : Nat
  deleteSingle : Bool := false
  deleteAllButTriple : Bool := false
  deleteAll : Bool := false
  totalNumBlocks : Nat := 0
  clearIndirectPtrsFromInode : Nat := 0

/-- Release a block: clear its bit and wipe it. -/
def releaseBlock (cached : Cached) (vol : Volume) (blk : Nat) : Volume :=
  testWipeBlock cached (vol.ext2fsBlockAllocStats blk false) blk

/-- `release_blocks_proc`: release every block, data and indirect ones alike. -/
def releaseBlocksProc (cached : Cached) : IterFunc Unit := fun vol blk _ priv =>
  ({}, blk, releaseBlock cached vol blk, priv)

/-- The flags `truncate_blocks_proc` raises after releasing data block `blockcnt`:
the first data block below an indirect block says that this indirect block, and
everything after it, is no longer needed. -/
def markIndirect (info : TruncateBlocksInfo) (blockcnt : Int) : TruncateBlocksInfo :=
  let num : Int := info.numInIndirectBlock
  if blockcnt < 12 then info
  else if blockcnt = 12 then
    { info with clearIndirectPtrsFromInode := 1, deleteAll := true }
  else if blockcnt = num + 12 then
    { info with clearIndirectPtrsFromInode := 2, deleteAll := true }
  else if blockcnt > num + 12 then
    let info := if (blockcnt - 12) % num = 0 then { info with deleteSingle := true } else info
    let i := blockcnt - 12 - (num + num * num)
    if i = 0 then { info with clearIndirectPtrsFromInode := 3, deleteAll := true }
    else if i > 0 ∧ i % (num * num) = 0 then { info with deleteAllButTriple := true }
    else info
  else info

/-- Does `truncate_blocks_proc` release an indirect block of the level `blockcnt`? -/
def deletesIndirect (info : TruncateBlocksInfo) (blockcnt : Int) : Bool :=
  if blockcnt = BLOCK_COUNT_IND then
    info.deleteSingle || info.deleteAllButTriple || info.deleteAll
  else if blockcnt = BLOCK_COUNT_DIND then info.deleteAllButTriple || info.deleteAll
  else if blockcnt = BLOCK_COUNT_TIND then info.deleteAll
  else false

/-- `truncate_blocks_proc`. -/
def truncateBlocksProc (cached : Cached) : IterFunc TruncateBlocksInfo :=
  fun vol blk blockcnt info =>
    if blockcnt < 0 then
      if deletesIndirect info blockcnt then
        ({ changed := true }, 0, releaseBlock cached vol blk, info)
      else ({}, blk, vol, { info with totalNumBlocks := info.totalNumBlocks + 1 })
    else if blockcnt > info.lastBlockToKeep then
      ({ changed := true }, 0, releaseBlock cached vol blk, markIndirect info blockcnt)
    else ({}, blk, vol, { info with totalNumBlocks := info.totalNumBlocks + 1 })

/-- The truncating callback leaves the superblock. -/
theorem truncateBlocksProc_super (cached : Cached) (vol : Volume) (blk : Nat) (blockcnt : Int)
    (info : TruncateBlocksInfo) :
    (truncateBlocksProc cached vol blk blockcnt info).2.2.1.super = vol.super := by
  simp only [truncateBlocksProc]
  split
  · split <;> rfl
  · split <;> rfl

/-- The calls the handlers make, with the type of their response; `super` and `superBlock` are looks
at `fs->super`, and `malloc` and `realloc` say whether there was memory. -/
inductive LibCall (δ : Type) : Type → Type where
  | time : LibCall δ Nat
  | readInode (ino : Nat) : LibCall δ (Except Errcode Inode)
  | writeInode (ino : Nat) (inode : Inode) : LibCall δ Errcode
  | writeNewInode (ino : Nat) (inode : Inode) : LibCall δ Errcode
  | newInode (dir : Nat) : LibCall δ (Except Errcode Nat)
  | inodeAllocStats2 (ino : Nat) (inuse isdir : Bool) : LibCall δ Unit
  | unmarkInodeBitmap (ino : Nat) : LibCall δ Unit
  | newBlock (goal : Nat) : LibCall δ (Except Errcode Nat)
  | blockAllocStats (blk : Nat) (inuse : Bool) : LibCall δ Unit
  | newDirBlock (ino parent : Nat) : LibCall δ (Except Errcode δ)
  | writeDirBlock (ino blk : Nat) (contents : δ) : LibCall δ Errcode
  | lookup (dir : Nat) (name : Name) : LibCall δ (Except Errcode Nat)
  | namei (dir : Nat) (name : Name) : LibCall δ (Except Errcode Nat)
  | dirIterate (dir : Nat) : LibCall δ (Errcode × List Dirent)
  | link (dir : Nat) (name : Name) (ino flags : Nat) : LibCall δ Errcode
  | unlink (dir : Nat) (name : Name) (ino : Nat) : LibCall δ Errcode
  | expandDir (dir : Nat) : LibCall δ Errcode
  | blockIterateRelease (ino : Nat) : LibCall δ Errcode
  | blockIterateTruncate (ino : Nat) (info : TruncateBlocksInfo) :
      LibCall δ (Errcode × TruncateBlocksInfo)
  | super : LibCall δ Super
  | superBlock : LibCall δ SuperBlock
  | fileOpen (ino : Nat) (writable : Bool) : LibCall δ (Except Errcode File)
  | fileRead (file : File) (wanted : Nat) : LibCall δ (Errcode × List UInt8 × File)
  | fileWrite (file : File) (data : List UInt8) : LibCall δ (Errcode × Nat × File)
  | fileFlush (file : File) : LibCall δ (Errcode × File)
  | flush : LibCall δ Errcode
  | malloc (size : Nat) : LibCall δ Bool
  | realloc (size : Nat) : LibCall δ Bool

/-- The programs of the handlers. -/
abbrev Prog (δ : Type) := Program (LibCall δ)

namespace Fs

variable {δ : Type}

/-- The clock advances to its next reading. -/
def advance (fs : Fs δ) : Fs δ := { fs with vol := { fs.vol with tick := fs.vol.tick + 1 } }

/-- What each call responds and does. What `ext2fs_flush` writes out is part of the
filesystem already, and memory does not run out. -/
def exec (env : Env δ) : {β : Type} → LibCall δ β → Fs δ → β × Fs δ
  | _, .time, fs => (env.time fs.vol.tick, fs.advance)
  | _, .readInode ino, fs => (fs.ext2fsReadInode ino, fs)
  | _, .writeInode ino inode, fs => fs.ext2fsWriteInode ino inode
  | _, .writeNewInode ino inode, fs => fs.ext2fsWriteInode ino inode
  | _, .newInode dir, fs => (fs.ext2fsNewInode dir, fs)
  | _, .inodeAllocStats2 ino inuse isdir, fs => ((), fs.ext2fsInodeAllocStats2 ino inuse isdir)
  | _, .unmarkInodeBitmap ino, fs => ((), fs.ext2fsUnmarkInodeBitmap ino)
  | _, .newBlock goal, fs => (fs.vol.ext2fsNewBlock goal, fs)
  | _, .blockAllocStats blk inuse, fs =>
      ((), { fs with vol := fs.vol.ext2fsBlockAllocStats blk inuse })
  | _, .newDirBlock ino parent, fs =>
      (.ok (env.dir.newDirBlock ino parent (if fs.super.filetype then EXT2_FT_DIR else 0)), fs)
  | _, .writeDirBlock ino _ contents, fs =>
      (0, { fs with dirs := Function.update fs.dirs ino contents })
  | _, .lookup dir name, fs => (fs.ext2fsLookup env dir name, fs)
  | _, .namei dir name, fs => (fs.ext2fsLookup env dir name, fs)
  | _, .dirIterate dir, fs => (fs.ext2fsDirIterate env dir, fs)
  | _, .link dir name ino flags, fs => fs.ext2fsLink env dir name ino flags
  | _, .unlink dir name ino, fs => fs.ext2fsUnlink env dir name ino
  | _, .expandDir dir, fs => fs.ext2fsExpandDir env dir
  | _, .blockIterateRelease ino, fs =>
      let (rc, _, fs) := fs.ext2fsBlockIterate ino {} (releaseBlocksProc env.cached) ()
      (rc, fs)
  | _, .blockIterateTruncate ino info, fs =>
      let (rc, info, fs) := fs.ext2fsBlockIterate ino { depthTraverse := true }
        (truncateBlocksProc env.cached) info
      ((rc, info), fs)
  | _, .super, fs => (fs.super, fs)
  | _, .superBlock, fs =>
      ({ env.superBlock with
        sFreeBlocksCount := UInt32.ofNat fs.vol.sFreeBlocksCount
        sFreeInodesCount := UInt32.ofNat fs.sFreeInodesCount }, fs)
  | _, .fileOpen ino writable, fs => (fs.ext2fsFileOpen ino writable, fs)
  | _, .fileRead file wanted, fs =>
      let (rc, got, file, fs) := fs.ext2fsFileRead file wanted
      ((rc, got, file), fs)
  | _, .fileWrite file data, fs =>
      let (rc, written, file, fs) := fs.ext2fsFileWrite file data
      ((rc, written, file), fs)
  | _, .fileFlush file, fs =>
      let (rc, file, fs) := fs.ext2fsFileFlush file
      ((rc, file), fs)
  | _, .flush, fs => (0, fs)
  | _, .malloc _, fs => (true, fs)
  | _, .realloc _, fs => (true, fs)

/-- The library over an environment. -/
def lib (env : Env δ) : Interp (LibCall δ) (Fs δ) where
  exec := exec env

section Lib

variable (env : Env δ) (fs : Fs δ)

@[simp] theorem lib_time : (lib env).exec .time fs = (env.time fs.vol.tick, fs.advance) := rfl

@[simp] theorem lib_super : (lib env).exec .super fs = (fs.super, fs) := rfl

@[simp] theorem lib_readInode (ino : Nat) :
    (lib env).exec (.readInode ino) fs = (fs.ext2fsReadInode ino, fs) := rfl

@[simp] theorem lib_writeInode (ino : Nat) (inode : Inode) :
    (lib env).exec (.writeInode ino inode) fs = fs.ext2fsWriteInode ino inode := rfl

@[simp] theorem lib_fileOpen (ino : Nat) (writable : Bool) :
    (lib env).exec (.fileOpen ino writable) fs = (fs.ext2fsFileOpen ino writable, fs) := rfl

/-- The library's answer to ext2fs_new_inode. -/
theorem lib_newInode (parent : Nat) :
    (lib env).exec (.newInode parent) fs = (fs.ext2fsNewInode parent, fs) := rfl

/-- The library's answer to ext2fs_new_block. -/
theorem lib_newBlock (goal : Nat) :
    (lib env).exec (.newBlock goal) fs = (fs.vol.ext2fsNewBlock goal, fs) := rfl

variable {env fs} {fs' : Fs δ} {file file' : File} {rc : Errcode}

/-- The library's answer to ext2fs_file_read. -/
theorem lib_fileRead {wanted : Nat} {got : List UInt8}
    (outcome : fs.ext2fsFileRead file wanted = (rc, got, file', fs')) :
    (lib env).exec (.fileRead file wanted) fs = ((rc, got, file'), fs') := by
  simp [lib, exec, outcome]

/-- The library's answer to ext2fs_file_write. -/
theorem lib_fileWrite {data : List UInt8} {written : Nat}
    (outcome : fs.ext2fsFileWrite file data = (rc, written, file', fs')) :
    (lib env).exec (.fileWrite file data) fs = ((rc, written, file'), fs') := by
  simp [lib, exec, outcome]

/-- The library's answer to ext2fs_file_flush. -/
theorem lib_fileFlush (outcome : fs.ext2fsFileFlush file = (rc, file', fs')) :
    (lib env).exec (.fileFlush file) fs = ((rc, file'), fs') := by
  simp [lib, exec, outcome]

/-- Truncation changes the volume and the pointers of the inode only. -/
theorem lib_blockIterateTruncate_frame (env : Env δ) (fs : Fs δ) (ino : Nat)
    (info : TruncateBlocksInfo) :
    ∃ vol iBlock, vol.super = fs.vol.super ∧
      ((lib env).exec (.blockIterateTruncate ino info) fs).2 = { fs with
        vol := vol
        inodeTab := Function.update fs.inodeTab ino { fs.inodeTab ino with iBlock := iBlock } } :=
  ext2fsBlockIterate2_frame (fun _ _ _ _ => truncateBlocksProc_super env.cached _ _ _ _) fs ino true
    { depthTraverse := true } info

/-- Releasing the blocks of an inode leaves its pointers as they are. -/
theorem lib_blockIterateRelease_frame (env : Env δ) (fs : Fs δ) (ino : Nat) :
    ((lib env).exec (.blockIterateRelease ino) fs).2.super = fs.super ∧
      ((lib env).exec (.blockIterateRelease ino) fs).2.inodeTab = fs.inodeTab := by
  have keeps : ∀ (vol : Volume) (blk : Nat) (count : Int) (priv : Unit),
      (releaseBlocksProc env.cached vol blk (toInt32 count) priv).2.2.1.super = vol.super :=
    fun _ _ _ _ => rfl
  obtain ⟨vol, iBlock, super, iterated⟩ := ext2fsBlockIterate2_frame keeps fs ino true {} ()
  refine ⟨?_, ext2fsBlockIterate2_unchanged (fun _ _ _ _ => rfl) fs ino true {} ()⟩
  change (ext2fsBlockIterate2 fs ino true {} _ ()).2.2.super = _
  rw [iterated]
  exact super

/-- Nor does it write to a directory, or to the inode bitmap. -/
theorem lib_blockIterateRelease_kept (env : Env δ) (fs : Fs δ) (ino : Nat) :
    ((lib env).exec (.blockIterateRelease ino) fs).2.dirs = fs.dirs ∧
      ((lib env).exec (.blockIterateRelease ino) fs).2.inodeMap = fs.inodeMap := by
  have keeps : ∀ (vol : Volume) (blk : Nat) (count : Int) (priv : Unit),
      (releaseBlocksProc env.cached vol blk (toInt32 count) priv).2.2.1.super = vol.super :=
    fun _ _ _ _ => rfl
  obtain ⟨vol, iBlock, super, iterated⟩ := ext2fsBlockIterate2_frame keeps fs ino true {} ()
  change (ext2fsBlockIterate2 fs ino true {} _ ()).2.2.dirs = _ ∧
    (ext2fsBlockIterate2 fs ino true {} _ ()).2.2.inodeMap = _
  rw [iterated]
  exact ⟨rfl, rfl⟩

/-- It is a change of the volume. -/
theorem lib_blockIterateRelease_eq (env : Env δ) (fs : Fs δ) (ino : Nat) :
    ∃ vol, vol.super = fs.vol.super ∧
      ((lib env).exec (.blockIterateRelease ino) fs).2 = { fs with vol := vol } := by
  have keeps : ∀ (vol : Volume) (blk : Nat) (count : Int) (priv : Unit),
      (releaseBlocksProc env.cached vol blk (toInt32 count) priv).2.2.1.super = vol.super :=
    fun _ _ _ _ => rfl
  obtain ⟨vol, iBlock, super, iterated⟩ := ext2fsBlockIterate2_frame keeps fs ino true {} ()
  have quiet : ∀ (vol : Volume) (blk : Nat) (count : Int) (priv : Unit),
      (releaseBlocksProc env.cached vol blk (toInt32 count) priv).1.changed = false :=
    fun _ _ _ _ => rfl
  have inodes := ext2fsBlockIterate2_unchanged quiet fs ino true {} ()
  refine ⟨vol, super, ?_⟩
  change (ext2fsBlockIterate2 fs ino true {} _ ()).2.2 = _
  rw [iterated] at inodes ⊢
  change Function.update fs.inodeTab ino _ = fs.inodeTab at inodes
  rw [inodes]

end Lib

end Fs

end Ext2Fuse
