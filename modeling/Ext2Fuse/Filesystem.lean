import Ext2Fuse.Superblock
import Ext2Fuse.BlockMap
import Ext2Fuse.BlockIterate

/-!
# The mounted filesystem

The state `ext2_filsys` gives access to: the volume, the inode table, the inode
bitmap and the directories. How a directory keeps its entries is a parameter, a
`DirLib`: the handlers only reach directories through it, so they can be read over
the contract of the directory primitives (`DirLib.Lawful`) as well as over the
records in directory blocks.
-/

namespace Ext2Fuse

open Lib Volume

/-- The directory primitives of `link.c`, `unlink.c`, `lookup.c`, `newdir.c` and
`dir_iterate.c` over one representation `δ` of a directory's contents. -/
structure DirLib (δ : Type) where
  /-- The live entries, in directory order. -/
  entries : δ → List Dirent
  /-- `ext2fs_dir_iterate` without flags: its return code and the entries it visits. -/
  iterate : δ → Errcode × List Dirent
  /-- `ext2fs_lookup`. -/
  lookup : δ → Name → Except Errcode Nat
  /-- `ext2fs_link` of a name, an inode number and a file type. -/
  link : δ → Name → Nat → Nat → Errcode × δ
  /-- `ext2fs_unlink` of a name and an inode number, 0 for any. -/
  unlink : δ → Name → Nat → Errcode × δ
  /-- The empty block `ext2fs_expand_dir` appends. -/
  expand : δ → δ
  /-- `ext2fs_new_dir_block`: the entries `.` and `..`. -/
  newDirBlock : Nat → Nat → Nat → δ

/-- Does an entry match a name and, when it is not 0, an inode number? -/
def Dirent.matchesEntry (name : Name) (ino : Nat) (entry : Dirent) : Bool :=
  entry.name == name && (ino == 0 || entry.inode == ino)

/-- The contract of the directory primitives. -/
structure DirLib.Lawful {δ : Type} (dir : DirLib δ) : Prop where
  iterate_eq : ∀ d, dir.iterate d = (0, dir.entries d)
  lookup_eq : ∀ d name, dir.lookup d name =
    match (dir.entries d).find? (fun entry => entry.name == name) with
    | some entry => .ok entry.inode
    | none => .error EXT2_ET_FILE_NOT_FOUND
  /-- One entry is added somewhere, or there is no space and nothing changes. -/
  link_spec : ∀ d name ino fileType,
    ((dir.link d name ino fileType).1 = 0 ∧ ∃ before after, dir.entries d = before ++ after ∧
      dir.entries (dir.link d name ino fileType).2 = before ++ ⟨name, ino, fileType⟩ :: after) ∨
    ((dir.link d name ino fileType).1 = EXT2_ET_DIR_NO_SPACE ∧
      dir.entries (dir.link d name ino fileType).2 = dir.entries d)
  /-- The first matching entry is removed; it is an error if there is none. -/
  unlink_entries : ∀ d name ino, dir.entries (dir.unlink d name ino).2 =
    (dir.entries d).eraseP (Dirent.matchesEntry name ino)
  unlink_rc : ∀ d name ino, (dir.unlink d name ino).1 =
    if (dir.entries d).any (Dirent.matchesEntry name ino) then 0 else EXT2_ET_DIR_NO_SPACE
  expand_entries : ∀ d, dir.entries (dir.expand d) = dir.entries d
  newDirBlock_entries : ∀ ino parent fileType, dir.entries (dir.newDirBlock ino parent fileType) =
    [⟨dotName, ino, fileType⟩, ⟨dotDotName, parent, fileType⟩]

/-- The directory primitives over plain lists, with room for every entry. -/
def listDir : DirLib (List Dirent) where
  entries := id
  iterate dir := (0, dir)
  lookup dir name :=
    match dir.find? (fun entry => entry.name == name) with
    | some entry => .ok entry.inode
    | none => .error EXT2_ET_FILE_NOT_FOUND
  link dir name ino fileType := (0, dir ++ [⟨name, ino, fileType⟩])
  unlink dir name ino :=
    (if dir.any (Dirent.matchesEntry name ino) then 0 else EXT2_ET_DIR_NO_SPACE,
      dir.eraseP (Dirent.matchesEntry name ino))
  expand := id
  newDirBlock ino parent fileType := [⟨dotName, ino, fileType⟩, ⟨dotDotName, parent, fileType⟩]

theorem listDir_lawful : listDir.Lawful where
  iterate_eq _ := rfl
  lookup_eq _ _ := rfl
  link_spec dir name ino fileType := .inl ⟨rfl, dir, [], by simp [listDir], rfl⟩
  unlink_entries _ _ _ := rfl
  unlink_rc _ _ _ := rfl
  expand_entries _ := rfl
  newDirBlock_entries _ _ _ := rfl

/-- What the code meets outside the filesystem: the directory primitives, the
readings of the clock, and which blocks are in the I/O channel's cache. -/
structure Env (δ : Type) where
  dir : DirLib δ
  time : Nat → Nat
  cached : Cached
  /-- The superblock as it was mounted. -/
  superBlock : SuperBlock := {}

/-- Lists as directories, a clock that stands still and a cache that holds every block. -/
def listEnv : Env (List Dirent) where
  dir := listDir
  time _ := 0
  cached _ _ := true

/-- `ext2_filsys`. -/
structure Fs (δ : Type) where
  vol : Volume
  inodeTab : Nat → Inode
  inodeMap : Nat → Bool
  sFreeInodesCount : Nat
  bgFreeInodesCount : Nat → Nat
  bgUsedDirsCount : Nat → Nat
  /-- The contents of the directory with this inode number. -/
  dirs : Nat → δ

/-- A volume of 64 blocks with a root directory and two empty files, 11 and 12. -/
def twoFiles : Fs (List Dirent) where
  vol :=
    { super :=
        { sLogBlockSize := 0
          sInodesCount := 16
          sBlocksCount := 64
          sFirstDataBlock := 1
          sFirstIno := 11
          sInodesPerGroup := 16
          sBlocksPerGroup := 64
          filetype := true }
      blockMap := fun blk => decide (blk < 20)
      sFreeBlocksCount := 44
      bgFreeBlocksCount := fun _ => 44
      io := fun _ _ => 0
      tick := 0 }
  inodeTab ino :=
    if ino = 2 then
      { iMode := LINUX_S_IFDIR ||| 0o755, iLinksCount := 2, iSize := 1024
        iBlock := Function.update (fun _ => 0) 0 19 }
    else if ino = 11 ∨ ino = 12 then { iMode := LINUX_S_IFREG ||| 0o644, iLinksCount := 1 }
    else {}
  inodeMap ino := decide (ino < 13)
  sFreeInodesCount := 4
  bgFreeInodesCount _ := 4
  bgUsedDirsCount _ := 1
  dirs ino :=
    if ino = 2 then
      [⟨dotName, 2, EXT2_FT_DIR⟩, ⟨dotDotName, 2, EXT2_FT_DIR⟩, ⟨[0x61], 11, EXT2_FT_REG_FILE⟩,
        ⟨[0x62], 12, EXT2_FT_REG_FILE⟩]
    else []

namespace Fs

variable {δ : Type}

/-- `fs->super`. -/
def super (fs : Fs δ) : Super := fs.vol.super

/-- `fs->blocksize`. -/
def blocksize (fs : Fs δ) : Nat := fs.super.blocksize

/-- The inode numbers the inode table has. -/
def validIno (fs : Fs δ) (ino : Nat) : Bool :=
  decide (0 < ino) && decide (ino ≤ fs.super.sInodesCount)

theorem validIno_congr {fs fs' : Fs δ} (same : fs'.super = fs.super) (ino : Nat) :
    fs'.validIno ino = fs.validIno ino := by
  simp only [validIno, same]

/-- `ext2fs_read_inode`. -/
def ext2fsReadInode (fs : Fs δ) (ino : Nat) : Except Errcode Inode :=
  if fs.validIno ino then .ok (fs.inodeTab ino) else .error EXT2_ET_BAD_INODE_NUM

/-- `ext2fs_write_inode`, and `ext2fs_write_new_inode`. -/
def ext2fsWriteInode (fs : Fs δ) (ino : Nat) (inode : Inode) : Errcode × Fs δ :=
  if fs.validIno ino then (0, { fs with inodeTab := Function.update fs.inodeTab ino inode })
  else (EXT2_ET_BAD_INODE_NUM, fs)

/-- `ext2fs_group_of_ino`. -/
def ext2fsGroupOfIno (fs : Fs δ) (ino : Nat) : Nat := (ino - 1) / fs.super.sInodesPerGroup

/-- `ext2fs_new_inode`: the first free inode from the group of the parent on. -/
def ext2fsNewInode (fs : Fs δ) (dir : Nat) : Except Errcode Nat :=
  let dirGroup := if 0 < dir then (dir - 1) / fs.super.sInodesPerGroup else 0
  let startInode := max (dirGroup * fs.super.sInodesPerGroup + 1) fs.super.sFirstIno
  match (searchOrder fs.super.sFirstIno (fs.super.sInodesCount + 1) startInode).find?
      (fun ino => !fs.inodeMap ino) with
  | some ino => .ok ino
  | none => .error EXT2_ET_INODE_ALLOC_FAIL

/-- `ext2fs_inode_alloc_stats2` with `inuse` +1 (`true`) or -1 (`false`). -/
def ext2fsInodeAllocStats2 (fs : Fs δ) (ino : Nat) (inuse isdir : Bool) : Fs δ :=
  let group := fs.ext2fsGroupOfIno ino
  { fs with
    inodeMap := if fs.validIno ino then Function.update fs.inodeMap ino inuse else fs.inodeMap
    bgFreeInodesCount := Function.update fs.bgFreeInodesCount group
      ((fs.bgFreeInodesCount group + (if inuse then 2 ^ 16 - 1 else 1)) % 2 ^ 16)
    bgUsedDirsCount := if isdir then Function.update fs.bgUsedDirsCount group
        ((fs.bgUsedDirsCount group + (if inuse then 1 else 2 ^ 16 - 1)) % 2 ^ 16)
      else fs.bgUsedDirsCount
    sFreeInodesCount := (fs.sFreeInodesCount + (if inuse then 2 ^ 32 - 1 else 1)) % 2 ^ 32 }

/-- `ext2fs_unmark_inode_bitmap`. -/
def ext2fsUnmarkInodeBitmap (fs : Fs δ) (ino : Nat) : Fs δ :=
  { fs with
    inodeMap := if fs.validIno ino then Function.update fs.inodeMap ino false else fs.inodeMap }

/-- `ext2fs_check_directory`. -/
def ext2fsCheckDirectory (fs : Fs δ) (ino : Nat) : Errcode :=
  match fs.ext2fsReadInode ino with
  | .error rc => rc
  | .ok inode => if LINUX_S_ISDIR inode.iMode then 0 else EXT2_ET_NO_DIRECTORY

/-- `ext2fs_bmap` over the caller's copy of the inode: map `block`, allocating when
asked to, and write the copy back when blocks were allocated. Returns the block, the
copy and the filesystem. -/
def ext2fsBmap (fs : Fs δ) (ino : Nat) (inode : Inode) (alloc : Bool) (block : Nat) :
    Except Errcode Nat × Inode × Fs δ :=
  match fs.vol.bmapBlocks inode.iBlock alloc block with
  | (.error rc, iBlock, vol) => (.error rc, { inode with iBlock := iBlock }, { fs with vol := vol })
  | (.ok (blk, allocated), iBlock, vol) =>
      let inode := { inode with iBlock := iBlock }
      let fs := { fs with vol := vol }
      if allocated = 0 then (.ok blk, inode, fs)
      else
        let inode := { inode with
          iBlocks := (inode.iBlocks + allocated * fs.blocksize / 512) % 2 ^ 32 }
        match fs.ext2fsWriteInode ino inode with
        | (0, fs) => (.ok blk, inode, fs)
        | (rc, fs) => (.error rc, inode, fs)

/-- ext2fs_bmap fails for want of a block or for a bad inode number. -/
theorem ext2fsBmap_code {fs fs' : Fs δ} {ino block : Nat} {inode inode' : Inode} {alloc : Bool}
    {rc : Errcode} (outcome : fs.ext2fsBmap ino inode alloc block = (.error rc, inode', fs')) :
    rc = EXT2_ET_BLOCK_ALLOC_FAIL ∨ rc = EXT2_ET_BAD_INODE_NUM := by
  simp only [ext2fsBmap] at outcome
  split at outcome
  · rename_i failed
    cases outcome
    exact .inl (bmapBlocks_error failed)
  · split at outcome
    · cases outcome
    · simp only [ext2fsWriteInode] at outcome
      split at outcome
      · cases outcome
      · rename_i notZero wrote
        split at wrote
        · cases wrote
          exact absurd rfl notZero
        · cases wrote
          cases outcome
          exact .inr rfl

theorem ext2fsBmap_error {fs fs' : Fs δ} {ino block : Nat} {inode inode' : Inode} {alloc : Bool}
    {rc : Errcode} (outcome : fs.ext2fsBmap ino inode alloc block = (.error rc, inode', fs')) :
    rc ≠ 0 := by
  rcases ext2fsBmap_code outcome with rfl | rfl <;> decide

/-- `ext2fs_block_iterate2`: read the pointers of the inode, iterate, and write them
back when the callback changed one. `noLarge` is the flag `ext2fs_block_iterate`
adds. -/
def ext2fsBlockIterate2 {ρ : Type} (fs : Fs δ) (ino : Nat) (noLarge : Bool) (mode : IterMode)
    (func : IterFunc ρ) (priv : ρ) : Errcode × ρ × Fs δ :=
  match fs.ext2fsReadInode ino with
  | .error rc => (rc, priv, fs)
  | .ok inode =>
      if noLarge && !LINUX_S_ISDIR inode.iMode && inode.iSizeHigh != 0 then
        (EXT2_ET_FILE_TOO_BIG, priv, fs)
      else
        let top := fs.vol.iterateBlocks mode func inode.iBlock priv
        let fs := { fs with vol := top.ctx.vol }
        if top.ret.changed then
          let (rc, fs) := fs.ext2fsWriteInode ino { inode with iBlock := top.blocks }
          (rc, top.ctx.priv, fs)
        else (0, top.ctx.priv, fs)

/-- An iteration changes the volume and the pointers of the inode only. -/
theorem ext2fsBlockIterate2_frame {ρ : Type} {func : IterFunc ρ}
    (keeps : ∀ vol blk count priv, (func vol blk count priv).2.2.1.super = vol.super) (fs : Fs δ)
    (ino : Nat) (noLarge : Bool) (mode : IterMode) (priv : ρ) :
    ∃ vol iBlock, vol.super = fs.vol.super ∧
      (fs.ext2fsBlockIterate2 ino noLarge mode func priv).2.2 = { fs with
        vol := vol
        inodeTab := Function.update fs.inodeTab ino
          { fs.inodeTab ino with iBlock := iBlock } } := by
  have same : fs = { fs with
      inodeTab := Function.update fs.inodeTab ino
        { fs.inodeTab ino with iBlock := (fs.inodeTab ino).iBlock } } := by simp
  simp only [ext2fsBlockIterate2, ext2fsReadInode]
  by_cases valid : fs.validIno ino = true
  · simp only [valid, if_true]
    have super : (iterateBlocks mode func fs.vol (fs.inodeTab ino).iBlock priv).ctx.vol.super =
        fs.vol.super :=
      @iterateBlocks_keeps ρ mode func (fun vol _ => vol.super = fs.vol.super)
        (fun vol blk count priv same => (keeps vol blk count priv).trans same)
        (fun _ _ _ _ same => same) fs.vol _ priv rfl
    generalize iterateBlocks mode func fs.vol (fs.inodeTab ino).iBlock priv = top at super ⊢
    have validLater : ({ fs with vol := top.ctx.vol } : Fs δ).validIno ino = true := by
      rw [validIno_congr (by exact super) ino]
      exact valid
    split
    · exact ⟨fs.vol, _, rfl, same⟩
    · split
      · simp only [ext2fsWriteInode, validLater, if_true]
        exact ⟨_, _, super, rfl⟩
      · refine ⟨top.ctx.vol, (fs.inodeTab ino).iBlock, super, ?_⟩
        simp
  · simp only [valid]
    exact ⟨fs.vol, _, rfl, same⟩

/-- With a callback that changes no pointer, the inode is not written. -/
theorem ext2fsBlockIterate2_unchanged {ρ : Type} {func : IterFunc ρ}
    (quiet : ∀ vol blk count priv, (func vol blk count priv).1.changed = false) (fs : Fs δ)
    (ino : Nat) (noLarge : Bool) (mode : IterMode) (priv : ρ) :
    (fs.ext2fsBlockIterate2 ino noLarge mode func priv).2.2.inodeTab = fs.inodeTab := by
  simp only [ext2fsBlockIterate2]
  split
  · rfl
  · split
    · rfl
    · rw [if_neg (by simp [iterateBlocks_unchanged quiet])]

/-- The conversion of a block count to `int` in `xlate_func`. -/
def toInt32 (count : Int) : Int := (count + 2 ^ 31) % 2 ^ 32 - 2 ^ 31

/-- `ext2fs_block_iterate`: the old interface, which refuses files of 4 GiB and more
and passes the callback an `int`. -/
def ext2fsBlockIterate {ρ : Type} (fs : Fs δ) (ino : Nat) (mode : IterMode) (func : IterFunc ρ)
    (priv : ρ) : Errcode × ρ × Fs δ :=
  fs.ext2fsBlockIterate2 ino true mode (fun vol blk count => func vol blk (toInt32 count)) priv

/-- `ext2fs_lookup`, and `ext2fs_namei` of a name that is a single path component. -/
def ext2fsLookup (env : Env δ) (fs : Fs δ) (dir : Nat) (name : Name) : Except Errcode Nat :=
  if fs.ext2fsCheckDirectory dir = 0 then env.dir.lookup (fs.dirs dir) name
  else .error (fs.ext2fsCheckDirectory dir)

/-- `ext2fs_dir_iterate` with no flags: the entries handed to the callback. -/
def ext2fsDirIterate (env : Env δ) (fs : Fs δ) (dir : Nat) : Errcode × List Dirent :=
  if fs.ext2fsCheckDirectory dir = 0 then env.dir.iterate (fs.dirs dir)
  else (fs.ext2fsCheckDirectory dir, [])

/-- `ext2fs_link`: add the entry, then drop the hash-index flag of the directory. -/
def ext2fsLink (env : Env δ) (fs : Fs δ) (dir : Nat) (name : Name) (ino flags : Nat) :
    Errcode × Fs δ :=
  if fs.ext2fsCheckDirectory dir = 0 then
    let fileType := if fs.super.filetype then flags % 8 else 0
    let (rc, contents) := env.dir.link (fs.dirs dir) name ino fileType
    let fs := { fs with dirs := Function.update fs.dirs dir contents }
    if rc ≠ 0 then (rc, fs)
    else
      let inode := fs.inodeTab dir
      if inode.iFlags &&& EXT2_INDEX_FL ≠ 0 then
        fs.ext2fsWriteInode dir { inode with iFlags := inode.iFlags - EXT2_INDEX_FL }
      else (0, fs)
  else (fs.ext2fsCheckDirectory dir, fs)

/-- The type that `ext2fs_link` records. -/
def recordedType (fs : Fs δ) (flags : Nat) : Nat := if fs.super.filetype then flags % 8 else 0

theorem checkDirectory_eq_zero {fs : Fs δ} {dir : Nat} (valid : fs.validIno dir = true)
    (isDir : LINUX_S_ISDIR (fs.inodeTab dir).iMode = true) : fs.ext2fsCheckDirectory dir = 0 := by
  rw [ext2fsCheckDirectory, ext2fsReadInode, if_pos valid]
  dsimp only
  rw [if_pos isDir]

/-- What `ext2fs_check_directory` has looked at. -/
theorem ext2fsCheckDirectory_ok {fs : Fs δ} {dir : Nat}
    (checked : fs.ext2fsCheckDirectory dir = 0) :
    fs.validIno dir = true ∧ LINUX_S_ISDIR (fs.inodeTab dir).iMode = true := by
  rw [ext2fsCheckDirectory, ext2fsReadInode] at checked
  cases valid : fs.validIno dir
  · simp [valid, EXT2_ET_BAD_INODE_NUM] at checked
  · simpa [valid, EXT2_ET_NO_DIRECTORY] using checked

/-- What `ext2fs_check_directory` says. -/
theorem ext2fsCheckDirectory_code (fs : Fs δ) (dir : Nat) : fs.ext2fsCheckDirectory dir = 0 ∨
    fs.ext2fsCheckDirectory dir = EXT2_ET_BAD_INODE_NUM ∨ fs.ext2fsCheckDirectory dir =
      EXT2_ET_NO_DIRECTORY := by
  simp only [ext2fsCheckDirectory, ext2fsReadInode]
  by_cases valid : fs.validIno dir = true
  · by_cases isDir : LINUX_S_ISDIR (fs.inodeTab dir).iMode = true
    · simp [valid, isDir]
    · simp [valid, isDir]
  · simp [valid]

/-- In a directory `ext2fs_link` does what the directory primitive does, and drops the hash-index
flag if that has succeeded. -/
theorem ext2fsLink_eq {env : Env δ} {fs : Fs δ} {dir : Nat}
    (checked : fs.ext2fsCheckDirectory dir = 0) (name : Name) (ino flags : Nat) :
    let linked := env.dir.link (fs.dirs dir) name ino (if fs.super.filetype then flags % 8 else 0)
    fs.ext2fsLink env dir name ino flags = (linked.1, { fs with
      dirs := Function.update fs.dirs dir linked.2
      inodeTab := if linked.1 = 0 then Function.update fs.inodeTab dir (fs.inodeTab dir).unindexed
        else fs.inodeTab }) := by
  intro linked
  obtain ⟨valid, -⟩ := ext2fsCheckDirectory_ok checked
  have same : ∀ dirs, ({ fs with dirs := dirs } : Fs δ).validIno dir = true := fun _ => valid
  unfold ext2fsLink
  rw [if_pos checked]
  by_cases failed : linked.1 ≠ 0
  · rw [if_neg failed]
    exact if_pos failed
  · have done : linked.1 = 0 := not_not.mp failed
    rw [done, if_pos rfl, Inode.unindexed]
    refine (if_neg failed).trans ?_
    dsimp only
    split
    · rw [ext2fsWriteInode, if_pos (same _)]
    · rw [Function.update_eq_self]

/-- `ext2fs_unlink`. -/
def ext2fsUnlink (env : Env δ) (fs : Fs δ) (dir : Nat) (name : Name) (ino : Nat) :
    Errcode × Fs δ :=
  if fs.ext2fsCheckDirectory dir = 0 then
    let (rc, contents) := env.dir.unlink (fs.dirs dir) name ino
    (rc, { fs with dirs := Function.update fs.dirs dir contents })
  else (fs.ext2fsCheckDirectory dir, fs)

/-- `struct expand_dir_struct`, with the callback's static `last_blk`. -/
structure ExpandDir where
  done : Bool := false
  newblocks : Nat := 0
  err : Errcode := 0
  lastBlk : Nat := 0

/-- `expand_dir_proc`: skip the blocks the directory has; put a new block at the
first missing pointer, and go on through indirect blocks to a data block. -/
def expandDirProc : IterFunc ExpandDir := fun vol blk blockcnt es =>
  if blk ≠ 0 then ({}, blk, vol, { es with lastBlk := blk })
  else
    match vol.ext2fsNewBlock es.lastBlk with
    | .error rc => ({ abort := true }, blk, vol, { es with err := rc })
    | .ok new =>
        let done := decide (0 < blockcnt)
        let vol := (vol.writeBlk new fun _ => 0).ext2fsBlockAllocStats new true
        ({ changed := true, abort := done }, new, vol,
          { es with done := done, newblocks := es.newblocks + 1 })

theorem expandDirProc_super (vol : Volume) (blk : Nat) (blockcnt : Int) (es : ExpandDir) :
    (expandDirProc vol blk blockcnt es).2.2.1.super = vol.super := by
  simp only [expandDirProc]
  split
  · rfl
  · split <;> rfl

/-- `ext2fs_expand_dir`. -/
def ext2fsExpandDir (env : Env δ) (fs : Fs δ) (dir : Nat) : Errcode × Fs δ :=
  if fs.ext2fsCheckDirectory dir = 0 then
    let (_, es, fs) := fs.ext2fsBlockIterate2 dir false { append := true } expandDirProc {}
    if es.err ≠ 0 then (es.err, fs)
    else if !es.done then (EXT2_ET_EXPAND_DIR_ERR, fs)
    else
      let fs := { fs with dirs := Function.update fs.dirs dir (env.dir.expand (fs.dirs dir)) }
      let inode := fs.inodeTab dir
      fs.ext2fsWriteInode dir { inode with
        iSize := (inode.iSize + fs.blocksize) % 2 ^ 32
        iBlocks := (inode.iBlocks + fs.blocksize / 512 * es.newblocks) % 2 ^ 32 }
  else (fs.ext2fsCheckDirectory dir, fs)

/-- Expanding a directory changes the blocks and the size of its inode, and no other
inode. -/
theorem ext2fsExpandDir_frame (env : Env δ) (fs : Fs δ) (dir other : Nat) :
    (fs.ext2fsExpandDir env dir).2.super = fs.super ∧
      (other ≠ dir → (fs.ext2fsExpandDir env dir).2.inodeTab other = fs.inodeTab other) ∧
      ((fs.ext2fsExpandDir env dir).2.inodeTab other).unsized = (fs.inodeTab other).unsized := by
  obtain ⟨vol, iBlock, super, iterated⟩ := ext2fsBlockIterate2_frame expandDirProc_super fs dir
    false { append := true } {}
  simp only [ext2fsExpandDir]
  generalize fs.ext2fsBlockIterate2 dir false { append := true } expandDirProc {} = outcome
    at iterated ⊢
  have unwritten : outcome.2.2.super = fs.super ∧
      (other ≠ dir → outcome.2.2.inodeTab other = fs.inodeTab other) ∧
      (outcome.2.2.inodeTab other).unsized = (fs.inodeTab other).unsized := by
    rw [iterated]
    refine ⟨super, fun apart => Function.update_of_ne apart _ _, ?_⟩
    by_cases same : other = dir
    · simp [same, Inode.unsized]
    · simp [same]
  split
  · split
    · exact unwritten
    · split
      · exact unwritten
      · simp only [ext2fsWriteInode]
        split
        · obtain ⟨sameSuper, apart, unsized⟩ := unwritten
          refine ⟨sameSuper, fun different => (Function.update_of_ne different _ _).trans
            (apart different), ?_⟩
          rw [← unsized]
          by_cases same : other = dir
          · simp [same, Inode.unsized]
          · simp [same]
        · exact unwritten
  · exact ⟨rfl, fun _ => rfl, rfl⟩

end Fs

end Ext2Fuse
