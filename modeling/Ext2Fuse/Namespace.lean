import Ext2Fuse.Handlers

/-!
# The name space of a filesystem

What the operations on names depend on: the mode and link count of every inode, which
inodes are in use, and the entries of every directory. `Fs.ns` is this view of a
filesystem, and the lemmas here say what each library call does to it. Calls that only
move blocks, and writes of an inode that keep its mode and link count, are not seen at
all.
-/

namespace Ext2Fuse

open Lib Program Volume

/-- The name space, by inode number. -/
@[ext] structure Ns where
  inodesCount : Nat
  mode : Nat → Nat
  links : Nat → Nat
  used : Nat → Bool
  ents : Nat → List Dirent

namespace Ns

/-- The inode table has this number. -/
def valid (ns : Ns) (ino : Nat) : Bool := decide (0 < ino) && decide (ino ≤ ns.inodesCount)

/-- The recorded mode is that of a directory. -/
def isDir (ns : Ns) (ino : Nat) : Bool := LINUX_S_ISDIR (ns.mode ino)

/-- An inode record is written. -/
def setInode (ns : Ns) (ino mode links : Nat) : Ns :=
  { ns with mode := Function.update ns.mode ino mode, links := Function.update ns.links ino links }

/-- A bit of the inode bitmap is set or cleared. -/
def setUsed (ns : Ns) (ino : Nat) (inuse : Bool) : Ns :=
  { ns with used := Function.update ns.used ino inuse }

/-- A directory gets other entries. -/
def setEnts (ns : Ns) (dir : Nat) (ents : List Dirent) : Ns :=
  { ns with ents := Function.update ns.ents dir ents }

/-- A copy of an inode has the mode and the link count on record. -/
def Agrees (ns : Ns) (ino : Nat) (inode : Inode) : Prop :=
  inode.iMode = ns.mode ino ∧ inode.iLinksCount = ns.links ino

@[simp] theorem setInode_self (ns : Ns) (ino : Nat) :
    ns.setInode ino (ns.mode ino) (ns.links ino) = ns := by
  simp [setInode]

@[simp] theorem setEnts_self (ns : Ns) (dir : Nat) : ns.setEnts dir (ns.ents dir) = ns := by
  simp [setEnts]

section Fields

variable (ns : Ns) (ino mode links : Nat) (inuse : Bool) (ents : List Dirent)

@[simp] theorem setInode_inodesCount :
    (ns.setInode ino mode links).inodesCount = ns.inodesCount := rfl
@[simp] theorem setUsed_inodesCount : (ns.setUsed ino inuse).inodesCount = ns.inodesCount := rfl
@[simp] theorem setEnts_inodesCount : (ns.setEnts ino ents).inodesCount = ns.inodesCount := rfl
@[simp] theorem setInode_mode :
    (ns.setInode ino mode links).mode = Function.update ns.mode ino mode := rfl
@[simp] theorem setInode_links :
    (ns.setInode ino mode links).links = Function.update ns.links ino links := rfl
@[simp] theorem setInode_used : (ns.setInode ino mode links).used = ns.used := rfl
@[simp] theorem setInode_ents : (ns.setInode ino mode links).ents = ns.ents := rfl
@[simp] theorem setInode_valid : (ns.setInode ino mode links).valid = ns.valid := rfl
@[simp] theorem setUsed_mode : (ns.setUsed ino inuse).mode = ns.mode := rfl
@[simp] theorem setUsed_links : (ns.setUsed ino inuse).links = ns.links := rfl
@[simp] theorem setUsed_used :
    (ns.setUsed ino inuse).used = Function.update ns.used ino inuse := rfl
@[simp] theorem setUsed_ents : (ns.setUsed ino inuse).ents = ns.ents := rfl
@[simp] theorem setUsed_valid : (ns.setUsed ino inuse).valid = ns.valid := rfl
@[simp] theorem setUsed_isDir : (ns.setUsed ino inuse).isDir = ns.isDir := rfl
@[simp] theorem setEnts_mode : (ns.setEnts ino ents).mode = ns.mode := rfl
@[simp] theorem setEnts_links : (ns.setEnts ino ents).links = ns.links := rfl
@[simp] theorem setEnts_used : (ns.setEnts ino ents).used = ns.used := rfl
@[simp] theorem setEnts_ents :
    (ns.setEnts ino ents).ents = Function.update ns.ents ino ents := rfl
@[simp] theorem setEnts_valid : (ns.setEnts ino ents).valid = ns.valid := rfl
@[simp] theorem setEnts_isDir : (ns.setEnts ino ents).isDir = ns.isDir := rfl

/-- Whether an inode is a directory after one was written. -/
theorem setInode_isDir (other : Nat) : (ns.setInode ino mode links).isDir other =
    if other = ino then LINUX_S_ISDIR mode else ns.isDir other := by
  simp only [isDir, setInode_mode, Function.update_apply]
  split <;> rfl

/-- Writing an inode with the mode it has changes no directory into something else. -/
@[simp] theorem setInode_isDir_of_mode :
    (ns.setInode ino (ns.mode ino) links).isDir = ns.isDir := by
  funext other
  rw [setInode_isDir]
  split
  · rename_i same
    rw [same, isDir]
  · rfl

end Fields

end Ns

namespace Fs

variable {δ : Type} {env : Env δ} {fs : Fs δ} {ino : Nat} {inode : Inode}

/-- The name space of a filesystem. -/
def ns (env : Env δ) (fs : Fs δ) : Ns where
  inodesCount := fs.super.sInodesCount
  mode ino := (fs.inodeTab ino).iMode
  links ino := (fs.inodeTab ino).iLinksCount
  used := fs.inodeMap
  ents dir := env.dir.entries (fs.dirs dir)

/-- The name space has the file system's range of inode numbers. -/
theorem ns_valid (env : Env δ) (fs : Fs δ) : (fs.ns env).valid = fs.validIno := rfl

/-- A number in range is read. -/
theorem readInode_of_valid (valid : (fs.ns env).valid ino = true) :
    fs.ext2fsReadInode ino = .ok (fs.inodeTab ino) := by
  rw [ns_valid] at valid
  simp [ext2fsReadInode, valid]

/-- A directory passes ext2fs_check_directory. -/
theorem checkDirectory_of_isDir (valid : (fs.ns env).valid ino = true)
    (isDir : (fs.ns env).isDir ino = true) : fs.ext2fsCheckDirectory ino = 0 := by
  simp only [ext2fsCheckDirectory, readInode_of_valid valid]
  exact if_pos isDir

/-- A number in range is written. -/
theorem writeInode_rc (valid : (fs.ns env).valid ino = true) :
    (fs.ext2fsWriteInode ino inode).1 = 0 := by
  rw [ns_valid] at valid
  simp [ext2fsWriteInode, valid]

/-- Writing an inode changes mode and link count in the name space. -/
theorem ns_writeInode (valid : (fs.ns env).valid ino = true) :
    (fs.ext2fsWriteInode ino inode).2.ns env =
      (fs.ns env).setInode ino inode.iMode inode.iLinksCount := by
  rw [ns_valid] at valid
  simp only [ext2fsWriteInode, valid, if_true]
  ext other
  · rfl
  · by_cases same : other = ino <;> simp [ns, same]
  · by_cases same : other = ino <;> simp [ns, same]
  · rfl
  · rfl

/-- A copy that agrees with the record may be written at any time. -/
theorem ns_writeInode_of_agrees (agrees : (fs.ns env).Agrees ino inode) :
    (fs.ext2fsWriteInode ino inode).2.ns env = fs.ns env := by
  by_cases valid : (fs.ns env).valid ino = true
  · rw [ns_writeInode valid, agrees.1, agrees.2, Ns.setInode_self]
  · rw [ns_valid] at valid
    simp [ext2fsWriteInode, valid]

/-- Block-level work does not touch the name space. -/
theorem ns_vol {vol : Volume} (super : vol.super = fs.vol.super) :
    ({ fs with vol := vol } : Fs δ).ns env = fs.ns env := by
  simp [ns, Fs.super, super]

/-- A call on a file leaves the name space alone, and the handle's copy of the inode in
agreement with it. -/
structure Quiet (env : Env δ) (fs : Fs δ) (ino : Nat) (fs' : Fs δ) (file : File) : Prop where
  ns_eq : fs'.ns env = fs.ns env
  ino_eq : file.ino = ino
  agrees : (fs.ns env).Agrees ino file.inode

/-- Two quiet steps in a row are quiet. -/
theorem Quiet.trans {fs₁ fs₂ fs₃ : Fs δ} {file₂ file₃ : File}
    (first : Quiet env fs₁ ino fs₂ file₂) (second : Quiet env fs₂ ino fs₃ file₃) :
    Quiet env fs₁ ino fs₃ file₃ where
  ns_eq := second.ns_eq.trans first.ns_eq
  ino_eq := second.ino_eq
  agrees := first.ns_eq ▸ second.agrees

/-- What the next call on the handle starts from. -/
theorem Quiet.next {fs' : Fs δ} {file : File} (quiet : Quiet env fs ino fs' file) :
    (fs'.ns env).Agrees ino file.inode :=
  quiet.ns_eq.symm ▸ quiet.agrees

section Files

variable {file : File}

/-- Mapping a block shows in no name, even where it takes one. -/
theorem ext2fsBmap_quiet (agrees : (fs.ns env).Agrees ino inode) (alloc : Bool) (block : Nat) :
    (fs.ext2fsBmap ino inode alloc block).2.2.ns env = fs.ns env ∧
      (fs.ns env).Agrees ino (fs.ext2fsBmap ino inode alloc block).2.1 := by
  have super := fs.vol.bmapBlocks_super alloc inode.iBlock block
  simp only [ext2fsBmap]
  split
  · rename_i mapped
    rw [mapped] at super
    exact ⟨ns_vol super, agrees⟩
  · rename_i blk allocated iBlock vol mapped
    rw [mapped] at super
    have volume : ({ fs with vol := vol } : Fs δ).ns env = fs.ns env := ns_vol super
    split
    · exact ⟨volume, agrees⟩
    · have written : ∀ (copy : Inode) (result : Errcode × Fs δ),
          ({ fs with vol := vol } : Fs δ).ext2fsWriteInode ino copy = result →
          copy.iMode = inode.iMode → copy.iLinksCount = inode.iLinksCount →
            result.2.ns env = fs.ns env := by
        rintro copy result rfl mode links
        rw [ns_writeInode_of_agrees (by rw [volume]; exact ⟨mode.trans agrees.1,
          links.trans agrees.2⟩), volume]
      split
      all_goals
        rename_i wrote
        exact ⟨written _ _ wrote rfl rfl, agrees⟩

variable (own : file.ino = ino) (agrees : (fs.ns env).Agrees ino file.inode)

include own agrees

/-- Nor does flushing a handle. -/
theorem ext2fsFileFlush_quiet :
    Quiet env fs ino (fs.ext2fsFileFlush file).2.2 (fs.ext2fsFileFlush file).2.1 := by
  simp only [ext2fsFileFlush]
  split
  · exact ⟨rfl, own, agrees⟩
  · split
    · have mapped := ext2fsBmap_quiet agrees (file.ino != 0) file.blockno
      rw [own] at mapped ⊢
      split
      all_goals
        rename_i outcome
        rw [outcome] at mapped
        exact ⟨mapped.1, rfl, mapped.2⟩
    · exact ⟨rfl, own, agrees⟩

/-- Nor does moving its buffer. -/
theorem syncBufferPosition_quiet :
    Quiet env fs ino (fs.syncBufferPosition file).2.2 (fs.syncBufferPosition file).2.1 := by
  have flushed := ext2fsFileFlush_quiet own agrees
  simp only [syncBufferPosition]
  split
  · split
    all_goals
      rename_i outcome
      rw [outcome] at flushed
    · exact ⟨flushed.ns_eq, flushed.ino_eq, flushed.agrees⟩
    · exact flushed
  · exact ⟨rfl, own, agrees⟩

/-- Nor does loading it. -/
theorem loadBuffer_quiet (dontfill : Bool) :
    Quiet env fs ino (fs.loadBuffer file dontfill).2.2 (fs.loadBuffer file dontfill).2.1 := by
  simp only [loadBuffer]
  split
  · exact ⟨rfl, own, agrees⟩
  · have mapped := ext2fsBmap_quiet agrees false file.blockno
    rw [own]
    split
    all_goals
      rename_i outcome
      rw [outcome] at mapped
      exact ⟨mapped.1, rfl, mapped.2⟩

/-- Nor does the loop of ext2fs_file_write. -/
theorem fileWriteLoop_quiet (bound : Nat) (data : List UInt8) (count : Nat) :
    Quiet env fs ino (fs.fileWriteLoop bound file data count).2.2.2
      (fs.fileWriteLoop bound file data count).2.2.1 := by
  induction bound generalizing fs file data count with
  | zero => exact ⟨rfl, own, agrees⟩
  | succ bound inductionHypothesis =>
      simp only [fileWriteLoop]
      split
      · exact ⟨rfl, own, agrees⟩
      · have synced := syncBufferPosition_quiet own agrees
        split
        · rename_i file₁ fs₁ outcome
          rw [outcome] at synced
          have loaded := loadBuffer_quiet synced.ino_eq synced.next
            (min (fs₁.blocksize - file₁.pos % fs₁.blocksize) data.length == fs₁.blocksize)
          split
          · rename_i file₂ fs₂ inner
            rw [inner] at loaded
            refine (synced.trans loaded).trans (inductionHypothesis ?_ ?_ _ _)
            · exact loaded.ino_eq
            · exact loaded.next
          · rename_i inner
            rw [inner] at loaded
            exact synced.trans loaded
        · rename_i outcome
          rw [outcome] at synced
          exact synced

/-- Nor does ext2fs_file_write itself. -/
theorem ext2fsFileWrite_quiet (data : List UInt8) :
    Quiet env fs ino (fs.ext2fsFileWrite file data).2.2.2 (fs.ext2fsFileWrite file data).2.2.1 := by
  simp only [ext2fsFileWrite]
  split
  · exact fileWriteLoop_quiet own agrees _ _ _
  · exact ⟨rfl, own, agrees⟩

end Files

section Directories

variable {dir : Nat} {name : Name}

/-- Other contents of a directory show as other entries. -/
theorem ns_dirs (contents : δ) :
    ({ fs with dirs := Function.update fs.dirs dir contents } : Fs δ).ns env =
      (fs.ns env).setEnts dir (env.dir.entries contents) := by
  ext other
  · rfl
  · rfl
  · rfl
  · rfl
  · by_cases same : other = dir <;> simp [ns, same]

/-- An iteration over blocks is not seen. -/
theorem ns_blockIterate2 {ρ : Type} {func : IterFunc ρ}
    (keeps : ∀ vol blk count priv, (func vol blk count priv).2.2.1.super = vol.super)
    (noLarge : Bool) (mode : IterMode) (priv : ρ) :
    (fs.ext2fsBlockIterate2 ino noLarge mode func priv).2.2.ns env = fs.ns env := by
  obtain ⟨vol, iBlock, super, iterated⟩ := ext2fsBlockIterate2_frame keeps fs ino noLarge mode priv
  rw [iterated]
  ext other
  · simp [ns, Fs.super, super]
  · by_cases same : other = ino <;> simp [ns, same]
  · by_cases same : other = ino <;> simp [ns, same]
  · rfl
  · rfl

variable (lawful : env.dir.Lawful)

include lawful

/-- A new directory block holds no names. -/
theorem ns_expandDir : (fs.ext2fsExpandDir env dir).2.ns env = fs.ns env := by
  have iterated : (fs.ext2fsBlockIterate2 dir false { append :=
    true } expandDirProc {}).2.2.ns env =
      fs.ns env := ns_blockIterate2 expandDirProc_super false { append := true } {}
  simp only [ext2fsExpandDir]
  generalize fs.ext2fsBlockIterate2 dir false { append := true } expandDirProc {} = outcome
    at iterated ⊢
  split
  · split
    · exact iterated
    · split
      · exact iterated
      · have expanded : (outcome.2.2.ns env).setEnts dir
            (env.dir.entries (env.dir.expand (outcome.2.2.dirs dir))) = fs.ns env := by
          rw [lawful.expand_entries, ← iterated]
          exact Ns.setEnts_self _ _
        refine (ns_writeInode_of_agrees ?_).trans ((ns_dirs _).trans expanded)
        exact ⟨rfl, rfl⟩
  · rfl

/-- A link into a directory adds one entry, or finds no space. -/
theorem ext2fsLink_cases (valid : (fs.ns env).valid dir = true)
    (isDir : (fs.ns env).isDir dir = true) (flags : Nat) :
    ((fs.ext2fsLink env dir name ino flags).1 = 0 ∧ ∃ before after fileType,
      (fs.ns env).ents dir = before ++ after ∧
      (fs.ext2fsLink env dir name ino flags).2.ns env =
        (fs.ns env).setEnts dir (before ++ ⟨name, ino, fileType⟩ :: after)) ∨
    ((fs.ext2fsLink env dir name ino flags).1 = EXT2_ET_DIR_NO_SPACE ∧
      (fs.ext2fsLink env dir name ino flags).2.ns env = fs.ns env) := by
  generalize typeEq : (if fs.super.filetype then flags % 8 else 0) = fileType
  have contract := lawful.link_spec (fs.dirs dir) name ino fileType
  rcases outcome : env.dir.link (fs.dirs dir) name ino fileType with ⟨rc, contents⟩
  simp only [outcome] at contract
  simp only [ext2fsLink, checkDirectory_of_isDir valid isDir, if_true, typeEq, outcome]
  obtain ⟨rfl, before, after, split, inserted⟩ | ⟨rfl, same⟩ := contract
  · have linked : ({ fs with dirs := Function.update fs.dirs dir contents } : Fs δ).ns env =
        (fs.ns env).setEnts dir (before ++ ⟨name, ino, fileType⟩ :: after) := by
      rw [ns_dirs]
      exact congrArg _ inserted
    refine .inl ?_
    simp only [ne_eq, not_true_eq_false, if_false]
    split
    · refine ⟨writeInode_rc (by rw [linked]; exact valid), before, after, fileType, split, ?_⟩
      refine (ns_writeInode_of_agrees ?_).trans linked
      exact ⟨rfl, rfl⟩
    · exact ⟨rfl, before, after, fileType, split, linked⟩
  · refine .inr ?_
    rw [if_pos (by decide)]
    refine ⟨rfl, ?_⟩
    rw [ns_dirs]
    refine Eq.trans ?_ (Ns.setEnts_self _ dir)
    exact congrArg _ same

/-- An unlink removes the first matching entry, or reports that there is none. -/
theorem ext2fsUnlink_eq (valid : (fs.ns env).valid dir = true)
    (isDir : (fs.ns env).isDir dir = true) :
    (fs.ext2fsUnlink env dir name ino).1 =
        (if ((fs.ns env).ents dir).any (Dirent.matchesEntry name ino) then 0
          else EXT2_ET_DIR_NO_SPACE) ∧
      (fs.ext2fsUnlink env dir name ino).2.ns env = (fs.ns env).setEnts dir
        (((fs.ns env).ents dir).eraseP (Dirent.matchesEntry name ino)) := by
  simp only [ext2fsUnlink, checkDirectory_of_isDir valid isDir, if_true]
  refine ⟨lawful.unlink_rc _ _ _, ?_⟩
  rw [ns_dirs]
  exact congrArg _ (lawful.unlink_entries _ _ _)

/-- A lookup finds the first entry with the name. -/
theorem ext2fsLookup_eq (valid : (fs.ns env).valid dir = true)
    (isDir : (fs.ns env).isDir dir = true) :
    fs.ext2fsLookup env dir name =
      match ((fs.ns env).ents dir).find? (fun entry => entry.name == name) with
      | some entry => .ok entry.inode
      | none => .error EXT2_ET_FILE_NOT_FOUND := by
  simp only [ext2fsLookup, checkDirectory_of_isDir valid isDir, if_true]
  exact lawful.lookup_eq _ _

/-- The entry a lookup has found. -/
theorem find_of_lookup (valid : (fs.ns env).valid dir = true) (isDir : (fs.ns env).isDir dir = true)
    (resolves : fs.ext2fsLookup env dir name = .ok ino) :
    ∃ entry, ((fs.ns env).ents dir).find? (fun entry => entry.name == name) = some entry ∧
      entry.inode = ino := by
  rw [ext2fsLookup_eq lawful valid isDir] at resolves
  split at resolves
  · rename_i entry found
    exact ⟨entry, found, Except.ok.inj resolves⟩
  · cases resolves

/-- Iterating over a directory gives the entries of the name space. -/
theorem ext2fsDirIterate_eq (valid : (fs.ns env).valid dir = true)
    (isDir : (fs.ns env).isDir dir = true) :
    fs.ext2fsDirIterate env dir = (0, (fs.ns env).ents dir) := by
  simp only [ext2fsDirIterate, checkDirectory_of_isDir valid isDir, if_true]
  exact lawful.iterate_eq _

end Directories

section Inodes

/-- Counting an inode marks it in the name space. -/
theorem ns_inodeAllocStats2 (valid : (fs.ns env).valid ino = true) (inuse isdir : Bool) :
    (fs.ext2fsInodeAllocStats2 ino inuse isdir).ns env = (fs.ns env).setUsed ino inuse := by
  rw [ns_valid] at valid
  simp only [ext2fsInodeAllocStats2, valid, if_true]
  rfl

/-- Clearing an inode's bit marks it free in the name space. -/
theorem ns_unmarkInodeBitmap (valid : (fs.ns env).valid ino = true) :
    (fs.ext2fsUnmarkInodeBitmap ino).ns env = (fs.ns env).setUsed ino false := by
  rw [ns_valid] at valid
  simp only [ext2fsUnmarkInodeBitmap, valid, if_true]
  rfl

/-- The inode number handed out is not in use. -/
theorem ext2fsNewInode_ok {dir : Nat} (found : fs.ext2fsNewInode dir = .ok ino) :
    (fs.ns env).used ino = false := by
  simp only [ext2fsNewInode] at found
  split at found
  · rename_i candidate hit
    cases found
    simpa [ns] using List.find?_some hit
  · cases found

end Inodes

end Fs

end Ext2Fuse
