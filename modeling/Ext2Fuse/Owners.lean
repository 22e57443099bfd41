import Ext2Fuse.Attributes

/-!
# Owners of inodes

No library call looks at the owner of an inode. So hiding the owners of some inodes in a
filesystem commutes with every call, and what a routine does can be seen without them.
-/

namespace Ext2Fuse

open Lib Program Volume

/-- The inode with its owner hidden, or as it is. -/
def Inode.anonymous (hidden : Bool) (inode : Inode) : Inode :=
  { inode with
    iUid := if hidden then 0 else inode.iUid
    iGid := if hidden then 0 else inode.iGid }

/-- A handle with the owner hidden in its copy of the inode. -/
def File.anonymous (hidden : Bool) (file : File) : File :=
  { file with inode := file.inode.anonymous hidden }

namespace Fs

variable {δ : Type}

/-- The filesystem with the owners of the `hidden` inodes left out. -/
def anonymous (hidden : Nat → Bool) (fs : Fs δ) : Fs δ :=
  { fs with inodeTab := fun ino => (fs.inodeTab ino).anonymous (hidden ino) }

variable (hidden : Nat → Bool) (fs : Fs δ)

@[simp] theorem anonymous_blocksize : (fs.anonymous hidden).blocksize = fs.blocksize := rfl

@[simp] theorem anonymous_validIno (ino : Nat) :
    (fs.anonymous hidden).validIno ino = fs.validIno ino := rfl

/-- Hiding owners after writing an inode is writing the hidden one. -/
theorem anonymous_update (ino : Nat) (inode : Inode) :
    Function.update (fs.anonymous hidden).inodeTab ino (inode.anonymous (hidden ino)) =
      fun other => (Function.update fs.inodeTab ino inode other).anonymous (hidden other) := by
  funext other
  by_cases same : other = ino
  · subst same
    simp
  · simp [same, anonymous]

/-- Reading an inode commutes with hiding owners. -/
theorem readInode_anonymous (ino : Nat) :
    (fs.anonymous hidden).ext2fsReadInode ino =
      (fs.ext2fsReadInode ino).map (Inode.anonymous (hidden ino)) := by
  by_cases valid : fs.validIno ino = true
  · simp only [ext2fsReadInode, anonymous_validIno, valid, if_true]
    rfl
  · simp only [ext2fsReadInode, anonymous_validIno, valid]
    rfl

/-- So does writing one. -/
theorem writeInode_anonymous (ino : Nat) (inode : Inode) :
    (fs.anonymous hidden).ext2fsWriteInode ino (inode.anonymous (hidden ino)) =
      ((fs.ext2fsWriteInode ino inode).1, (fs.ext2fsWriteInode ino inode).2.anonymous hidden) := by
  by_cases valid : fs.validIno ino = true
  · simp only [ext2fsWriteInode, anonymous_validIno, anonymous_update, valid, if_true]
    rfl
  · simp only [ext2fsWriteInode, anonymous_validIno, valid]
    rfl

/-- The check for a directory does not look at the owner. -/
theorem checkDirectory_anonymous (ino : Nat) :
    (fs.anonymous hidden).ext2fsCheckDirectory ino = fs.ext2fsCheckDirectory ino := by
  simp only [ext2fsCheckDirectory, readInode_anonymous]
  cases fs.ext2fsReadInode ino <;> rfl

/-- Mapping a block commutes with hiding owners. -/
theorem bmap_anonymous (ino : Nat) (inode : Inode) (alloc : Bool) (block : Nat) :
    (fs.anonymous hidden).ext2fsBmap ino (inode.anonymous (hidden ino)) alloc block =
      ((fs.ext2fsBmap ino inode alloc block).1,
        (fs.ext2fsBmap ino inode alloc block).2.1.anonymous (hidden ino),
        (fs.ext2fsBmap ino inode alloc block).2.2.anonymous hidden) := by
  have same : (fs.anonymous hidden).vol.bmapBlocks
    (inode.anonymous (hidden ino)).iBlock alloc block =
      fs.vol.bmapBlocks inode.iBlock alloc block := rfl
  rcases outcome : fs.vol.bmapBlocks inode.iBlock alloc block with
    ⟨rc | ⟨blk, allocated⟩, iBlock, vol⟩
  · simp only [ext2fsBmap, same, outcome]
    rfl
  · simp only [ext2fsBmap, same, outcome]
    by_cases none : allocated = 0
    · simp only [none, if_true]
      rfl
    · simp only [none, if_false]
      by_cases valid : ({ fs with vol := vol } : Fs δ).validIno ino = true
      · have seen : ({ fs.anonymous hidden with vol := vol } : Fs δ).validIno ino = true := valid
        simp only [ext2fsWriteInode, valid, seen, if_true]
        exact Prod.ext rfl (Prod.ext rfl (congrArg
          (fun inodeTab => ({ fs with vol := vol, inodeTab := inodeTab } : Fs δ))
          (anonymous_update hidden fs ino { inode with
            iBlock := iBlock
            iBlocks := (inode.iBlocks + allocated * ({ fs with vol := vol } : Fs δ).blocksize / 512)
              % 2 ^ 32 })))
      · have seen : ¬ ({ fs.anonymous hidden with vol := vol } : Fs δ).validIno ino = true := valid
        simp only [ext2fsWriteInode, valid, seen]
        rfl

section Files

variable (file : File)

@[simp] theorem file_anonymous_ino (hides : Bool) : (file.anonymous hides).ino = file.ino := rfl
@[simp] theorem file_anonymous_inode (hides : Bool) :
    (file.anonymous hides).inode = file.inode.anonymous hides := rfl
@[simp] theorem file_anonymous_bufValid (hides : Bool) :
    (file.anonymous hides).bufValid = file.bufValid := rfl
@[simp] theorem file_anonymous_bufDirty (hides : Bool) :
    (file.anonymous hides).bufDirty = file.bufDirty := rfl
@[simp] theorem file_anonymous_physblock (hides : Bool) :
    (file.anonymous hides).physblock = file.physblock := rfl
@[simp] theorem file_anonymous_pos (hides : Bool) : (file.anonymous hides).pos = file.pos := rfl
@[simp] theorem file_anonymous_blockno (hides : Bool) :
    (file.anonymous hides).blockno = file.blockno := rfl

/-- So does flushing a handle. -/
theorem fileFlush_anonymous :
    (fs.anonymous hidden).ext2fsFileFlush (file.anonymous (hidden file.ino)) =
      ((fs.ext2fsFileFlush file).1,
        (fs.ext2fsFileFlush file).2.1.anonymous (hidden file.ino),
        (fs.ext2fsFileFlush file).2.2.anonymous hidden) := by
  have mapped := bmap_anonymous hidden fs file.ino file.inode (file.ino != 0) file.blockno
  simp only [ext2fsFileFlush, file_anonymous_ino, file_anonymous_inode, file_anonymous_bufValid,
    file_anonymous_bufDirty, file_anonymous_physblock, file_anonymous_blockno]
  by_cases clean : (!file.bufValid || !file.bufDirty) = true
  · simp only [clean, if_true]
  · by_cases missing : file.physblock = 0
    · rcases outcome : fs.ext2fsBmap file.ino file.inode (file.ino != 0) file.blockno with
        ⟨rc | blk, inode, fs'⟩
      all_goals
        rw [outcome] at mapped
        simp only [clean, missing, mapped, if_true]
        rfl
    · simp only [clean, missing]
      rfl

/-- So does moving its buffer. -/
theorem syncBufferPosition_anonymous :
    (fs.anonymous hidden).syncBufferPosition (file.anonymous (hidden file.ino)) =
      ((fs.syncBufferPosition file).1,
        (fs.syncBufferPosition file).2.1.anonymous (hidden file.ino),
        (fs.syncBufferPosition file).2.2.anonymous hidden) := by
  have flushed := fileFlush_anonymous hidden fs file
  simp only [syncBufferPosition, file_anonymous_pos, file_anonymous_blockno, anonymous_blocksize]
  by_cases stays : file.pos / fs.blocksize = file.blockno
  · simp only [stays, ne_eq, not_true_eq_false, if_false]
  · rcases outcome : fs.ext2fsFileFlush file with ⟨_ | rc, file', fs'⟩
    · rw [outcome] at flushed
      simp only [stays, ne_eq, not_false_eq_true, if_true, flushed]
      rfl
    · rw [outcome] at flushed
      simp only [stays, ne_eq, not_false_eq_true, if_true, flushed]

/-- Flushing a handle leaves its inode number. -/
theorem fileFlush_ino : (fs.ext2fsFileFlush file).2.1.ino = file.ino := by
  simp only [ext2fsFileFlush]
  split
  · rfl
  · split
    · split <;> rfl
    · rfl

/-- So does moving its buffer. -/
theorem syncBufferPosition_ino : (fs.syncBufferPosition file).2.1.ino = file.ino := by
  have flushed := fileFlush_ino fs file
  simp only [syncBufferPosition]
  split
  · split
    all_goals
      rename_i outcome
      rw [outcome] at flushed
      exact flushed
  · rfl

/-- Loading the buffer commutes with hiding owners. -/
theorem loaded_anonymous (hides dontfill : Bool) :
    (fs.anonymous hidden).loaded (file.anonymous hides) dontfill =
      (fs.loaded file dontfill).anonymous hides := by
  by_cases valid : file.bufValid = true
  · simp only [loaded, file_anonymous_bufValid, valid, if_true]
  · simp only [loaded, file_anonymous_bufValid, valid]
    rfl

/-- So does the loop of ext2fs_file_write, by induction on its bound. -/
theorem fileWriteLoop_anonymous {hides : Bool} (hides_eq : hidden file.ino = hides) (bound : Nat)
    (data : List UInt8) (count : Nat) :
    (fs.anonymous hidden).fileWriteLoop bound (file.anonymous hides) data count =
      ((fs.fileWriteLoop bound file data count).1,
        (fs.fileWriteLoop bound file data count).2.1,
        (fs.fileWriteLoop bound file data count).2.2.1.anonymous hides,
        (fs.fileWriteLoop bound file data count).2.2.2.anonymous hidden) := by
  induction bound generalizing fs file data count with
  | zero => rfl
  | succ bound inductionHypothesis =>
      have synced := syncBufferPosition_anonymous hidden fs file
      have own := syncBufferPosition_ino fs file
      rw [hides_eq] at synced
      by_cases all : data = []
      · simp only [fileWriteLoop, all, if_true]
      · rcases outcome : fs.syncBufferPosition file with ⟨_ | rc, file₁, fs₁⟩
        · rw [outcome] at synced own
          simp only [fileWriteLoop, all, if_false, synced, outcome, loadBuffer_eq,
            anonymous_blocksize, file_anonymous_pos, loaded_anonymous]
          generalize min (fs₁.blocksize - file₁.pos % fs₁.blocksize) data.length = c
          have same := loaded_ino fs₁ file₁ (c == fs₁.blocksize)
          generalize fs₁.loaded file₁ (c == fs₁.blocksize) = file₂ at same
          exact inductionHypothesis fs₁
            { file₂ with
              bufDirty := true
              buf := file₂.buf.write (file₁.pos % fs₁.blocksize) (data.take c)
              pos := file₂.pos + c } (by rw [← hides_eq, ← own]; exact congrArg hidden same) _ _
        · rw [outcome] at synced
          simp only [fileWriteLoop, all, if_false, synced, outcome]

/-- So does ext2fs_file_write. -/
theorem fileWrite_anonymous (data : List UInt8) :
    (fs.anonymous hidden).ext2fsFileWrite (file.anonymous (hidden file.ino)) data =
      ((fs.ext2fsFileWrite file data).1, (fs.ext2fsFileWrite file data).2.1,
        (fs.ext2fsFileWrite file data).2.2.1.anonymous (hidden file.ino),
        (fs.ext2fsFileWrite file data).2.2.2.anonymous hidden) := by
  have looped := fileWriteLoop_anonymous hidden fs file rfl data.length data 0
  have writable : (file.anonymous (hidden file.ino)).writable = file.writable := rfl
  by_cases allowed : file.writable = true
  · simp only [ext2fsFileWrite, writable, allowed, if_true, looped]
  · simp only [ext2fsFileWrite, writable, allowed]
    rfl

end Files

section Directories

variable (env : Env δ)

variable {fs} in
/-- `ext2fs_link` in a directory, once it is known what the directory primitive does. -/
theorem ext2fsLink_of {dir ino flags : Nat} {name : Name} {rc : Errcode} {contents : δ}
    (isDir : fs.ext2fsCheckDirectory dir = 0)
    (linked : env.dir.link (fs.dirs dir) name ino (if fs.super.filetype then flags % 8 else 0) =
      (rc, contents)) :
    fs.ext2fsLink env dir name ino flags =
      if rc ≠ 0 then (rc, { fs with dirs := Function.update fs.dirs dir contents })
      else if (fs.inodeTab dir).iFlags &&& EXT2_INDEX_FL ≠ 0 then
        ({ fs with dirs := Function.update fs.dirs dir contents } : Fs δ).ext2fsWriteInode dir
          { fs.inodeTab dir with iFlags := (fs.inodeTab dir).iFlags - EXT2_INDEX_FL }
      else (0, { fs with dirs := Function.update fs.dirs dir contents }) := by
  simp only [ext2fsLink, isDir, if_true, linked]

/-- So does ext2fs_link. -/
theorem link_anonymous (dir : Nat) (name : Name) (ino flags : Nat) :
    (fs.anonymous hidden).ext2fsLink env dir name ino flags =
      ((fs.ext2fsLink env dir name ino flags).1,
        (fs.ext2fsLink env dir name ino flags).2.anonymous hidden) := by
  have check := checkDirectory_anonymous hidden fs dir
  by_cases isDir : fs.ext2fsCheckDirectory dir = 0
  · rcases linked : env.dir.link (fs.dirs dir) name ino (if fs.super.filetype then flags % 8 else 0)
      with ⟨rc, contents⟩
    have seen : env.dir.link ((fs.anonymous hidden).dirs dir) name ino
        (if (fs.anonymous hidden).super.filetype then flags % 8 else 0) = (rc, contents) := linked
    rw [ext2fsLink_of env isDir linked, ext2fsLink_of env (check.trans isDir) seen]
    by_cases failed : rc ≠ 0
    · rw [if_pos failed, if_pos failed]
      rfl
    · rw [if_neg failed, if_neg failed]
      by_cases indexed : (fs.inodeTab dir).iFlags &&& EXT2_INDEX_FL ≠ 0
      · rw [if_pos indexed, if_pos (show ((fs.anonymous hidden).inodeTab dir).iFlags &&& _ ≠ 0 from
          indexed)]
        exact writeInode_anonymous hidden
          { fs with dirs := Function.update fs.dirs dir contents } dir
          { fs.inodeTab dir with iFlags := (fs.inodeTab dir).iFlags - EXT2_INDEX_FL }
      · rw [if_neg indexed,
          if_neg (show ¬ ((fs.anonymous hidden).inodeTab dir).iFlags &&& _ ≠ 0 from indexed)]
        rfl
  · simp only [ext2fsLink, check, isDir, if_false]

/-- So does the block iterator, whose callbacks see no inode. -/
theorem blockIterate2_anonymous {ρ : Type} (ino : Nat) (noLarge : Bool) (mode : IterMode)
    (func : IterFunc ρ) (priv : ρ) :
    (fs.anonymous hidden).ext2fsBlockIterate2 ino noLarge mode func priv =
      ((fs.ext2fsBlockIterate2 ino noLarge mode func priv).1,
        (fs.ext2fsBlockIterate2 ino noLarge mode func priv).2.1,
        (fs.ext2fsBlockIterate2 ino noLarge mode func priv).2.2.anonymous hidden) := by
  simp only [ext2fsBlockIterate2, readInode_anonymous]
  rcases fs.ext2fsReadInode ino with rc | inode
  · rfl
  · simp only [Except.map]
    have volume : (fs.anonymous hidden).vol = fs.vol := rfl
    have blocks : (inode.anonymous (hidden ino)).iBlock = inode.iBlock := rfl
    rw [volume, blocks]
    generalize fs.vol.iterateBlocks mode func inode.iBlock priv = top
    by_cases large : (noLarge && !LINUX_S_ISDIR inode.iMode && inode.iSizeHigh != 0) = true
    · have seen : (noLarge && !LINUX_S_ISDIR (inode.anonymous (hidden ino)).iMode &&
          (inode.anonymous (hidden ino)).iSizeHigh != 0) = true := large
      simp only [large, seen, if_true]
    · have seen : ¬ (noLarge && !LINUX_S_ISDIR (inode.anonymous (hidden ino)).iMode &&
          (inode.anonymous (hidden ino)).iSizeHigh != 0) = true := large
      simp only [large, seen]
      by_cases changed : top.ret.changed = true
      · have wrote := writeInode_anonymous hidden { fs with vol := top.ctx.vol } ino
          { inode with iBlock := top.blocks }
        simp only [changed, if_true]
        exact congrArg (fun result => (result.1, top.ctx.priv, result.2)) wrote
      · simp only [changed]
        rfl

/-- So does ext2fs_expand_dir. -/
theorem expandDir_anonymous (dir : Nat) :
    (fs.anonymous hidden).ext2fsExpandDir env dir =
      ((fs.ext2fsExpandDir env dir).1, (fs.ext2fsExpandDir env dir).2.anonymous hidden) := by
  simp only [ext2fsExpandDir, checkDirectory_anonymous, blockIterate2_anonymous]
  generalize fs.ext2fsBlockIterate2 dir false { append := true } expandDirProc {} = outcome
  obtain ⟨rc, es, fs'⟩ := outcome
  by_cases isDir : fs.ext2fsCheckDirectory dir = 0
  · rw [if_pos isDir, if_pos isDir]
    dsimp only
    by_cases failed : es.err ≠ 0
    · rw [if_pos failed, if_pos failed]
    · rw [if_neg failed, if_neg failed]
      by_cases unfinished : (!es.done) = true
      · rw [if_pos unfinished, if_pos unfinished]
      · rw [if_neg unfinished, if_neg unfinished]
        exact writeInode_anonymous hidden
          { fs' with dirs := Function.update fs'.dirs dir (env.dir.expand (fs'.dirs dir)) } dir
          { fs'.inodeTab dir with
            iSize := ((fs'.inodeTab dir).iSize + fs'.blocksize) % 2 ^ 32
            iBlocks := ((fs'.inodeTab dir).iBlocks + fs'.blocksize / 512 * es.newblocks) % 2 ^ 32 }
  · rw [if_neg isDir, if_neg isDir]

/-- Looking a name up does not depend on owners. -/
theorem lookup_anonymous (dir : Nat) (name : Name) :
    (fs.anonymous hidden).ext2fsLookup env dir name = fs.ext2fsLookup env dir name := by
  rw [ext2fsLookup, ext2fsLookup, checkDirectory_anonymous]
  rfl

end Directories

end Fs

section Routines

open Fs

variable {δ : Type} {env : Env δ} {hidden : Nat → Bool} {fs : Fs δ} {ino : Nat}

/-- A call to read an inode mirrors itself with the owner hidden. -/
theorem mirrors_readInode :
    Mirrors (lib env) (Fs.anonymous hidden) (Except.map (Inode.anonymous (hidden ino)))
      (readInode ino) (readInode ino) fs := by
  have read := readInode_anonymous hidden fs ino
  rcases outcome : fs.ext2fsReadInode ino with rc | inode
  all_goals
    rw [outcome] at read
    simp only [Mirrors, readInode, run_bind, run_lift, lib_readInode, read, outcome,
      Except.map, run_pure]

/-- A call to write an inode mirrors the call that writes the hidden one. -/
theorem mirrors_writeInode (inode : Inode) :
    Mirrors (lib env) (Fs.anonymous hidden) id (lift (.writeInode ino inode))
      (lift (.writeInode ino (inode.anonymous (hidden ino)))) fs :=
  writeInode_anonymous hidden fs ino inode

/-- The same of a new inode. -/
theorem mirrors_writeNewInode (inode : Inode) :
    Mirrors (lib env) (Fs.anonymous hidden) id (lift (.writeNewInode ino inode))
      (lift (.writeNewInode ino (inode.anonymous (hidden ino)))) fs :=
  writeInode_anonymous hidden fs ino inode

/-- A call that sees no inode. -/
theorem mirrors_call {α : Type} {operation : LibCall δ α}
    (same : (lib env).exec operation (fs.anonymous hidden) =
      (((lib env).exec operation fs).1, ((lib env).exec operation fs).2.anonymous hidden)) :
    Mirrors (lib env) (Fs.anonymous hidden) id (lift operation) (lift operation) fs :=
  same

/-- A call that sees no inode, and what follows it. -/
theorem mirrors_call_bind {α β β' : Type} {operation : LibCall δ α} {seen : β → β'}
    {rest : α → Prog δ β} {rest' : α → Prog δ β'}
    (same : (lib env).exec operation (fs.anonymous hidden) =
      (((lib env).exec operation fs).1, ((lib env).exec operation fs).2.anonymous hidden))
    (next : ∀ response later, (lib env).exec operation fs = (response, later) →
      Mirrors (lib env) (Fs.anonymous hidden) seen (rest response) (rest' response) later) :
    Mirrors (lib env) (Fs.anonymous hidden) seen (lift operation >>= rest)
      (lift operation >>= rest')
      fs :=
  mirrors_bind (mirrors_call same) next

/-- A call to enter a name mirrors itself. -/
theorem mirrors_link (dir : Nat) (name : Name) (target flags : Nat) :
    Mirrors (lib env) (Fs.anonymous hidden) id (lift (.link dir name target flags))
      (lift (.link dir name target flags)) fs :=
  mirrors_call (link_anonymous hidden fs env dir name target flags)

/-- A call to expand a directory mirrors itself. -/
theorem mirrors_expandDir (dir : Nat) :
    Mirrors (lib env) (Fs.anonymous hidden) id (lift (.expandDir dir)) (lift (.expandDir dir)) fs :=
  mirrors_call (expandDir_anonymous hidden fs env dir)

/-- A call to look a name up mirrors itself. -/
theorem mirrors_lookup (dir : Nat) (name : Name) :
    Mirrors (lib env) (Fs.anonymous hidden) id (lift (.lookup dir name)) (lift (.lookup dir name))
      fs :=
  mirrors_call (congrArg (·, fs.anonymous hidden) (lookup_anonymous hidden fs env dir name))

/-- do_link mirrors itself, with its second try. -/
theorem mirrors_doLink (dir : Nat) (name : Name) (target filetype : Nat) :
    Mirrors (lib env) (Fs.anonymous hidden) id (doLink dir name target filetype)
      (doLink dir name target filetype) fs := by
  refine mirrors_bind (mirrors_link dir name target filetype) fun rc next _ => ?_
  dsimp only [id]
  split
  · refine mirrors_bind (mirrors_expandDir dir) fun rc next _ => ?_
    dsimp only [id]
    split
    · exact mirrors_pure rfl _
    · exact mirrors_bind (mirrors_link dir name target filetype) fun rc next _ => mirrors_pure rfl _
  · exact mirrors_pure rfl _

/-- Without a caller to check everything is permitted. -/
theorem checkPermsInInode_none (inode : Inode) (requested : Nat) :
    checkPermsInInode none inode requested = 0 := rfl

/-- What `do_create` returns, without the owner. -/
def anonymousEntry (hidden : Nat → Bool) (entry : Nat × Inode) : Nat × Inode :=
  (entry.1, entry.2.anonymous (hidden entry.1))

/-- `do_create` of a caller who passes the check does what it does when nobody is asked
for, the owner of the new inode apart. -/
theorem mirrors_doCreate {ctx : FuseCtx} {parent mode filetype : Nat} {name : Name}
    (passes : checkPermsInInode (some ctx) (fs.inodeTab parent) W_OK = 0)
    (new : ∀ ino, fs.ext2fsNewInode parent = .ok ino → hidden ino = true) :
    Mirrors (lib env) (Fs.anonymous hidden) (Except.map (anonymousEntry hidden))
      (doCreate (some ctx) parent name mode filetype)
      (doCreate none parent name mode filetype) fs := by
  refine mirrors_bind mirrors_readInode fun read later outcome => ?_
  by_cases valid : fs.validIno parent = true
  · rw [run_readInode valid] at outcome
    cases outcome
    dsimp only [Except.map]
    rw [if_neg (not_not.mpr passes), if_neg (not_not.mpr (checkPermsInInode_none _ _))]
    refine mirrors_call_bind rfl fun found _ outcome => ?_
    obtain ⟨rfl, rfl⟩ := Prod.mk.inj outcome
    rcases picked : fs.ext2fsNewInode parent with rc | ino
    · exact mirrors_pure rfl _
    · refine mirrors_call_bind rfl fun now timed _ => ?_
      have hides := new ino picked
      have owner : ({ setPerms (some ctx) {} with
          iMode := mode, iAtime := now, iCtime := now, iMtime := now, iLinksCount := 1 } :
            Inode).anonymous (hidden ino) = { setPerms none {} with
          iMode := mode, iAtime := now, iCtime := now, iMtime := now, iLinksCount := 1 } := by
        rw [hides]
        rfl
      rw [← owner]
      refine mirrors_bind (mirrors_writeNewInode _) fun rc written _ => ?_
      dsimp only [id]
      split
      · exact mirrors_pure rfl _
      · refine mirrors_call_bind rfl fun _ taken _ => ?_
        refine mirrors_bind (mirrors_doLink parent name ino filetype) fun rc linked _ => ?_
        dsimp only [id]
        split
        · exact mirrors_pure rfl _
        · exact mirrors_pure rfl _
  · have failed : (readInode parent : Prog δ _).run (lib env) fs = (.error 1, fs) := by
      simp [readInode, ext2fsReadInode, valid]
    rw [failed] at outcome
    cases outcome
    exact mirrors_pure rfl _

end Routines

end Ext2Fuse
