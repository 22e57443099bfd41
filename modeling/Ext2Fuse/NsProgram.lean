import Ext2Fuse.Namespace

/-!
# Programs over the name space

`Holds` reads a handler as a program over name spaces: from any filesystem with a given
name space, every library call leaves an invariant in force and the end meets a
postcondition. Each call has one rule here, stating what it can do to the name space
under the contract of the directory primitives; the operations are then proved without
looking at the filesystem again.
-/

namespace Ext2Fuse

open Lib Program

section

variable {δ α β : Type}

/-- From every filesystem with the name space `ns`, in which `inv` holds: each call
leaves `inv` in force, and the end satisfies `post`. -/
def Holds (env : Env δ) (inv : Ns → Prop) (program : Prog δ α) (post : α → Ns → Prop)
    (ns : Ns) : Prop :=
  inv ns → ∀ fs : Fs δ, fs.ns env = ns →
    Always (Fs.lib env) (fun fs => inv (fs.ns env)) program
      (fun result fs => post result (fs.ns env)) fs

variable {env : Env δ} {inv : Ns → Prop} {ns : Ns} {ino : Nat}

/-- An answer alone: the postcondition holds at once. -/
theorem holds_pure {result : α} {post : α → Ns → Prop} (holds : post result ns) :
    Holds env inv (pure result) post ns := by
  rintro - fs rfl
  exact holds

/-- A sequence: the first part must lead to where the rest holds. -/
theorem holds_bind {first : Prog δ α} {rest : α → Prog δ β} {post : β → Ns → Prop}
    (holds : Holds env inv first (fun result => Holds env inv (rest result) post) ns) :
    Holds env inv (first >>= rest) post ns := by
  rintro initial fs rfl
  rw [always_bind]
  refine ((holds initial fs rfl).and_inv initial).mono ?_
  rintro result next ⟨invariant, continues⟩
  exact continues invariant next rfl

/-- A weaker postcondition follows. -/
theorem Holds.mono {program : Prog δ α} {post post' : α → Ns → Prop}
    (holds : Holds env inv program post ns)
    (weaker : ∀ result next, post result next → post' result next) :
    Holds env inv program post' ns := by
  rintro initial fs rfl
  exact (holds initial fs rfl).mono fun result next => weaker result _

/-- The invariant may be used from the start. -/
theorem holds_of_inv {program : Prog δ α} {post : α → Ns → Prop}
    (holds : inv ns → Holds env inv program post ns) : Holds env inv program post ns :=
  fun initial => holds initial initial

/-- A call that leaves the name space alone. -/
theorem holds_quiet {operation : LibCall δ α} {post : α → Ns → Prop}
    (quiet : ∀ fs, fs.ns env = ns →
      (Fs.exec env operation fs).2.ns env = ns ∧ post (Fs.exec env operation fs).1 ns) :
    Holds env inv (lift operation) post ns := by
  rintro initial fs rfl
  obtain ⟨same, after⟩ := quiet fs rfl
  refine ⟨?_, ?_⟩
  · change inv ((Fs.exec env operation fs).2.ns env)
    rwa [same]
  · change post (Fs.exec env operation fs).1 ((Fs.exec env operation fs).2.ns env)
    rwa [same]

/-- A call that takes the name space to another one. -/
theorem holds_step {operation : LibCall δ α} {post : α → Ns → Prop}
    (step : ∀ fs, fs.ns env = ns → ∃ result next, Fs.exec env operation fs = (result, next) ∧
      inv (next.ns env) ∧ post result (next.ns env)) :
    Holds env inv (lift operation) post ns := by
  rintro initial fs rfl
  obtain ⟨result, next, outcome, invariant, after⟩ := step fs rfl
  have both : (Fs.lib env).exec operation fs = (result, next) := outcome
  rw [always_lift, both]
  exact ⟨invariant, after⟩

end

section Calls

variable {δ : Type} {env : Env δ} {inv : Ns → Prop} {ns : Ns} {ino dir : Nat} {name : Name}

/-- The rule of the clock: any time may come. -/
theorem holds_time {post : Nat → Ns → Prop} (next : ∀ now, post now ns) :
    Holds env inv (lift .time) post ns :=
  holds_quiet fun _ same => ⟨same, next _⟩

/-- The rule of the superblock: any may be read. -/
theorem holds_super {post : Super → Ns → Prop} (next : ∀ super, post super ns) :
    Holds env inv (lift .super) post ns :=
  holds_quiet fun _ same => ⟨same, next _⟩

/-- The rule of ext2fs_new_block: a block, or an error other than 0. -/
theorem holds_newBlock {goal : Nat} {post : Except Errcode Nat → Ns → Prop}
    (found : ∀ blk, post (.ok blk) ns) (full : ∀ rc, rc ≠ 0 → post (.error rc) ns) :
    Holds env inv (lift (.newBlock goal)) post ns := by
  refine holds_quiet fun fs same => ⟨same, ?_⟩
  change post (fs.vol.ext2fsNewBlock goal) _
  simp only [Volume.ext2fsNewBlock]
  split
  · exact found _
  · exact full _ (by decide)

/-- Counting a block shows in no name. -/
theorem holds_blockAllocStats {blk : Nat} {inuse : Bool} {post : Unit → Ns → Prop}
    (next : post () ns) : Holds env inv (lift (.blockAllocStats blk inuse)) post ns :=
  holds_quiet fun _ same => ⟨(Fs.ns_vol rfl).trans same, next⟩

/-- The rule of ext2fs_read_inode: what is read agrees with mode and count. -/
theorem holds_readInode {post : Except Errcode Inode → Ns → Prop} (valid : ns.valid ino = true)
    (next : ∀ inode, ns.Agrees ino inode → post (.ok inode) ns) :
    Holds env inv (lift (.readInode ino)) post ns := by
  refine holds_quiet ?_
  rintro fs rfl
  refine ⟨rfl, ?_⟩
  change post (fs.ext2fsReadInode ino) _
  rw [Fs.readInode_of_valid valid]
  exact next _ ⟨rfl, rfl⟩

/-- Without knowing that the number is valid. -/
theorem holds_readInode_any {post : Except Errcode Inode → Ns → Prop}
    (next : ∀ inode, ns.Agrees ino inode → post (.ok inode) ns) (bad : ∀ rc, post (.error rc) ns) :
    Holds env inv (lift (.readInode ino)) post ns := by
  refine holds_quiet ?_
  rintro fs rfl
  refine ⟨rfl, ?_⟩
  change post (fs.ext2fsReadInode ino) _
  simp only [Fs.ext2fsReadInode]
  split
  · exact next _ ⟨rfl, rfl⟩
  · exact bad _

/-- A copy that agrees with the record is written. -/
theorem holds_writeInode_of_agrees {inode : Inode} {post : Errcode → Ns → Prop}
    (agrees : ns.Agrees ino inode) (next : ∀ rc, post rc ns) :
    Holds env inv (lift (.writeInode ino inode)) post ns := by
  refine holds_quiet ?_
  rintro fs rfl
  exact ⟨Fs.ns_writeInode_of_agrees agrees, next _⟩

/-- The rule of ext2fs_write_inode: mode and count become the copy's. -/
theorem holds_writeInode {inode : Inode} {post : Errcode → Ns → Prop}
    (valid : ns.valid ino = true)
    (invariant : inv (ns.setInode ino inode.iMode inode.iLinksCount))
    (next : post 0 (ns.setInode ino inode.iMode inode.iLinksCount)) :
    Holds env inv (lift (.writeInode ino inode)) post ns := by
  refine holds_step ?_
  rintro fs rfl
  refine ⟨0, _, Prod.ext (Fs.writeInode_rc valid) rfl, ?_⟩
  change inv ((fs.ext2fsWriteInode ino inode).2.ns env) ∧
    post 0 ((fs.ext2fsWriteInode ino inode).2.ns env)
  rw [Fs.ns_writeInode valid]
  exact ⟨invariant, next⟩

/-- The rule of ext2fs_write_new_inode, which may be given a number out of range. -/
theorem holds_writeNewInode {inode : Inode} {post : Errcode → Ns → Prop}
    (invariant : ns.valid ino = true → inv (ns.setInode ino inode.iMode inode.iLinksCount))
    (next : ns.valid ino = true → post 0 (ns.setInode ino inode.iMode inode.iLinksCount))
    (bad : ∀ rc, rc ≠ 0 → post rc ns) :
    Holds env inv (lift (.writeNewInode ino inode)) post ns := by
  by_cases valid : ns.valid ino = true
  · refine holds_step ?_
    rintro fs rfl
    refine ⟨0, _, Prod.ext (Fs.writeInode_rc valid) rfl, ?_⟩
    change inv ((fs.ext2fsWriteInode ino inode).2.ns env) ∧
      post 0 ((fs.ext2fsWriteInode ino inode).2.ns env)
    rw [Fs.ns_writeInode valid]
    exact ⟨invariant valid, next valid⟩
  · refine holds_quiet ?_
    rintro fs rfl
    rw [Fs.ns_valid] at valid
    have outcome : fs.ext2fsWriteInode ino inode = (EXT2_ET_BAD_INODE_NUM, fs) := by
      simp [Fs.ext2fsWriteInode, valid]
    change (fs.ext2fsWriteInode ino inode).2.ns env = _ ∧ post (fs.ext2fsWriteInode ino inode).1 _
    rw [outcome]
    exact ⟨rfl, bad _ (show EXT2_ET_BAD_INODE_NUM ≠ 0 by decide)⟩

/-- The rule of ext2fs_new_inode: a free inode, or an error other than 0. -/
theorem holds_newInode {post : Except Errcode Nat → Ns → Prop}
    (found : ∀ ino, ns.used ino = false → post (.ok ino) ns)
    (full : ∀ rc, rc ≠ 0 → post (.error rc) ns) :
    Holds env inv (lift (.newInode dir)) post ns := by
  refine holds_quiet ?_
  rintro fs rfl
  refine ⟨rfl, ?_⟩
  change post (fs.ext2fsNewInode dir) _
  cases outcome : fs.ext2fsNewInode dir with
  | error rc =>
      refine full rc ?_
      simp only [Fs.ext2fsNewInode] at outcome
      split at outcome
      · cases outcome
      · cases outcome
        decide
  | ok ino => exact found ino (Fs.ext2fsNewInode_ok outcome)

/-- The rule of ext2fs_inode_alloc_stats2: the inode's bit is set or cleared. -/
theorem holds_inodeAllocStats2 {inuse isdir : Bool} {post : Unit → Ns → Prop}
    (valid : ns.valid ino = true) (invariant : inv (ns.setUsed ino inuse))
    (next : post () (ns.setUsed ino inuse)) :
    Holds env inv (lift (.inodeAllocStats2 ino inuse isdir)) post ns := by
  refine holds_step ?_
  rintro fs rfl
  refine ⟨(), _, rfl, ?_⟩
  rw [Fs.ns_inodeAllocStats2 valid]
  exact ⟨invariant, next⟩

/-- Without knowing that the number is valid. -/
theorem holds_inodeAllocStats2_any {inuse isdir : Bool} {post : Unit → Ns → Prop}
    (marked : ns.valid ino = true → inv (ns.setUsed ino inuse) ∧ post () (ns.setUsed ino inuse))
    (ignored : ns.valid ino = false → post () ns) :
    Holds env inv (lift (.inodeAllocStats2 ino inuse isdir)) post ns := by
  by_cases valid : ns.valid ino = true
  · exact holds_inodeAllocStats2 valid (marked valid).1 (marked valid).2
  · refine holds_quiet ?_
    rintro fs rfl
    refine ⟨?_, ignored (by simpa using valid)⟩
    rw [Fs.ns_valid] at valid
    simp [Fs.exec, Fs.ext2fsInodeAllocStats2, valid]
    rfl

/-- The rule of ext2fs_unmark_inode_bitmap: the inode's bit is cleared. -/
theorem holds_unmarkInodeBitmap {post : Unit → Ns → Prop}
    (valid : ns.valid ino = true) (invariant : inv (ns.setUsed ino false))
    (next : post () (ns.setUsed ino false)) :
    Holds env inv (lift (.unmarkInodeBitmap ino)) post ns := by
  refine holds_step ?_
  rintro fs rfl
  refine ⟨(), _, rfl, ?_⟩
  rw [Fs.ns_unmarkInodeBitmap valid]
  exact ⟨invariant, next⟩

/-- The rule of ext2fs_write_dir_block for a directory's first block. -/
theorem holds_writeDirBlock {blk : Nat} {contents : δ} {post : Errcode → Ns → Prop}
    (invariant : inv (ns.setEnts ino (env.dir.entries contents)))
    (next : post 0 (ns.setEnts ino (env.dir.entries contents))) :
    Holds env inv (lift (.writeDirBlock ino blk contents)) post ns := by
  refine holds_step ?_
  rintro fs rfl
  refine ⟨0, _, rfl, ?_⟩
  rw [Fs.ns_dirs]
  exact ⟨invariant, next⟩

/-- Releasing blocks shows in no name. -/
theorem holds_blockIterateRelease {post : Errcode → Ns → Prop} (next : ∀ rc, post rc ns) :
    Holds env inv (lift (.blockIterateRelease ino)) post ns := by
  refine holds_quiet fun fs same => ⟨?_, next _⟩
  exact (Fs.ns_blockIterate2 (fun _ _ _ _ => rfl) true {} ()).trans same

/-- Truncating shows in no name. -/
theorem holds_blockIterateTruncate {info : TruncateBlocksInfo}
    {post : Errcode × TruncateBlocksInfo → Ns → Prop} (next : ∀ result, post result ns) :
    Holds env inv (lift (.blockIterateTruncate ino info)) post ns := by
  refine holds_quiet fun fs same => ⟨?_, next _⟩
  exact (Fs.ns_blockIterate2 (fun _ _ _ _ => truncateBlocksProc_super _ _ _ _ _) true _ info).trans
    same

/-- The rule of ext2fs_file_open: the handle's copy agrees with mode and count. -/
theorem holds_fileOpen {writable : Bool} {post : Except Errcode File → Ns → Prop}
    (valid : ns.valid ino = true)
    (next : ∀ file : File, file.ino = ino → ns.Agrees ino file.inode → post (.ok file) ns) :
    Holds env inv (lift (.fileOpen ino writable)) post ns := by
  refine holds_quiet ?_
  rintro fs rfl
  refine ⟨rfl, ?_⟩
  change post (fs.ext2fsFileOpen ino writable) _
  simp only [Fs.ext2fsFileOpen, Fs.readInode_of_valid valid]
  exact next _ rfl ⟨rfl, rfl⟩

/-- The rule of ext2fs_file_write: the handle's copy still agrees. -/
theorem holds_fileWrite {file : File} {data : List UInt8}
    {post : Errcode × Nat × File → Ns → Prop} (own : file.ino = ino)
    (agrees : ns.Agrees ino file.inode)
    (next : ∀ rc written file', file'.ino = ino → ns.Agrees ino file'.inode →
      post (rc, written, file') ns) :
    Holds env inv (lift (.fileWrite file data)) post ns := by
  refine holds_quiet ?_
  rintro fs rfl
  have quiet := Fs.ext2fsFileWrite_quiet own agrees data
  exact ⟨quiet.ns_eq, next _ _ _ quiet.ino_eq quiet.agrees⟩

/-- The rule of ext2fs_file_flush: the handle's copy still agrees. -/
theorem holds_fileFlush {file : File} {post : Errcode × File → Ns → Prop} (own : file.ino = ino)
    (agrees : ns.Agrees ino file.inode)
    (next : ∀ rc file', file'.ino = ino → ns.Agrees ino file'.inode → post (rc, file') ns) :
    Holds env inv (lift (.fileFlush file)) post ns := by
  refine holds_quiet ?_
  rintro fs rfl
  have quiet := Fs.ext2fsFileFlush_quiet own agrees
  exact ⟨quiet.ns_eq, next _ _ quiet.ino_eq quiet.agrees⟩

/-- The weak rule of ext2fs_lookup: any answer may come. -/
theorem holds_lookup_any {post : Except Errcode Nat → Ns → Prop}
    (next : ∀ result, post result ns) : Holds env inv (lift (.lookup dir name)) post ns :=
  holds_quiet fun _ same => ⟨same, next _⟩

section Directories

variable (lawful : env.dir.Lawful)

include lawful

/-- The rule of ext2fs_new_dir_block: the block has '.' and '..'. -/
theorem holds_newDirBlock {parent : Nat} {post : Except Errcode δ → Ns → Prop}
    (next : ∀ contents fileType, env.dir.entries contents =
      [⟨dotName, ino, fileType⟩, ⟨dotDotName, parent, fileType⟩] → post (.ok contents) ns) :
    Holds env inv (lift (.newDirBlock ino parent)) post ns :=
  holds_quiet fun _ same => ⟨same, next _ _ (lawful.newDirBlock_entries ..)⟩

/-- A new directory block has no names, and there may be none. -/
theorem holds_expandDir {post : Errcode → Ns → Prop} (next : ∀ rc, post rc ns) :
    Holds env inv (lift (.expandDir dir)) post ns :=
  holds_quiet fun _ same => ⟨(Fs.ns_expandDir lawful).trans same, next _⟩

variable (valid : ns.valid dir = true) (isDir : ns.isDir dir = true)

include valid isDir

/-- The rule of ext2fs_lookup: the first entry of that name, if there is one. -/
theorem holds_lookup {post : Except Errcode Nat → Ns → Prop}
    (found : ∀ entry, (ns.ents dir).find? (fun entry => entry.name == name) = some entry →
      post (.ok entry.inode) ns)
    (absent : (ns.ents dir).find? (fun entry => entry.name == name) = none →
      post (.error EXT2_ET_FILE_NOT_FOUND) ns) :
    Holds env inv (lift (.lookup dir name)) post ns := by
  refine holds_quiet ?_
  rintro fs rfl
  refine ⟨rfl, ?_⟩
  change post (fs.ext2fsLookup env dir name) _
  rw [Fs.ext2fsLookup_eq lawful valid isDir]
  split
  · exact found _ ‹_›
  · exact absent ‹_›

/-- The rule of ext2fs_namei for a path of one name. -/
theorem holds_namei {post : Except Errcode Nat → Ns → Prop}
    (found : ∀ entry, (ns.ents dir).find? (fun entry => entry.name == name) = some entry →
      post (.ok entry.inode) ns)
    (absent : (ns.ents dir).find? (fun entry => entry.name == name) = none →
      post (.error EXT2_ET_FILE_NOT_FOUND) ns) :
    Holds env inv (lift (.namei dir name)) post ns :=
  holds_lookup lawful valid isDir found absent

/-- The rule of ext2fs_dir_iterate: all the entries in their order. -/
theorem holds_dirIterate {post : Errcode × List Dirent → Ns → Prop}
    (next : post (0, ns.ents dir) ns) : Holds env inv (lift (.dirIterate dir)) post ns := by
  refine holds_quiet ?_
  rintro fs rfl
  refine ⟨rfl, ?_⟩
  change post (fs.ext2fsDirIterate env dir) _
  rw [Fs.ext2fsDirIterate_eq lawful valid isDir]
  exact next

/-- The rule of ext2fs_link: one entry more somewhere in the directory, or no room. -/
theorem holds_link {flags : Nat} {post : Errcode → Ns → Prop}
    (linked : ∀ before after fileType, ns.ents dir = before ++ after →
      inv (ns.setEnts dir (before ++ ⟨name, ino, fileType⟩ :: after)) ∧
        post 0 (ns.setEnts dir (before ++ ⟨name, ino, fileType⟩ :: after)))
    (full : post EXT2_ET_DIR_NO_SPACE ns) :
    Holds env inv (lift (.link dir name ino flags)) post ns := by
  refine holds_of_inv fun initial => holds_step ?_
  rintro fs rfl
  refine ⟨_, _, rfl, ?_⟩
  change inv ((fs.ext2fsLink env dir name ino flags).2.ns env) ∧
    post (fs.ext2fsLink env dir name ino flags).1 ((fs.ext2fsLink env dir name ino flags).2.ns env)
  obtain ⟨rc, before, after, fileType, split, after'⟩ | ⟨rc, same⟩ :=
    Fs.ext2fsLink_cases lawful valid isDir flags
  · rw [rc, after']
    exact linked before after fileType split
  · rw [rc, same]
    exact ⟨initial, full⟩

/-- The rule of ext2fs_unlink: the first matching entry goes, or there is none. -/
theorem holds_unlink {post : Errcode → Ns → Prop}
    (removed : ∀ entry ∈ ns.ents dir, Dirent.matchesEntry name ino entry = true →
      inv (ns.setEnts dir ((ns.ents dir).eraseP (Dirent.matchesEntry name ino))) ∧
        post 0 (ns.setEnts dir ((ns.ents dir).eraseP (Dirent.matchesEntry name ino))))
    (absent : (∀ entry ∈ ns.ents dir, Dirent.matchesEntry name ino entry = false) →
      post EXT2_ET_DIR_NO_SPACE ns) :
    Holds env inv (lift (.unlink dir name ino)) post ns := by
  refine holds_of_inv fun initial => holds_step ?_
  rintro fs rfl
  refine ⟨_, _, rfl, ?_⟩
  change inv ((fs.ext2fsUnlink env dir name ino).2.ns env) ∧
    post (fs.ext2fsUnlink env dir name ino).1 ((fs.ext2fsUnlink env dir name ino).2.ns env)
  obtain ⟨rc, after⟩ := @Fs.ext2fsUnlink_eq δ env fs ino dir name lawful valid isDir
  rw [rc, after]
  split
  · rename_i any
    obtain ⟨entry, member, matching⟩ := List.any_eq_true.mp any
    exact removed entry member matching
  · rename_i none
    have noMatch : ∀ entry ∈ (fs.ns env).ents dir, Dirent.matchesEntry name ino entry = false := by
      simpa using none
    rw [List.eraseP_of_forall_not (by simpa using noMatch), Ns.setEnts_self]
    exact ⟨initial, absent noMatch⟩

end Directories

end Calls

end Ext2Fuse
