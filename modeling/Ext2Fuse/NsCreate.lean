import Ext2Fuse.NsOps

/-!
# Creating files and directories

`do_create`, `do_mkdir` and the handlers over them. Reading and writing the new file,
as `op_symlink` does, is not seen in the name space.
-/

namespace Ext2Fuse

open Lib Program

namespace Ns

/-- The directories form a tree and the link counts cover the names, exactly if
`exact`. -/
def Sound (exact : Bool) (ns : Ns) : Prop :=
  ns.Narrow ∧ ∃ live parent, ns.Tree live parent ∧ ns.Counted exact none live

end Ns

open Ns

section Files

variable {δ : Type} {env : Env δ} {inv : Ns → Prop} {ns : Ns} {ino : Nat}

/-- Storing a size shows in no name. -/
theorem holds_setFileSize {inode : Inode} {size : Nat} {post : Errcode × Inode → Ns → Prop}
    (agrees : ns.Agrees ino inode)
    (next : ∀ rc copy, ns.Agrees ino copy → post (rc, copy) ns) :
    Holds env inv (setFileSize ino inode size) post ns := by
  refine holds_bind (holds_time fun now => ?_)
  refine holds_bind (holds_writeInode_of_agrees ⟨agrees.1, agrees.2⟩ fun rc => ?_)
  exact holds_pure (next _ _ ⟨agrees.1, agrees.2⟩)

/-- Nor does shortening through a handle. -/
theorem holds_doShorten {file : File} {length : Nat} {post : Errcode × File → Ns → Prop}
    (own : file.ino = ino) (agrees : ns.Agrees ino file.inode)
    (next : ∀ rc file', file'.ino = ino → ns.Agrees ino file'.inode → post (rc, file') ns) :
    Holds env inv (doShorten file ino length) post ns := by
  simp only [doShorten]
  split
  · exact holds_pure (next _ _ own agrees)
  · split
    · exact holds_pure (next _ _ own agrees)
    · refine holds_bind (holds_super fun super => ?_)
      refine holds_bind (holds_setFileSize agrees fun rc copy copyAgrees => ?_)
      dsimp only
      split
      · exact holds_pure (next _ _ own copyAgrees)
      · refine holds_bind (holds_blockIterateTruncate fun outcome => ?_)
        refine holds_bind (holds_readInode_any (fun inode inodeAgrees => ?_) fun rc => ?_)
        · refine holds_bind (holds_writeInode_of_agrees ⟨inodeAgrees.1, inodeAgrees.2⟩ fun rc => ?_)
          exact holds_pure (next _ _ own copyAgrees)
        · exact holds_pure (next _ _ own copyAgrees)

/-- Opening without a check gives a handle of the inode and shows in no name. -/
theorem holds_doOpen {flags : OpenFlags} {post : Except Errcode File → Ns → Prop}
    (valid : ns.valid ino = true)
    (next : ∀ file : File, file.ino = ino → ns.Agrees ino file.inode → post (.ok file) ns) :
    Holds env inv (doOpen none ino flags) post ns := by
  simp only [doOpen, checkPerms, doPermissionsChecks, Bool.not_false, if_true]
  generalize (if (flags.trunc && !flags.wronly) = true then { flags with rdwr := true }
    else flags) = opened
  refine holds_bind (holds_pure ?_)
  simp only [ne_eq, not_true_eq_false, if_false]
  refine holds_bind (holds_fileOpen valid fun file own agrees => ?_)
  dsimp only
  split
  · simp only [doFtruncate, gt_iff_lt, Nat.not_lt_zero, if_false]
    refine holds_bind (holds_doShorten own agrees fun rc file' own' agrees' => ?_)
    exact holds_pure (next file' own' agrees')
  · exact holds_pure (next file own agrees)

/-- Writing data shows in no name. -/
theorem holds_writeData {file : File} {data : List UInt8} {off : Nat}
    {post : Errcode × Nat × File → Ns → Prop} (own : file.ino = ino)
    (agrees : ns.Agrees ino file.inode)
    (next : ∀ rc bytes file', file'.ino = ino → ns.Agrees ino file'.inode →
      post (rc, bytes, file') ns) :
    Holds env inv (writeData file ino data off) post ns := by
  refine holds_bind (holds_fileWrite own agrees fun rc bytes file' own' agrees' => ?_)
  dsimp only
  split
  · exact holds_pure (next _ _ _ own' agrees')
  · split
    · exact holds_pure (next _ _ _ own' agrees')
    · split
      · exact holds_pure (next _ _ _ own' agrees')
      · split
        · exact holds_pure (next _ _ _ own' agrees')
        · refine holds_bind (holds_setFileSize agrees' fun rc copy copyAgrees => ?_)
          exact holds_pure (next _ _ _ own' copyAgrees)

end Files

section Create

variable {δ : Type} {env : Env δ} {exact : Bool} {ns : Ns} {live : Finset Nat} {parent : Nat → Nat}
  {dir : Nat} {name : Name} (lawful : env.dir.Lawful) (narrow : ns.Narrow)
  (tree : ns.Tree live parent) (counted : ns.Counted exact none live) (member : dir ∈ live)

include lawful narrow tree counted member

/-- `do_create` keeps the tree sound, whether it succeeds or not. -/
theorem holds_doCreate {perms : Perms} {mode filetype : Nat}
    (absent : ∀ entry ∈ ns.ents dir, entry.name ≠ name) (isFile : LINUX_S_ISDIR mode = false)
    (hasMode : mode ≠ 0) :
    Holds env Good (doCreate perms dir name mode filetype)
      (fun result next => next.Sound exact ∧
        ∀ created, result = .ok created → next.valid created.1 = true) ns := by
  have validDir := (tree.alive_dir member).1
  have sound : ns.Sound exact := ⟨narrow, live, parent, tree, counted⟩
  have failed : ∀ rc : Errcode, ns.Sound exact ∧
      ∀ created : Nat × Inode, Except.error rc = .ok created → ns.valid created.1 = true :=
    fun rc => ⟨sound, fun _ wrong => by cases wrong⟩
  have safe := tree.safe counted
  refine holds_bind (holds_readInodeWrapper validDir fun parentInode _ => ?_)
  dsimp only
  split
  · exact holds_pure (failed _)
  refine holds_bind (holds_newInode (fun ino free => ?_) fun rc _ => holds_pure (failed _))
  have untracked := tree.untracked free
  refine holds_bind (holds_time fun now => ?_)
  have written := SameOn.setInode untracked mode 1
  have marked : ns.SameOn ((ns.setInode ino mode 1).setUsed ino true) live :=
    written.trans SameOn.mark
  refine holds_bind (holds_writeNewInode ?_ ?_ ?_)
  · exact fun _ => ⟨narrow.setInode _ (show 1 < 2 ^ 16 by decide), live, written.safe safe⟩
  · intro valid
    simp only [ne_eq, not_true_eq_false, if_false]
    generalize baseEq : (ns.setInode ino mode 1).setUsed ino true = base at marked
    have baseNarrow : base.Narrow := by
      rw [← baseEq]
      exact narrow.setInode mode (by decide)
    have baseUntracked : ¬ base.Tracked live ino := baseEq ▸ untracked
    have baseAlive : base.Alive ino := by
      subst baseEq
      exact ⟨valid, by simp, by simpa using hasMode⟩
    have baseFile : base.isDir ino = false := by
      rw [← baseEq, setUsed_isDir, setInode_isDir, if_pos rfl]
      exact isFile
    have baseLinks : base.links ino = 1 := by simp [← baseEq]
    have unnamed : base.refs live ino = 0 := refs_eq_zero fun other otherMember entry inEnts same =>
      baseUntracked (.inr ⟨other, otherMember, entry, inEnts, same⟩)
    have baseSafe := marked.safe safe
    refine holds_bind (holds_inodeAllocStats2 valid
      ⟨baseEq ▸ baseNarrow, live, baseEq ▸ baseSafe⟩ ?_)
    rw [baseEq]
    have baseValid : base.valid dir = true := by rw [← baseEq]; exact validDir
    refine holds_bind ((holds_doLink lawful baseNarrow baseSafe member baseValid ?_).mono ?_)
    · intro before after fileType split
      refine baseSafe.insert member split baseAlive (by simp [baseLinks]) ?_ ?_
      · simp [baseFile]
      · intro _
        simp only [unnamed, baseLinks, Nat.zero_add, Nat.le_refl]
    · rintro rc next (⟨rfl, before, after, fileType, split, rfl⟩ | ⟨rfl, rfl⟩)
      · refine holds_pure ⟨⟨baseNarrow, live, parent, ?_, ?_⟩, ?_⟩
        · obtain ⟨notDot, notDotDot⟩ := tree.proper_of_absent member absent
          exact (marked.tree tree).insertFile split (by simp [Dirent.proper, notDot, notDotDot])
            baseAlive baseFile
        · refine ((marked.counted counted).spare_of_untracked baseUntracked).insertFile
            baseSafe.isDir member split baseFile ?_
          simp only [unnamed, baseLinks]
          exact ⟨Nat.le_refl _, fun _ => Nat.le_refl _⟩
        · rintro created ⟨⟩
          exact baseAlive.1
      · refine holds_pure ⟨⟨baseNarrow, live, parent, marked.tree tree, marked.counted counted⟩, ?_⟩
        rintro created ⟨⟩
  · intro rc bad
    rw [if_pos bad]
    exact holds_pure (failed _)

/-- op_create keeps a sound name space sound. -/
theorem holds_opCreate {ctx : FuseCtx} {fuseDir mode : Nat} {flags : OpenFlags}
    (dirEq : EXT2FS_INO fuseDir = dir) (absent : ∀ entry ∈ ns.ents dir, entry.name ≠ name) :
    Holds env Good (opCreate ctx fuseDir name mode flags) (fun _ next => next.Sound exact) ns := by
  have isFile := regular_isFile mode
  have hasMode : LINUX_S_IFREG ||| (mode &&& 0o777) ≠ 0 := by
    intro zero
    have type := regular_mode mode
    rw [zero] at type
    cases type
  simp only [opCreate, dirEq]
  refine holds_bind
    ((holds_doCreate lawful narrow tree counted member absent isFile hasMode).mono ?_)
  rintro (rc | ⟨ino, inode⟩) next ⟨sound, validNew⟩
  · exact holds_pure sound
  · refine holds_bind (holds_doOpen (validNew _ rfl) fun file _ _ => ?_)
    exact holds_bind (holds_super fun _ => holds_pure sound)

/-- op_symlink keeps a sound name space sound. -/
theorem holds_opSymlink {ctx : FuseCtx} {fuseDir : Nat} {link : Name}
    (dirEq : EXT2FS_INO fuseDir = dir) (absent : ∀ entry ∈ ns.ents dir, entry.name ≠ name) :
    Holds env Good (opSymlink ctx link fuseDir name) (fun _ next => next.Sound exact) ns := by
  simp only [opSymlink, dirEq]
  refine holds_bind ((holds_doCreate lawful narrow tree counted member absent (by decide)
    (by decide)).mono ?_)
  rintro (rc | ⟨ino, inode⟩) next ⟨sound, validNew⟩
  · exact holds_pure sound
  · refine holds_bind (holds_doOpen (validNew _ rfl) fun file own agrees => ?_)
    simp only [doWrite, gt_iff_lt, Nat.not_lt_zero, if_false]
    refine holds_bind (holds_writeData own agrees fun rc bytes file' own' agrees' => ?_)
    dsimp only
    split
    · exact holds_pure sound
    · refine holds_bind (holds_bind (holds_fileFlush own' agrees' fun rc _ _ _ => holds_pure ?_))
      split
      · exact holds_pure sound
      · refine holds_bind (holds_super fun _ => ?_)
        split
        · exact holds_pure sound
        · exact holds_pure sound

end Create

section Mkdir

variable {δ : Type} {env : Env δ} {exact : Bool} {ns : Ns} {live : Finset Nat} {parent : Nat → Nat}
  {dir : Nat} {name : Name}

/-- What a try at making a directory leaves behind: on success a sound tree with the
directory, otherwise a new inode at most. -/
def MkdirOutcome (exact : Bool) (ns : Ns) (live : Finset Nat) (rc : Errcode) (next : Ns) : Prop :=
  (rc = 0 ∧ next.Sound exact) ∨ (rc ≠ 0 ∧ ns.SameOn next live)

/-- In `base` the inode `ino` is a new directory of `dir` that no name leads to. The live
directories are as they were in `ns`. -/
structure Unattached (ns base : Ns) (live : Finset Nat) (dir ino : Nat) : Prop where
  same : ns.SameOn base live
  narrow : base.Narrow
  outside : ino ∉ live
  untracked : ¬ base.Tracked live ino
  dots : ∃ fileType, base.ents ino = [⟨dotName, ino, fileType⟩, ⟨dotDotName, dir, fileType⟩]
  isDir : base.isDir ino = true
  alive : base.Alive ino
  links : base.links ino = 2

section Unattached

variable {base : Ns} {ino : Nat}

/-- Marking a free inode, filling its block and writing its record makes an unattached directory. -/
theorem unattached_written (narrow : ns.Narrow) (outside : ino ∉ live)
    (untracked : ¬ (ns.setUsed ino true).Tracked live ino) (valid : ns.valid ino = true)
    {ents : List Dirent} {fileType : Nat}
    (dots : ents = [⟨dotName, ino, fileType⟩, ⟨dotDotName, dir, fileType⟩]) :
    Unattached ns (((ns.setUsed ino true).setEnts ino ents).setInode ino
      (LINUX_S_IFDIR ||| 0o755) 2) live dir ino := by
  have marked : ns.SameOn (ns.setUsed ino true) live := SameOn.mark
  have filled : (ns.setUsed ino true).SameOn ((ns.setUsed ino true).setEnts ino ents) live :=
    SameOn.setEnts outside _
  have filledNarrow : ((ns.setUsed ino true).setEnts ino ents).Narrow := narrow
  have untracked' : ¬ ((ns.setUsed ino true).setEnts ino ents).Tracked live ino := by
    rintro (isLive | ⟨other, otherMember, entry, inEnts, same⟩)
    · exact outside isLive
    · rw [filled.ents other otherMember] at inEnts
      exact untracked (.inr ⟨other, otherMember, entry, inEnts, same⟩)
  exact {
    same := (marked.trans filled).trans (SameOn.setInode untracked' _ _)
    narrow := filledNarrow.setInode _ (by decide)
    outside := outside
    untracked := untracked'
    dots := ⟨fileType, by simp [dots]⟩
    isDir := by
      rw [setInode_isDir, if_pos rfl]
      decide
    alive := ⟨valid, by simp, by simp⟩
    links := by simp }

variable (unattached : Unattached ns base live dir ino) (tree : ns.Tree live parent)
  (counted : ns.Counted exact none live) (member : dir ∈ live)

include unattached tree counted member

/-- With the new directory counted among the live ones all links are safe, and the counts are as
exact as they were. -/
theorem Unattached.adopted : base.Safe (Insert.insert ino live) ∧
    base.Counted exact none (Insert.insert ino live) := by
  obtain ⟨fileType, dots⟩ := unattached.dots
  have baseTree := unattached.same.tree tree
  have baseCounted := unattached.same.counted counted
  have entries : ∀ entry ∈ base.ents ino, base.isDir entry.inode = true ∧
      (entry.inode = ino ∨ entry.inode ∈ live) := by
    intro entry inEnts
    rw [dots] at inEnts
    simp only [List.mem_cons, List.not_mem_nil, or_false] at inEnts
    obtain rfl | rfl := inEnts
    · exact ⟨unattached.isDir, .inl rfl⟩
    · exact ⟨baseTree.isDir dir member, .inr member⟩
  have dirLinks : base.links dir ≠ 0 := by
    have covers := (baseCounted.dir dir member).1
    omega
  constructor
  · refine (unattached.same.safe (tree.safe counted)).adopt unattached.isDir
      fun entry inEnts => ⟨?_, entries entry inEnts⟩
    rw [dots] at inEnts
    simp only [List.mem_cons, List.not_mem_nil, or_false] at inEnts
    obtain rfl | rfl := inEnts
    · exact ⟨unattached.alive, by simp [unattached.links]⟩
    · exact ⟨baseTree.alive_dir member, dirLinks⟩
  · refine baseCounted.adopt unattached.outside (fun entry inEnts => (entries entry inEnts).1) ?_
    have none : base.subdirs ino = 0 := by
      rw [subdirs, dots]
      rfl
    simp only [none, unattached.links]
    exact ⟨Nat.le_refl _, fun _ => Nat.le_refl _⟩

/-- Entering the name of the new directory and raising the parent's count attaches it. -/
theorem Unattached.enters (lawful : env.dir.Lawful) (below : ns.links dir < 65535)
    (notDot : name ≠ dotName) (notDotDot : name ≠ dotDotName) {parentInode : Inode}
    (agrees : ns.Agrees dir parentInode) :
    Holds env Good (do
      let rc ← lift (.link dir name ino EXT2_FT_DIR)
      if rc ≠ 0 then return rc
      lift (.writeInode dir parentInode.raiseLinks)) (MkdirOutcome exact ns live) base := by
  obtain ⟨adopted, adoptedCount⟩ := unattached.adopted tree counted member
  obtain ⟨dotsType, dots⟩ := unattached.dots
  have same := unattached.same
  have baseTree := same.tree tree
  have baseValid : base.valid dir = true := by rw [same.valid]; exact (tree.alive_dir member).1
  have baseIsDir := baseTree.isDir dir member
  refine holds_bind (holds_link lawful baseValid baseIsDir ?_ ?_)
  · intro before after fileType split
    have proper : (⟨name, ino, fileType⟩ : Dirent).proper = true := by
      simp [Dirent.proper, notDot, notDotDot]
    have linkedSafe : (base.setEnts dir (before ++ ⟨name, ino, fileType⟩ :: after)).Safe
        (Insert.insert ino live) :=
      adopted.insert (Finset.mem_insert_of_mem member) split unattached.alive
        (by simp [unattached.links])
        (fun _ => Finset.mem_insert_self _ _) (by simp [unattached.isDir])
    have linkedNarrow : (base.setEnts dir (before ++ ⟨name, ino, fileType⟩ :: after)).Narrow :=
      unattached.narrow
    refine ⟨⟨linkedNarrow, _, linkedSafe⟩, ?_⟩
    rw [if_neg (by simp)]
    have written : parentInode.raiseLinks.iLinksCount = base.links dir + 1 := by
      rw [raiseLinks_count (by rw [agrees.2]; exact below), agrees.2, same.links dir (.inl member)]
    have sameMode : parentInode.raiseLinks.iMode = base.mode dir := by
      rw [raiseLinks_mode, agrees.1, same.mode dir (.inl member)]
    have bound : base.links dir + 1 < 2 ^ 16 := by
      rw [same.links dir (.inl member)]
      omega
    have raised : (base.setInode dir (base.mode dir) (base.links dir + 1)).Counted exact
      (some dir) (Insert.insert ino live) := adoptedCount.raise
    refine holds_writeInode baseValid ?_ ?_
    · rw [written, sameMode]
      refine ⟨linkedNarrow.setInode _ bound, _,
        linkedSafe.setLinks (by omega) fun isFile => ?_⟩
      rw [setEnts_isDir, baseIsDir] at isFile
      cases isFile
    · rw [written, sameMode]
      refine .inl ⟨rfl, linkedNarrow.setInode _ bound, Insert.insert ino live, _,
        (baseTree.makeDir member split proper unattached.alive unattached.isDir
          unattached.untracked dots).setLinks _, ?_⟩
      exact raised.insertDir (by simpa using adopted.isDir)
        (Finset.mem_insert_of_mem member) split (by simpa using unattached.isDir) proper
  · exact holds_pure (.inr ⟨by decide, same⟩)

end Unattached

variable (lawful : env.dir.Lawful)

include lawful

/-- `new_ext2fs_mkdir`. -/
theorem holds_newExt2fsMkdir (narrow : ns.Narrow) (tree : ns.Tree live parent)
    (counted : ns.Counted exact none live) (member : dir ∈ live) (below : ns.links dir < 65535)
    {perms : Perms} :
    Holds env Good (newExt2fsMkdir perms dir name) (MkdirOutcome exact ns live) ns := by
  have dirAlive := tree.alive_dir member
  have safe := tree.safe counted
  have failed : ∀ rc : Errcode, rc ≠ 0 → MkdirOutcome exact ns live rc ns :=
    fun rc bad => .inr ⟨bad, SameOn.refl⟩
  refine holds_bind (holds_newInode (fun ino free => ?_) fun rc bad => holds_pure (failed rc bad))
  have untracked := tree.untracked free
  have outside : ino ∉ live := fun isLive => untracked (.inl isLive)
  refine holds_bind (holds_newBlock (fun blk => ?_) fun rc bad => holds_pure (failed rc bad))
  refine holds_bind (holds_newDirBlock lawful fun contents dotsType dots => ?_)
  refine holds_bind (holds_readInode dirAlive.1 fun parentInode parentAgrees => ?_)
  dsimp only [Except.toOption, Option.getD]
  by_cases denied : checkPermsInInode perms parentInode 2 ≠ 0
  · rw [if_pos denied]
    exact holds_pure (failed _ (by decide))
  rw [if_neg denied]
  refine holds_bind (holds_super fun super => holds_bind (holds_time fun now => ?_))
  refine holds_bind (holds_blockAllocStats ?_)
  refine holds_bind (holds_inodeAllocStats2_any (fun valid => ?_) fun invalid => ?_)
  · -- the inode is marked, its block filled, its record written
    have marked : ns.SameOn (ns.setUsed ino true) live := SameOn.mark
    have filled : ns.SameOn ((ns.setUsed ino true).setEnts ino (env.dir.entries contents)) live :=
      marked.trans (SameOn.setEnts outside _)
    have unattached := unattached_written narrow outside untracked valid dots
    refine ⟨⟨narrow, live, marked.safe safe⟩, ?_⟩
    refine holds_bind (holds_writeDirBlock ⟨narrow, live, filled.safe safe⟩ ?_)
    rw [if_neg (by simp)]
    refine holds_bind (holds_writeNewInode ?_ ?_ fun rc bad => ?_)
    · exact fun _ => ⟨unattached.narrow, live, unattached.same.safe safe⟩
    · intro _
      have baseTree := unattached.same.tree tree
      simp only [ne_eq, not_true_eq_false, if_false]
      refine holds_bind (holds_lookup lawful (by rw [unattached.same.valid]; exact dirAlive.1)
        (baseTree.isDir dir member) (fun entry _ => ?_) fun absent => ?_)
      · exact holds_pure (.inr ⟨by decide, unattached.same⟩)
      · dsimp only
        rw [if_neg (by simp)]
        obtain ⟨notDot, notDotDot⟩ := baseTree.proper_of_absent member (by simpa using absent)
        exact unattached.enters tree counted member lawful below notDot notDotDot parentAgrees
    · rw [if_pos bad]
      exact holds_pure (.inr ⟨bad, filled⟩)
  · have filled : ns.SameOn (ns.setEnts ino (env.dir.entries contents)) live :=
      SameOn.setEnts outside _
    refine holds_bind (holds_writeDirBlock ⟨narrow, live, filled.safe safe⟩ ?_)
    rw [if_neg (by simp)]
    refine holds_bind (holds_writeNewInode (fun valid => ?_) (fun valid => ?_) fun rc bad => ?_)
    · rw [setEnts_valid, invalid] at valid
      cases valid
    · rw [setEnts_valid, invalid] at valid
      cases valid
    · rw [if_pos bad]
      exact holds_pure (.inr ⟨bad, filled⟩)

/-- The loop of `do_mkdir`: a try that found no space has only left an inode behind. -/
theorem holds_mkdirLoop (narrow : ns.Narrow) (tree : ns.Tree live parent)
    (counted : ns.Counted exact none live) (member : dir ∈ live) (below : ns.links dir < 65535)
    {perms : Perms} (bound : Nat) :
    Holds env Good (mkdirLoop perms dir name bound) (MkdirOutcome exact ns live) ns := by
  induction bound generalizing ns with
  | zero => exact holds_pure (.inr ⟨by decide, SameOn.refl⟩)
  | succ bound inductionHypothesis =>
      refine holds_bind ((holds_newExt2fsMkdir lawful narrow tree counted member below).mono ?_)
      intro rc next outcome
      by_cases full : rc = EXT2_ET_DIR_NO_SPACE
      · rw [if_pos full]
        obtain ⟨rfl, -⟩ | ⟨-, same⟩ := outcome
        · cases full
        · refine holds_bind (holds_expandDir lawful fun expanded => ?_)
          by_cases failed : expanded ≠ 0
          · rw [if_pos failed]
            exact holds_pure (.inr ⟨by decide, same⟩)
          · rw [if_neg failed]
            refine holds_of_inv fun good => ?_
            refine (inductionHypothesis good.1 (same.tree tree) (same.counted counted)
              (by rwa [same.links dir (.inl member)])).mono ?_
            rintro rc last (⟨ok, sound⟩ | ⟨bad, again⟩)
            · exact .inl ⟨ok, sound⟩
            · exact .inr ⟨bad, same.trans again⟩
      · rw [if_neg full]
        exact holds_pure outcome

/-- `op_mkdir` keeps the tree sound, whether it succeeds or not. -/
theorem holds_opMkdir (narrow : ns.Narrow) (tree : ns.Tree live parent)
    (counted : ns.Counted exact none live) (member : dir ∈ live) (below : ns.links dir < 65535)
    {ctx : FuseCtx} {fuseDir : Nat} (dirEq : EXT2FS_INO fuseDir = dir) :
    Holds env Good (opMkdir ctx fuseDir name) (fun _ next => next.Sound exact) ns := by
  simp only [opMkdir, doMkdir, doMkdirWithin, dirEq]
  refine holds_bind (holds_bind (holds_super fun super => holds_bind
    ((holds_mkdirLoop lawful narrow tree counted member below _).mono ?_)))
  intro rc next outcome
  have refused : ∀ rc, next.Sound exact → Holds env Good (replyMkdir (.error rc))
      (fun _ last => last.Sound exact) next := by
    intro rc sound
    rw [replyMkdir]
    split
    · exact holds_pure sound
    · exact holds_pure sound
  refine holds_of_inv fun good => ?_
  have sound : next.Sound exact := by
    obtain ⟨-, sound⟩ | ⟨-, same⟩ := outcome
    · exact sound
    · exact ⟨good.1, live, parent, same.tree tree, same.counted counted⟩
  rw [mkdirFinish]
  by_cases failed : rc ≠ 0
  · rw [if_pos failed]
    exact holds_pure (refused rc sound)
  · rw [if_neg failed]
    refine holds_bind (holds_lookup_any fun result => ?_)
    cases result with
    | error rc => exact holds_pure (refused _ sound)
    | ok ino =>
        refine holds_pure (holds_bind (holds_bind (holds_readInode_any ?_ ?_)))
        · intro inode _
          exact holds_pure (holds_bind (holds_super fun _ => holds_pure sound))
        · intro rc
          exact holds_pure (holds_pure sound)

end Mkdir

section Links

/-- The link count of an inode has gone up by one. -/
def Ns.raised (ns : Ns) (ino : Nat) : Ns := ns.setInode ino (ns.mode ino) (ns.links ino + 1)

section Raised

variable {exact : Bool} {ns : Ns} {live : Finset Nat} {parent : Nat → Nat} (ino : Nat)

@[simp] theorem raised_isDir : (ns.raised ino).isDir = ns.isDir := setInode_isDir_of_mode ..

@[simp] theorem raised_inodesCount : (ns.raised ino).inodesCount = ns.inodesCount := rfl

@[simp] theorem raised_mode : (ns.raised ino).mode = ns.mode := by
  simp [Ns.raised]

@[simp] theorem raised_links :
    (ns.raised ino).links = Function.update ns.links ino (ns.links ino + 1) := rfl

@[simp] theorem raised_used : (ns.raised ino).used = ns.used := rfl

@[simp] theorem raised_ents : (ns.raised ino).ents = ns.ents := rfl

@[simp] theorem raised_valid : (ns.raised ino).valid = ns.valid := rfl

/-- A raised count leaves every inode alive. -/
theorem raised_alive {other : Nat} (alive : ns.Alive other) : (ns.raised ino).Alive other := by
  simpa [Alive] using alive

variable {ino}

/-- A raised count still fits when it was below 65535. -/
theorem raised_narrow (narrow : ns.Narrow) (below : ns.links ino < 65535) :
    (ns.raised ino).Narrow :=
  narrow.setInode _ (by omega)

/-- A raised count is no matter of the tree. -/
theorem raised_tree (ino : Nat) (tree : ns.Tree live parent) : (ns.raised ino).Tree live parent :=
  tree.setLinks _

/-- A raised count leaves the counts exact but for a spare one of that inode. -/
theorem raised_counted (ino : Nat) (counted : ns.Counted exact none live) :
    (ns.raised ino).Counted exact (some ino) live :=
  counted.raise

/-- `raiseLinks` of the copy of an inode is what the raised name space has. -/
theorem setInode_raiseLinks {inode : Inode} (agrees : ns.Agrees ino inode)
    (below : ns.links ino < 65535) :
    ns.setInode ino inode.raiseLinks.iMode inode.raiseLinks.iLinksCount = ns.raised ino := by
  rw [raiseLinks_mode, raiseLinks_count (by rw [agrees.2]; exact below), agrees.1,
    agrees.2, Ns.raised]

end Raised

variable {δ : Type} {env : Env δ} {exact : Bool} {ns : Ns} {live : Finset Nat} {parent : Nat → Nat}
  {dir ino : Nat} {name : Name} (lawful : env.dir.Lawful) (narrow : ns.Narrow)
  (tree : ns.Tree live parent) (counted : ns.Counted exact none live) (member : dir ∈ live)

include lawful narrow tree counted member

/-- `do_link` of a file whose count has been raised for it. -/
theorem holds_doLink_raised (properName : name ≠ dotName ∧ name ≠ dotDotName)
    (named : ∃ other ∈ live, ∃ entry ∈ ns.ents other, entry.inode = ino)
    (isFile : ns.isDir ino = false) (below : ns.links ino < 65535) {filetype : Nat} :
    Holds env Good (doLink dir name ino filetype)
      (fun rc next => (rc = 0 ∧ next.Narrow ∧ next.Tree live parent ∧ next.Counted exact none live ∧
          ∃ before after fileType, ns.ents dir = before ++ after ∧
            next = (ns.raised ino).setEnts dir (before ++ ⟨name, ino, fileType⟩ :: after)) ∨
        (rc = EIO ∧ next = ns.raised ino)) (ns.raised ino) := by
  obtain ⟨other, otherMember, found, inEnts, rfl⟩ := named
  have alive := raised_alive found.inode (tree.alive other otherMember found inEnts)
  have covers := counted.file other otherMember found inEnts isFile
  simp only [reduceCtorEq, if_false, Nat.add_zero] at covers
  have raisedNarrow := raised_narrow narrow below
  have raisedTree := raised_tree found.inode tree
  have raisedCounted := raised_counted found.inode counted
  have raisedFile : (ns.raised found.inode).isDir found.inode = false := by
    rw [raised_isDir]
    exact isFile
  have raisedCovers : Covers exact ((ns.raised found.inode).refs live found.inode + 1)
      ((ns.raised found.inode).links found.inode) := by
    rw [raised_links, Function.update_self]
    exact covers.add 1
  have linked : ∀ before after fileType, (ns.raised found.inode).ents dir = before ++ after →
      ((ns.raised found.inode).setEnts dir
        (before ++ ⟨name, found.inode, fileType⟩ :: after)).Tree live parent ∧
      ((ns.raised found.inode).setEnts dir
        (before ++ ⟨name, found.inode, fileType⟩ :: after)).Counted exact none live := by
    intro before after fileType split
    exact ⟨raisedTree.insertFile split (by simp [Dirent.proper, properName]) alive raisedFile,
      raisedCounted.insertFile raisedTree.isDir member split raisedFile raisedCovers⟩
  refine (holds_doLink lawful raisedNarrow (raisedTree.safe raisedCounted) member
    (raisedTree.alive_dir member).1 ?_).mono ?_
  · intro before after fileType split
    obtain ⟨linkedTree, linkedCounted⟩ := linked before after fileType split
    exact linkedTree.safe linkedCounted
  · rintro rc next (⟨rfl, before, after, fileType, split, rfl⟩ | failed)
    · obtain ⟨linkedTree, linkedCounted⟩ := linked before after fileType split
      exact .inl ⟨rfl, raisedNarrow, linkedTree, linkedCounted, before, after, fileType, split, rfl⟩
    · exact .inr failed

/-- `op_link` of a file that has a name already. -/
theorem holds_opLink {ctx : FuseCtx} {fuseIno fuseDir : Nat} (inoEq : EXT2FS_INO fuseIno = ino)
    (dirEq : EXT2FS_INO fuseDir = dir) (absent : ∀ entry ∈ ns.ents dir, entry.name ≠ name)
    (named : ∃ other ∈ live, ∃ entry ∈ ns.ents other, entry.inode = ino)
    (isFile : ns.isDir ino = false) (below : ns.links ino < 65535) :
    Holds env Good (opLink ctx fuseIno fuseDir name) (fun _ next => next.Sound exact) ns := by
  have safe := tree.safe counted
  have alive : ns.Alive ino := by
    obtain ⟨other, otherMember, entry, inEnts, rfl⟩ := named
    exact tree.alive other otherMember entry inEnts
  have raisedNarrow := raised_narrow narrow below
  have raisedSafe := (raised_tree ino tree).safe (raised_counted ino counted)
  simp only [opLink, inoEq, dirEq, checkPerms, doPermissionsChecks, Bool.not_false, if_true]
  refine holds_bind (holds_pure ?_)
  rw [if_neg (by simp)]
  refine holds_bind (holds_readInodeWrapper alive.1 fun inode agrees => ?_)
  dsimp only
  have raise := setInode_raiseLinks agrees below
  refine holds_bind (holds_writeInodeWrapper alive.1 ?_ ?_)
  · rw [raise]
    exact ⟨raisedNarrow, live, raisedSafe⟩
  rw [raise, if_neg (by simp)]
  refine holds_bind ((holds_doLink_raised lawful narrow tree counted member
    (tree.proper_of_absent member absent) named isFile below).mono ?_)
  rintro rc next (⟨rfl, nextNarrow, nextTree, nextCounted, -⟩ | ⟨rfl, rfl⟩)
  · rw [if_neg (by simp)]
    exact holds_bind (holds_super fun _ =>
      holds_pure ⟨nextNarrow, live, parent, nextTree, nextCounted⟩)
  · rw [if_pos (by decide)]
    have count : inode.raiseLinks.iLinksCount = ns.links ino + 1 := by
      rw [raiseLinks_count (by rw [agrees.2]; exact below), agrees.2]
    have same : (ns.raised ino).setInode ino inode.raiseLinks.lowerLinks.iMode
        inode.raiseLinks.lowerLinks.iLinksCount = ns := by
      rw [lowerLinks_count (by omega) (by omega), count, lowerLinks_mode, raiseLinks_mode, agrees.1]
      simp [Ns.raised, Ns.setInode]
    have raisedValid : (ns.raised ino).valid ino = true := alive.1
    refine holds_bind (holds_writeInodeWrapper raisedValid ?_ ?_)
    · rw [same]
      exact ⟨narrow, live, safe⟩
    · rw [same, if_neg (by simp)]
      exact holds_pure ⟨narrow, live, parent, tree, counted⟩

end Links

end Ext2Fuse
