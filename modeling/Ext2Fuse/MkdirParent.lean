import Ext2Fuse.MkdirTakes

/-!
# The parent of a new directory

`new_ext2fs_mkdir` reads the inode of the parent before `ext2fs_link` drops its hash-index flag,
and writes this copy back with one link more.
-/

namespace Ext2Fuse

open Lib Program Fs Volume

variable {δ : Type}

/-- The inode with one link more. -/
def Inode.oneMore (inode : Inode) : Inode := { inode with iLinksCount := inode.iLinksCount + 1 }

/-- The call enters `name` in `parent`, and `last` is the inode it leaves the parent with, with one
link more. -/
def EntersUnder (env : Env δ) (parent : Nat) (name : Name) (last : Inode) :
    (β : Type) → LibCall δ β → Fs δ → Prop
  | _, .link dir nm ino flags, fs => dir = parent ∧ nm = name ∧
      (fs.ext2fsLink env dir nm ino flags).1 = 0 ∧
        last = ((fs.ext2fsLink env dir nm ino flags).2.inodeTab parent).oneMore
  | _, _, _ => False

section Parent

variable {env : Env δ} {fs fs' : Fs δ} {parent : Nat} {name : Name}

/-- What `ext2fs_link` does to the inode of the directory. -/
theorem ext2fsLink_inode (ino flags : Nat) :
    ((fs.ext2fsLink env parent name ino flags).1 = 0 ∧ fs.validIno parent = true ∧
        (fs.ext2fsLink env parent name ino flags).2.inodeTab =
          Function.update fs.inodeTab parent (fs.inodeTab parent).unindexed) ∨
      ((fs.ext2fsLink env parent name ino flags).1 ≠ 0 ∧
        (fs.ext2fsLink env parent name ino flags).2.inodeTab = fs.inodeTab) := by
  by_cases checked : fs.ext2fsCheckDirectory parent = 0
  · rw [ext2fsLink_eq checked]
    by_cases done : (env.dir.link (fs.dirs parent) name ino
      (if fs.super.filetype then flags % 8 else 0)).1 = 0
    · exact .inl ⟨done, (ext2fsCheckDirectory_ok checked).1, if_pos done⟩
    · exact .inr ⟨done, if_neg done⟩
  · rw [ext2fsLink, if_neg checked]
    exact .inr ⟨checked, rfl⟩

variable (env parent name) in
/-- The run leaves the parent with one link more than it had at a moment `then`, at which its flags
and its count were those of `first` and the name was entered; or it fails, and enters nothing. -/
def ParentLeft (first : Inode) (program : Prog δ Errcode) (fs : Fs δ) : Prop :=
  let outcome := program.run (lib env) fs
  (outcome.1 = 0 ∧ ∃ entered : Inode, entered.unsized = first.unsized ∧
      outcome.2.inodeTab parent = entered.raiseLinks ∧
      ∀ last, Performs (lib env) (EntersUnder env parent name last) program fs ↔
        last = entered.unindexed.oneMore) ∨
    (outcome.1 ≠ 0 ∧ (outcome.2.inodeTab parent).unsized = first.unsized ∧
      ∀ last, ¬ Performs (lib env) (EntersUnder env parent name last) program fs)

variable {first : Inode}

theorem parentLeft_error {rc : Errcode} (failed : rc ≠ 0)
    (same : (fs.inodeTab parent).unsized = first.unsized) :
    ParentLeft env parent name first (pure rc) fs :=
  .inr ⟨failed, same, fun _ => id⟩

/-- A call that enters nothing. -/
theorem parentLeft_call {β : Type} {operation : LibCall δ β} {rest : β → Prog δ Errcode}
    (other : ∀ last, ¬ EntersUnder env parent name last β operation fs)
    (left : ParentLeft env parent name first (rest ((lib env).exec operation fs).1)
      ((lib env).exec operation fs).2) :
    ParentLeft env parent name first (lift operation >>= rest) fs := by
  simp only [ParentLeft, performs_lift_bind (other _), run_bind, run_lift]
  exact left

/-- A routine and, if it fails, another one. -/
theorem parentLeft_bind {program : Prog δ Errcode} {rest : Errcode → Prog δ Errcode}
    (same : (fs.inodeTab parent).unsized = first.unsized)
    (left : ParentLeft env parent name (fs.inodeTab parent) program fs) (stops : rest 0 = pure 0)
    (again : ∀ rc next, program.run (lib env) fs = (rc, next) → rc ≠ 0 →
      (next.inodeTab parent).unsized = first.unsized → ParentLeft env parent name first
      (rest rc) next) :
    ParentLeft env parent name first (program >>= rest) fs := by
  simp only [ParentLeft, performs_bind, run_bind] at left ⊢
  generalize outcome : program.run (lib env) fs = result at left ⊢
  obtain ⟨rc, next⟩ := result
  dsimp only at left ⊢
  rcases left with ⟨rfl, entered, sized, left, entering⟩ | ⟨failed, sized, without⟩
  · rw [stops]
    exact .inl ⟨rfl, entered, sized.trans same, left, fun last => by
      rw [performs_pure, or_false, entering]⟩
  · simp only [without, false_or]
    exact again rc next outcome failed (sized.trans same)

/-- A call that enters nothing and whose error is returned. -/
theorem parentLeft_guard {operation : LibCall δ Errcode} {rest : Prog δ Errcode}
    (other : ∀ last, ¬ EntersUnder env parent name last Errcode operation fs)
    (same : (((lib env).exec operation fs).2.inodeTab parent).unsized = first.unsized)
    (left : ParentLeft env parent name first rest ((lib env).exec operation fs).2) :
    ParentLeft env parent name first
      (lift operation >>= fun rc => if rc ≠ 0 then pure rc else rest) fs := by
  refine parentLeft_call other ?_
  by_cases failed : ((lib env).exec operation fs).1 ≠ 0
  · rw [if_pos failed]
    exact parentLeft_error failed same
  · rw [if_neg failed]
    exact left

theorem written_parent {parentInode : Inode} (valid : fs.validIno parent = true) :
    (fs.ext2fsWriteInode parent parentInode).1 = 0 ∧
      (fs.ext2fsWriteInode parent parentInode).2.inodeTab parent = parentInode := by
  rw [ext2fsWriteInode, if_pos valid]
  exact ⟨rfl, Function.update_self _ _ _⟩

/-- The entry is made, and the copy read before is written back. -/
theorem parentLeft_enter {ino : Nat} {parentInode : Inode}
    (read : fs.validIno parent = true → parentInode = fs.inodeTab parent) :
    ParentLeft env parent name (fs.inodeTab parent) (do
      let rc ← lift (.link parent name ino EXT2_FT_DIR)
      if rc ≠ 0 then return rc
      lift (.writeInode parent parentInode.raiseLinks)) fs := by
  have linking : ∀ last, EntersUnder env parent name last Errcode
    (.link parent name ino EXT2_FT_DIR) fs ↔
      (fs.ext2fsLink env parent name ino EXT2_FT_DIR).1 = 0 ∧
        last = ((fs.ext2fsLink env parent name ino EXT2_FT_DIR).2.inodeTab parent).oneMore :=
    fun last => ⟨fun ⟨_, _, entered, same⟩ => ⟨entered, same⟩,
      fun ⟨entered, same⟩ => ⟨rfl, rfl, entered, same⟩⟩
  have linked : (lib env).exec (.link parent name ino EXT2_FT_DIR) fs =
    fs.ext2fsLink env parent name ino EXT2_FT_DIR := rfl
  have writing : ∀ last later, ¬ EntersUnder env parent name last Errcode
    (.writeInode parent parentInode.raiseLinks) later := fun _ _ => id
  simp only [ParentLeft, performs_bind, performs_lift, linking, run_bind, run_lift, linked]
  rcases @ext2fsLink_inode _ env fs parent name ino
    EXT2_FT_DIR with ⟨entered, valid, table⟩ | ⟨failed, table⟩
  · have here : (fs.ext2fsLink env parent name ino EXT2_FT_DIR).2.inodeTab parent =
        (fs.inodeTab parent).unindexed := by rw [table, Function.update_self]
    have validNext : (fs.ext2fsLink env parent name ino EXT2_FT_DIR).2.validIno parent = true := by
      rw [validIno_congr (sameInodes_link fs parent name ino EXT2_FT_DIR).1]
      exact valid
    obtain ⟨wrote, left⟩ := @written_parent _ _ parent parentInode.raiseLinks validNext
    rw [if_neg (not_not.mpr entered), run_lift, lib_writeInode, here]
    refine .inl ⟨wrote, fs.inodeTab parent, rfl, by rw [left, read valid], fun last => ?_⟩
    rw [performs_lift, or_iff_left (writing _ _), and_iff_right entered]
  · rw [if_pos failed]
    refine .inr ⟨failed, by rw [run_pure, table], fun last => ?_⟩
    rw [performs_pure, or_false]
    exact fun ⟨entered, _⟩ => failed entered

/-- A name that cannot be found: it is not in the directory, or there is no directory. -/
theorem lookup_error (lawful : env.dir.Lawful) {rc : Errcode}
    (looked : fs.ext2fsLookup env parent name = .error rc) :
    (rc = EXT2_ET_FILE_NOT_FOUND ∧ fs.ext2fsCheckDirectory parent = 0 ∧
        (env.dir.entries (fs.dirs parent)).find? (fun entry => entry.name == name) = none) ∨
      rc = EXT2_ET_BAD_INODE_NUM ∨ rc = EXT2_ET_NO_DIRECTORY := by
  rw [ext2fsLookup, lawful.lookup_eq] at looked
  split at looked
  · rename_i isDir
    split at looked
    · cases looked
    · rename_i absent
      cases looked
      exact .inl ⟨rfl, isDir, absent⟩
  · rename_i failed
    cases looked
    exact .inr ((ext2fsCheckDirectory_code fs parent).resolve_left failed)

/-- `new_ext2fs_mkdir` once its own inode is taken, which is not the parent. -/
theorem parentLeft_mkdirEnter (lawful : env.dir.Lawful) {ino blk : Nat}
    (apart : parent ≠ ino) (block : δ) (inode : Inode) {parentInode : Inode}
    (read : fs.validIno parent = true → parentInode = fs.inodeTab parent) :
    ParentLeft env parent name (fs.inodeTab parent)
      (mkdirEnter parent name ino blk block inode parentInode) fs := by
  refine parentLeft_guard (fun _ => id) rfl ?_
  have same : ∀ later : Fs δ, (later.ext2fsWriteInode ino inode).2.inodeTab parent =
    later.inodeTab parent := by
    intro later
    rw [ext2fsWriteInode]
    split
    · exact Function.update_of_ne apart _ _
    · rfl
  have entering := same { fs with dirs := Function.update fs.dirs ino block }
  refine parentLeft_guard (fun _ => id) (congrArg Inode.unsized entering) ?_
  refine parentLeft_call (fun _ => id) ?_
  generalize written : ((lib env).exec (.writeNewInode ino inode)
    ((lib env).exec (.writeDirBlock ino blk block) fs).2).2 = later
  have table : later.inodeTab parent = fs.inodeTab parent := by
    rw [← written]
    exact entering
  have valid : later.validIno parent = fs.validIno parent := by
    rw [← written]
    exact validIno_congr (sameInodes_writeInode _ ino inode).1 parent
  rw [← table]
  rw [lib_lookup]
  dsimp only
  cases looked : later.ext2fsLookup env parent name with
  | ok _ => exact parentLeft_error (by decide) rfl
  | error rc =>
      by_cases missing : rc ≠ EXT2_ET_FILE_NOT_FOUND
      · dsimp only
        rw [if_pos missing]
        rcases lookup_error lawful looked with ⟨rfl, -⟩ | rfl | rfl
        · exact absurd rfl missing
        · exact parentLeft_error (by decide) rfl
        · exact parentLeft_error (by decide) rfl
      · dsimp only
        rw [if_neg missing]
        exact parentLeft_enter fun stillValid =>
          (read (valid.symm.trans stillValid)).trans table.symm

/-- A turn leaves of the parent what was read before its entry was made. -/
theorem parentLeft_newExt2fsMkdir (lawful : env.dir.Lawful) (perms : Perms)
    (inUse : fs.inodeMap parent = true) :
    ParentLeft env parent name (fs.inodeTab parent) (newExt2fsMkdir perms parent name) fs := by
  rw [newExt2fsMkdir_eq]
  refine parentLeft_call (fun _ => id) ?_
  rw [lib_newInode]
  dsimp only
  cases picked : fs.ext2fsNewInode parent with
  | error rc =>
      rw [newInode_code picked]
      exact parentLeft_error (by decide) rfl
  | ok ino =>
  have apart : parent ≠ ino := by
    rintro rfl
    have free := newInode_free picked
    rw [inUse] at free
    cases free
  refine parentLeft_call (fun _ => id) ?_
  rw [lib_newBlock]
  dsimp only
  cases fresh : fs.vol.ext2fsNewBlock 0 with
  | error rc =>
      rw [newBlock_code fresh]
      exact parentLeft_error (by decide) rfl
  | ok blk =>
  refine parentLeft_call (fun _ => id) (parentLeft_call (fun _ => id) ?_)
  split
  · exact parentLeft_error (by decide) rfl
  refine parentLeft_call (fun _ => id) (parentLeft_call (fun _ => id) ?_)
  refine parentLeft_call (fun _ => id) (parentLeft_call (fun _ => id) ?_)
  refine parentLeft_mkdirEnter lawful apart _ _ fun valid => ?_
  change (fs.ext2fsReadInode parent).toOption.getD {} = fs.inodeTab parent
  have validBefore : fs.validIno parent = true := valid
  rw [ext2fsReadInode, if_pos validBefore]
  rfl

/-- So does the loop, whose turns keep all but the size. -/
theorem parentLeft_mkdirLoop (lawful : env.dir.Lawful) (perms : Perms) (bound : Nat)
    (inUse : fs.inodeMap parent = true) (same : (fs.inodeTab parent).unsized = first.unsized) :
    ParentLeft env parent name first (mkdirLoop perms parent name bound) fs := by
  induction bound generalizing fs with
  | zero => exact parentLeft_error (by decide) same
  | succ bound inductionHypothesis =>
      change ParentLeft _ _ _ _
        (newExt2fsMkdir perms parent name >>= mkdirRetry perms parent name bound) fs
      refine parentLeft_bind same (parentLeft_newExt2fsMkdir lawful perms inUse) rfl ?_
      intro rc next outcome failed unchanged
      have later := (newExt2fsMkdir_later perms inUse).outcome outcome
      rw [mkdirRetry]
      split
      · have expanded := @later_expandDir _ env next parent
        have sized := (ext2fsExpandDir_frame env next parent parent).2.2.trans unchanged
        refine parentLeft_call (fun _ => id) ?_
        split
        · exact parentLeft_error (by decide) sized
        · exact inductionHypothesis ((later.trans expanded).used parent inUse) sized
      · exact parentLeft_error failed unchanged

/-- The lookup at the end of `do_mkdir` enters nothing. -/
theorem not_performs_mkdirFinish (rc : Errcode) (last : Inode) (later : Fs δ) :
    ¬ Performs (lib env) (EntersUnder env parent name last) (mkdirFinish parent name rc) later := by
  rw [mkdirFinish]
  split
  · exact id
  · change ¬ Performs (lib env) _ (lift (.lookup parent name) >>= _) later
    rw [performs_lift_bind id]
    split
    · exact id
    · exact id

/-- What a successful `do_mkdir` leaves the parent as, and what `ext2fs_link` had left it as. -/
theorem doMkdir_parent (lawful : env.dir.Lawful) {perms : Perms} {ino : Nat}
    (inUse : fs.inodeMap parent = true)
    (made : (doMkdir perms parent name).run (lib env) fs = (.ok ino, fs')) :
    ∃ entered : Inode, entered.unsized = (fs.inodeTab parent).unsized ∧
      fs'.inodeTab parent = entered.raiseLinks ∧
      ∀ last, Performs (lib env) (EntersUnder env parent name last) (doMkdir perms parent name) fs ↔
        last = entered.unindexed.oneMore := by
  have looped := @parentLeft_mkdirLoop _ env fs parent name (fs.inodeTab parent) lawful perms
    (fs.super.sInodesCount + 1) inUse rfl
  have program : (doMkdir perms parent name : Prog δ _) = lift .super >>= fun super =>
    mkdirLoop perms parent name (super.sInodesCount + 1) >>= mkdirFinish parent name := rfl
  have performs : ∀ last, Performs (lib env) (EntersUnder env parent name last)
    (doMkdir perms parent name) fs ↔
      Performs (lib env) (EntersUnder env parent name last)
        (mkdirLoop perms parent name (fs.super.sInodesCount + 1)) fs := by
    intro last
    rw [program, performs_lift_bind id, lib_super, performs_bind,
      or_iff_left (not_performs_mkdirFinish _ _ _)]
  rw [program, run_bind, run_lift, lib_super, run_bind] at made
  unfold ParentLeft at looped
  generalize (mkdirLoop perms parent name (fs.super.sInodesCount + 1) : Prog δ
    Errcode).run (lib env) fs =
    outcome at looped made
  obtain ⟨rc, next⟩ := outcome
  rcases looped with ⟨rfl, entered, sized, left, entering⟩ | ⟨failed, -, -⟩
  · dsimp only at made left
    rw [mkdirFinish, if_neg (by simp), run_bind, run_lift, lib_lookup] at made
    have final : next = fs' := by
      cases looked : next.ext2fsLookup env parent name with
      | error rc => rw [looked] at made; cases made
      | ok number => rw [looked] at made; cases made; rfl
    rw [← final]
    exact ⟨entered, sized, left, fun last => (performs last).trans (entering last)⟩
  · dsimp only at failed made
    rw [mkdirFinish, if_pos failed] at made
    cases made

end Parent

/-- Writing back what was read before the link is no loss: no flag was dropped, and the count has
room. -/
theorem raiseLinks_eq_iff {inode : Inode} (narrow : inode.iLinksCount < 2 ^ 16) :
    inode.raiseLinks = inode.unindexed.oneMore ↔
      inode.iFlags &&& EXT2_INDEX_FL = 0 ∧ inode.iLinksCount ≠ 2 ^ 16 - 1 := by
  have count : (inode.iLinksCount + 1) % 2 ^ 16 = inode.iLinksCount + 1 ↔
      inode.iLinksCount ≠ 2 ^ 16 - 1 := by omega
  by_cases indexed : inode.iFlags &&& EXT2_INDEX_FL ≠ 0
  · refine iff_of_false (fun same => ?_) fun room => indexed room.1
    have flags := congrArg Inode.iFlags same
    rw [Inode.unindexed, if_pos indexed] at flags
    change inode.iFlags = inode.iFlags - EXT2_INDEX_FL at flags
    have zero : inode.iFlags = 0 := by
      simp only [EXT2_INDEX_FL] at flags
      omega
    rw [zero, Nat.zero_and] at indexed
    exact indexed rfl
  · rw [Inode.unindexed, if_neg indexed, and_iff_right (not_not.mp indexed), ← count]
    constructor
    · exact congrArg Inode.iLinksCount
    · intro same
      rw [Inode.raiseLinks, same]
      rfl

theorem fields_of_unsized {inode inode' : Inode} (same : inode.unsized = inode'.unsized) :
    inode.iFlags = inode'.iFlags ∧ inode.iLinksCount = inode'.iLinksCount := by
  have flags := congrArg Inode.iFlags same
  have count := congrArg Inode.iLinksCount same
  exact ⟨flags, count⟩

/-- `do_mkdir` leaves the parent as `ext2fs_link` left it, with one link more, exactly when there
was no hash-index flag to drop and the count is not at its limit. -/
theorem mkdir_parent_iff {env : Env δ} (lawful : env.dir.Lawful) {fs fs' : Fs δ} {perms : Perms}
    {parent ino : Nat} {name : Name} (inUse : fs.inodeMap parent = true)
    (narrow : (fs.inodeTab parent).iLinksCount < 2 ^ 16)
    (made : (doMkdir perms parent name).run (lib env) fs = (.ok ino, fs')) :
    Performs (lib env) (EntersUnder env parent name (fs'.inodeTab parent))
      (doMkdir perms parent name) fs ↔
      (fs.inodeTab parent).iFlags &&& EXT2_INDEX_FL = 0 ∧
      (fs.inodeTab parent).iLinksCount ≠ 2 ^ 16 - 1 := by
  obtain ⟨entered, sized, left, entering⟩ := doMkdir_parent lawful inUse made
  obtain ⟨flags, count⟩ := fields_of_unsized sized
  rw [entering, left, raiseLinks_eq_iff (by rw [count]; exact narrow), flags, count]

/-- The root with its entries hashed. -/
def indexedRoot : Fs (List Dirent) :=
  { twoFiles with
    inodeTab := Function.update twoFiles.inodeTab 2
      { twoFiles.inodeTab 2 with iFlags := EXT2_INDEX_FL } }

/-- A directory made in the example's root, which has no index flag. -/
theorem mkdir_parent_plain :
    let outcome := (doMkdir (some ⟨0, 0⟩) 2 [0x63]).run (lib listEnv) twoFiles
    Performs (lib listEnv) (EntersUnder listEnv 2 [0x63] (outcome.2.inodeTab 2))
      (doMkdir (some ⟨0, 0⟩) 2 [0x63]) twoFiles :=
  (@mkdir_parent_iff _ listEnv listDir_lawful twoFiles _ _ 2 13 [0x63] (by decide)
    (by decide) rfl).mpr (by decide)

/-- `ext2fs_link` drops the hash-index flag of the root, and `new_ext2fs_mkdir` sets it again. -/
theorem mkdir_restores_index :
    let outcome := (doMkdir (some ⟨0, 0⟩) 2 [0x63]).run (lib listEnv) indexedRoot
    outcome.1 = .ok 13 ∧ (outcome.2.inodeTab 2).iFlags = EXT2_INDEX_FL ∧
      ¬ Performs (lib listEnv) (EntersUnder listEnv 2 [0x63] (outcome.2.inodeTab 2))
        (doMkdir (some ⟨0, 0⟩) 2 [0x63]) indexedRoot := by
  intro outcome
  have made : outcome.1 = .ok 13 := rfl
  obtain ⟨entered, sized, left, entering⟩ :=
    @doMkdir_parent _ listEnv indexedRoot outcome.2 2 [0x63]
    listDir_lawful (some ⟨0, 0⟩) 13 (by decide) (Prod.ext made rfl)
  obtain ⟨flags, count⟩ : entered.iFlags = EXT2_INDEX_FL ∧ entered.iLinksCount = 2 :=
    fields_of_unsized sized
  refine ⟨made, by rw [left]; exact flags, ?_⟩
  rw [entering, left, raiseLinks_eq_iff (by rw [count]; decide), flags]
  exact fun plain => absurd plain.1 (by decide)

end Ext2Fuse
