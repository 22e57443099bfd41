import Ext2Fuse.FailedCreates

/-!
# What mkdir takes

`new_ext2fs_mkdir` marks an inode and a block before it looks whether the name is free and
whether it can be entered, and no error exit gives them back; `do_mkdir` calls it again
after expanding the parent.
-/

namespace Ext2Fuse

open Lib Program Fs Ns Volume

variable {δ : Type}

/-- `new_ext2fs_mkdir` once the inode and the block are taken: they are written, and the name is
entered. -/
def mkdirEnter (parent : Nat) (name : Name) (ino blk : Nat) (block : δ)
    (inode parentInode : Inode) :
    Prog δ Errcode := do
  let rc ← lift (.writeDirBlock ino blk block)
  if rc ≠ 0 then return rc
  let rc ← lift (.writeNewInode ino inode)
  if rc ≠ 0 then return rc
  match ← lift (.lookup parent name) with
  | .ok _ => return EXT2_ET_DIR_EXISTS
  | .error rc =>
  if rc ≠ EXT2_ET_FILE_NOT_FOUND then return rc
  let rc ← lift (.link parent name ino EXT2_FT_DIR)
  if rc ≠ 0 then return rc
  lift (.writeInode parent parentInode.raiseLinks)

/-- The routine with its last part named. -/
theorem newExt2fsMkdir_eq (perms : Perms) (parent : Nat) (name : Name) :
    (newExt2fsMkdir perms parent name : Prog δ Errcode) = (do
      match ← lift (.newInode parent) with
      | .error rc => return rc
      | .ok ino =>
      match ← lift (.newBlock 0) with
      | .error rc => return rc
      | .ok blk =>
      match ← lift (.newDirBlock ino parent) with
      | .error rc => return rc
      | .ok block =>
      let parentInode := (← lift (.readInode parent)).toOption.getD {}
      if checkPermsInInode perms parentInode 2 ≠ 0 then return EACCES
      let super ← lift .super
      let now ← lift .time
      lift (.blockAllocStats blk true)
      lift (.inodeAllocStats2 ino true true)
      mkdirEnter parent name ino blk block { setPerms perms {} with
        iMode := LINUX_S_IFDIR ||| 0o755
        iBlocks := super.blocksize / 512
        iBlock := Function.update (fun _ => 0) 0 blk
        iLinksCount := 2
        iCtime := now, iAtime := now, iMtime := now
        iSize := super.blocksize } parentInode) := rfl

/-- The filesystem with an inode and a block taken for a directory. -/
def Fs.taken (fs : Fs δ) (ino blk : Nat) : Fs δ :=
  ({ fs.advance with vol := fs.advance.vol.ext2fsBlockAllocStats blk true } : Fs
    δ).ext2fsInodeAllocStats2
    ino true true

section Inodes

variable {env : Env δ} {fs : Fs δ} {faults : List (Option Fault)} {parent : Nat} {name : Name}

/-- The calls of `do_mkdir`; none of them frees an inode. -/
def LibCall.ofMkdir {β : Type} : LibCall δ β → Bool
  | .time | .super | .readInode _ | .writeInode _ _ | .writeNewInode _ _ | .newInode _ | .newBlock _
  | .newDirBlock _ _ | .writeDirBlock _ _ _ | .lookup _ _ | .link _ _ _ _ | .expandDir _ => true
  | .blockAllocStats _ inuse => inuse
  | .inodeAllocStats2 _ inuse _ => inuse
  | _ => false

/-- No call of do_mkdir gives an inode back. -/
theorem exec_used {β : Type} {operation : LibCall δ β}
    (ofMkdir : operation.ofMkdir = true) {ino : Nat}
    (used : fs.inodeMap ino = true) : ((lib env).exec operation fs).2.inodeMap ino = true := by
  cases operation with
  | writeInode ino inode => rw [lib_writeInode, (sameInodes_writeInode fs ino inode).2]; exact used
  | writeNewInode ino inode =>
      change (fs.ext2fsWriteInode ino inode).2.inodeMap _ = true
      rw [(sameInodes_writeInode fs ino inode).2]
      exact used
  | link dir name ino flags =>
      change (fs.ext2fsLink env dir name ino flags).2.inodeMap _ = true
      rw [(sameInodes_link fs dir name ino flags).2]
      exact used
  | expandDir dir =>
      change (fs.ext2fsExpandDir env dir).2.inodeMap _ = true
      rw [(sameInodes_expandDir fs dir).2]
      exact used
  | inodeAllocStats2 other inuse isdir =>
      cases inuse with
      | false => cases ofMkdir
      | true => exact (@later_inodeAllocStats2 δ fs ino other isdir).used ino used
  | blockAllocStats blk inuse => exact used
  | time => exact used
  | super => exact used
  | readInode ino => exact used
  | newInode dir => exact used
  | newBlock goal => exact used
  | newDirBlock ino parent => exact used
  | writeDirBlock ino blk contents => exact used
  | lookup dir name => exact used
  | _ => cases ofMkdir

/-- A call of do_mkdir keeps an inode used, failing or not. -/
theorem keeps_used {β : Type} {operation : LibCall δ β}
    (ofMkdir : operation.ofMkdir = true) (ino : Nat) :
    Keeps (faultyLib env) (fun state => state.1.inodeMap ino = true) (lift operation) :=
  @keeps_faulty_dirs δ β env operation (fun fs => fs.inodeMap ino = true)
    (fun _ used => exec_used ofMkdir used) fun _ used => used

/-- So does the last part of a turn. -/
theorem keeps_used_mkdirEnter (new blk : Nat) (block : δ) (inode parentInode : Inode) (ino : Nat) :
    Keeps (faultyLib env) (fun state => state.1.inodeMap ino = true)
      (mkdirEnter parent name new blk block inode parentInode) := by
  refine keeps_bind (keeps_used rfl ino) fun _ => keeps_ite (keeps_pure _) ?_
  refine keeps_bind (keeps_used rfl ino) fun _ => keeps_ite (keeps_pure _) ?_
  refine keeps_bind (keeps_used rfl ino) fun present => ?_
  cases present with
  | ok _ => exact keeps_pure _
  | error rc =>
      refine keeps_ite (keeps_pure _) (keeps_bind (keeps_used rfl ino) fun _ => ?_)
      exact keeps_ite (keeps_pure _) (keeps_used rfl ino)

/-- So does a turn. -/
theorem keeps_used_newExt2fsMkdir (perms : Perms) (ino : Nat) :
    Keeps (faultyLib env) (fun state => state.1.inodeMap ino = true)
      (newExt2fsMkdir perms parent name) := by
  rw [newExt2fsMkdir_eq]
  refine keeps_bind (keeps_used rfl ino) fun picked => ?_
  cases picked with
  | error rc => exact keeps_pure _
  | ok new =>
      refine keeps_bind (keeps_used rfl ino) fun fresh => ?_
      cases fresh with
      | error rc => exact keeps_pure _
      | ok blk =>
          refine keeps_bind (keeps_used rfl ino) fun built => ?_
          cases built with
          | error rc => exact keeps_pure _
          | ok block =>
              refine keeps_bind (keeps_used rfl ino) fun _ => ?_
              refine keeps_ite (keeps_pure _) (keeps_bind (keeps_used rfl ino) fun _ => ?_)
              refine keeps_bind (keeps_used rfl ino)
                fun _ => keeps_bind (keeps_used rfl ino) fun _ => ?_
              exact keeps_bind (keeps_used rfl ino) fun _ => keeps_used_mkdirEnter new blk _ _ _ ino

/-- So does the loop. -/
theorem keeps_used_mkdirLoop (perms : Perms) (bound ino : Nat) :
    Keeps (faultyLib env) (fun state => state.1.inodeMap ino = true)
      (mkdirLoop perms parent name bound) := by
  induction bound with
  | zero => exact keeps_pure _
  | succ bound inductionHypothesis =>
      refine keeps_bind (keeps_used_newExt2fsMkdir perms ino) fun _ => keeps_ite ?_ (keeps_pure _)
      exact keeps_bind (keeps_used rfl ino) fun _ => keeps_ite (keeps_pure _) inductionHypothesis

/-- Where nothing is taken: there is no inode, no block or no memory for the first block of the
directory, or the caller may not write to the parent. -/
def MkdirBlocked (perms : Perms) (parent : Nat) (parentInode : Inode) (fs : Fs δ)
    (faults : List (Option Fault)) : Prop :=
  Fails faults 0 ∨ (∀ new, fs.ext2fsNewInode parent ≠ .ok new) ∨ Fails faults 1 ∨
    (∀ blk, fs.vol.ext2fsNewBlock 0 ≠ .ok blk) ∨ Fails faults 2 ∨
    checkPermsInInode perms parentInode W_OK ≠ 0

/-- The copy of the parent's inode that `new_ext2fs_mkdir` works with. -/
def parentRead (env : Env δ) (parent : Nat) (fs : Fs δ) (faults : List (Option Fault)) : Inode :=
  ((faultyLib env).exec (.readInode parent) (fs, faults.drop 3)).1.toOption.getD {}

/-- Faults are failures of the device. They look neither like a directory without space nor like a
name that is not there. -/
def Honest (faults : List (Option Fault)) : Prop :=
  ∀ fault : Fault, some fault ∈ faults →
    fault.code ≠ EXT2_ET_DIR_NO_SPACE ∧ fault.code ≠ EXT2_ET_FILE_NOT_FOUND

/-- Reading an inode uses up one place of the schedule and nothing else. -/
theorem readInode_state (ino : Nat) :
    ((faultyLib env).exec (.readInode ino) (fs, faults)).2 = (fs, faults.tail) := by
  by_cases failing : Fails faults 0
  · obtain ⟨fault, outcome⟩ := @faultyLib_failed δ _ env fs faults (.readInode ino) failing
      (fun fault => .error fault.code) (fun _ => rfl) (fun _ => rfl)
    rw [outcome]
  · rw [faultyLib_ok failing]
    rfl

/-- ext2fs_new_inode fails with one code only. -/
theorem newInode_code {rc : Errcode} (picked : fs.ext2fsNewInode parent = .error rc) :
    rc = EXT2_ET_INODE_ALLOC_FAIL := by
  rw [ext2fsNewInode] at picked
  split at picked <;> cases picked
  rfl

/-- ext2fs_new_block fails with one code only. -/
theorem newBlock_code {vol : Volume} {goal : Nat} {rc : Errcode}
    (fresh : vol.ext2fsNewBlock goal = .error rc) : rc = EXT2_ET_BLOCK_ALLOC_FAIL := by
  rw [ext2fsNewBlock] at fresh
  split at fresh <;> cases fresh
  rfl

/-- The head of `new_ext2fs_mkdir`: blocked without a trace, or at the point where the inode and
the block are taken. -/
theorem leads_newExt2fsMkdir {perms : Perms} {post : Errcode → Fs δ × List (Option Fault) → Prop}
    (blocked : MkdirBlocked perms parent (parentRead env parent fs faults) fs faults →
      ∀ rc rest, rc ≠ 0 → (Honest faults → rc ≠ EXT2_ET_DIR_NO_SPACE) → post rc (fs, rest))
    (enter : ∀ new blk block (inode : Inode), fs.ext2fsNewInode parent = .ok new →
      fs.vol.ext2fsNewBlock 0 = .ok blk → inode.iBlock 0 = blk →
      ¬ MkdirBlocked perms parent (parentRead env parent fs faults) fs faults →
      Leads (faultyLib env) (mkdirEnter parent name new blk block inode
        (parentRead env parent fs faults)) post (fs.taken new blk, faults.drop 8)) :
    Leads (faultyLib env) (newExt2fsMkdir perms parent name) post (fs, faults) := by
  have eaccesNonzero : EACCES ≠ 0 := by decide
  have eaccesSpace : EACCES ≠ EXT2_ET_DIR_NO_SPACE := by decide
  have second : faults.tail[0]? = faults[1]? := by simp
  rw [newExt2fsMkdir_eq, leads_bind, leads_lift]
  by_cases noInode : Fails faults 0
  · obtain ⟨fault, found⟩ := noInode
    rw [@faultyLib_fault δ _ env fs faults (.newInode parent) fault found
      (fun fault => .error fault.code)
      (fun _ => rfl) fun _ => rfl]
    exact blocked (.inl ⟨fault, found⟩) _ _ fault.nonzero
      fun honest => (honest fault (List.mem_of_getElem? found)).1
  rw [faultyLib_ok noInode]
  change Leads _ (match fs.ext2fsNewInode parent with | .error _ => _ | .ok ino => _) _ (fs, _)
  cases picked : fs.ext2fsNewInode parent with
  | error rc =>
      rw [newInode_code picked]
      exact blocked (.inr (.inl (by simp [picked]))) EXT2_ET_INODE_ALLOC_FAIL _ (by decide)
        fun _ => by decide
  | ok new =>
  dsimp only
  rw [leads_bind, leads_lift]
  by_cases noBlock : Fails faults 1
  · obtain ⟨fault, found⟩ := noBlock
    rw [@faultyLib_fault δ _ env fs faults.tail (.newBlock 0) fault (second.trans found)
      (fun fault => .error fault.code) (fun _ => rfl) fun _ => rfl]
    exact blocked (.inr (.inr (.inl ⟨fault, found⟩))) _ _ fault.nonzero
      fun honest => (honest fault (List.mem_of_getElem? found)).1
  rw [faultyLib_ok (mt (fails_tail 0).mp noBlock)]
  change Leads _ (match fs.vol.ext2fsNewBlock 0 with | .error _ => _ | .ok blk => _) _ (fs, _)
  cases fresh : fs.vol.ext2fsNewBlock 0 with
  | error rc =>
      rw [newBlock_code fresh]
      exact blocked (.inr (.inr (.inr (.inl (by simp [fresh])))))
        EXT2_ET_BLOCK_ALLOC_FAIL _ (by decide)
        fun _ => by decide
  | ok blk =>
  dsimp only
  rw [leads_bind, leads_lift]
  have twice : faults.tail.tail[0]? = faults[2]? := by simp
  by_cases unbuilt : Fails faults 2
  · obtain ⟨fault, found⟩ := unbuilt
    rw [@faultyLib_fault δ _ env fs faults.tail.tail (.newDirBlock new parent) fault
      (twice.trans found)
      (fun fault => .error fault.code) (fun _ => rfl) fun _ => rfl]
    exact blocked (.inr (.inr (.inr (.inr (.inl ⟨fault, found⟩))))) _ _ fault.nonzero
      fun honest => (honest fault (List.mem_of_getElem? found)).1
  have built : ¬ Fails faults.tail.tail 0 := by rwa [fails_tail, fails_tail]
  have unmoved : (lib env).exec (.newDirBlock new parent) fs = (.ok (env.dir.newDirBlock new parent
      (if fs.super.filetype then EXT2_FT_DIR else 0)), fs) := rfl
  rw [faultyLib_ok built, unmoved]
  dsimp only
  rw [leads_bind, leads_lift]
  have third : faults.tail.tail.tail = faults.drop 3 := by
    simp only [← List.drop_one, List.drop_drop]
  have read : ((faultyLib env).exec (.readInode parent) (fs, faults.drop 3)).2 =
    (fs, faults.drop 4) := by
    rw [readInode_state, List.tail_drop]
  rw [third]
  unfold parentRead at blocked enter
  generalize (faultyLib env).exec (.readInode parent) (fs, faults.drop 3) = found at *
  rw [read]
  split
  · rename_i denied
    exact blocked (.inr (.inr (.inr (.inr (.inr denied))))) _ _ eaccesNonzero fun _ => eaccesSpace
  · rename_i passes
    rw [leads_bind, leads_lift, faultyLib_never (fun _ => rfl)]
    rw [leads_bind, leads_lift, faultyLib_never (fun _ => rfl)]
    rw [leads_bind, leads_lift, faultyLib_never (fun _ => rfl)]
    rw [leads_bind, leads_lift, faultyLib_never (fun _ => rfl)]
    simp only [List.tail_drop]
    refine enter new blk _ _ picked fresh (by simp) ?_
    rintro (failing | none | failing | none | failing | denied)
    · exact noInode failing
    · exact none new picked
    · exact noBlock failing
    · exact none blk fresh
    · exact unbuilt failing
    · exact passes denied

/-- Taking an inode and a block marks the inode. -/
theorem taken_inodeMap {new : Nat} (valid : fs.validIno new = true) (blk : Nat) :
    (fs.taken new blk).inodeMap = Function.update fs.inodeMap new true :=
  if_pos valid

/-- A turn that succeeds has taken an inode that was free. -/
theorem newExt2fsMkdir_marks (perms : Perms) :
    Leads (faultyLib env) (newExt2fsMkdir perms parent name) (fun rc next => rc = 0 →
      ∃ new, fs.inodeMap new = false ∧ next.1.inodeMap new = true) (fs, faults) := by
  refine leads_newExt2fsMkdir (fun _ rc _ failed _ done => absurd done failed) ?_
  intro new blk block inode picked _ _ _
  by_cases valid : fs.validIno new = true
  · have marked : (fs.taken new blk).inodeMap new = true := by
      rw [taken_inodeMap valid]
      exact Function.update_self _ _ _
    refine (keeps_used_mkdirEnter new blk block inode _ new _ marked).mono fun _ next used _ => ?_
    exact ⟨new, @ext2fsNewInode_ok δ env fs new parent picked, used⟩
  · -- such an inode is not written, which is an error
    rw [mkdirEnter, leads_bind]
    refine leads_faulty ?_ fun fault response failed => ?_
    · have wrote : ((lib env).exec (.writeDirBlock new blk block) (fs.taken new blk)).1 = 0 := rfl
      rw [wrote, if_neg (not_not.mpr rfl), leads_bind]
      refine leads_faulty ?_ fun fault response failed => ?_
      · have refused : ((lib env).exec (.writeNewInode new inode)
            ((lib env).exec (.writeDirBlock new blk block) (fs.taken new blk)).2).1 =
              EXT2_ET_BAD_INODE_NUM := congrArg Prod.fst (if_neg valid)
        have nonzero : EXT2_ET_BAD_INODE_NUM ≠ 0 := by decide
        rw [refused, if_pos nonzero]
        exact fun done => absurd done nonzero
      · cases failed
        rw [if_pos fault.nonzero]
        exact fun done => absurd done fault.nonzero
    · cases failed
      rw [if_pos fault.nonzero]
      exact fun done => absurd done fault.nonzero

/-- A loop that succeeds has marked an inode that was free. -/
theorem mkdirLoop_marks (perms : Perms) (bound : Nat) :
    Leads (faultyLib env) (mkdirLoop perms parent name bound) (fun rc next => rc = 0 →
      ∃ new, fs.inodeMap new = false ∧ next.1.inodeMap new = true) (fs, faults) := by
  have enospc : ENOSPC ≠ 0 := by decide
  induction bound generalizing fs faults with
  | zero => exact fun done => absurd done (show EXT2_ET_DIR_NO_SPACE ≠ 0 by decide)
  | succ bound inductionHypothesis =>
      refine leads_bind_of fun rc turned outcome => ?_
      split
      · refine leads_lift_bind fun rc expanded grown => ?_
        split
        · exact fun done => absurd done enospc
        · refine inductionHypothesis.mono fun rc next marks done => ?_
          obtain ⟨new, free, marked⟩ := marks done
          -- what is free now was free before the turn
          refine ⟨new, ?_, marked⟩
          by_contra inUse
          rw [Bool.not_eq_false] at inUse
          have kept : expanded.1.inodeMap new = true := by
            have first := (keeps_used_newExt2fsMkdir perms new (fs, faults) inUse).outcome outcome
            have second := @keeps_used δ env _ (.expandDir parent) rfl new turned first
            rw [leads_lift, grown] at second
            exact second
          rw [kept] at free
          cases free
      · exact (newExt2fsMkdir_marks perms).outcome outcome

/-- `ext2fs_new_inode` hands out an inode of the volume: it searches around that of the parent,
and no further down than the first inode that is not reserved. -/
theorem newInode_valid {dir ino : Nat} (valid : fs.validIno dir = true)
    (reserved : 0 < fs.super.sFirstIno ∧ fs.super.sFirstIno ≤ fs.super.sInodesCount)
    (found : fs.ext2fsNewInode dir = .ok ino) : fs.validIno ino = true := by
  obtain ⟨positive, bounded⟩ : 0 < dir ∧ dir ≤ fs.super.sInodesCount := by
    simpa [Fs.validIno] using valid
  simp only [ext2fsNewInode, positive, if_true] at found
  split at found
  · rename_i candidate hit
    cases found
    have start : (dir - 1) / fs.super.sInodesPerGroup * fs.super.sInodesPerGroup ≤ dir - 1 :=
      Nat.div_mul_le_self _ _
    have searched := List.mem_of_find?_eq_some hit
    simp only [searchOrder, List.mem_append, List.mem_range'_1] at searched
    simp only [Fs.validIno, Bool.and_eq_true, decide_eq_true_eq]
    omega
  · cases found

end Inodes

section Enter

variable {env : Env δ} {fs fs' fs'' : Fs δ} {faults : List (Option Fault)}
    {parent new blk : Nat} {name : Name}

/-- The bitmaps and the counters are the same, and the volume is. -/
structure Fs.SameMaps (fs fs' : Fs δ) : Prop where
  vol : fs'.vol = fs.vol
  inodeMap : fs'.inodeMap = fs.inodeMap
  freeInodes : fs'.sFreeInodesCount = fs.sFreeInodesCount
  groupInodes : fs'.bgFreeInodesCount = fs.bgFreeInodesCount
  groupDirs : fs'.bgUsedDirsCount = fs.bgUsedDirsCount

/-- Two steps that keep the bitmaps keep them together. -/
theorem Fs.SameMaps.trans (first : fs.SameMaps fs') (second : fs'.SameMaps fs'') :
    fs.SameMaps fs'' :=
  ⟨second.vol.trans first.vol, second.inodeMap.trans first.inodeMap,
    second.freeInodes.trans first.freeInodes, second.groupInodes.trans first.groupInodes,
    second.groupDirs.trans first.groupDirs⟩

/-- Writing an inode keeps the bitmaps. -/
theorem sameMaps_writeInode (fs : Fs δ) (ino : Nat) (inode : Inode) :
    fs.SameMaps (fs.ext2fsWriteInode ino inode).2 := by
  rw [ext2fsWriteInode]
  split <;> exact ⟨rfl, rfl, rfl, rfl, rfl⟩

/-- Entering a name keeps the bitmaps. -/
theorem sameMaps_link (fs : Fs δ) (dir : Nat) (name : Name) (ino flags : Nat) :
    fs.SameMaps (fs.ext2fsLink env dir name ino flags).2 := by
  simp only [ext2fsLink]
  generalize (if fs.super.filetype = true then flags % 8 else 0) = fileType
  split
  · split
    · exact ⟨rfl, rfl, rfl, rfl, rfl⟩
    · split
      · refine Fs.SameMaps.trans ?_ (sameMaps_writeInode _ _ _)
        exact ⟨rfl, rfl, rfl, rfl, rfl⟩
      · exact ⟨rfl, rfl, rfl, rfl, rfl⟩
  · exact ⟨rfl, rfl, rfl, rfl, rfl⟩

/-- Entering the name takes nothing further. -/
theorem keeps_sameMaps_mkdirEnter (block : δ) (inode parentInode : Inode) :
    Keeps (faultyLib env) (fun state => fs.SameMaps state.1)
      (mkdirEnter parent name new blk block inode parentInode) := by
  have keeps : ∀ {β : Type} {operation : LibCall δ β},
      (∀ state : Fs δ, state.SameMaps ((lib env).exec operation state).2) →
        Keeps (faultyLib env) (fun state => fs.SameMaps state.1) (lift operation) := by
    intro β operation same
    exact @keeps_faulty_dirs δ β env operation (fun state => fs.SameMaps state)
      (fun state kept => kept.trans (same state))
      fun _ kept => ⟨kept.vol, kept.inodeMap, kept.freeInodes, kept.groupInodes, kept.groupDirs⟩
  refine keeps_bind (keeps fun _ => ⟨rfl, rfl, rfl, rfl, rfl⟩) fun _ => keeps_ite (keeps_pure _) ?_
  refine keeps_bind (keeps fun state => sameMaps_writeInode state _ _)
    fun _ => keeps_ite (keeps_pure _) ?_
  refine keeps_bind (keeps fun _ => ⟨rfl, rfl, rfl, rfl, rfl⟩) fun present => ?_
  cases present with
  | ok _ => exact keeps_pure _
  | error rc =>
      refine keeps_ite (keeps_pure _)
        (keeps_bind (keeps fun state => sameMaps_link state _ _ _ _) fun _ => ?_)
      exact keeps_ite (keeps_pure _) (keeps fun state => sameMaps_writeInode state _ _)

/-- The code of `ext2fs_link` is the one of the directory primitive. -/
theorem ext2fsLink_rc {dir : Nat} (valid : (fs.ns env).valid dir = true)
    (isDir : (fs.ns env).isDir dir = true) (ino flags : Nat) :
    (fs.ext2fsLink env dir name ino flags).1 =
      (env.dir.link (fs.dirs dir) name ino (if fs.super.filetype then flags % 8 else 0)).1 := by
  simp only [ext2fsLink, checkDirectory_of_isDir valid isDir, if_true]
  generalize (if fs.super.filetype = true then flags % 8 else 0) = fileType
  split
  · rfl
  · rename_i done
    split
    · rw [ext2fsWriteInode, if_pos (by exact valid)]
      exact (not_not.mp done).symm
    · exact (not_not.mp done).symm

/-- The name is not there yet, and there is room for it. -/
def NameEnters (env : Env δ) (parent : Nat) (name : Name) (new : Nat) (fs : Fs δ) : Prop :=
  ((fs.ns env).ents parent).find? (fun entry => entry.name == name) = none ∧
    (fs.ext2fsLink env parent name new EXT2_FT_DIR).1 = 0

/-- A call whose code ends the routine if it is not 0. -/
theorem leads_or_return {operation : LibCall δ Errcode} {rest : Prog δ Errcode}
    {post : Errcode → Fs δ × List (Option Fault) → Prop}
    (responds : ∀ fault, operation.failed fault = some fault.code)
    (failed : Fails faults 0 → ∀ rc state, rc ≠ 0 → post rc state)
    (refused : ¬ Fails faults 0 → ((lib env).exec operation fs).1 ≠ 0 →
      ∀ rc state, rc ≠ 0 → post rc state)
    (next : ¬ Fails faults 0 → ((lib env).exec operation fs).1 = 0 →
      Leads (faultyLib env) rest post (((lib env).exec operation fs).2, faults.tail)) :
    Leads (faultyLib env) (lift operation >>= fun rc => if rc ≠ 0 then pure rc else rest) post
      (fs, faults) := by
  rw [leads_bind, leads_lift]
  by_cases failing : Fails faults 0
  · obtain ⟨fault, found⟩ := failing
    rw [faultyLib_left found responds]
    dsimp only
    rw [if_pos fault.nonzero]
    exact failed ⟨fault, found⟩ _ _ fault.nonzero
  · rw [faultyLib_ok failing]
    dsimp only
    split
    · rename_i nonzero
      exact refused failing nonzero _ _ nonzero
    · rename_i zero
      exact next failing (not_not.mp zero)

/-- The lookup and the link of `new_ext2fs_mkdir`, and the parent's count. -/
theorem enterName_faulty (lawful : env.dir.Lawful) (honest : Honest faults)
    (valid : fs.validIno parent = true) (isDir : LINUX_S_ISDIR (fs.inodeTab parent).iMode = true)
    (apart : new ≠ parent) {parentInode : Inode} (copy : LINUX_S_ISDIR parentInode.iMode = true) :
    Leads (faultyLib env) (do
        match ← lift (.lookup parent name) with
        | .ok _ => return EXT2_ET_DIR_EXISTS
        | .error rc =>
        if rc ≠ EXT2_ET_FILE_NOT_FOUND then return rc
        let rc ← lift (.link parent name new EXT2_FT_DIR)
        if rc ≠ 0 then return rc
        lift (.writeInode parent parentInode.raiseLinks)) (fun rc next =>
      ((∀ index < 3, ¬ Fails faults index) ∧ NameEnters env parent name new fs ∧ rc = 0 ∧
        next.2 = faults.drop 3 ∧ next.1.inodeTab new = fs.inodeTab new ∧
        next.1.ext2fsLookup env parent name = .ok new) ∨
      (¬ ((∀ index < 3, ¬ Fails faults index) ∧ NameEnters env parent name new fs) ∧ rc ≠ 0))
      (fs, faults) := by
  have exists' : EXT2_ET_DIR_EXISTS ≠ 0 := by decide
  have stopped : ∀ index < 3, Fails faults index → ¬ ((∀ index < 3, ¬ Fails faults index) ∧
      NameEnters env parent name new fs) :=
        fun index early failing both => both.1 index early failing
  rw [leads_bind, leads_lift]
  by_cases unfound : Fails faults 0
  · obtain ⟨fault, found⟩ := unfound
    rw [@faultyLib_fault δ _ env fs faults (.lookup parent name) fault found
      (fun fault => .error fault.code) (fun _ => rfl) fun _ => rfl]
    dsimp only
    rw [if_pos (honest fault (List.mem_of_getElem? found)).2]
    exact .inr ⟨stopped 0 (by decide) ⟨fault, found⟩, fault.nonzero⟩
  rw [faultyLib_ok unfound]
  change Leads _
    (match fs.ext2fsLookup env parent name with | .ok _ => _ | .error rc => _) _ (fs, _)
  rw [ext2fsLookup_eq lawful valid isDir]
  cases present : ((fs.ns env).ents parent).find? (fun entry => entry.name == name) with
  | some entry =>
      refine .inr ⟨fun both => ?_, exists'⟩
      rw [both.2.1] at present
      cases present
  | none =>
  dsimp only
  rw [if_neg (not_not.mpr rfl)]
  refine leads_or_return (fun _ => rfl) ?_ ?_ fun second done => ?_
  · exact fun failing rc state nonzero => .inr
      ⟨stopped 1 (by decide) ((fails_tail 0).mp failing), nonzero⟩
  · exact fun _ refused rc state nonzero => .inr ⟨fun both => refused both.2.2, nonzero⟩
  have rest : faults.tail.tail.tail = faults.drop 3 := by
    simp only [← List.drop_one, List.drop_drop]
  have third : Fails faults.tail.tail 0 ↔ Fails faults 2 := by simp only [fails_tail]
  change (fs.ext2fsLink env parent name new EXT2_FT_DIR).1 = 0 at done
  change Leads _ _ _ ((fs.ext2fsLink env parent name new EXT2_FT_DIR).2, _)
  have inodeNew := (@ext2fsLink_enters δ env fs parent name new EXT2_FT_DIR new).apart apart
  have entered := @ext2fsLink_cases δ env fs new parent name lawful valid isDir EXT2_FT_DIR
  rw [leads_lift]
  by_cases unwritten : Fails faults 2
  · obtain ⟨fault, outcome⟩ :=
      @faultyLib_failed δ _ env (fs.ext2fsLink env parent name new EXT2_FT_DIR).2
      faults.tail.tail (.writeInode parent parentInode.raiseLinks) (third.mpr unwritten)
      (fun fault => fault.code) (fun _ => rfl) (fun _ => rfl)
    rw [outcome]
    exact .inr ⟨stopped 2 (by decide) unwritten, fault.nonzero⟩
  rw [faultyLib_ok (mt third.mp unwritten), rest, lib_writeInode]
  obtain ⟨-, before, after, fileType, split, entries⟩ | ⟨full, -⟩ := entered
  swap
  · rw [done] at full
    cases full
  generalize (fs.ext2fsLink env parent name new EXT2_FT_DIR).2 = linked at *
  have validLinked : (linked.ns env).valid parent = true := by
    rw [entries]
    exact valid
  refine .inl ⟨?_, ⟨present, done⟩, writeInode_rc validLinked, rfl, ?_, ?_⟩
  · intro index early
    have cases : index = 0 ∨ index = 1 ∨ index = 2 := by omega
    rcases cases with rfl | rfl | rfl
    · exact unfound
    · exact mt (fails_tail 0).mpr second
    · exact unwritten
  · rw [← inodeNew, ext2fsWriteInode]
    split
    · exact Function.update_of_ne apart _ _
    · rfl
  · have isDirLater : ((linked.ext2fsWriteInode parent parentInode.raiseLinks).2.ns env).isDir
      parent = true := by
      rw [ns_writeInode validLinked, setInode_isDir, if_pos rfl, raiseLinks_mode]
      exact copy
    have validLater : ((linked.ext2fsWriteInode parent parentInode.raiseLinks).2.ns env).valid
      parent = true := by
      rw [ns_writeInode validLinked]
      exact validLinked
    rw [ext2fsLookup_eq lawful validLater isDirLater, ns_writeInode validLinked, entries]
    rw [split, List.find?_append, Option.or_eq_none_iff] at present
    simp [List.find?_append, present.1]

/-- What becomes of the name: it goes in at once, or the code is an error. -/
theorem mkdirEnter_faulty (lawful : env.dir.Lawful) (honest : Honest faults)
    (valid : fs.validIno parent = true) (isDir : LINUX_S_ISDIR (fs.inodeTab parent).iMode = true)
    (validNew : fs.validIno new = true) (apart : new ≠ parent) (block : δ) (inode : Inode)
    {parentInode : Inode} (copy : LINUX_S_ISDIR parentInode.iMode = true) :
    Leads (faultyLib env) (mkdirEnter parent name new blk block inode parentInode) (fun rc next =>
      ((∀ index < 5, ¬ Fails faults index) ∧ NameEnters env parent name new fs ∧ rc = 0 ∧
        next.2 = faults.drop 5 ∧ next.1.inodeTab new = inode ∧
        next.1.ext2fsLookup env parent name = .ok new) ∨
      (¬ ((∀ index < 5, ¬ Fails faults index) ∧ NameEnters env parent name new fs) ∧ rc ≠ 0))
      (fs, faults) := by
  have stopped : ∀ index < 5, Fails faults index → ¬ ((∀ index < 5, ¬ Fails faults index) ∧
      NameEnters env parent name new fs) :=
        fun index early failing both => both.1 index early failing
  rw [mkdirEnter]
  refine leads_or_return (fun _ => rfl) ?_ ?_ fun wrote _ => ?_
  · exact fun failing rc state nonzero => .inr ⟨stopped 0 (by decide) failing, nonzero⟩
  · intro _ nonzero
    exact absurd rfl nonzero
  refine leads_or_return (fun _ => rfl) ?_ ?_ fun saved _ => ?_
  · exact fun failing rc state nonzero => .inr
      ⟨stopped 1 (by decide) ((fails_tail 0).mp failing), nonzero⟩
  · intro _ nonzero
    exact absurd (congrArg Prod.fst (if_pos validNew)) nonzero
  have writes : ((lib env).exec (.writeNewInode new inode)
      ((lib env).exec (.writeDirBlock new blk block) fs).2).2 = { fs with
        dirs := Function.update fs.dirs new block
        inodeTab := Function.update fs.inodeTab new inode } := congrArg Prod.snd (if_pos validNew)
  rw [writes]
  have sameParent : Function.update fs.inodeTab new inode parent = fs.inodeTab parent :=
    Function.update_of_ne apart.symm _ _
  have sameDir : Function.update fs.dirs new block parent = fs.dirs parent :=
    Function.update_of_ne apart.symm _ _
  have sameNew : Function.update fs.inodeTab new inode new = inode := Function.update_self _ _ _
  generalize writtenEq : ({ fs with
    dirs := Function.update fs.dirs new block
    inodeTab := Function.update fs.inodeTab new inode } : Fs δ) = written
  have sameTab : written.inodeTab parent = fs.inodeTab parent := writtenEq ▸ sameParent
  have sameDirs : written.dirs parent = fs.dirs parent := writtenEq ▸ sameDir
  have sameSuper : written.super = fs.super := writtenEq ▸ rfl
  have newTab : written.inodeTab new = inode := writtenEq ▸ sameNew
  have validWritten : written.validIno parent = true :=
    (validIno_congr sameSuper parent).trans valid
  have isDirWritten : LINUX_S_ISDIR (written.inodeTab parent).iMode = true := by
    rw [sameTab]; exact isDir
  have enters : NameEnters env parent name new written ↔ NameEnters env parent name new fs := by
    have entries : (written.ns env).ents parent = (fs.ns env).ents parent :=
      congrArg env.dir.entries sameDirs
    rw [NameEnters, NameEnters, entries, ext2fsLink_rc validWritten isDirWritten,
      @ext2fsLink_rc δ env fs name parent valid isDir, sameDirs, sameSuper]
  have honestLater : Honest faults.tail.tail :=
    fun fault inRest => honest fault (List.mem_of_mem_tail (List.mem_of_mem_tail inRest))
  have shifted : (∀ index < 3, ¬ Fails faults.tail.tail index) ↔
    ∀ index < 5, ¬ Fails faults index := by
    simp only [fails_tail]
    constructor
    · intro none index early
      match index with
      | 0 => exact wrote
      | 1 => exact mt (fails_tail 0).mpr saved
      | index + 2 => exact none index (by omega)
    · exact fun none index early => none (index + 2) (by omega)
  have dropped : faults.tail.tail.drop 3 = faults.drop 5 := by
    simp only [← List.drop_one, List.drop_drop]
  have named := @enterName_faulty δ env written faults.tail.tail parent new name lawful honestLater
    validWritten isDirWritten apart parentInode copy
  rw [enters, shifted, newTab, dropped] at named
  exact named

end Enter

section Exact

variable {env : Env δ} {fs fs' : Fs δ} {faults : List (Option Fault)}
    {parent ino : Nat} {name : Name}

/-- A block the inode points to, directly or through indirect blocks, or an indirect block
itself. -/
def Fs.OwnsBlock (fs : Fs δ) (ino blk : Nat) : Prop :=
  ∃ (slot : Fin EXT2_N_BLOCKS) (path : List Nat), fs.vol.Addr (ino, slot) path ∧
    fs.vol.label (fun place => (fs.inodeTab place.1).iBlock place.2) (ino, slot) path = blk

/-- The blocks that are marked now and were not before. -/
def Volume.gained (vol vol' : Volume) : Finset Nat :=
  (Finset.range vol.super.sBlocksCount).filter fun blk => vol'.blockMap blk = true ∧
    vol.blockMap blk = false

/-- The new directory has taken its inode and its first block, the parent perhaps blocks to grow
by, and the counters have moved by as much. -/
structure MkdirTook (fs fs' : Fs δ) (parent ino : Nat) : Prop where
  free : fs.inodeMap ino = false
  inodes : fs'.inodeMap = Function.update fs.inodeMap ino true
  first : fs.vol.blockMap ((fs'.inodeTab ino).iBlock 0) = false ∧
    fs'.vol.blockMap ((fs'.inodeTab ino).iBlock 0) = true
  kept : ∀ blk, fs.vol.blockMap blk = true → fs'.vol.blockMap blk = true
  blocks : ∀ blk, fs'.vol.blockMap blk = true → fs.vol.blockMap blk = true ∨
    blk = (fs'.inodeTab ino).iBlock 0 ∨ fs'.OwnsBlock parent blk
  freeInodes : (fs'.sFreeInodesCount + 1) % 2 ^ 32 = fs.sFreeInodesCount % 2 ^ 32
  groupInodes : ∀ group, (fs'.bgFreeInodesCount group +
    if group = fs.ext2fsGroupOfIno ino then 1 else 0) % 2 ^ 16 = fs.bgFreeInodesCount group % 2 ^ 16
  groupDirs : ∀ group, fs'.bgUsedDirsCount group % 2 ^ 16 = (fs.bgUsedDirsCount group +
    if group = fs.ext2fsGroupOfIno ino then 1 else 0) % 2 ^ 16
  freeBlocks : (fs'.vol.sFreeBlocksCount + (fs.vol.gained fs'.vol).card) % 2 ^ 32 =
    fs.vol.sFreeBlocksCount % 2 ^ 32
  groupBlocks : ∀ group, (fs'.vol.bgFreeBlocksCount group +
    ((fs.vol.gained fs'.vol).filter fun blk => fs.vol.ext2fsGroupOfBlk blk = group).card) % 2 ^ 16 =
      fs.vol.bgFreeBlocksCount group % 2 ^ 16

/-- Nothing has stayed allocated but blocks the parent has grown by. -/
structure MkdirGaveBack (fs fs' : Fs δ) (parent : Nat) : Prop where
  inodes : fs'.inodeMap = fs.inodeMap
  blocks : ∀ blk, fs'.vol.blockMap blk = true → fs.vol.blockMap blk = true ∨
    fs'.OwnsBlock parent blk

/-- What `do_mkdir` owes. -/
def MkdirExact (fs : Fs δ) (parent : Nat) (result : Except Errcode Nat) (fs' : Fs δ) : Prop :=
  match result with
  | .ok ino => MkdirTook fs fs' parent ino
  | .error _ => MkdirGaveBack fs fs' parent

/-- Nothing is taken, or the name goes in at the first try. The calls are numbered from
`ext2fs_new_inode` on. -/
def MkdirTidy (env : Env δ) (perms : Perms) (parent : Nat) (name : Name) (fs : Fs δ)
    (faults : List (Option Fault)) : Prop :=
  MkdirBlocked perms parent (fs.inodeTab parent) fs faults ∨
    ((∀ index, 8 ≤ index → index < 14 → ¬ Fails faults index) ∧
      ∀ new, fs.ext2fsNewInode parent = .ok new → NameEnters env parent name new fs)

/-- An inode has been taken that is not given back, and if a directory was made in the end, it has
taken another one. -/
structure Leaked (fs : Fs δ) (new : Nat) (result : Except Errcode Nat) (fs' : Fs δ) : Prop where
  free : fs.inodeMap new = false
  marked : fs'.inodeMap new = true
  other : ∀ ino, result = .ok ino → ∃ other, other ≠ new ∧ fs.inodeMap other = false ∧
    fs'.inodeMap other = true

/-- A request that left an inode marked without a directory did not take exactly its own. -/
theorem Leaked.not_exact {new : Nat} {result : Except Errcode Nat}
    (leaked : Leaked fs new result fs') :
    ¬ MkdirExact fs parent result fs' := by
  intro exact'
  have taken : ∀ ino, fs'.inodeMap = Function.update fs.inodeMap ino true → ∀ other,
      fs.inodeMap other = false → fs'.inodeMap other = true → other = ino := by
    intro ino same other free marked
    by_contra apart
    rw [same, Function.update_of_ne apart, free] at marked
    cases marked
  cases result with
  | error rc =>
      have marked := leaked.marked
      rw [exact'.inodes, leaked.free] at marked
      cases marked
  | ok ino =>
      obtain ⟨other, apart, free, marked⟩ := leaked.other ino rfl
      refine apart ?_
      rw [taken ino exact'.inodes other free marked,
        taken ino exact'.inodes new leaked.free leaked.marked]

/-- One inode and one block have been taken and nothing else. -/
theorem mkdirTook_of_taken {new blk : Nat} (firstData : fs.vol.super.sFirstDataBlock ≤ 1)
    (validNew : fs.validIno new = true) (free : fs.inodeMap new = false)
    (fresh : fs.vol.ext2fsNewBlock 0 = .ok blk) (maps : (fs.taken new blk).SameMaps fs')
    (first : (fs'.inodeTab new).iBlock 0 = blk) : MkdirTook fs fs' parent new := by
  obtain ⟨freeBlk, inRange⟩ := ext2fsNewBlock_ok firstData fresh
  have marks : fs'.vol.blockMap = Function.update fs.vol.blockMap blk true := by
    rw [maps.vol]
    exact if_pos inRange
  have gained : fs.vol.gained fs'.vol = {blk} := by
    ext other
    rw [Volume.gained, marks, Finset.mem_filter, Finset.mem_range, Finset.mem_singleton]
    constructor
    · rintro ⟨-, marked, unmarked⟩
      by_contra apart
      rw [Function.update_of_ne apart, unmarked] at marked
      cases marked
    · rintro rfl
      exact ⟨(inRange_iff.mp inRange).2, Function.update_self _ _ _, freeBlk⟩
  refine ⟨free, ?_, ?_, ?_, ?_, ?_, ?_, ?_, ?_, ?_⟩
  · rw [maps.inodeMap, taken_inodeMap validNew]
  · rw [first, marks]
    exact ⟨freeBlk, Function.update_self _ _ _⟩
  · intro other marked
    rw [marks]
    by_cases same : other = blk
    · rw [same, Function.update_self]
    · rw [Function.update_of_ne same]
      exact marked
  · intro other marked
    by_cases same : other = blk
    · exact .inr (.inl (same.trans first.symm))
    · rw [marks, Function.update_of_ne same] at marked
      exact .inl marked
  · rw [maps.freeInodes]
    change ((fs.sFreeInodesCount + (2 ^ 32 - 1)) % 2 ^ 32 + 1) % 2 ^ 32 = _
    omega
  · intro group
    rw [maps.groupInodes]
    change (Function.update fs.bgFreeInodesCount (fs.ext2fsGroupOfIno new)
      ((fs.bgFreeInodesCount (fs.ext2fsGroupOfIno new) + (2 ^ 16 - 1)) % 2 ^ 16)
        group + _) % 2 ^ 16 = _
    by_cases same : group = fs.ext2fsGroupOfIno new
    · rw [if_pos same, same, Function.update_self]
      omega
    · rw [if_neg same, Function.update_of_ne same, Nat.add_zero]
  · intro group
    rw [maps.groupDirs]
    change Function.update fs.bgUsedDirsCount (fs.ext2fsGroupOfIno new)
      ((fs.bgUsedDirsCount (fs.ext2fsGroupOfIno new) + 1) % 2 ^ 16) group % 2 ^ 16 = _
    by_cases same : group = fs.ext2fsGroupOfIno new
    · rw [if_pos same, same, Function.update_self, Nat.mod_mod]
    · rw [if_neg same, Function.update_of_ne same, Nat.add_zero]
  · rw [gained, maps.vol, Finset.card_singleton]
    change ((fs.vol.sFreeBlocksCount + (2 ^ 32 - 1)) % 2 ^ 32 + 1) % 2 ^ 32 = _
    omega
  · intro group
    rw [gained, maps.vol, Finset.filter_singleton]
    change (Function.update fs.vol.bgFreeBlocksCount (fs.vol.ext2fsGroupOfBlk blk)
      ((fs.vol.bgFreeBlocksCount (fs.vol.ext2fsGroupOfBlk blk) + (2 ^ 16 - 1)) % 2 ^ 16)
        group + _) % 2 ^ 16 = _
    by_cases same : fs.vol.ext2fsGroupOfBlk blk = group
    · rw [if_pos same, ← same, Function.update_self, Finset.card_singleton]
      omega
    · rw [if_neg same, Function.update_of_ne (Ne.symm same), Finset.card_empty, Nat.add_zero]

section Turns

variable {perms : Perms} (lawful : env.dir.Lawful) (honest : Honest faults)
  (firstData : fs.vol.super.sFirstDataBlock ≤ 1)
  (reserved : 0 < fs.super.sFirstIno ∧ fs.super.sFirstIno ≤ fs.super.sInodesCount)
  (valid : fs.validIno parent = true) (isDir : LINUX_S_ISDIR (fs.inodeTab parent).iMode = true)
  (inUse : fs.inodeMap parent = true) (read : ¬ Fails faults 3)

include lawful honest reserved valid isDir inUse read

/-- The first turn: blocked without a trace, or an inode and a block are taken, and the name goes in
or there is an error. -/
theorem newExt2fsMkdir_faulty :
    Leads (faultyLib env) (newExt2fsMkdir perms parent name) (fun rc next =>
      (MkdirBlocked perms parent (fs.inodeTab parent) fs faults ∧ rc ≠ 0 ∧
        rc ≠ EXT2_ET_DIR_NO_SPACE ∧ next.1 = fs) ∨
      ∃ new blk, ¬ MkdirBlocked perms parent (fs.inodeTab parent) fs faults ∧
        fs.ext2fsNewInode parent = .ok new ∧ fs.vol.ext2fsNewBlock 0 = .ok blk ∧
        fs.validIno new = true ∧ fs.inodeMap new = false ∧ (fs.taken new blk).SameMaps next.1 ∧
        (((∀ index, 8 ≤ index → index < 13 → ¬ Fails faults index) ∧
          NameEnters env parent name new fs ∧
            rc = 0 ∧ next.2 = faults.drop 13 ∧ (next.1.inodeTab new).iBlock 0 = blk ∧
            next.1.ext2fsLookup env parent name = .ok new) ∨
          (¬ ((∀ index, 8 ≤ index → index < 13 → ¬ Fails faults index) ∧
            NameEnters env parent name new fs) ∧ rc ≠ 0))) (fs, faults) := by
  have copy : parentRead env parent fs faults = fs.inodeTab parent := by
    have third : ¬ Fails (faults.drop 3) 0 := by simpa [Fails] using read
    rw [parentRead, faultyLib_ok third, lib_readInode, ext2fsReadInode, if_pos valid]
    rfl
  refine leads_newExt2fsMkdir (fun blocked rc rest nonzero space => ?_) ?_
  · rw [copy] at blocked
    exact .inl ⟨blocked, nonzero, space honest, rfl⟩
  intro new blk block inode picked fresh first unblocked
  rw [copy] at unblocked ⊢
  have free : fs.inodeMap new = false := @ext2fsNewInode_ok δ env fs new parent picked
  have apart : new ≠ parent := by
    rintro rfl
    rw [inUse] at free
    cases free
  have validNew : fs.validIno new = true := newInode_valid valid reserved picked
  have honestLater : Honest (faults.drop 8) :=
    fun fault inRest => honest fault (List.mem_of_mem_drop inRest)
  have enters : NameEnters env parent name new (fs.taken new blk) ↔
    NameEnters env parent name new fs := by
    rw [NameEnters, NameEnters, @ext2fsLink_rc δ env (fs.taken new blk) name parent valid isDir,
      @ext2fsLink_rc δ env fs name parent valid isDir]
    rfl
  have shifted : (∀ index < 5, ¬ Fails (faults.drop 8) index) ↔
      ∀ index, 8 ≤ index → index < 13 → ¬ Fails faults index := by
    simp only [Fails, List.getElem?_drop]
    constructor
    · intro none index from8 below13
      have := none (index - 8) (by omega)
      rwa [show 8 + (index - 8) = index by omega] at this
    · exact fun none index below5 => none (8 + index) (by omega) (by omega)
  have dropped : (faults.drop 8).drop 5 = faults.drop 13 := by rw [List.drop_drop]
  have maps := @keeps_sameMaps_mkdirEnter δ env (fs.taken new blk) parent new blk name block inode
    (fs.inodeTab parent) (fs.taken new blk, faults.drop 8) ⟨rfl, rfl, rfl, rfl, rfl⟩
  have ended := @mkdirEnter_faulty δ env (fs.taken new blk)
    (faults.drop 8) parent new blk name lawful
    honestLater valid isDir validNew apart block inode (fs.inodeTab parent) isDir
  rw [enters, shifted, dropped] at ended
  refine .inr ⟨new, blk, unblocked, picked, fresh, validNew, free, maps, ?_⟩
  rcases ended with ⟨unfailing, room, done, rest, written, found⟩ | ⟨stopped, failed⟩
  · exact .inl ⟨unfailing, room, done, rest,
      (congrArg (fun inode => inode.iBlock 0) written).trans first, found⟩
  · exact .inr ⟨stopped, failed⟩

omit lawful honest reserved valid isDir inUse read

/-- The loop of `do_mkdir` after a turn. -/
def mkdirRetry (perms : Perms) (parent : Nat) (name : Name) (bound : Nat) (rc : Errcode) :
    Prog δ Errcode := do
  if rc = EXT2_ET_DIR_NO_SPACE then
    let rc ← lift (.expandDir parent)
    if rc ≠ 0 then return ENOSPC
    mkdirLoop perms parent name bound
  else return rc

/-- `do_mkdir`, one turn of its loop after the other. -/
theorem leads_doMkdir {post : Except Errcode Nat → Fs δ × List (Option Fault) → Prop}
    (leads : Leads (faultyLib env) (newExt2fsMkdir perms parent name) (fun rc =>
      Leads (faultyLib env) (mkdirRetry perms parent name fs.super.sInodesCount rc) fun rc =>
        Leads (faultyLib env) (mkdirFinish parent name rc) post) (fs, faults.tail)) :
    Leads (faultyLib env) (doMkdir perms parent name) post (fs, faults) := by
  rw [doMkdir, leads_bind, leads_lift, faultyLib_never (fun _ => rfl)]
  change Leads _ (doMkdirWithin (fs.super.sInodesCount + 1) perms parent name) _ (fs, faults.tail)
  rw [doMkdirWithin, leads_bind]
  change Leads _ (newExt2fsMkdir perms parent name >>= mkdirRetry perms parent name
    fs.super.sInodesCount)
    _ (fs, faults.tail)
  rw [leads_bind]
  exact leads

/-- Once a turn has leaked, whatever the later turns do leaves the leak. -/
theorem leaked_finish {new : Nat} {rc : Errcode} {state : Fs δ × List (Option Fault)}
    (free : fs.inodeMap new = false) (marked : state.1.inodeMap new = true)
    (other : rc = 0 → ∃ other, other ≠ new ∧ fs.inodeMap other = false ∧
      state.1.inodeMap other = true) :
    Leads (faultyLib env) (mkdirFinish parent name rc)
      (fun result next => Leaked fs new result next.1) state := by
  rw [mkdirFinish]
  split
  · refine ⟨free, marked, ?_⟩
    rintro _ ⟨⟩
  rename_i done
  obtain ⟨other, apart, otherFree, otherMarked⟩ := other (not_not.mp done)
  refine leads_bind_of fun found next outcome => ?_
  have markedLater :=
    (@keeps_used δ env _ (.lookup parent name) rfl new state marked).outcome outcome
  have otherLater :=
    (@keeps_used δ env _ (.lookup parent name) rfl other state otherMarked).outcome outcome
  cases found with
  | error _ =>
      refine ⟨free, markedLater, ?_⟩
      rintro _ ⟨⟩
  | ok ino => exact ⟨free, markedLater, fun _ _ => ⟨other, apart, otherFree, otherLater⟩⟩

/-- After a turn that has failed the inode it has taken is lost, whatever comes of further turns. -/
theorem leaked_retry {new bound : Nat} {rc : Errcode} {state : Fs δ × List (Option Fault)}
    (failed : rc ≠ 0) (kept : ∀ ino, fs.inodeMap ino = true → state.1.inodeMap ino = true)
    (marked : state.1.inodeMap new = true) :
    Leads (faultyLib env) (mkdirRetry perms parent name bound rc) (fun rc next =>
      next.1.inodeMap new = true ∧ (rc = 0 →
        ∃ other, other ≠ new ∧ fs.inodeMap other = false ∧
          next.1.inodeMap other = true)) state := by
  have enospc : ENOSPC ≠ 0 := by decide
  rw [mkdirRetry]
  split
  swap
  · exact ⟨marked, fun done => absurd done failed⟩
  refine leads_bind_of fun grown expanded outcome => ?_
  have expands : ∀ ino, state.1.inodeMap ino = true →
    expanded.1.inodeMap ino = true := fun ino used =>
    (@keeps_used δ env _ (.expandDir parent) rfl ino state used).outcome outcome
  split
  · exact ⟨expands new marked, fun done => absurd done enospc⟩
  refine ⟨keeps_used_mkdirLoop perms bound new expanded (expands new marked), fun done => ?_⟩
  obtain ⟨other, free, otherMarked⟩ := mkdirLoop_marks perms bound done
  refine ⟨other, ?_, ?_, otherMarked⟩
  · rintro rfl
    rw [expands other marked] at free
    cases free
  · by_contra used
    rw [Bool.not_eq_false] at used
    rw [expands other (kept other used)] at free
    cases free

end Turns

/-- **A mkdir takes exactly what it uses if and only if nothing is taken, or the name goes in at the
first try.** Otherwise an inode and a block stay allocated: on an error because nothing is given
back, on success because the directory was made by a later turn. -/
theorem mkdir_takes_exactly_iff {perms : Perms} (lawful : env.dir.Lawful) (honest : Honest faults)
    (firstData : fs.vol.super.sFirstDataBlock ≤ 1)
    (reserved : 0 < fs.super.sFirstIno ∧ fs.super.sFirstIno ≤ fs.super.sInodesCount)
    (valid : fs.validIno parent = true) (isDir : LINUX_S_ISDIR (fs.inodeTab parent).iMode = true)
    (inUse : fs.inodeMap parent = true) (read : ¬ Fails faults.tail 3) :
    Leads (faultyLib env) (doMkdir perms parent name) (fun result next =>
      MkdirExact fs parent result next.1 ↔
        MkdirTidy env perms parent name fs faults.tail) (fs, faults) ∧
    Leads (faultyLib env) (newExt2fsMkdir perms parent name) (fun rc next => rc ≠ 0 →
      (MkdirGaveBack fs next.1 parent ↔
        MkdirBlocked perms parent (fs.inodeTab parent) fs faults.tail))
      (fs, faults.tail) := by
  have honestTail : Honest faults.tail :=
    fun fault inRest => honest fault (List.mem_of_mem_tail inRest)
  have unchanged : MkdirGaveBack fs fs parent := ⟨rfl, fun _ marked => .inl marked⟩
  have turn := @newExt2fsMkdir_faulty δ env fs faults.tail parent name perms lawful
    honestTail reserved valid
    isDir inUse read
  have takenMap : ∀ {new blk : Nat} {next : Fs δ}, fs.validIno new = true →
      (fs.taken new blk).SameMaps next → next.inodeMap = Function.update fs.inodeMap new true :=
    fun validNew maps => maps.inodeMap.trans (taken_inodeMap validNew _)
  constructor
  · refine leads_doMkdir (turn.mono ?_)
    rintro rc ⟨next, rest⟩ (⟨blocked, nonzero, space, rfl⟩ |
      ⟨new, blk, unblocked, picked, fresh, validNew, free, maps, ended⟩)
    · rw [mkdirRetry, if_neg space, leads_pure, mkdirFinish, if_pos nonzero]
      exact iff_of_true unchanged (.inl blocked)
    have marked : next.inodeMap new = true := by
      rw [takenMap validNew maps, Function.update_self]
    rcases ended with ⟨unfailing, room, rfl, restEq, first, found⟩ | ⟨stopped, failed⟩
    · have noSpace : (0 : Errcode) ≠ EXT2_ET_DIR_NO_SPACE := by decide
      have last : Fails rest 0 ↔ Fails faults.tail 13 := by
        rw [show rest = faults.tail.drop 13 from restEq]
        simp [Fails]
      rw [mkdirRetry, if_neg noSpace, leads_pure, mkdirFinish, if_neg (not_not.mpr rfl),
        leads_bind, leads_lift]
      by_cases unfound : Fails faults.tail 13
      · obtain ⟨fault, outcome⟩ := @faultyLib_failed δ _ env next rest (.lookup parent name)
          (last.mpr unfound) (fun fault => .error fault.code) (fun _ => rfl) (fun _ => rfl)
        rw [outcome]
        refine iff_of_false (Leaked.not_exact ⟨free, marked, by rintro _ ⟨⟩⟩) ?_
        rintro (blocked | tidy)
        · exact unblocked blocked
        · exact tidy.1 13 (by decide) (by decide) unfound
      · rw [faultyLib_ok (mt last.mp unfound), lib_lookup, found]
        refine iff_of_true (mkdirTook_of_taken firstData validNew free fresh maps
          first) (.inr ⟨?_, ?_⟩)
        · intro index from8 below14
          by_cases final : index = 13
          · rw [final]
            exact unfound
          · exact unfailing index from8 (by omega)
        · intro other same
          rw [picked] at same
          cases same
          exact room
    · have untidy : ¬ MkdirTidy env perms parent name fs faults.tail := by
        rintro (blocked | ⟨unfailing, room⟩)
        · exact unblocked blocked
        · exact stopped ⟨fun index from8 below13 => unfailing index from8 (by omega),
            room new picked⟩
      have kept : ∀ ino, fs.inodeMap ino = true → next.inodeMap ino = true := by
        intro ino used
        rw [takenMap validNew maps]
        by_cases same : ino = new
        · rw [same, Function.update_self]
        · rw [Function.update_of_ne same]
          exact used
      refine (leaked_retry failed kept marked).mono ?_
      rintro code later ⟨still, other⟩
      refine (leaked_finish free still other).mono fun result final leaked => ?_
      exact iff_of_false leaked.not_exact untidy
  · refine turn.mono ?_
    rintro rc ⟨next, rest⟩ (⟨blocked, -, -, rfl⟩ |
      ⟨new, blk, unblocked, picked, fresh, validNew, free, maps, ended⟩) -
    · exact iff_of_true unchanged blocked
    · refine iff_of_false (fun gaveBack => ?_) unblocked
      have marked := congrFun (takenMap validNew maps) new
      rw [gaveBack.inodes, free, Function.update_self] at marked
      cases marked

end Exact

/-- A new name in the root: the directory takes its inode and its block. -/
theorem mkdir_takes_exactly_new :
    let outcome := (doMkdir (some ⟨0, 0⟩) 2 [0x63]).run (faultyLib listEnv) (twoFiles, [])
    MkdirExact twoFiles 2 outcome.1 outcome.2.1 ∧ outcome.1.toOption = some 13 := by
  have none : ∀ index, ¬ Fails ([] : List (Option Fault)) index := by
    rintro index ⟨fault, found⟩
    simp at found
  have honest : Honest [] := fun fault inNil => absurd inNil List.not_mem_nil
  have room : ∀ new, NameEnters listEnv 2 [0x63] new twoFiles := by
    intro new
    refine ⟨by decide, ?_⟩
    rw [@ext2fsLink_rc _ listEnv twoFiles [0x63] 2 (by decide) (by decide)]
    rfl
  have exactly :=
    (@mkdir_takes_exactly_iff _ listEnv twoFiles [] 2 [0x63] (some ⟨0, 0⟩) listDir_lawful honest
    (by decide) (by decide) (by decide) (by decide) (by decide) (none 3)).1
  exact ⟨exactly.mpr (.inr ⟨fun index _ _ => none index, fun new _ => room new⟩), by decide +kernel⟩

/-- A name that is there already: `do_mkdir` reports the error, and inode 13 and block 20 stay
allocated. -/
theorem mkdir_leaks :
    let outcome := (doMkdir (some ⟨0, 0⟩) 2 [0x61]).run (faultyLib listEnv) (twoFiles, [])
    outcome.1 = .error EXT2_ET_DIR_EXISTS ∧ twoFiles.inodeMap 13 = false ∧
      outcome.2.1.inodeMap 13 = true ∧
      twoFiles.vol.blockMap 20 = false ∧ outcome.2.1.vol.blockMap 20 = true ∧
      ¬ MkdirExact twoFiles 2 outcome.1 outcome.2.1 := by
  have failed : ((doMkdir (some ⟨0, 0⟩) 2 [0x61]).run (faultyLib listEnv) (twoFiles, [])).1 =
      .error EXT2_ET_DIR_EXISTS := rfl
  refine ⟨failed, by decide, by decide +kernel, by decide, by decide +kernel, ?_⟩
  rw [failed]
  intro gaveBack
  exact absurd (congrFun gaveBack.inodes 13) (by decide +kernel)

end Ext2Fuse
