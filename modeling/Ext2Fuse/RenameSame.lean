import Ext2Fuse.NsRuns

/-!
# Renaming onto the same object

When the old and the new name are names of one object, `do_rename` takes the object for the target
that is in the way. One name is entered and two are removed: whenever it reports success, one
name is gone.
-/

namespace Ext2Fuse

open Lib Program

namespace Ns

/-- How many entries the directories `dirs` have. -/
def names (ns : Ns) (dirs : Finset Nat) : Nat := ∑ dir ∈ dirs, (ns.ents dir).length

/-- What an entry in a directory adds to the names of `dirs`. -/
def weight (dirs : Finset Nat) (dir : Nat) : Nat := if dir ∈ dirs then 1 else 0

/-- The inodes and their modes are those of `base`, and the directories `dirs` have `count`
entries. -/
structure Tally (base : Ns) (dirs : Finset Nat) (count : Nat) (ns : Ns) : Prop where
  valid : ns.valid = base.valid
  mode : ns.mode = base.mode
  names : ns.names dirs = count

namespace Tally

variable {base ns : Ns} {dirs : Finset Nat} {count dir ino : Nat}

theorem refl (ns : Ns) (dirs : Finset Nat) : ns.Tally dirs (ns.names dirs) ns := ⟨rfl, rfl, rfl⟩

variable (tally : base.Tally dirs count ns)

include tally

theorem isDir : ns.isDir = base.isDir := by
  funext other
  rw [Ns.isDir, Ns.isDir, tally.mode]

theorem setInode {mode : Nat} (same : mode = base.mode ino) (links : Nat) :
    base.Tally dirs count (ns.setInode ino mode links) where
  valid := tally.valid
  mode := by rw [setInode_mode, tally.mode, same, Function.update_eq_self]
  names := tally.names

/-- Only the length of the list that is exchanged matters. -/
theorem setEnts {ents : List Dirent} {count' : Nat}
    (balance : count' + weight dirs dir * (ns.ents dir).length =
      count + weight dirs dir * ents.length) :
    base.Tally dirs count' (ns.setEnts dir ents) where
  valid := tally.valid
  mode := tally.mode
  names := by
    have total := tally.names
    simp only [Ns.names, setEnts_ents, weight] at total balance ⊢
    split at balance
    · rename_i member
      rw [← Finset.add_sum_erase _ _ member] at total ⊢
      rw [Function.update_self, Finset.sum_congr rfl fun other inRest => by
        rw [Function.update_of_ne (Finset.ne_of_mem_erase inRest)]]
      omega
    · rename_i outside
      rw [Finset.sum_congr rfl fun other inDirs => by
        rw [Function.update_of_ne (fun same : other = dir => outside (same ▸ inDirs))]]
      omega

/-- An entry more raises the tally by the weight of its directory. -/
theorem insert {before after : List Dirent} (split : ns.ents dir = before ++ after)
    (entry : Dirent) :
    base.Tally dirs (count + weight dirs dir) (ns.setEnts dir (before ++ entry :: after)) := by
  refine tally.setEnts ?_
  rw [split]
  simp only [List.length_append, List.length_cons]
  ring

/-- Erasing a match in a directory lowers the tally by the weight of that directory. -/
theorem erase {test : Dirent → Bool} {count' : Nat} (less : count = count' + weight dirs dir)
    (found : ∃ entry ∈ ns.ents dir, test entry = true) :
    base.Tally dirs count' (ns.setEnts dir ((ns.ents dir).eraseP test)) := by
  obtain ⟨before, entry, after, -, split, erased⟩ := split_of_match found
  refine tally.setEnts ?_
  rw [erased, split, less]
  simp only [List.length_append, List.length_cons]
  ring

/-- Only the entries matter. -/
theorem of_lists {next : Ns} (lists : base.Lists ns.ents next) :
    base.Tally dirs count next where
  valid := lists.valid
  mode := lists.mode
  names := by
    rw [Ns.names, lists.ents]
    exact tally.names

theorem lists : base.Lists ns.ents ns := ⟨tally.valid, tally.mode, rfl⟩

end Tally

end Ns

open Ns

section Counting

variable {δ : Type} {env : Env δ} {base ns : Ns} {dirs : Finset Nat} {count dir ino : Nat}
  {name : Name}

/-- What a routine returns, whatever the calls respond. -/
theorem holds_of_ends {α : Type} {program : Prog δ α} {post : α → Prop} (ends : Ends post program) :
    Holds env (fun _ => True) program (fun result _ => post result) ns := by
  rintro - fs -
  induction program generalizing fs with
  | done result => exact ends
  | call operation next inductionHypothesis =>
      exact ⟨trivial, inductionHypothesis _ (ends _) _⟩

/-- `read_inode` of a number the inode table does not have. -/
theorem holds_readInodeWrapper_bad {post : Except Errcode Inode → Ns → Prop}
    (invalid : ¬ ns.valid ino = true) (bad : ∀ rc, post (.error rc) ns) :
    Holds env (fun _ => True) (readInode ino) post ns := by
  refine holds_bind (holds_quiet ?_)
  rintro fs rfl
  refine ⟨rfl, ?_⟩
  rw [Fs.ns_valid] at invalid
  have refused : (Fs.exec env (.readInode ino) fs).1 = .error EXT2_ET_BAD_INODE_NUM := by
    simp [Fs.exec, Fs.ext2fsReadInode, invalid]
  rw [refused]
  exact holds_pure (bad _)

variable (tally : base.Tally dirs count ns)

include tally

variable (lawful : env.dir.Lawful) (validDir : base.valid dir = true)
  (isDir : base.isDir dir = true)

include lawful validDir isDir

/-- `do_link` enters one name, or fails. -/
theorem tally_doLink (filetype : Nat) :
    Holds env (fun _ => True) (doLink dir name ino filetype)
      (fun rc next => (rc = 0 ∧ base.Tally dirs (count + weight dirs dir) next ∧
        ∃ entry ∈ next.ents dir, Dirent.matchesEntry name ino entry = true) ∨
        (rc = EIO ∧ next = ns)) ns := by
  have entered : ∀ before after fileType, ns.ents dir = before ++ after →
      base.Tally dirs (count + weight dirs dir)
        (ns.setEnts dir (before ++ ⟨name, ino, fileType⟩ :: after)) ∧
      ∃ entry ∈ (ns.setEnts dir (before ++ ⟨name, ino, fileType⟩ :: after)).ents dir,
        Dirent.matchesEntry name ino entry = true := by
    intro before after fileType split
    refine ⟨tally.insert split _, ⟨name, ino, fileType⟩, by simp, ?_⟩
    simp [Dirent.matchesEntry]
  rw [← tally.valid] at validDir
  rw [← tally.isDir] at isDir
  refine holds_bind (holds_link lawful validDir isDir ?_ ?_)
  · intro before after fileType split
    exact ⟨trivial, holds_pure (.inl ⟨rfl, entered before after fileType split⟩)⟩
  · refine holds_bind (holds_expandDir lawful fun rc => ?_)
    split
    · exact holds_pure (.inr ⟨rfl, rfl⟩)
    · refine holds_bind (holds_link lawful validDir isDir ?_ ?_)
      · intro before after fileType split
        exact ⟨trivial, holds_pure (.inl ⟨rfl, entered before after fileType split⟩)⟩
      · exact holds_pure (.inr ⟨rfl, rfl⟩)

/-- `ext2fs_unlink` removes one name, or fails. -/
theorem tally_unlink {count' : Nat} (less : count = count' + weight dirs dir) :
    Holds env (fun _ => True) (lift (.unlink dir name ino))
      (fun rc next => (rc = 0 ∧ base.Tally dirs count' next) ∨
        (rc ≠ 0 ∧ next = ns ∧ ∀ entry ∈ ns.ents dir, Dirent.matchesEntry name ino entry =
          false)) ns := by
  have stillValid := tally.valid ▸ validDir
  have stillDir := tally.isDir ▸ isDir
  refine holds_unlink lawful stillValid stillDir ?_ ?_
  · intro entry inEnts matching
    exact ⟨trivial, .inl ⟨rfl, tally.erase less ⟨entry, inEnts, matching⟩⟩⟩
  · exact fun absent => .inr ⟨by decide, rfl, absent⟩

/-- `do_unlink_on_ino` removes one name of a file that has it. -/
theorem tally_doUnlinkOnIno {count' : Nat} (less : count = count' + weight dirs dir)
    (found : ∃ entry ∈ ns.ents dir, Dirent.matchesEntry name ino entry = true) :
    Holds env (fun _ => True) (doUnlinkOnIno dir name ino (-1))
      (fun rc next => ((base.valid ino = true → base.isDir ino = true) ∧ rc ≠ 0 ∧ next = ns) ∨
        (rc = 0 ∧ base.Tally dirs count' next)) ns := by
  by_cases valid : base.valid ino = true
  · cases kind : base.isDir ino with
    | true =>
        refine holds_bind (holds_readInodeWrapper (tally.valid ▸ valid) fun inode agrees => ?_)
        have recorded : LINUX_S_ISDIR inode.iMode = true := by
          rw [agrees.1, tally.mode]
          exact kind
        dsimp only
        rw [if_pos recorded]
        exact holds_pure (.inl ⟨fun _ => rfl, by decide, rfl⟩)
    | false =>
        refine (lists_doUnlinkOnIno tally.lists lawful validDir isDir valid kind).mono ?_
        rintro rc next ⟨rfl, fewer⟩
        exact .inr ⟨rfl, (tally.erase less found).of_lists fewer⟩
  · rw [← tally.valid] at valid
    refine holds_bind (holds_readInodeWrapper_bad valid fun _ =>
      holds_pure (.inl ⟨?_, by decide, rfl⟩))
    rw [← tally.valid]
    exact fun isValid => absurd isValid valid

/-- `do_rmdir_on_ino` removes one name of a directory, or fails. -/
theorem tally_doRmdirOnIno {perms : Perms} {count' : Nat} (less : count = count' + weight dirs dir)
    (valid : base.valid ino = true) :
    Holds env (fun _ => True) (doRmdirOnIno perms dir name ino)
      (fun rc next => rc ≠ 0 ∨ (rc = 0 ∧ base.Tally dirs count' next)) ns := by
  refine (lists_doRmdirOnIno tally.lists lawful validDir isDir valid).mono ?_
  rintro rc next (⟨failed, -⟩ | ⟨rfl, -, found, fewer⟩)
  · exact .inl failed
  · exact .inr ⟨rfl, (tally.erase less found).of_lists fewer⟩

/-- `cleanup:` for a file removes one name, or its error is returned. -/
theorem tally_renameCleanup_file {count' : Nat} (less : count = count' + weight dirs dir)
    (valid : base.valid ino = true) {inode : Inode} (recorded : LINUX_S_ISDIR inode.iMode = false)
    (ret : Errcode) :
    Holds env (fun _ => True) (renameCleanup dir name ino inode ret)
      (fun rc next => next.names dirs = count' ∨ rc = ret) ns := by
  refine holds_bind ((tally_unlink tally lawful validDir isDir less).mono ?_)
  rintro rc next (⟨rfl, fewer⟩ | ⟨failed, -, -⟩)
  · rw [if_neg (by simp), if_pos (by simp [recorded])]
    refine holds_bind (holds_writeInodeWrapper (fewer.valid ▸ valid) trivial ?_)
    exact holds_pure (.inl fewer.names)
  · rw [if_pos failed]
    exact holds_pure (.inr rfl)

end Counting

/-- `cleanup:` for a directory returns the error it was entered with. -/
theorem ends_renameCleanup_dir {δ : Type} {dir ino : Nat} {name : Name} {inode : Inode}
    (recorded : LINUX_S_ISDIR inode.iMode = true) (ret : Errcode) :
    Ends (fun rc => rc = ret) (renameCleanup dir name ino inode ret : Prog δ Errcode) := by
  refine ends_bind_of_forall fun rc => ?_
  split
  · rfl
  · rw [recorded, if_neg (by simp)]
    refine ends_bind_of_forall fun result => ?_
    split
    · rfl
    · exact ends_bind_of_forall fun _ => rfl

section Rename

variable {δ : Type} {env : Env δ} {base ns : Ns} {count dir newDir ino : Nat}
  {name newName : Name} {inode : Inode} {perms : Perms} (lawful : env.dir.Lawful)
  (validDir : base.valid dir = true) (isDir : base.isDir dir = true)
  (validNew : base.valid newDir = true) (newIsDir : base.isDir newDir = true)
  (valid : base.valid ino = true)

/-- Success means that there is a name less than at the start. -/
def Ns.Loses (base : Ns) (dirs : Finset Nat) (rc : Errcode) (next : Ns) : Prop :=
  rc = 0 → next.names dirs < base.names dirs

/-- The cleanup for a directory takes the name that stood for it. -/
theorem holds_cleanup_dir (recorded : LINUX_S_ISDIR inode.iMode = true) {ret : Errcode}
    (failed : ret ≠ 0) :
    Holds env (fun _ => True) (renameCleanup newDir newName ino inode ret)
      (base.Loses {dir, newDir}) ns :=
  (holds_of_ends (ends_renameCleanup_dir recorded ret)).mono fun _ _ isRet success =>
    absurd (isRet.symm.trans success) failed

include lawful validDir isDir valid

/-- The old name of a directory goes. The exchange of `..` removes as much as it enters. -/
theorem loses_renameDirOld (tally : base.Tally {dir, newDir} count ns)
    (same : count = base.names {dir, newDir}) (some : 0 < count)
    (inoDir : base.isDir ino = true) (recorded : LINUX_S_ISDIR inode.iMode = true) :
    Holds env (fun _ => True) (renameDirOld dir name newDir newName ino inode)
      (base.Loses {dir, newDir}) ns := by
  have inSet : weight {dir, newDir} dir = 1 := by simp [weight]
  refine holds_bind ((tally_doLink tally lawful valid inoDir EXT2_FT_DIR).mono ?_)
  rintro rc next (⟨rfl, entered, -⟩ | ⟨rfl, rfl⟩)
  · rw [if_neg (by simp)]
    refine holds_bind ((tally_unlink entered lawful valid inoDir rfl).mono ?_)
    rintro rc next (⟨rfl, exchanged⟩ | ⟨failed, -, -⟩)
    · rw [if_neg (by simp)]
      refine holds_bind ((tally_unlink exchanged lawful validDir isDir
        (show count = (count - 1) + weight {dir, newDir} dir by omega)).mono ?_)
      rintro rc next (⟨rfl, fewer⟩ | ⟨failed, -, -⟩)
      · rw [if_neg (by simp)]
        have stillValid : next.valid dir = true := fewer.valid ▸ validDir
        refine holds_bind (holds_readInode stillValid fun parentInode agrees => ?_)
        refine holds_writeInode stillValid trivial fun _ => ?_
        have names := fewer.names
        simp only [Ns.names, setInode_ents] at names same ⊢
        omega
      · rw [if_pos failed]
        exact holds_cleanup_dir recorded (by decide)
    · rw [if_pos failed]
      exact holds_cleanup_dir recorded (by decide)
  · rw [if_pos (by decide)]
    exact holds_cleanup_dir recorded (by decide)

include validNew newIsDir

/-- The old name of a file goes; if it cannot be removed the new one does, or the error is
returned. -/
theorem loses_renameFileOld (tally : base.Tally {dir, newDir} count ns)
    (same : count = base.names {dir, newDir}) (some : 0 < count)
    (recorded : LINUX_S_ISDIR inode.iMode = false) :
    Holds env (fun _ => True) (renameFileOld dir name newDir newName ino inode)
      (base.Loses {dir, newDir}) ns := by
  have less : count = (count - 1) + weight {dir, newDir} dir := by
    simp only [weight, Finset.mem_insert_self, if_true]
    omega
  have lessNew : count = (count - 1) + weight {dir, newDir} newDir := by
    simp only [weight, Finset.mem_insert, Finset.mem_singleton, or_true, if_true]
    omega
  have cleanup : ∀ ret : Errcode, ret ≠ 0 →
      Holds env (fun _ => True) (renameCleanup newDir newName ino inode ret)
        (base.Loses {dir, newDir}) ns := by
    intro ret failed
    refine (tally_renameCleanup_file tally lawful validNew newIsDir lessNew valid
      recorded ret).mono ?_
    rintro rc next (fewer | rfl) success
    · omega
    · exact absurd success failed
  refine holds_bind (holds_bind (holds_namei lawful (tally.valid ▸ validDir) (tally.isDir ▸ isDir)
    ?_ fun _ => ?_))
  · intro entry found
    obtain ⟨inEnts, named⟩ := mem_of_find found
    have matching : ∃ other ∈ ns.ents dir, Dirent.matchesEntry name entry.inode other = true :=
      ⟨entry, inEnts, by simp [Dirent.matchesEntry, named]⟩
    refine (tally_doUnlinkOnIno tally lawful validDir isDir less matching).mono ?_
    rintro rc next (⟨-, failed, rfl⟩ | ⟨rfl, fewer⟩)
    · rw [if_pos failed]
      exact cleanup rc failed
    · rw [if_neg (by simp)]
      have names := fewer.names
      exact holds_pure fun _ => by omega
  · refine holds_pure ?_
    rw [if_pos (by decide)]
    exact cleanup _ (by decide)

omit lawful validDir isDir newIsDir in
/-- Raising a count enters no name. -/
theorem tally_renameRaise {dirs : Finset Nat} (tally : base.Tally dirs count ns)
    (mode : inode.iMode = base.mode ino) :
    Holds env (fun _ => True) (renameRaise newDir ino inode)
      (fun result next => ∃ copy, result = .ok copy ∧ copy.iMode = base.mode ino ∧
        base.Tally dirs count next ∧ next.ents = ns.ents) ns := by
  simp only [renameRaise]
  split
  · have raisedMode : inode.raiseLinks.iMode = base.mode ino := by simpa using mode
    refine holds_bind (holds_writeInodeWrapper (tally.valid ▸ valid) trivial ?_)
    exact holds_pure ⟨_, rfl, raisedMode, tally.setInode raisedMode _, rfl⟩
  · have stillValid : ns.valid newDir = true := tally.valid ▸ validNew
    refine holds_bind (holds_readInode stillValid fun newInode agrees => ?_)
    have raisedMode : newInode.raiseLinks.iMode = base.mode newDir := by
      rw [raiseLinks_mode, agrees.1, tally.mode]
    refine holds_bind (holds_writeInode stillValid trivial ?_)
    exact holds_pure ⟨_, rfl, mode, tally.setInode raisedMode _, rfl⟩

/-- `do_rename` from the new link on, when the target is what is being moved. -/
theorem loses_renameLinked (tally : base.Tally {dir, newDir} (count + 1) ns)
    (same : count = base.names {dir, newDir}) (some : 0 < count)
    (recorded : LINUX_S_ISDIR inode.iMode = base.isDir ino)
    (found : ∃ entry ∈ ns.ents newDir, Dirent.matchesEntry newName ino entry = true) :
    Holds env (fun _ => True) (renameLinked perms dir name newDir newName ino ino inode)
      (base.Loses {dir, newDir}) ns := by
  have notZero : ino ≠ 0 := by
    rintro rfl
    simp [Ns.valid] at valid
  have less : count + 1 = count + weight {dir, newDir} newDir := by simp [weight]
  simp only [renameLinked]
  rw [if_pos notZero]
  refine holds_bind (holds_readInodeWrapper (tally.valid ▸ valid) fun targetInode agrees => ?_)
  have targetRecorded : LINUX_S_ISDIR targetInode.iMode = base.isDir ino := by
    rw [agrees.1, tally.mode, Ns.isDir]
  simp only [recorded, targetRecorded]
  cases kind : base.isDir ino with
  | true =>
      rw [kind] at recorded
      rw [if_pos rfl, if_neg (by simp)]
      refine holds_bind ((tally_doRmdirOnIno tally lawful validNew newIsDir less valid).mono ?_)
      rintro rc next (failed | ⟨rfl, fewer⟩)
      · rw [if_pos failed]
        exact holds_cleanup_dir recorded failed
      · rw [if_neg (by simp)]
        exact loses_renameDirOld lawful validDir isDir valid fewer same some kind recorded
  | false =>
      rw [kind] at recorded
      rw [if_neg (by simp), if_neg (by simp)]
      refine holds_bind ((tally_doUnlinkOnIno tally lawful validNew newIsDir less found).mono ?_)
      rintro rc next (⟨isDirectory, -, -⟩ | ⟨rfl, fewer⟩)
      · rw [isDirectory valid] at kind
        cases kind
      · rw [if_neg (by simp)]
        exact loses_renameFileOld lawful validDir isDir validNew newIsDir valid fewer
          same some recorded

end Rename

section Results

variable {δ : Type} {env : Env δ}

/-- What is asked of a rename from one name of an object to another one: it succeeds and does
nothing, up to the order in which the entries are stored. -/
structure Harmless (env : Env δ) (fs : Fs δ) (rc : Errcode) (fs' : Fs δ) : Prop where
  success : rc = 0
  ents : ∀ dir, ((fs'.ns env).ents dir).Perm ((fs.ns env).ents dir)
  links : (fs'.ns env).links = (fs.ns env).links
  inodeMap : fs'.inodeMap = fs.inodeMap
  blockMap : fs'.vol.blockMap = fs.vol.blockMap

theorem Loses.not_harmless {fs fs' : Fs δ} {rc : Errcode} {dirs : Finset Nat}
    (loses : (fs.ns env).Loses dirs rc (fs'.ns env)) : ¬ Harmless env fs rc fs' := by
  intro harmless
  have same : (fs'.ns env).names dirs = (fs.ns env).names dirs :=
    Finset.sum_congr rfl fun dir _ => (harmless.ents dir).length_eq
  have fewer := loses harmless.success
  omega

variable {fs : Fs δ} {ns : Ns} {dir newDir ino : Nat} {name newName : Name} {perms : Perms}

/-- `do_rename` between two names of one inode. -/
theorem loses_doRename (lawful : env.dir.Lawful) (validDir : ns.valid dir = true)
    (isDir : ns.isDir dir = true) (validNew : ns.valid newDir = true)
    (newIsDir : ns.isDir newDir = true) (valid : ns.valid ino = true) {old new : Dirent}
    (found : (ns.ents dir).find? (fun entry => entry.name == name) = some old)
    (newFound : (ns.ents newDir).find? (fun entry => entry.name == newName) = some new)
    (oldInode : old.inode = ino) (newInode : new.inode = ino) :
    Holds env (fun _ => True) (doRename perms dir name newDir newName)
      (ns.Loses {dir, newDir}) ns := by
  have tally := Tally.refl ns {dir, newDir}
  generalize same : ns.names {dir, newDir} = count at tally
  have some : 0 < count := by
    have inEnts := (mem_of_find found).1
    rw [← same]
    exact Finset.sum_pos_iff.mpr ⟨dir, by simp, List.length_pos_of_mem inEnts⟩
  have weightNew : weight {dir, newDir} newDir = 1 := by simp [weight]
  refine holds_bind (holds_namei lawful validDir isDir ?_ ?_)
  · intro entry isFound
    obtain rfl : old = entry := by simpa [found] using isFound
    rw [oldInode]
    refine holds_bind (holds_namei lawful validNew newIsDir ?_ ?_)
    · intro entry isFound
      obtain rfl : new = entry := by simpa [newFound] using isFound
      rw [newInode]
      refine holds_bind (holds_readInodeWrapper valid fun inode agrees => ?_)
      refine holds_bind ((tally_renameRaise validNew valid tally agrees.1).mono ?_)
      rintro - raised ⟨copy, rfl, mode, raisedTally, raisedEnts⟩
      have recorded : LINUX_S_ISDIR copy.iMode = ns.isDir ino := by rw [mode, Ns.isDir]
      refine holds_bind ((tally_doLink raisedTally lawful validNew newIsDir _).mono ?_)
      rintro rc next (⟨rfl, entered, stored⟩ | ⟨rfl, rfl⟩)
      · rw [weightNew] at entered
        rw [if_neg (by simp)]
        exact loses_renameLinked lawful validDir isDir validNew newIsDir valid
          entered same.symm some
          recorded stored
      · -- the name that `cleanup:` removes is one that was there before
        rw [if_pos (by decide)]
        cases kind : ns.isDir ino with
        | true => exact holds_cleanup_dir (recorded.trans kind) (by decide)
        | false =>
            refine (tally_renameCleanup_file raisedTally lawful validNew newIsDir
              (show count = (count - 1) + weight {dir, newDir} newDir by omega) valid
              (recorded.trans kind) EIO).mono ?_
            rintro rc next (fewer | rfl) success
            · omega
            · exact absurd success (by decide)
    · intro none
      rw [newFound] at none
      cases none
  · intro none
    rw [found] at none
    cases none

/-- Renaming between two names of one inode is never harmless: if it succeeds, a name is gone. -/
theorem rename_same_not_harmless (lawful : env.dir.Lawful) (consistent : (fs.ns env).Consistent)
    (reachable : (fs.ns env).Reachable dir) (newReachable : (fs.ns env).Reachable newDir)
    (resolves : fs.ext2fsLookup env dir name = .ok ino)
    (newResolves : fs.ext2fsLookup env newDir newName = .ok ino) :
    let outcome := (doRename perms dir name newDir newName).run (Fs.lib env) fs
    ¬ Harmless env fs outcome.1 outcome.2 := by
  obtain ⟨-, live, parent, tree, -⟩ := consistent.sound
  have member := tree.reachable_iff.mp reachable
  have newMember := tree.reachable_iff.mp newReachable
  have validDir := (tree.alive_dir member).1
  have validNew := (tree.alive_dir newMember).1
  have isDir := tree.isDir dir member
  have newIsDir := tree.isDir newDir newMember
  obtain ⟨old, found, oldInode⟩ := Fs.find_of_lookup lawful validDir isDir resolves
  obtain ⟨new, newFound, newInode⟩ := Fs.find_of_lookup lawful validNew newIsDir newResolves
  have valid : (fs.ns env).valid ino = true := by
    rw [← oldInode]
    exact (tree.alive dir member old (mem_of_find found).1).1
  exact Loses.not_harmless
    (loses_doRename lawful validDir isDir validNew newIsDir valid found newFound
    oldInode newInode trivial fs rfl).run

/-- The two hard links of a file. -/
theorem rename_hard_links :
    let outcome := (doRename (some ⟨0, 0⟩) 2 (letters 0) 2 (letters 1)).run
      (Fs.lib listEnv) (linkedFs 2)
    ¬ Harmless listEnv (linkedFs 2) outcome.1 outcome.2 := by
  have resolves : (linkedFs 2).ext2fsLookup listEnv 2 (letters 0) = .ok 11 := rfl
  have newResolves : (linkedFs 2).ext2fsLookup listEnv 2 (letters 1) = .ok 11 := rfl
  exact rename_same_not_harmless listDir_lawful (linkedFs_consistent 2 (by decide))
    .refl .refl resolves
    newResolves

/-- A file with one name is renamed to the name it has: `do_rename` reports success, the name
is gone and the file has been released. -/
theorem rename_to_itself :
    ((linkedFs 1).ns listEnv).Consistent ∧
    (linkedFs 1).ext2fsLookup listEnv 2 (letters 0) = .ok 11 ∧
    let outcome := (doRename (some ⟨0, 0⟩) 2 (letters 0) 2 (letters 0)).run
      (Fs.lib listEnv) (linkedFs 1)
    outcome.1 = 0 ∧
      outcome.2.ext2fsLookup listEnv 2 (letters 0) = .error EXT2_ET_FILE_NOT_FOUND ∧
      (linkedFs 1).inodeMap 11 = true ∧ outcome.2.inodeMap 11 = false ∧
      ¬ Harmless listEnv (linkedFs 1) outcome.1 outcome.2 := by
  have freed : ((doRename (some ⟨0, 0⟩) 2 (letters 0) 2 (letters 0)).run (Fs.lib listEnv)
      (linkedFs 1)).2.inodeMap 11 = false := by decide +kernel
  refine ⟨linkedFs_consistent 1 (by decide), rfl, by decide +kernel, by rfl, rfl, freed, ?_⟩
  intro harmless
  have kept := congrFun harmless.inodeMap 11
  rw [freed] at kept
  cases kept

end Results

end Ext2Fuse
