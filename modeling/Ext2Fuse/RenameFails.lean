import Ext2Fuse.FailedCreates
import Ext2Fuse.RenameMoves
import Ext2Fuse.RmdirEmpty

/-!
# Renames that fail

`do_rename` raises a count and enters the new name before it looks at what is in the way, so that
each of its errors has something to take back. Links and the expansion of directories may fail here
for any reason; the other calls do what they are asked to.
-/

namespace Ext2Fuse

open Lib Program Fs Ns

section Faults

variable {δ : Type}

/-- What an entry of the schedule makes of a link or of the expansion of a directory. Whether a
directory is expanded is up to the schedule alone, which covers the ones for which there is no
block; those leave what `ext2fs_expand_dir` leaves. The other calls are not in the schedule. -/
def LibCall.linkOutcome (env : Env δ) :
    {β : Type} → LibCall δ β → Option (Option Fault → Fs δ → β × Fs δ)
  | _, .link dir name ino flags => some fun given fs => fs.linkGiven env dir name ino flags given
  | _, .expandDir dir => some fun
      | none, fs => (0, { (fs.ext2fsExpandDir env dir).2 with
          dirs := Function.update fs.dirs dir (env.dir.expand (fs.dirs dir)) })
      | some fault, fs =>
          (fault.code, if (fs.ext2fsExpandDir env dir).1 =
            0 then fs else (fs.ext2fsExpandDir env dir).2)
  | _, _ => none

/-- The library over a schedule of what becomes of links and expansions. -/
def Fs.linkLib (env : Env δ) : Interp (LibCall δ) (Fs δ × List (Option Fault)) :=
  (lib env).scheduled (LibCall.linkOutcome env)

variable {env : Env δ}

/-- No call of the routine is a link or an expansion. -/
abbrev Linkless (env : Env δ) {α : Type} (program : Prog δ α) : Prop :=
  Exempt (LibCall.linkOutcome env) program

/-- read_inode enters no name. -/
theorem linkless_readInode (ino : Nat) : Linkless env (readInode ino) := by
  refine exempt_bind (exempt_lift rfl) fun found => ?_
  cases found with
  | error rc => exact exempt_pure _
  | ok inode => exact exempt_pure _

/-- write_inode enters no name. -/
theorem linkless_writeInode (ino : Nat) (inode : Inode) : Linkless env (writeInode ino inode) :=
  exempt_bind (exempt_lift rfl) fun _ => exempt_pure _

/-- kill_file_by_inode enters no name. -/
theorem linkless_killFileByInode (ino : Nat) (inode : Inode) :
    Linkless env (killFileByInode ino inode) := by
  refine exempt_bind (exempt_lift rfl) fun _ => exempt_bind (linkless_writeInode _ _) fun _ => ?_
  refine exempt_ite (exempt_pure _) (exempt_ite (exempt_pure _) ?_)
  refine exempt_bind (exempt_lift rfl) fun _ => ?_
  exact exempt_bind (exempt_lift rfl) fun _ => exempt_lift rfl

/-- do_unlink_on_ino enters no name. -/
theorem linkless_doUnlinkOnIno (dir : Nat) (name : Name) (ino : Nat) (links : Int) :
    Linkless env (doUnlinkOnIno dir name ino links) := by
  refine exempt_bind (linkless_readInode _) fun found => ?_
  cases found with
  | error rc => exact exempt_pure _
  | ok inode =>
      refine exempt_ite (exempt_pure _) (exempt_bind (exempt_lift rfl) fun _ => ?_)
      refine exempt_ite ?_ (exempt_bind (linkless_writeInode _ _) fun _ => exempt_pure _)
      exact exempt_bind (linkless_killFileByInode _ _) fun _ => exempt_pure _

/-- do_unlink enters no name. -/
theorem linkless_doUnlink (dir : Nat) (name : Name) (links : Int) :
    Linkless env (doUnlink dir name links) := by
  refine exempt_bind (exempt_lift rfl) fun found => ?_
  cases found with
  | error rc => exact exempt_pure _
  | ok ino => exact linkless_doUnlinkOnIno dir name ino links

/-- do_rmdir_on_ino enters no name. -/
theorem linkless_doRmdirOnIno (perms : Perms) (dir : Nat) (name : Name) (ino : Nat) :
    Linkless env (doRmdirOnIno perms dir name ino) := by
  refine exempt_bind (linkless_readInode _) fun found => ?_
  cases found with
  | error rc => exact exempt_pure _
  | ok inode =>
      refine exempt_ite (exempt_pure _) (exempt_ite (exempt_pure _) ?_)
      refine exempt_bind (exempt_lift rfl) fun _ => ?_
      refine exempt_ite (exempt_pure _) (exempt_ite (exempt_pure _) ?_)
      refine exempt_bind (exempt_lift rfl) fun _ => exempt_ite (exempt_pure _) ?_
      refine exempt_bind (linkless_killFileByInode _ _) fun _ => exempt_ite (exempt_pure _) ?_
      refine exempt_bind (linkless_readInode _) fun found => ?_
      cases found with
      | error rc => exact exempt_pure _
      | ok inode => exact linkless_writeInode _ _

/-- The cleanup of a rename enters no name. -/
theorem linkless_renameCleanup (newDir : Nat) (newName : Name) (ino : Nat) (inode : Inode)
    (ret : Errcode) : Linkless env (renameCleanup newDir newName ino inode ret) := by
  refine exempt_bind (exempt_lift rfl) fun _ => exempt_ite (exempt_pure _) (exempt_ite ?_ ?_)
  · exact exempt_bind (linkless_writeInode _ _) fun _ => exempt_pure _
  · refine exempt_bind (exempt_lift rfl) fun found => ?_
    cases found with
    | error rc => exact exempt_pure _
    | ok inode => exact exempt_bind (exempt_lift rfl) fun _ => exempt_pure _

/-- The rest of a file's rename enters no name. -/
theorem linkless_renameFileOld (dir : Nat) (name : Name) (newDir : Nat) (newName : Name) (ino : Nat)
    (inode : Inode) : Linkless env (renameFileOld dir name newDir newName ino inode) :=
  exempt_bind (linkless_doUnlink _ _ _) fun _ =>
    exempt_ite (linkless_renameCleanup _ _ _ _ _) (exempt_pure _)

/-- A file's rename enters no name once the new one is in. -/
theorem linkless_renameLinked_file (perms : Perms) (dir : Nat) (name : Name) (newDir : Nat)
    (newName : Name) (ino target : Nat) {inode : Inode}
    (recorded : LINUX_S_ISDIR inode.iMode = false) :
    Linkless env (renameLinked perms dir name newDir newName ino target inode) := by
  rw [renameLinked, recorded]
  rw [if_neg Bool.false_ne_true]
  refine exempt_ite ?_ (linkless_renameFileOld _ _ _ _ _ _)
  refine exempt_bind (linkless_readInode _) fun found => ?_
  cases found with
  | error rc => exact linkless_renameCleanup _ _ _ _ _
  | ok targetInode =>
      dsimp only
      rw [if_neg (by simp)]
      refine exempt_ite (exempt_pure _) (exempt_bind (linkless_doUnlinkOnIno _ _ _ _) fun _ => ?_)
      exact exempt_ite (linkless_renameCleanup _ _ _ _ _) (linkless_renameFileOld _ _ _ _ _ _)

variable {fs : Fs δ} {faults : List (Option Fault)}

/-- A routine without links does what it does when nothing fails, and takes nothing of the
schedule. -/
theorem leads_of_holds {α : Type} {program : Prog δ α} {post : α → Ns → Prop}
    (linkless : Linkless env program) (holds : Holds env (fun _ => True) program post (fs.ns env)) :
    Leads (linkLib env) program (fun result next => post result (next.1.ns env)) (fs, faults) :=
  linkless.leads (holds trivial fs rfl).run

/-- In this library every expansion is up to the schedule. -/
theorem entering_linkLib (env : Env δ) : Entering env (linkLib env) fun _ _ => True where
  link fs dir name ino flags faults := by
    obtain ⟨code, refilled, -⟩ :=
      @linkGiven_first δ env (fun _ _ => True) fs dir name ino flags faults
    rw [leads_lift, linkLib, exec_scheduled_some rfl, List.head?_eq_getElem?]
    exact ⟨code, refilled, rfl, fun _ => Iff.rfl⟩
  expandDir fs dir faults := by
    have native := ext2fsExpandDir_refills env fs dir
    rw [leads_lift, linkLib, exec_scheduled_some rfl, List.head?_eq_getElem?]
    cases head : faults[0]?.join with
    | none =>
        have ok : ¬ Fails faults 0 := by
          rintro ⟨fault, found⟩
          rw [found] at head
          cases head
        exact ⟨iff_of_true rfl ⟨ok, trivial⟩, native.refill _, rfl⟩
    | some fault =>
        have failing : Fails faults 0 := ⟨fault, Option.join_eq_some_iff.mp head⟩
        refine ⟨iff_of_false fault.nonzero fun both => both.1 failing, ?_, rfl⟩
        dsimp only
        rw [if_neg fault.nonzero]
        split
        · exact refilled_self
        · rename_i refused
          rwa [if_neg refused] at native

/-- What the attempts to enter a name in this library depend on. -/
def Fs.renameAttempt (env : Env δ) (fs : Fs δ) (dir : Nat) (name : Name) (ino filetype : Nat)
    (faults : List (Option Fault)) : LinkAttempt δ :=
  fs.linkAttempt env (fun _ _ => True) dir name ino filetype faults

/-- Another filesystem has other contents of the directory. -/
theorem renameAttempt_eq {fs' : Fs δ} {dir : Nat} (super : fs'.super = fs.super)
    (checked : fs'.ext2fsCheckDirectory dir = fs.ext2fsCheckDirectory dir) (name : Name)
    (ino filetype : Nat) : fs'.renameAttempt env dir name ino filetype faults =
      { fs.renameAttempt env dir name ino filetype faults with contents := fs'.dirs dir } := by
  rw [renameAttempt, linkAttempt, checked, recordedType, super]
  rfl

/-- Where only ext2fs_link may fail a name is looked up as before. -/
theorem run_getInoByName_linkLib (dir : Nat) (name : Name) :
    (getInoByName dir name).run (linkLib env) (fs, faults) =
      (fs.ext2fsLookup env dir name, (fs, faults)) :=
  @exec_scheduled_none _ _ _ (lib env) (LibCall.linkOutcome env) (.namei dir name) rfl fs faults

/-- And an inode in range is read as before. -/
theorem run_readInode_linkLib {ino : Nat} (valid : fs.validIno ino = true) :
    (readInode ino).run (linkLib env) (fs, faults) = (.ok (fs.inodeTab ino), (fs, faults)) := by
  rw [readInode, run_bind, run_lift, linkLib, exec_scheduled_none rfl, lib_readInode,
    ext2fsReadInode, if_pos valid]
  rfl

/-- The count that `do_rename` raises, and for which inode. -/
theorem run_renameRaise_linkLib {newDir ino : Nat} (valid : fs.validIno ino = true)
    (validNew : fs.validIno newDir = true) :
    (renameRaise newDir ino (fs.inodeTab ino)).run (linkLib env) (fs, faults) =
      if LINUX_S_ISDIR (fs.inodeTab ino).iMode then
        (.ok (fs.inodeTab ino), (fs.withRaised newDir, faults))
      else (.ok (fs.inodeTab ino).raiseLinks, (fs.withRaised ino, faults)) := by
  rw [renameRaise]
  cases LINUX_S_ISDIR (fs.inodeTab ino).iMode
  · rw [Bool.not_false, if_pos rfl, run_bind, writeInode, run_bind, run_lift, linkLib,
      exec_scheduled_none rfl, lib_writeInode, ext2fsWriteInode, if_pos valid]
    rfl
  · rw [Bool.not_true, if_neg (by simp), run_bind, run_lift, linkLib,
      exec_scheduled_none rfl, lib_readInode, ext2fsReadInode, if_pos validNew]
    dsimp only
    rw [run_bind, run_lift, exec_scheduled_none rfl, lib_writeInode, ext2fsWriteInode,
      if_pos validNew]
    rfl

end Faults

namespace Ns

/-- What an entry says: a name and an inode. -/
def key (entry : Dirent) : Name × Nat := (entry.name, entry.inode)

/-- Every directory has the same names for the same inodes, and every inode the links it had. -/
structure Unchanged (ns next : Ns) : Prop where
  entries : ∀ dir said, said ∈ (next.ents dir).map key ↔ said ∈ (ns.ents dir).map key
  links : next.links = ns.links

/-- An inode has one more link, in 16 bits. -/
def bumped (ns : Ns) (ino : Nat) : Ns :=
  ns.setInode ino (ns.mode ino) ((ns.links ino + 1) % 2 ^ 16)

/-- A name space has not changed from itself. -/
theorem Unchanged.refl (ns : Ns) : ns.Unchanged ns := ⟨fun _ _ => Iff.rfl, rfl⟩

section Keys

variable {ents before after : List Dirent} {name : Name} {ino : Nat}

/-- An entry matches when its name and its inode do. -/
theorem matches_iff_key (nonzero : ino ≠ 0) (entry : Dirent) :
    Dirent.matchesEntry name ino entry = true ↔ key entry = (name, ino) := by
  simp [Dirent.matchesEntry, key, nonzero]

/-- Removing a match takes one such saying away. -/
theorem keys_eraseP (nonzero : ino ≠ 0)
    (found : ∃ entry ∈ ents, Dirent.matchesEntry name ino entry = true) :
    ((name, ino) :: (ents.eraseP (Dirent.matchesEntry name ino)).map key).Perm (ents.map key) := by
  obtain ⟨before, entry, after, matching, split, erased⟩ := split_of_match found
  rw [erased, split, ← (matches_iff_key nonzero entry).mp matching]
  simp only [List.map_append, List.map_cons]
  exact List.perm_middle.symm

/-- One more entry is one more key, wherever it stands. -/
theorem keys_insert (entry : Dirent) :
    ((before ++ entry :: after).map key).Perm (key entry :: (before ++ after).map key) := by
  simp only [List.map_append, List.map_cons]
  exact List.perm_middle

/-- What has been entered and removed leaves the same sayings. -/
theorem keys_restored (nonzero : ino ≠ 0) (fileType : Nat) :
    (((before ++ ⟨name, ino, fileType⟩ :: after).eraseP
      (Dirent.matchesEntry name ino)).map key).Perm
      ((before ++ after).map key) := by
  have matching : Dirent.matchesEntry name ino ⟨name, ino, fileType⟩ = true := by
    simp [Dirent.matchesEntry]
  have fewer := @keys_eraseP (before ++ ⟨name, ino, fileType⟩ :: after) name ino nonzero
    ⟨_, by simp, matching⟩
  exact (fewer.trans (keys_insert _)).cons_inv

end Keys

variable {ns : Ns} {newDir ino fileType : Nat} {newName : Name} {before after : List Dirent}

/-- A count that has been raised is another one. -/
theorem bumped_links_ne (narrow : ns.Narrow) : (ns.bumped ino).links ino ≠ ns.links ino := by
  have bound := narrow ino
  simp only [bumped, setInode_links, Function.update_self]
  omega

/-- The new name is gone again, and so is the link of the new parent. -/
theorem unchanged_restored (narrow : ns.Narrow) (nonzero : ino ≠ 0)
    (split : ns.ents newDir = before ++ after) {next : Ns}
    (ents : next.ents = Function.update ns.ents newDir
      ((before ++ ⟨newName, ino, fileType⟩ :: after).eraseP (Dirent.matchesEntry newName ino)))
    (links : next.links = Function.update (ns.bumped newDir).links newDir
      (((ns.bumped newDir).links newDir + (2 ^ 16 - 1)) % 2 ^ 16)) : ns.Unchanged next where
  entries dir said := by
    rw [ents]
    by_cases own : dir = newDir
    · rw [own, Function.update_self, split]
      exact (keys_restored nonzero fileType).mem_iff
    · rw [Function.update_of_ne own]
  links := by
    have bound := narrow newDir
    rw [links]
    funext other
    by_cases own : other = newDir
    · subst own
      simp only [bumped, setInode_links, Function.update_self]
      omega
    · simp only [bumped, setInode_links, Function.update_of_ne own]

end Ns

/-- What `cleanup:` leaves for a directory: a match of the new name is gone and the new parent's
count lowered, or there was none. -/
def CleanedUp (ns : Ns) (newDir : Nat) (newName : Name) (ino : Nat) (next : Ns) : Prop :=
  ((∀ entry ∈ ns.ents newDir, Dirent.matchesEntry newName ino entry = false) ∧ next = ns) ∨
    ((∃ entry ∈ ns.ents newDir, Dirent.matchesEntry newName ino entry = true) ∧
      next.ents = Function.update ns.ents newDir
        ((ns.ents newDir).eraseP (Dirent.matchesEntry newName ino)) ∧
      next.links = Function.update ns.links newDir ((ns.links newDir + (2 ^ 16 - 1)) % 2 ^ 16))

section Cleanup

variable {δ : Type} {env : Env δ} {ns : Ns} {newDir ino : Nat} {newName : Name} {inode : Inode}

variable (lawful : env.dir.Lawful) (validNew : ns.valid newDir = true)
  (newIsDir : ns.isDir newDir = true)

include lawful validNew newIsDir

/-- The cleanup for a directory removes the new name and gives the error on. -/
theorem holds_cleanup_directory (recorded : LINUX_S_ISDIR inode.iMode = true) (ret : Errcode) :
    Holds env (fun _ => True) (renameCleanup newDir newName ino inode ret) (fun rc next =>
      rc = ret ∧ CleanedUp ns newDir newName ino next) ns := by
  refine holds_bind (holds_unlink lawful validNew newIsDir ?_ ?_)
  · intro entry member matching
    refine ⟨trivial, ?_⟩
    rw [if_neg (by simp), recorded, Bool.not_true, if_neg (by simp)]
    refine holds_bind (holds_readInode validNew fun newInode agrees => ?_)
    refine holds_bind (holds_writeInode validNew trivial (holds_pure ?_))
    have count : newInode.iLinksCount = ns.links newDir := agrees.2
    refine ⟨rfl, .inr ⟨⟨entry, member, matching⟩, rfl, ?_⟩⟩
    rw [setInode_links, Inode.lowerLinks, count]
    rfl
  · intro absent
    rw [if_pos (by decide)]
    exact holds_pure ⟨rfl, .inl ⟨absent, rfl⟩⟩

/-- For a file `cleanup:` reports success, unless there was no such name. -/
theorem holds_cleanup_file (valid : ns.valid ino = true)
    (recorded : LINUX_S_ISDIR inode.iMode = false) (ret : Errcode) :
    Holds env (fun _ => True) (renameCleanup newDir newName ino inode ret) (fun rc next =>
      ((∀ entry ∈ ns.ents newDir, Dirent.matchesEntry newName ino entry = false) ∧
        rc = ret ∧ next = ns) ∨
      ((∃ entry ∈ ns.ents newDir, Dirent.matchesEntry newName ino entry = true) ∧ rc = 0)) ns := by
  refine holds_bind (holds_unlink lawful validNew newIsDir ?_ ?_)
  · intro entry member matching
    refine ⟨trivial, ?_⟩
    rw [if_neg (by simp), recorded, Bool.not_false, if_pos rfl]
    refine holds_bind (holds_writeInodeWrapper valid trivial (holds_pure ?_))
    exact .inr ⟨⟨entry, member, matching⟩, rfl⟩
  · intro absent
    rw [if_pos (by decide)]
    exact holds_pure (.inl ⟨absent, rfl, rfl⟩)

end Cleanup

section Directories

variable {δ : Type} {env : Env δ} {fs : Fs δ} {faults : List (Option Fault)} {dir newDir ino : Nat}
  {name newName : Name} {inode : Inode} (lawful : env.dir.Lawful)
  (valid : (fs.ns env).valid ino = true) (isDir : (fs.ns env).isDir ino = true)
  (validDir : (fs.ns env).valid dir = true) (dirIsDir : (fs.ns env).isDir dir = true)
  (validNew : (fs.ns env).valid newDir = true) (newIsDir : (fs.ns env).isDir newDir = true)

include lawful valid isDir validDir dirIsDir

/-- Once `..` is entered, `do_rename` of a directory comes to its end. -/
theorem holds_renameDirOld_rest {ns : Ns} (sameValid : ns.valid = (fs.ns env).valid)
    (sameDirs : ns.isDir = (fs.ns env).isDir) (apart : dir ≠ ino)
    (dots : ∃ entry ∈ ns.ents ino, Dirent.matchesEntry dotDotName dir entry = true)
    (old : ∃ entry ∈ ns.ents dir, Dirent.matchesEntry name 0 entry = true) :
    Holds env (fun _ => True) (do
        let rc ← lift (.unlink ino dotDotName dir)
        if rc ≠ 0 then renameCleanup newDir newName ino inode EIO
        else
          let rc ← lift (.unlink dir name 0)
          if rc ≠ 0 then renameCleanup newDir newName ino inode EIO
          else
            match ← lift (.readInode dir) with
            | .error rc => return rc
            | .ok parentInode => lift (.writeInode dir parentInode.lowerLinks))
      (fun rc _ => rc = 0) ns := by
  rw [← sameValid] at valid validDir
  rw [← sameDirs] at isDir dirIsDir
  refine holds_bind (holds_unlink lawful valid isDir ?_ fun absent => ?_)
  · rintro - - -
    refine ⟨trivial, ?_⟩
    rw [if_neg (by simp)]
    generalize turnedEq : ns.setEnts ino
      ((ns.ents ino).eraseP (Dirent.matchesEntry dotDotName dir)) = turned
    have stillValid : turned.valid dir = true := by rw [← turnedEq]; exact validDir
    have stillDir : turned.isDir dir = true := by rw [← turnedEq]; exact dirIsDir
    have stillNamed : turned.ents dir = ns.ents dir := by
      rw [← turnedEq]
      exact Function.update_of_ne apart _ _
    refine holds_bind (holds_unlink lawful stillValid stillDir ?_ fun absent => ?_)
    · rintro - - -
      refine ⟨trivial, ?_⟩
      rw [if_neg (by simp)]
      have lastValid : (turned.setEnts dir
        ((turned.ents dir).eraseP (Dirent.matchesEntry name 0))).valid dir = true := stillValid
      refine holds_bind (holds_readInode lastValid fun parentInode _ => ?_)
      exact holds_writeInode lastValid trivial rfl
    · obtain ⟨entry, member, matching⟩ := old
      rw [absent entry (stillNamed ▸ member)] at matching
      cases matching
  · obtain ⟨entry, member, matching⟩ := dots
    rw [absent entry member] at matching
    cases matching

include validNew newIsDir

/-- The last part of `do_rename` for a directory is completed if `..` goes in. -/
theorem leads_renameDirOld (mapped : EXT2FS_INO newDir = newDir) (apart : dir ≠ ino)
    (dots : ∃ entry ∈ (fs.ns env).ents ino, Dirent.matchesEntry dotDotName dir entry = true)
    (old : ∃ entry ∈ (fs.ns env).ents dir, Dirent.matchesEntry name 0 entry = true)
    (recorded : LINUX_S_ISDIR inode.iMode = true) :
    let up := fs.renameAttempt env ino dotDotName newDir EXT2_FT_DIR faults
    Leads (linkLib env) (renameDirOld dir name newDir newName ino inode) (fun rc next =>
      (up.GoesIn ∧ rc = 0) ∨
      (up.StaysOut ∧ rc ≠ 0 ∧ CleanedUp (fs.ns env) newDir newName ino (next.1.ns env)) ∨
      (up.HalfIn ∧ rc ≠ 0 ∧ ∃ front back fileType, (fs.ns env).ents ino = front ++ back ∧
        CleanedUp ((fs.ns env).setEnts ino (front ++ ⟨dotDotName, newDir, fileType⟩ :: back))
          newDir newName ino (next.1.ns env)))
      (fs, faults) := by
  intro up
  have eio : EIO ≠ 0 := by decide
  rw [renameDirOld, mapped]
  refine leads_bind_of ?_
  rintro rc ⟨turned, rest⟩ outcome
  obtain ⟨-, ⟨goesIn, rfl, refilled, -, inserts⟩ | ⟨half, rfl, contents, refilled, inserts⟩ |
      ⟨staysOut, rfl, contents, refilled, entries⟩⟩ :=
    ((entering_linkLib env).leads_doLink lawful fs ino dotDotName newDir EXT2_FT_DIR
      faults).outcome outcome
  · obtain ⟨before, after, fileType, split, made⟩ :=
      @Refilled.ns_inserts δ env _ _ _ _ up refilled rfl inserts
    have made : turned.ns env = (fs.ns env).setEnts ino
      (before ++ ⟨dotDotName, newDir, fileType⟩ :: after) := made
    rw [if_neg (by simp)]
    refine Leads.mono (leads_of_holds ?_
      (holds_renameDirOld_rest lawful valid isDir validDir dirIsDir
      ?_ ?_ apart ?_ ?_)) fun rc next done => .inl ⟨goesIn, done⟩
    · refine exempt_bind (exempt_lift rfl) fun rc =>
        exempt_ite (linkless_renameCleanup _ _ _ _ _) (exempt_bind (exempt_lift rfl) fun rc =>
          exempt_ite (linkless_renameCleanup _ _ _ _ _) (exempt_bind (exempt_lift rfl)
            fun read => ?_))
      cases read with
      | error rc => exact exempt_pure _
      | ok parentInode => exact exempt_lift rfl
    · rw [made]
      rfl
    · rw [made]
      rfl
    · obtain ⟨entry, member, matching⟩ := dots
      refine ⟨entry, ?_, matching⟩
      rw [made, setEnts_ents, Function.update_self]
      rw [split] at member
      exact (List.mem_append.mp member).elim (List.mem_append_left _)
        fun later => List.mem_append_right _ (List.mem_cons_of_mem _ later)
    · have newOld : (turned.ns env).ents dir = (fs.ns env).ents dir := by
        rw [made]
        exact Function.update_of_ne apart _ _
      exact newOld ▸ old
  · obtain ⟨before, after, fileType, split, made⟩ :=
      @Refilled.ns_inserts δ env _ _ _ _ up refilled rfl inserts
    have made : turned.ns env = (fs.ns env).setEnts ino
      (before ++ ⟨dotDotName, newDir, fileType⟩ :: after) := made
    have cleaned := @holds_cleanup_directory δ env (turned.ns env) newDir ino newName inode lawful
      (by rw [made]; exact validNew) (by rw [made]; exact newIsDir) recorded EIO
    rw [if_pos eio]
    refine (leads_of_holds (linkless_renameCleanup _ _ _ _ _) cleaned).mono ?_
    rintro rc next ⟨rfl, cleaned⟩
    rw [made] at cleaned
    exact .inr (.inr ⟨half, eio, before, after, fileType, split, cleaned⟩)
  · have same : turned.ns env = fs.ns env := refilled.ns_same entries
    have cleaned := @holds_cleanup_directory δ env _ newDir ino newName inode lawful
      validNew newIsDir
      recorded EIO
    rw [← same] at cleaned
    rw [if_pos eio]
    refine (leads_of_holds (linkless_renameCleanup _ _ _ _ _) cleaned).mono ?_
    rintro rc next ⟨rfl, cleaned⟩
    rw [same] at cleaned
    exact .inr (.inl ⟨staysOut, eio, cleaned⟩)

end Directories

section Over

variable {δ : Type} {env : Env δ} {fs : Fs δ} {faults : List (Option Fault)}
  {dir newDir ino target : Nat} {name newName : Name} {perms : Perms} {inode : Inode}

/-- The directory in the way may be removed: the caller may write to it and it is empty. -/
def Clearable (env : Env δ) (perms : Perms) (fs : Fs δ) (target : Nat) : Prop :=
  checkPermsInInode perms (fs.inodeTab target) W_OK = 0 ∧ ¬ fs.Occupied env target

/-- What makes a directory clearable is its inode and its entries. -/
theorem clearable_congr {linked : Fs δ} (table : linked.inodeTab target = fs.inodeTab target)
    (ents : (linked.ns env).ents target = (fs.ns env).ents target) :
    Clearable env perms linked target ↔ Clearable env perms fs target := by
  have same : env.dir.entries (linked.dirs target) = env.dir.entries (fs.dirs target) := ents
  rw [Clearable, Clearable, Occupied, Occupied, table, same]

/-- `do_rmdir_on_ino` of a directory that is named there: it is left alone, or it is removed and
nothing else is. -/
theorem leads_clears (lawful : env.dir.Lawful) (valid : fs.validIno target = true)
    (isDir : LINUX_S_ISDIR (fs.inodeTab target).iMode = true) (apart : newDir ≠ target)
    (validNew : (fs.ns env).valid newDir = true) (newIsDir : (fs.ns env).isDir newDir = true)
    (dotDot : ∃ entry ∈ (fs.ns env).ents target, entry.name = dotDotName ∧ entry.inode ≠ 0)
    (found : ∃ entry ∈ (fs.ns env).ents newDir, Dirent.matchesEntry newName target entry = true) :
    Leads (lib env) (doRmdirOnIno perms newDir newName target) (fun rc next =>
      (¬ Clearable env perms fs target ∧ rc ≠ 0 ∧ next.ns env = fs.ns env) ∨
      (Clearable env perms fs target ∧ rc = 0 ∧
        (fs.ns env).Lists (erased (fs.ns env).ents newDir newName target) (next.ns env) ∧
        next.super = fs.super ∧ next.dirs = Function.update fs.dirs newDir
          (env.dir.unlink (fs.dirs newDir) newName target).2)) fs := by
  have removes :=
    (@lists_doRmdirOnIno δ env _ _ _ newDir target newName (Lists.refl (fs.ns env)) lawful
    validNew newIsDir perms valid trivial fs rfl).run
  by_cases passes : checkPermsInInode perms (fs.inodeTab target) W_OK = 0
  swap
  · have denied : (doRmdirOnIno perms newDir newName target).run (lib env) fs = (EACCES, fs) := by
      rw [doRmdirOnIno, run_bind, run_readInode valid]
      dsimp only
      rw [if_pos passes]
      rfl
    rw [Leads, denied]
    exact .inl ⟨fun clear => passes clear.1, show EACCES ≠ 0 by decide, rfl⟩
  have unlinks : (fs.ext2fsUnlink env newDir newName target).1 = 0 := by
    rw [(ext2fsUnlink_eq lawful validNew newIsDir).1, if_pos (List.any_eq_true.mpr found)]
  have checked : fs.ext2fsCheckDirectory newDir = 0 := checkDirectory_of_isDir validNew newIsDir
  have removed := @leads_doRmdirOnIno δ env fs perms newDir target newName valid isDir passes
    (lawful.readable _) apart dotDot
  rw [Leads] at removed ⊢
  generalize (doRmdirOnIno perms newDir newName target).run (lib env) fs = outcome at *
  obtain ⟨occupied, refused, same⟩ | ⟨vacant, -, succeeds, done⟩ := removed
  · refine .inl ⟨fun clear => clear.2 occupied, ?_, congrArg _ same⟩
    rw [refused]
    decide
  · have zero := succeeds.mpr unlinks
    obtain ⟨super, dirs, -⟩ := done zero
    rw [ext2fsUnlink, if_pos checked] at dirs
    refine .inr ⟨⟨passes, vacant⟩, zero, ?_, super, dirs⟩
    obtain ⟨failed, -⟩ | ⟨-, -, -, lists⟩ := removes
    · exact absurd zero failed
    · exact lists

/-- `do_rename` of a directory from the removal of another one on. -/
def renameOverDir (perms : Perms) (dir : Nat) (name : Name) (newDir : Nat) (newName : Name)
    (ino target : Nat) (inode : Inode) : Prog δ Errcode := do
  let ret ← doRmdirOnIno perms newDir newName target
  if ret ≠ 0 then renameCleanup newDir newName ino inode ret
  else renameDirOld dir name newDir newName ino inode

variable (lawful : env.dir.Lawful)
  (valid : (fs.ns env).valid ino = true) (isDir : (fs.ns env).isDir ino = true)
  (validDir : (fs.ns env).valid dir = true) (dirIsDir : (fs.ns env).isDir dir = true)
  (validNew : (fs.ns env).valid newDir = true) (newIsDir : (fs.ns env).isDir newDir = true)
  (validTarget : (fs.ns env).valid target = true) (targetIsDir : (fs.ns env).isDir target = true)

include lawful valid isDir validDir dirIsDir validNew newIsDir validTarget targetIsDir

/-- A target that may not be removed is left with everything else, another one goes first. -/
theorem leads_renameOverDir (mapped : EXT2FS_INO newDir = newDir) (apart : dir ≠ ino)
    (newApart : newDir ≠ target)
    (dots : ∃ entry ∈ erased (fs.ns env).ents newDir newName target ino,
      Dirent.matchesEntry dotDotName dir entry = true)
    (targetDots : ∃ entry ∈ (fs.ns env).ents target, entry.name = dotDotName ∧ entry.inode ≠ 0)
    (found : ∃ entry ∈ (fs.ns env).ents newDir, Dirent.matchesEntry newName target entry = true)
    (old : ∃ entry ∈ erased (fs.ns env).ents newDir newName target dir,
      Dirent.matchesEntry name 0 entry = true)
    (recorded : LINUX_S_ISDIR inode.iMode = true) :
    let up := { fs.renameAttempt env ino dotDotName newDir EXT2_FT_DIR faults with
      contents := Function.update fs.dirs newDir
        (env.dir.unlink (fs.dirs newDir) newName target).2 ino }
    Leads (linkLib env) (renameOverDir perms dir name newDir newName ino target inode)
      (fun rc next =>
        (¬ Clearable env perms fs target ∧ rc ≠ 0 ∧
          CleanedUp (fs.ns env) newDir newName ino (next.1.ns env)) ∨
        (Clearable env perms fs target ∧ up.GoesIn ∧ rc = 0) ∨
        (Clearable env perms fs target ∧ ¬ up.GoesIn ∧ rc ≠ 0 ∧ ∃ mid : Ns,
          (mid.ents = erased (fs.ns env).ents newDir newName target ∨
            ∃ front back fileType, erased
              (fs.ns env).ents newDir newName target ino = front ++ back ∧
              mid.ents = Function.update (erased (fs.ns env).ents newDir newName target) ino
                (front ++ ⟨dotDotName, newDir, fileType⟩ :: back)) ∧
          CleanedUp mid newDir newName ino (next.1.ns env))) (fs, faults) := by
  intro up
  have cleared : Leads (linkLib env) (doRmdirOnIno perms newDir newName target) (fun rc next =>
      next.2 = faults ∧ ((¬ Clearable env perms fs target ∧ rc ≠ 0 ∧ next.1.ns env = fs.ns env) ∨
        (Clearable env perms fs target ∧ rc = 0 ∧
          (fs.ns env).Lists (erased (fs.ns env).ents newDir newName target) (next.1.ns env) ∧
          next.1.super = fs.super ∧ next.1.dirs = Function.update fs.dirs newDir
            (env.dir.unlink (fs.dirs newDir) newName target).2))) (fs, faults) :=
    (linkless_doRmdirOnIno _ _ _ _).leads
      ((leads_clears lawful validTarget targetIsDir newApart validNew
      newIsDir targetDots found).mono fun _ _ ended => ⟨rfl, ended⟩)
  rw [renameOverDir]
  refine leads_bind_of ?_
  rintro rc ⟨mid, rest⟩ outcome
  obtain ⟨rfl, ⟨stays, failed, same⟩ | ⟨clearable, rfl, lists, super, dirs⟩⟩ :=
    cleared.outcome outcome
  · have same : mid.ns env = fs.ns env := same
    have cleaned := @holds_cleanup_directory δ env _ newDir ino newName inode lawful
      validNew newIsDir
      recorded rc
    rw [← same] at cleaned
    rw [if_pos failed]
    refine (leads_of_holds (linkless_renameCleanup _ _ _ _ _) cleaned).mono ?_
    rintro rc' next ⟨rfl, restored⟩
    rw [same] at restored
    exact .inl ⟨stays, failed, restored⟩
  · have lists : (fs.ns env).Lists (erased (fs.ns env).ents newDir newName target)
      (mid.ns env) := lists
    have checked : mid.ext2fsCheckDirectory ino = fs.ext2fsCheckDirectory ino := by
      rw [@checkDirectory_of_isDir _ env fs ino valid isDir]
      exact @checkDirectory_of_isDir _ env mid ino (lists.valid ▸ valid) (lists.isDir ▸ isDir)
    have same : mid.renameAttempt env ino dotDotName newDir EXT2_FT_DIR rest = up := by
      rw [renameAttempt_eq super checked, show mid.dirs = _ from dirs]
    rw [← lists.valid] at valid validDir validNew
    rw [← lists.isDir] at isDir dirIsDir newIsDir
    rw [← lists.ents] at dots old ⊢
    rw [if_neg (by simp)]
    refine (leads_renameDirOld lawful valid isDir validDir dirIsDir validNew newIsDir
      mapped apart dots
      old recorded).mono ?_
    rw [same]
    rintro rc next (⟨goesIn, done⟩ | ⟨staysOut, failed, cleaned⟩ |
      ⟨half, failed, front, back, fileType, split, cleaned⟩)
    · exact .inr (.inl ⟨clearable, goesIn, done⟩)
    · exact .inr (.inr ⟨clearable, staysOut.1, failed, _, .inl rfl, cleaned⟩)
    · exact .inr (.inr ⟨clearable, half.not_goesIn lawful, failed, _,
        .inr ⟨front, back, fileType, split, rfl⟩, cleaned⟩)

end Over

section FilesOver

variable {δ : Type} {env : Env δ} {ns : Ns} {dir newDir ino target : Nat} {name newName : Name}
  {perms : Perms} {inode : Inode} (lawful : env.dir.Lawful) (validDir : ns.valid dir = true)
  (dirIsDir : ns.isDir dir = true)

include lawful validDir dirIsDir

/-- The old name of a file goes. -/
theorem holds_renameFileOld_any (named : ∃ entry ∈ ns.ents dir, entry.name = name)
    (files : ∀ entry ∈ ns.ents dir, entry.name = name →
      ns.valid entry.inode = true ∧ ns.isDir entry.inode = false) :
    Holds env (fun _ => True) (renameFileOld dir name newDir newName ino inode)
      (fun rc _ => rc = 0) ns := by
  refine holds_bind (holds_bind (holds_namei lawful validDir dirIsDir ?_ ?_))
  · intro entry found
    obtain ⟨member, isNamed⟩ := mem_of_find found
    obtain ⟨valid, isFile⟩ := files entry member isNamed
    refine (lists_doUnlinkOnIno (Lists.refl ns) lawful validDir dirIsDir valid isFile).mono ?_
    rintro rc next ⟨rfl, -⟩
    rw [if_neg (by simp)]
    exact holds_pure rfl
  · intro none
    obtain ⟨entry, member, isNamed⟩ := named
    exact absurd (by simpa using isNamed) (List.find?_eq_none.mp none entry member)

variable (validNew : ns.valid newDir = true) (newIsDir : ns.isDir newDir = true)

include validNew newIsDir

/-- From the new link on `do_rename` of a file is completed, unless a directory is in the way. -/
theorem holds_renameLinked_any (recorded : LINUX_S_ISDIR inode.iMode = false)
    (validTarget : target ≠ 0 → ns.valid target = true)
    (named : ∃ entry ∈ ns.ents dir, entry.name = name)
    (files : ∀ entry ∈ ns.ents dir, entry.name = name →
      ns.valid entry.inode = true ∧ ns.isDir entry.inode = false)
    (stillNamed : ∃ entry ∈ erased ns.ents newDir newName target dir, entry.name = name) :
    Holds env (fun _ => True) (renameLinked perms dir name newDir newName ino target inode)
      (fun rc next => (target ≠ 0 ∧ ns.isDir target = true ∧ rc ≠ 0 ∧ next = ns) ∨
        (¬ (target ≠ 0 ∧ ns.isDir target = true) ∧ rc = 0)) ns := by
  rw [renameLinked]
  by_cases noTarget : target = 0
  · rw [if_neg (not_not.mpr noTarget), recorded, if_neg (by simp)]
    refine (holds_renameFileOld_any lawful validDir dirIsDir named files).mono
      fun rc next done => ?_
    exact .inr ⟨fun both => both.1 noTarget, done⟩
  · rw [if_pos noTarget]
    have valid := validTarget noTarget
    refine holds_bind (holds_readInodeWrapper valid fun targetInode agrees => ?_)
    have targetRecorded : LINUX_S_ISDIR targetInode.iMode = ns.isDir target := by
      rw [agrees.1, isDir]
    simp only [recorded, Bool.false_eq_true, if_false, targetRecorded]
    cases kind : ns.isDir target
    · rw [if_neg (by simp)]
      refine holds_bind
        ((lists_doUnlinkOnIno (Lists.refl ns) lawful validNew newIsDir valid kind).mono ?_)
      rintro rc next ⟨rfl, lists⟩
      rw [if_neg (by simp)]
      rw [← lists.valid] at validDir
      rw [← lists.isDir] at dirIsDir
      refine (holds_renameFileOld_any lawful validDir dirIsDir ?_ ?_).mono fun rc next done => ?_
      · rw [lists.ents]
        exact stillNamed
      · intro entry member isNamed
        rw [lists.valid, lists.isDir]
        refine files entry ?_ isNamed
        rw [lists.ents, erased] at member
        by_cases own : dir = newDir
        · subst own
          rw [Function.update_self] at member
          exact List.mem_of_mem_eraseP member
        · rwa [Function.update_of_ne own] at member
      · exact .inr ⟨fun both => (by cases both.2), done⟩
    · exact holds_pure (.inl ⟨noTarget, rfl, show EISDIR ≠ 0 by decide, rfl⟩)

end FilesOver

namespace Ns

variable {ns next : Ns} {newDir ino target fileType : Nat} {newName : Name}
  {before after : List Dirent}

/-- One more link and one more name. -/
def bumpedAt (ns : Ns) (newDir : Nat) (ents : List Dirent) : Ns :=
    (ns.bumped newDir).setEnts newDir ents

/-- `cleanup:` of a directory takes back what was raised and entered. -/
theorem CleanedUp.unchanged (narrow : ns.Narrow) (nonzero : ino ≠ 0)
    (split : ns.ents newDir = before ++ after)
    (cleaned : CleanedUp (ns.bumpedAt newDir (before ++ ⟨newName, ino, fileType⟩ :: after))
      newDir newName ino next) : ns.Unchanged next := by
  have entered : (ns.bumpedAt newDir (before ++ ⟨newName, ino, fileType⟩ :: after)).ents =
      Function.update ns.ents newDir (before ++ ⟨newName, ino, fileType⟩ :: after) := rfl
  obtain ⟨absent, -⟩ | ⟨-, ents, links⟩ := cleaned
  · have none := absent ⟨newName, ino, fileType⟩ (by simp [entered])
    simp [Dirent.matchesEntry] at none
  · refine @unchanged_restored ns newDir ino fileType newName before after narrow
      nonzero split next ?_
      links
    rw [ents, entered, Function.update_self, Function.update_idem]

/-- A saying that is there once is gone with one match. -/
theorem key_gone (distinct : ((ns.ents newDir).map Dirent.name).Nodup) (nonzero : ino ≠ 0)
    (found : ∃ entry ∈ ns.ents newDir, Dirent.matchesEntry newName ino entry = true) :
    (newName, ino) ∈ (ns.ents newDir).map key ∧
      (newName, ino) ∉ ((ns.ents newDir).eraseP (Dirent.matchesEntry newName ino)).map key := by
  have fewer := keys_eraseP nonzero found
  have keysApart : ((ns.ents newDir).map key).Nodup := by
    refine List.Nodup.of_map Prod.fst ?_
    rwa [List.map_map]
  have apart := fewer.nodup_iff.mpr keysApart
  exact ⟨fewer.mem_iff.mp List.mem_cons_self, (List.nodup_cons.mp apart).1⟩

/-- `cleanup:` of a directory whose new name was not entered damages the name space: an older
entry goes, or the count stays raised. -/
theorem CleanedUp.not_unchanged (narrow : ns.Narrow) (nonzero : ino ≠ 0)
    (distinct : ((ns.ents newDir).map Dirent.name).Nodup)
    (cleaned : CleanedUp (ns.bumped newDir) newDir newName ino next) : ¬ ns.Unchanged next := by
  intro unchanged
  obtain ⟨-, rfl⟩ | ⟨found, ents, -⟩ := cleaned
  · exact bumped_links_ne narrow (congrFun unchanged.links newDir)
  · obtain ⟨there, gone⟩ := key_gone distinct nonzero found
    have still := (unchanged.entries newDir (newName, ino)).mpr there
    rw [ents, Function.update_self] at still
    exact gone still

/-- A target that has been removed stays so. -/
theorem CleanedUp.target_lost (nonzero : ino ≠ 0) (targetNonzero : target ≠ 0)
    (distinct : ((ns.ents newDir).map Dirent.name).Nodup)
    (found : ∃ entry ∈ ns.ents newDir, Dirent.matchesEntry newName target entry = true)
    (split : ns.ents newDir = before ++ after) {mid : Ns}
    (removed : ((mid.ents newDir).map key).count (newName, target) =
      (((before ++ ⟨newName, ino, fileType⟩ :: after).eraseP
        (Dirent.matchesEntry newName target)).map key).count (newName, target))
    (cleaned : CleanedUp mid newDir newName ino next) : ¬ ns.Unchanged next := by
  intro unchanged
  obtain ⟨there, -⟩ := key_gone distinct targetNonzero found
  have still := (unchanged.entries newDir (newName, target)).mpr there
  -- there was one such saying, one more if the target is what moves, and both are removed
  have keysApart : ((ns.ents newDir).map key).Nodup := by
    refine List.Nodup.of_map Prod.fst ?_
    rwa [List.map_map]
  have once : ((before ++ after).map key).count (newName, target) = 1 := by
    rw [split] at keysApart there
    exact List.count_eq_one_of_mem keysApart there
  have inserted : ∃ entry ∈ before ++ ⟨newName, ino, fileType⟩ :: after,
      Dirent.matchesEntry newName target entry = true := by
    obtain ⟨entry, member, matching⟩ := found
    rw [split] at member
    refine ⟨entry, ?_, matching⟩
    exact (List.mem_append.mp member).elim (List.mem_append_left _)
      fun later => List.mem_append_right _ (List.mem_cons_of_mem _ later)
  have more := (@keys_insert before after ⟨newName, ino, fileType⟩).count_eq (newName, target)
  have fewer := (keys_eraseP targetNonzero inserted).count_eq (newName, target)
  rw [List.count_cons, once, key] at more
  rw [List.count_cons_self, more, ← removed] at fewer
  obtain ⟨absent, rfl⟩ | ⟨present, ents, -⟩ := cleaned
  · obtain ⟨entry, member, said⟩ := List.mem_map.mp still
    by_cases own : target = ino
    · subst own
      have matching := (matches_iff_key nonzero entry).mpr said
      rw [absent entry member] at matching
      cases matching
    · rw [if_neg (by simpa using Ne.symm own)] at fewer
      have none : (newName, target) ∉ (next.ents newDir).map key := List.count_eq_zero.mp (by omega)
      exact none still
  · have last := (keys_eraseP nonzero present).count_eq (newName, target)
    rw [List.count_cons] at last
    rw [ents, Function.update_self] at still
    have some := List.count_pos_iff.mpr still
    split at last
    · rename_i same
      rw [if_pos same] at fewer
      omega
    · rename_i different
      rw [if_neg different] at fewer
      omega

/-- A second `..` of what moves is no name of the target. -/
theorem removed_count {ents : Nat → List Dirent} (newProper : ProperName newName) {mid : Ns}
    (removed : mid.ents = erased (Function.update ents newDir before) newDir newName target ∨
      ∃ front back dotsType,
        erased (Function.update ents newDir before) newDir newName target ino = front ++ back ∧
        mid.ents = Function.update
          (erased (Function.update ents newDir before) newDir newName target) ino
          (front ++ ⟨dotDotName, newDir, dotsType⟩ :: back)) :
    ((mid.ents newDir).map key).count (newName, target) =
      ((before.eraseP (Dirent.matchesEntry newName target)).map key).count (newName, target) := by
  have left : erased (Function.update ents newDir before) newDir newName target newDir =
      before.eraseP (Dirent.matchesEntry newName target) := by
    rw [erased, Function.update_self, Function.update_self]
  obtain same | ⟨front, back, dotsType, split, same⟩ := removed
  · rw [same, left]
  · rw [same]
    by_cases own : newDir = ino
    · subst own
      have more := (@keys_insert front back ⟨dotDotName, newDir, dotsType⟩).count_eq
        (newName, target)
      have other : ¬ (key ⟨dotDotName, newDir, dotsType⟩ == (newName, target)) = true := by
        simp [key, Ne.symm newProper.2]
      rw [Function.update_self, more, List.count_cons, if_neg other, ← split, left, Nat.add_zero]
    · rw [Function.update_of_ne own, left]

/-- A second `..` of what moves says nothing new in the same parent, and `cleanup:` takes the rest
back. -/
theorem CleanedUp.unchanged_again (narrow : ns.Narrow) (nonzero : ino ≠ 0) (apart : ino ≠ newDir)
    (split : ns.ents newDir = before ++ after) {front back : List Dirent} {dotsType : Nat}
    (dots : ns.ents ino = front ++ back) (known : (dotDotName, newDir) ∈ (ns.ents ino).map key)
    (cleaned : CleanedUp
      ((ns.bumpedAt newDir (before ++ ⟨newName, ino, fileType⟩ :: after)).setEnts ino
      (front ++ ⟨dotDotName, newDir, dotsType⟩ :: back)) newDir newName ino next) :
      ns.Unchanged next := by
  have entered : ((ns.bumpedAt newDir (before ++ ⟨newName, ino, fileType⟩ :: after)).setEnts ino
      (front ++ ⟨dotDotName, newDir, dotsType⟩ :: back)).ents newDir =
        before ++ ⟨newName, ino, fileType⟩ :: after := by
    rw [setEnts_ents, Function.update_of_ne apart.symm, bumpedAt, setEnts_ents,
      Function.update_self]
  obtain ⟨absent, -⟩ | ⟨-, ents, links⟩ := cleaned
  · have none := absent ⟨newName, ino, fileType⟩ (by rw [entered]; simp)
    simp [Dirent.matchesEntry] at none
  rw [entered] at ents
  have restored : ∀ taken, taken = Function.update ns.ents newDir
    ((before ++ ⟨newName, ino, fileType⟩ ::
      after).eraseP (Dirent.matchesEntry newName ino)) → ns.Unchanged { next with ents := taken } :=
    fun taken same => unchanged_restored narrow nonzero split same links
  replace restored := restored _ rfl
  refine ⟨fun dir said => ?_, restored.links⟩
  by_cases own : dir = ino
  · subst own
    rw [ents, Function.update_of_ne apart, setEnts_ents, Function.update_self]
    rw [(@keys_insert front back ⟨dotDotName, newDir, dotsType⟩).mem_iff, ← dots, List.mem_cons]
    exact or_iff_right_of_imp fun same => same ▸ known
  · rw [← restored.entries dir said, ents]
    dsimp only
    by_cases new : dir = newDir
    · rw [new, Function.update_self, Function.update_self]
    · rw [Function.update_of_ne new, Function.update_of_ne new, setEnts_ents,
        Function.update_of_ne own, bumpedAt, setEnts_ents, Function.update_of_ne new]
      rfl

/-- In another parent it does, and it stays. -/
theorem CleanedUp.dots_left {dir : Nat} (apart : newDir ≠ dir) (newProper : ProperName newName)
    (only : ∀ entry ∈ ns.ents ino, entry.name = dotDotName → entry.inode = dir) {mid : Ns}
    (added : ∃ entry ∈ mid.ents ino, entry.name = dotDotName ∧ entry.inode = newDir)
    (cleaned : CleanedUp mid newDir newName ino next) : ¬ ns.Unchanged next := by
  intro unchanged
  obtain ⟨entry, member, isDots, isNew⟩ := added
  have kept : entry ∈ next.ents ino := by
    obtain ⟨-, rfl⟩ | ⟨-, ents, -⟩ := cleaned
    · exact member
    · rw [ents]
      by_cases own : ino = newDir
      · rw [own, Function.update_self]
        refine (List.mem_eraseP_of_neg fun matching => newProper.2 ?_).mpr (own ▸ member)
        simp only [Dirent.matchesEntry, Bool.and_eq_true, beq_iff_eq] at matching
        exact matching.1.symm.trans isDots
      · rwa [Function.update_of_ne own]
  have said : (dotDotName, newDir) ∈ (next.ents ino).map key :=
    List.mem_map.mpr ⟨entry, kept, Prod.ext isDots isNew⟩
  obtain ⟨older, inOld, same⟩ := List.mem_map.mp ((unchanged.entries ino _).mp said)
  obtain ⟨olderDots, olderNew⟩ := Prod.mk.inj same
  exact apart (olderNew.symm.trans (only older inOld olderDots))

end Ns

section Results

variable {δ : Type} {env : Env δ} {fs : Fs δ} {faults : List (Option Fault)} {dir newDir ino : Nat}
  {name newName : Name} {perms : Perms}

/-- The link of `..` to the new parent, after the new name has gone in and the directory that was in
the way is gone. -/
def Fs.upAttempt (env : Env δ) (fs : Fs δ) (newDir : Nat) (newName : Name) (ino target : Nat)
    (entry : LinkAttempt δ) : LinkAttempt δ :=
  let left := if target = 0 then entry.entered else (env.dir.unlink entry.entered newName target).2
  { fs.renameAttempt env ino dotDotName newDir EXT2_FT_DIR entry.later with
    contents := Function.update fs.dirs newDir left ino }

/-- What moves to the place of `target` leaves a change behind it when that fails: the new name
stays out (for a file this is undone if the name was one of its own); a file is to take the place of
a directory; the `..` of a directory does not go in after another directory has made place for it;
or it has gone in with an error and nothing was in the way, but the parent is another one. -/
def MoveDamages (env : Env δ) (perms : Perms) (dir newDir : Nat) (newName : Name) (ino target : Nat)
    (fs : Fs δ) (faults : List (Option Fault)) : Prop :=
  let isDir := LINUX_S_ISDIR (fs.inodeTab ino).iMode
  let entry := fs.renameAttempt env newDir newName ino (ext2FileType (fs.inodeTab ino).iMode) faults
  let up := fs.upAttempt env newDir newName ino target entry
  (entry.StaysOut ∧ (isDir = true ∨ target ≠ ino)) ∨
    (entry.GoesIn ∧ target ≠ 0 ∧ LINUX_S_ISDIR (fs.inodeTab target).iMode = true ∧
      (isDir = false ∨ (Clearable env perms fs target ∧ ¬ up.GoesIn))) ∨
    (entry.GoesIn ∧ isDir = true ∧ target = 0 ∧ newDir ≠ dir ∧ up.HalfIn)

/-- The same of a rename, by what the two names lead to. -/
def RenameDamages (env : Env δ) (perms : Perms) (dir : Nat) (name : Name) (newDir : Nat)
    (newName : Name) (fs : Fs δ) (faults : List (Option Fault)) : Prop :=
  ∃ ino, fs.ext2fsLookup env dir name = .ok ino ∧
    MoveDamages env perms dir newDir newName ino
      ((fs.ext2fsLookup env newDir newName).toOption.getD 0) fs faults

/-- For a name that is found, the damage of a rename is that of the move. -/
theorem renameDamages_iff (found : fs.ext2fsLookup env dir name = .ok ino) :
    RenameDamages env perms dir name newDir newName fs faults ↔
      MoveDamages env perms dir newDir newName ino
        ((fs.ext2fsLookup env newDir newName).toOption.getD 0) fs faults := by
  refine ⟨?_, fun damages => ⟨ino, found, damages⟩⟩
  rintro ⟨other, isFound, damages⟩
  cases Except.ok.inj (found.symm.trans isFound)
  exact damages

/-- `do_rename` of a name that is there, from the new link on. -/
theorem leads_doRename_raised {post : Errcode → Fs δ × List (Option Fault) → Prop}
    (found : fs.ext2fsLookup env dir name = .ok ino) (valid : fs.validIno ino = true)
    (validNew : fs.validIno newDir = true)
    (rest : Leads (linkLib env) (do
        let inode := if LINUX_S_ISDIR (fs.inodeTab ino).iMode then fs.inodeTab ino
          else (fs.inodeTab ino).raiseLinks
        let ret ← doLink newDir newName ino (ext2FileType (fs.inodeTab ino).iMode)
        if ret ≠ 0 then renameCleanup newDir newName ino inode ret
        else
          renameLinked perms dir name newDir newName ino
            ((fs.ext2fsLookup env newDir newName).toOption.getD 0) inode) post
      (if LINUX_S_ISDIR (fs.inodeTab ino).iMode then fs.withRaised
        newDir else fs.withRaised ino, faults)) :
    Leads (linkLib env) (doRename perms dir name newDir newName) post (fs, faults) := by
  have mode : (fs.inodeTab ino).raiseLinks.iMode = (fs.inodeTab ino).iMode := raiseLinks_mode _
  rw [Leads] at rest ⊢
  rw [doRename, run_bind, run_getInoByName_linkLib, found]
  dsimp only
  rw [run_bind, run_getInoByName_linkLib]
  dsimp only
  rw [run_bind, run_readInode_linkLib valid]
  dsimp only
  rw [run_bind, run_renameRaise_linkLib valid validNew]
  cases kind : LINUX_S_ISDIR (fs.inodeTab ino).iMode
  · simpa only [kind, Bool.false_eq_true, if_false, mode] using rest
  · simpa only [kind, if_true] using rest

/-- What a consistent name space says about the two names. -/
structure RenameScene (ns : Ns) (dir : Nat) (name : Name) (newDir : Nat) (newName : Name)
    (ino target : Nat) : Prop where
  narrow : ns.Narrow
  validDir : ns.valid dir = true
  dirIsDir : ns.isDir dir = true
  validNew : ns.valid newDir = true
  newIsDir : ns.isDir newDir = true
  valid : ns.valid ino = true
  distinct : ((ns.ents newDir).map Dirent.name).Nodup
  named : ∃ entry ∈ ns.ents dir, entry.name = name
  only : ∀ entry ∈ ns.ents dir, entry.name = name → entry.inode = ino
  target_iff : ∀ other, other ≠ 0 → (target = other ↔
    ∃ entry ∈ ns.ents newDir, Dirent.matchesEntry newName other entry = true)
  validTarget : target ≠ 0 → ns.valid target = true
  dots : ns.isDir ino = true → dir ≠ ino ∧
    ∃ entry ∈ ns.ents ino, Dirent.matchesEntry dotDotName dir entry = true
  dotsOnly : ns.isDir ino = true → ∀ entry ∈ ns.ents ino, entry.name = dotDotName →
    entry.inode = dir
  targetDots : target ≠ 0 → ns.isDir target = true → newDir ≠ target ∧
    ∃ entry ∈ ns.ents target, entry.name = dotDotName ∧ entry.inode ≠ 0

/-- What do_rename finds out before it enters the new name, for two reachable directories. -/
theorem renameScene (lawful : env.dir.Lawful) (consistent : (fs.ns env).Consistent)
    (distinct : (fs.ns env).Distinct) (reachable : (fs.ns env).Reachable dir)
    (newReachable : (fs.ns env).Reachable newDir) (proper : ProperName name)
    (newProper : ProperName newName) (found : fs.ext2fsLookup env dir name = .ok ino) :
    RenameScene (fs.ns env) dir name newDir newName ino
      ((fs.ext2fsLookup env newDir newName).toOption.getD 0) := by
  obtain ⟨narrow, live, parent, tree, -⟩ := consistent.sound
  have member := tree.reachable_iff.mp reachable
  have newMember := tree.reachable_iff.mp newReachable
  have validDir := (tree.alive_dir member).1
  have dirIsDir := tree.isDir dir member
  have validNew := (tree.alive_dir newMember).1
  have newIsDir := tree.isDir newDir newMember
  -- names are unique
  have unique : ∀ {dir}, (fs.ns env).Reachable dir → ∀ entry ∈ (fs.ns env).ents dir,
      ∀ other ∈ (fs.ns env).ents dir, entry.name = other.name → entry = other :=
    fun isReachable entry inEnts other inOther same =>
      List.inj_on_of_nodup_map (distinct _ isReachable) inEnts inOther same
  have below : ∀ {dir name ino}, dir ∈ live → ProperName name → ∀ entry ∈ (fs.ns env).ents dir,
      entry.name = name → entry.inode = ino → (fs.ns env).isDir ino = true →
        dir ≠ ino ∧ (∃ up ∈ (fs.ns env).ents ino, up.name = dotDotName ∧ up.inode = dir) ∧
          ∀ up ∈ (fs.ns env).ents ino, up.name = dotDotName → up.inode = dir := by
    rintro dir name ino inLive isProper entry inEnts isNamed rfl isDir
    have properEntry : entry.proper = true := by
      simp [Dirent.proper, isNamed, isProper.1, isProper.2]
    obtain ⟨isLive, notRoot, isParent⟩ := tree.child dir inLive entry inEnts properEntry isDir
    obtain ⟨one, names⟩ := tree.dotDot _ isLive
    obtain ⟨up, inUp, isDotDot⟩ := exists_of_countP_eq_one one
    have upName : up.name = dotDotName := by simpa using isDotDot
    have only : ∀ up ∈ (fs.ns env).ents entry.inode, up.name = dotDotName → up.inode = dir :=
      fun up inUp upName => by rw [names up inUp upName, isParent]
    exact ⟨isParent ▸ tree.parent_ne isLive notRoot, ⟨up, inUp, upName, only up inUp upName⟩, only⟩
  rw [ext2fsLookup_eq lawful validDir dirIsDir] at found
  rw [ext2fsLookup_eq lawful validNew newIsDir]
  split at found
  swap
  · cases found
  rename_i old isOld
  cases found
  obtain ⟨inOld, oldName⟩ := mem_of_find isOld
  have alive := tree.alive dir member old inOld
  have oldOnly : ∀ entry ∈ (fs.ns env).ents dir, entry.name = name → entry.inode = old.inode :=
    fun entry inEnts isNamed => by
      rw [unique reachable entry inEnts old inOld (isNamed.trans oldName.symm)]
  have dots : (fs.ns env).isDir old.inode = true → dir ≠ old.inode ∧
      ∃ entry ∈ (fs.ns env).ents old.inode, Dirent.matchesEntry dotDotName dir entry = true := by
    intro isDir
    obtain ⟨apart, ⟨up, inUp, upName, upInode⟩, -⟩ :=
      below member proper old inOld oldName rfl isDir
    exact ⟨apart, up, inUp, (matchesEntry_iff validDir up).mpr ⟨upName, upInode⟩⟩
  have dotsOnly : (fs.ns env).isDir old.inode = true →
      ∀ entry ∈ (fs.ns env).ents old.inode, entry.name = dotDotName → entry.inode = dir :=
    fun isDir => (below member proper old inOld oldName rfl isDir).2.2
  split
  · rename_i new isNew
    obtain ⟨inNew, newNameEq⟩ := mem_of_find isNew
    have newAlive := tree.alive newDir newMember new inNew
    refine ⟨narrow, validDir, dirIsDir, validNew, newIsDir, alive.1, distinct newDir newReachable,
      ⟨old, inOld, oldName⟩, oldOnly, fun other nonzero => ⟨?_, ?_⟩,
        fun _ => newAlive.1, dots, dotsOnly,
      fun _ targetIsDir => ?_⟩
    · rintro rfl
      exact ⟨new, inNew, (matches_iff_key nonzero new).mpr (Prod.ext newNameEq rfl)⟩
    · rintro ⟨entry, inEnts, matching⟩
      obtain ⟨isNamed, isInode⟩ := Prod.mk.inj ((matches_iff_key nonzero entry).mp matching)
      have same := unique newReachable entry inEnts new inNew (isNamed.trans newNameEq.symm)
      exact same ▸ isInode
    · obtain ⟨apart, ⟨up, inUp, upName, upInode⟩, -⟩ :=
        below newMember newProper new inNew newNameEq rfl targetIsDir
      refine ⟨apart, up, inUp, upName, ?_⟩
      rw [upInode]
      rintro rfl
      simp [Ns.valid] at validNew
  · rename_i none
    refine ⟨narrow, validDir, dirIsDir, validNew, newIsDir, alive.1, distinct newDir newReachable,
      ⟨old, inOld, oldName⟩, oldOnly, fun other nonzero => iff_of_false (Ne.symm nonzero) ?_,
      fun some => absurd rfl some, dots, dotsOnly, fun some => absurd rfl some⟩
    rintro ⟨entry, inEnts, matching⟩
    have isNamed := (Prod.mk.inj ((matches_iff_key nonzero entry).mp matching)).1
    exact absurd (by simpa using isNamed) (List.find?_eq_none.mp none entry inEnts)

namespace RenameScene

variable {ns : Ns} {target fileType : Nat} {before after : List Dirent}
  (scene : RenameScene ns dir name newDir newName ino target)
  (split : ns.ents newDir = before ++ after)

include scene

/-- A named inode has a number other than 0. -/
theorem nonzero : ino ≠ 0 := by
  rintro rfl
  have valid := scene.valid
  simp [Ns.valid] at valid

include split

/-- The entries after the new link. -/
theorem mem_entered {other : Nat} {entry : Dirent} (member : entry ∈ ns.ents other) :
    entry ∈ Function.update ns.ents newDir (before ++ ⟨newName, ino, fileType⟩ :: after) other := by
  by_cases own : other = newDir
  · subst own
    rw [Function.update_self]
    rw [split] at member
    exact (List.mem_append.mp member).elim (List.mem_append_left _)
      fun later => List.mem_append_right _ (List.mem_cons_of_mem _ later)
  · rwa [Function.update_of_ne own]

/-- All entries with the old name lead to what moves. -/
theorem entered_only {entry : Dirent} (member : entry ∈ Function.update ns.ents newDir
    (before ++ ⟨newName, ino, fileType⟩ :: after) dir) (isNamed : entry.name = name) :
    entry.inode = ino := by
  by_cases own : dir = newDir
  · subst own
    rw [Function.update_self, List.mem_append, List.mem_cons] at member
    obtain early | rfl | late := member
    · exact scene.only entry (split ▸ List.mem_append_left _ early) isNamed
    · rfl
    · exact scene.only entry (split ▸ List.mem_append_right _ late) isNamed
  · rw [Function.update_of_ne own] at member
    exact scene.only entry member isNamed

/-- After the target's entry has gone the old name is still there. -/
theorem still_named : ∃ entry ∈ erased (Function.update ns.ents newDir
    (before ++ ⟨newName, ino, fileType⟩ :: after)) newDir newName target dir,
    entry.name = name := by
  obtain ⟨old, inOld, oldName⟩ := scene.named
  have inEntered := @mem_entered _ _ _ _ _ _ _ fileType _ _ scene split dir old inOld
  by_cases own : dir = newDir
  · subst own
    rw [erased, Function.update_self]
    by_cases same : name = newName
    · -- the name is there twice
      subst same
      rw [Function.update_self] at inEntered ⊢
      have twice : 2 ≤ (before ++ ⟨name, ino, fileType⟩ :: after).countP
          fun entry => entry.name == name := by
        have once : 0 < (ns.ents dir).countP fun entry => entry.name == name :=
          List.countP_pos_iff.mpr ⟨old, inOld, by simp [oldName]⟩
        rw [split, List.countP_append] at once
        simp only [List.countP_append, List.countP_cons, beq_self_eq_true, if_true]
        omega
      by_cases found : ∃ entry ∈ before ++ ⟨name, ino, fileType⟩ :: after,
          Dirent.matchesEntry name target entry = true
      · obtain ⟨front, gone, back, -, whole, rest⟩ := split_of_match found
        rw [rest]
        rw [whole] at twice
        have some : 0 < (front ++ back).countP fun entry => entry.name == name := by
          simp only [List.countP_append, List.countP_cons] at twice ⊢
          split at twice <;> omega
        obtain ⟨entry, member, isNamed⟩ := List.countP_pos_iff.mp some
        exact ⟨entry, member, by simpa using isNamed⟩
      · rw [List.eraseP_of_forall_not (by simpa using found)]
        exact ⟨old, inEntered, oldName⟩
    · have fails : ¬ Dirent.matchesEntry newName target old = true := by
        simp [Dirent.matchesEntry, oldName, same]
      exact ⟨old, (List.mem_eraseP_of_neg fails).mpr inEntered, oldName⟩
  · refine ⟨old, ?_, oldName⟩
    rwa [erased, Function.update_of_ne own]

/-- `..` of what moves is still there, too. -/
theorem still_dots (newProper : ProperName newName) (isDir : ns.isDir ino = true) :
    ∃ entry ∈ erased (Function.update ns.ents newDir (before ++ ⟨newName, ino, fileType⟩ :: after))
      newDir newName target ino, Dirent.matchesEntry dotDotName dir entry = true := by
  obtain ⟨-, up, inUp, matching⟩ := scene.dots isDir
  have inEntered := @mem_entered _ _ _ _ _ _ _ fileType _ _ scene split ino up inUp
  refine ⟨up, ?_, matching⟩
  by_cases own : ino = newDir
  · rw [own] at inEntered ⊢
    rw [erased, Function.update_self]
    refine (List.mem_eraseP_of_neg fun both => newProper.2 ?_).mpr inEntered
    simp only [Dirent.matchesEntry, Bool.and_eq_true, beq_iff_eq] at both matching
    exact both.1.symm.trans matching.1
  · rwa [erased, Function.update_of_ne own]

end RenameScene

section Outcomes

variable {target filetype : Nat} {inode : Inode} (lawful : env.dir.Lawful)
  (scene : RenameScene (fs.ns env) dir name newDir newName ino target)

include lawful scene

omit lawful scene in
/-- The attempt does not look at counts. -/
theorem renameAttempt_withRaised (other dir : Nat) (name : Name) (ino filetype : Nat) :
    (fs.withRaised other).renameAttempt env dir name ino filetype faults =
      fs.renameAttempt env dir name ino filetype faults := by
  have checked : (fs.withRaised other).ext2fsCheckDirectory dir = fs.ext2fsCheckDirectory dir := by
    have mode : ((fs.withRaised other).inodeTab dir).iMode = (fs.inodeTab dir).iMode := by
      rw [withRaised]
      dsimp only
      by_cases own : dir = other
      · rw [own, Function.update_self, raiseLinks_mode]
      · rw [Function.update_of_ne own]
    have same : (fs.withRaised other).validIno dir = fs.validIno dir := rfl
    simp only [ext2fsCheckDirectory, ext2fsReadInode, same]
    cases fs.validIno dir
    · rfl
    · simp only [if_true, mode]
  exact renameAttempt_eq (show (fs.withRaised other).super = fs.super from rfl) checked
    name ino filetype

omit lawful scene in
/-- An error that is not undone. -/
theorem damages_iff {ns next : Ns} {rc : Errcode} {damages : Prop} (holds : damages)
    (failed : rc ≠ 0) (changed : ¬ ns.Unchanged next) :
    (rc ≠ 0 → ns.Unchanged next) ↔ ¬ damages :=
  iff_of_false (fun same => changed (same failed)) (not_not.mpr holds)

omit scene in
/-- The new name is in, with or without an error, or it stays out. -/
theorem leads_newName (raised : Nat) :
    let entry := fs.renameAttempt env newDir newName ino filetype faults
    Leads (linkLib env) (doLink newDir newName ino filetype) (fun rc next =>
      (entry.GoesIn ∧ rc = 0 ∧ next.2 = entry.later ∧
        (fs.withRaised raised).Refilled next.1 newDir entry.entered ∧
        ∃ before after fileType, (fs.ns env).ents newDir = before ++ after ∧ next.1.ns env =
          ((fs.withRaised raised).ns env).setEnts newDir
          (before ++ ⟨newName, ino, fileType⟩ :: after)) ∨
      (entry.HalfIn ∧ rc = EIO ∧
        ∃ before after fileType, (fs.ns env).ents newDir = before ++ after ∧ next.1.ns env =
          ((fs.withRaised raised).ns env).setEnts newDir
          (before ++ ⟨newName, ino, fileType⟩ :: after)) ∨
      (entry.StaysOut ∧ rc = EIO ∧ next.1.ns env = (fs.withRaised raised).ns env))
      (fs.withRaised raised, faults) := by
  intro entry
  have same : (fs.withRaised raised).linkAttempt env
    (fun _ _ => True) newDir newName ino filetype faults =
      entry := renameAttempt_withRaised raised newDir newName ino filetype
  have linked := (entering_linkLib env).leads_doLink lawful
    (fs.withRaised raised) newDir newName ino
    filetype faults
  rw [same] at linked
  refine linked.mono fun rc next ended => ?_
  obtain ⟨-, ⟨goesIn, done, refilled, later, inserts⟩ |
    ⟨half, failed, contents, refilled, inserts⟩ |
    ⟨staysOut, failed, contents, refilled, entries⟩⟩ := ended
  · exact .inl ⟨goesIn, done, later, refilled, refilled.ns_inserts rfl inserts⟩
  · exact .inr (.inl ⟨half, failed, refilled.ns_inserts rfl inserts⟩)
  · exact .inr (.inr ⟨staysOut, failed, refilled.ns_same entries⟩)

omit lawful in
/-- A count that stays raised is a change. -/
theorem links_raised {next : Ns} (same : next.links = ((fs.ns env).bumped ino).links) :
    ¬ (fs.ns env).Unchanged next :=
  fun unchanged => bumped_links_ne scene.narrow (congrFun (same.symm.trans unchanged.links) ino)

section File

variable {linked : Fs δ} (rest : List (Option Fault)) (recorded : LINUX_S_ISDIR inode.iMode = false)

include recorded

/-- A file's rename once the new name is in: only a directory in its way fails it, and the raised
count stays. -/
theorem leads_file_entered (isFile : (fs.ns env).isDir ino = false) {before after : List Dirent}
    {fileType : Nat} (split : (fs.ns env).ents newDir = before ++ after)
    (made : linked.ns env = ((fs.ns env).bumped ino).setEnts newDir
      (before ++ ⟨newName, ino, fileType⟩ :: after)) :
    Leads (linkLib env) (renameLinked perms dir name newDir newName ino target inode)
      (fun rc next => (rc ≠ 0 → (fs.ns env).Unchanged (next.1.ns env)) ↔
        ¬ (target ≠ 0 ∧ (fs.ns env).isDir target = true)) (linked, rest) := by
  have sameDirs : ((fs.ns env).bumped ino).isDir = (fs.ns env).isDir := setInode_isDir_of_mode _ _ _
  have ents : (linked.ns env).ents = Function.update (fs.ns env).ents newDir
    (before ++ ⟨newName, ino, fileType⟩ :: after) := by rw [made]; rfl
  have valid : (linked.ns env).valid = (fs.ns env).valid := by rw [made]; rfl
  have isDir : (linked.ns env).isDir = (fs.ns env).isDir := by
    rw [made, setEnts_isDir, sameDirs]
  refine (leads_of_holds (linkless_renameLinked_file _ _ _ _ _ _ _ recorded)
    (holds_renameLinked_any lawful (valid ▸ scene.validDir) (isDir ▸ scene.dirIsDir)
    (valid ▸ scene.validNew) (isDir ▸ scene.newIsDir) recorded
    (fun some => valid ▸ scene.validTarget some) ?_ ?_ ?_)).mono ?_
  · obtain ⟨old, inOld, oldName⟩ := scene.named
    exact ⟨old, ents ▸ RenameScene.mem_entered scene split inOld, oldName⟩
  · intro entry member isNamed
    rw [ents] at member
    rw [RenameScene.entered_only scene split member isNamed, valid, isDir]
    exact ⟨scene.valid, isFile⟩
  · rw [ents]
    exact RenameScene.still_named scene split
  · rw [isDir]
    rintro rc next (⟨present, targetIsDir, failed, same⟩ | ⟨clear, done⟩)
    · refine damages_iff ⟨present, targetIsDir⟩ failed (links_raised scene ?_)
      rw [same, made]
      rfl
    · exact iff_of_true (fun failed => absurd done failed) clear

/-- The cleanup for a file whose new name is in takes it out again, which is no error. -/
theorem leads_file_half {before after : List Dirent} {fileType : Nat}
    (made : linked.ns env = ((fs.ns env).bumped ino).setEnts newDir
      (before ++ ⟨newName, ino, fileType⟩ :: after)) :
    Leads (linkLib env) (renameCleanup newDir newName ino inode EIO) (fun rc _ => rc = 0)
      (linked, rest) := by
  have sameDirs : ((fs.ns env).bumped ino).isDir = (fs.ns env).isDir := setInode_isDir_of_mode _ _ _
  have cleaned := @holds_cleanup_file δ env (linked.ns env) newDir ino newName inode lawful
    (by rw [made]; exact scene.validNew)
    (by rw [made, setEnts_isDir, sameDirs]; exact scene.newIsDir)
    (by rw [made]; exact scene.valid) recorded EIO
  refine (leads_of_holds (linkless_renameCleanup _ _ _ _ _) cleaned).mono ?_
  rintro rc next (⟨absent, -⟩ | ⟨-, done⟩)
  · have present := absent ⟨newName, ino, fileType⟩ (by rw [made]; simp)
    simp [Dirent.matchesEntry] at present
  · exact done

/-- The cleanup for a file whose new name has stayed out: it fails with the raised count, unless the
new name was one of the file already. -/
theorem leads_file_out (unchanged : linked.ns env = (fs.ns env).bumped ino) :
    Leads (linkLib env) (renameCleanup newDir newName ino inode EIO)
      (fun rc next => (rc ≠ 0 → (fs.ns env).Unchanged (next.1.ns env)) ↔ ¬ target ≠ ino)
      (linked, rest) := by
  have sameDirs : ((fs.ns env).bumped ino).isDir = (fs.ns env).isDir := setInode_isDir_of_mode _ _ _
  have cleaned := @holds_cleanup_file δ env (linked.ns env) newDir ino newName inode lawful
    (unchanged ▸ scene.validNew) (by rw [unchanged, sameDirs]; exact scene.newIsDir)
    (unchanged ▸ scene.valid) recorded EIO
  refine (leads_of_holds (linkless_renameCleanup _ _ _ _ _) cleaned).mono ?_
  have ents : (linked.ns env).ents = (fs.ns env).ents := by rw [unchanged]; rfl
  rw [ents]
  rintro rc next (⟨absent, rfl, same⟩ | ⟨found, done⟩)
  · refine damages_iff (fun own => ?_) (by decide) (links_raised scene (by rw [same, unchanged]))
    obtain ⟨entry, member, matching⟩ := (scene.target_iff ino scene.nonzero).mp own
    rw [absent entry member] at matching
    cases matching
  · refine iff_of_true (fun failed => absurd done failed) fun other => ?_
    exact other ((scene.target_iff ino scene.nonzero).mpr found)

end File

/-- How `do_rename` of a file ends: it is damaged if the new name stays out, unless that removes
another of its names, and if a directory is in the way. -/
theorem leads_rename_file (isFile : (fs.ns env).isDir ino = false)
    (recorded : LINUX_S_ISDIR inode.iMode = false) :
    let entry := fs.renameAttempt env newDir newName ino filetype faults
    Leads (linkLib env) (do
        let ret ← doLink newDir newName ino filetype
        if ret ≠ 0 then renameCleanup newDir newName ino inode ret
        else renameLinked perms dir name newDir newName ino target inode)
      (fun rc next => (rc ≠ 0 → (fs.ns env).Unchanged (next.1.ns env)) ↔
        ¬ ((entry.StaysOut ∧ target ≠ ino) ∨
          (entry.GoesIn ∧ target ≠ 0 ∧ (fs.ns env).isDir target = true)))
      (fs.withRaised ino, faults) := by
  intro entry
  have eio : EIO ≠ 0 := by decide
  have raised : (fs.withRaised ino).ns env = (fs.ns env).bumped ino := ns_withRaised scene.valid
  refine leads_bind_of ?_
  rintro ret ⟨linked, rest⟩ outcome
  have ended := (leads_newName lawful ino).outcome outcome
  rw [raised] at ended
  obtain ⟨goesIn, rfl, -, -, before, after, fileType, split, made⟩ |
    ⟨half, rfl, before, after, fileType, split, made⟩ | ⟨staysOut, rfl, unchanged⟩ := ended
  · have isIn : entry.GoesIn := goesIn
    have staysIn : ¬ entry.StaysOut := fun staysOut => staysOut.1 isIn
    rw [if_neg (by simp)]
    refine (leads_file_entered lawful scene rest recorded isFile split made).mono ?_
    intro rc next ends
    rw [ends]
    refine not_congr ?_
    simp only [staysIn, isIn, false_and, true_and, false_or]
  · rw [if_pos eio]
    refine (leads_file_half lawful scene rest recorded made).mono fun rc next done => ?_
    refine iff_of_true (fun failed => absurd done failed) ?_
    rintro (⟨staysOut, -⟩ | ⟨goesIn, -⟩)
    · exact staysOut.2 half
    · exact half.not_goesIn lawful goesIn
  · have out : entry.StaysOut := staysOut
    rw [if_pos eio]
    refine (leads_file_out lawful scene rest recorded unchanged).mono ?_
    intro rc next ends
    rw [ends]
    refine not_congr ?_
    simp only [out, out.1, true_and, false_and, or_false]

section Entered

variable {before after : List Dirent} {fileType : Nat} {linked : Fs δ} {entry : LinkAttempt δ}
  (split : (fs.ns env).ents newDir = before ++ after)
  (made : linked.ns env = (fs.ns env).bumpedAt newDir (before ++ ⟨newName, ino, fileType⟩ :: after))
  (refilled : (fs.withRaised newDir).Refilled linked newDir entry.entered)

omit lawful scene in
include made in
/-- With the new name in, the rest is as it was. -/
theorem entered_frame : (linked.ns env).valid = (fs.ns env).valid ∧
    (linked.ns env).isDir = (fs.ns env).isDir ∧
    (linked.ns env).ents = Function.update (fs.ns env).ents newDir
      (before ++ ⟨newName, ino, fileType⟩ :: after) := by
  have sameDirs : ((fs.ns env).bumped newDir).isDir = (fs.ns env).isDir :=
    setInode_isDir_of_mode _ _ _
  rw [made]
  refine ⟨rfl, ?_, rfl⟩
  rw [bumpedAt, setEnts_isDir, sameDirs]

omit lawful in
include made refilled in
/-- What the link of `..` depends on then. -/
theorem entered_upAttempt (isDir : (fs.ns env).isDir ino = true) :
    linked.renameAttempt env ino dotDotName newDir EXT2_FT_DIR entry.later =
      { fs.renameAttempt env ino dotDotName newDir EXT2_FT_DIR entry.later with
        contents := Function.update fs.dirs newDir entry.entered ino } := by
  obtain ⟨valid, sameDir, -⟩ := entered_frame made
  have checked : linked.ext2fsCheckDirectory ino = fs.ext2fsCheckDirectory ino := by
    rw [@checkDirectory_of_isDir _ env fs ino scene.valid isDir]
    exact @checkDirectory_of_isDir _ env linked ino (valid ▸ scene.valid) (sameDir ▸ isDir)
  have dirs : linked.dirs = Function.update fs.dirs newDir entry.entered := refilled.dirs
  rw [renameAttempt_eq (show linked.super = fs.super from refilled.super) checked, dirs]

include split made refilled

/-- Nothing is in the way of a directory: it is damaged if `..` goes in with an error and the parent
is another one. -/
theorem leads_rename_vacant (mapped : EXT2FS_INO newDir = newDir) (newProper : ProperName newName)
    (isDir : (fs.ns env).isDir ino = true) (recorded : LINUX_S_ISDIR inode.iMode = true) :
    let up := fs.upAttempt env newDir newName ino 0 entry
    Leads (linkLib env) (renameDirOld dir name newDir newName ino inode)
      (fun rc next => (rc ≠ 0 → (fs.ns env).Unchanged (next.1.ns env)) ↔
        ¬ (newDir ≠ dir ∧ up.HalfIn))
      (linked, entry.later) := by
  intro up
  obtain ⟨valid, sameDir, ents⟩ := entered_frame made
  have narrow := scene.narrow
  have nonzero := scene.nonzero
  obtain ⟨apart, parent, inParent, isParent⟩ := scene.dots isDir
  have same : linked.renameAttempt env ino dotDotName newDir EXT2_FT_DIR entry.later = up :=
    entered_upAttempt scene made refilled isDir
  refine (leads_renameDirOld lawful (valid ▸ scene.valid) (sameDir ▸ isDir) (valid ▸ scene.validDir)
    (sameDir ▸ scene.dirIsDir) (valid ▸ scene.validNew) (sameDir ▸ scene.newIsDir)
      mapped apart ?_ ?_
    recorded).mono ?_
  · exact ⟨parent, ents ▸ scene.mem_entered split inParent, isParent⟩
  · obtain ⟨old, inOld, oldName⟩ := scene.named
    exact ⟨old, ents ▸ scene.mem_entered split inOld, by simp [Dirent.matchesEntry, oldName]⟩
  rw [same, made]
  rintro rc next (⟨goesIn, done⟩ | ⟨staysOut, failed, cleaned⟩ |
    ⟨half, failed, front, back, dotsType, dots, cleaned⟩)
  · exact iff_of_true (fun failed => absurd done failed) fun both => both.2.not_goesIn lawful goesIn
  · exact iff_of_true (fun _ => Ns.CleanedUp.unchanged narrow nonzero split cleaned)
      fun both => staysOut.2 both.2
  by_cases away : newDir = dir
  · subst away
    refine iff_of_true (fun _ => ?_) fun both => both.1 rfl
    have dots : (fs.ns env).ents ino = front ++ back := by
      rw [← dots, bumpedAt, setEnts_ents, Function.update_of_ne apart.symm]
      rfl
    obtain ⟨isDots, isOld⟩ := (matchesEntry_iff scene.validDir parent).mp isParent
    exact Ns.CleanedUp.unchanged_again narrow nonzero apart.symm split dots
      (List.mem_map.mpr ⟨parent, inParent, Prod.ext isDots isOld⟩) cleaned
  · refine damages_iff ⟨away, half⟩ failed (Ns.CleanedUp.dots_left away newProper
      (scene.dotsOnly isDir) ⟨⟨dotDotName, newDir, dotsType⟩, ?_, rfl, rfl⟩ cleaned)
    rw [setEnts_ents, Function.update_self]
    simp

/-- A directory is in the way of one: it is damaged if that is removed and `..` does not go in. -/
theorem leads_rename_occupied (mapped : EXT2FS_INO newDir = newDir) (newProper : ProperName newName)
    (isDir : (fs.ns env).isDir ino = true) (recorded : LINUX_S_ISDIR inode.iMode = true)
    (present : target ≠ 0) (targetIsDir : (fs.ns env).isDir target = true) :
    let up := fs.upAttempt env newDir newName ino target entry
    Leads (linkLib env) (renameOverDir perms dir name newDir newName ino target inode)
      (fun rc next => (rc ≠ 0 → (fs.ns env).Unchanged (next.1.ns env)) ↔
        ¬ (Clearable env perms fs target ∧ ¬ up.GoesIn)) (linked, entry.later) := by
  intro up
  obtain ⟨valid, sameDir, ents⟩ := entered_frame made
  have narrow := scene.narrow
  have nonzero := scene.nonzero
  obtain ⟨apart, parent, inParent, isParent⟩ := scene.dots isDir
  obtain ⟨newApart, targetUp, inTarget, targetDots⟩ := scene.targetDots present targetIsDir
  obtain ⟨taken, inTaken, isTaken⟩ := (scene.target_iff target present).mp rfl
  have dirs : linked.dirs = Function.update fs.dirs newDir entry.entered := refilled.dirs
  have same : { linked.renameAttempt env ino dotDotName newDir EXT2_FT_DIR entry.later with
      contents := Function.update linked.dirs newDir
        (env.dir.unlink (linked.dirs newDir) newName target).2 ino } = up := by
    rw [entered_upAttempt scene made refilled isDir, dirs, Function.update_idem,
      Function.update_self]
    simp only [up, upAttempt, if_neg present]
  have clearable : Clearable env perms linked target ↔ Clearable env perms fs target := by
    refine clearable_congr ?_ ?_
    · exact (refilled.apart target newApart.symm).trans (Function.update_of_ne newApart.symm _ _)
    · rw [ents, Function.update_of_ne newApart.symm]
  refine (leads_renameOverDir lawful (valid ▸ scene.valid) (sameDir ▸ isDir)
    (valid ▸ scene.validDir)
    (sameDir ▸ scene.dirIsDir) (valid ▸ scene.validNew) (sameDir ▸ scene.newIsDir)
    (valid ▸ scene.validTarget present) (sameDir ▸ targetIsDir) mapped apart newApart ?_ ?_ ?_ ?_
    recorded).mono ?_
  · exact ents ▸ scene.still_dots split newProper isDir
  · exact ⟨targetUp, ents ▸ scene.mem_entered split inTarget, targetDots⟩
  · exact ⟨taken, ents ▸ scene.mem_entered split inTaken, isTaken⟩
  · obtain ⟨old, inOld, oldName⟩ := @RenameScene.still_named _ _ _ _ _ _ _ fileType _ _ scene split
    exact ⟨old, ents ▸ inOld, by simp [Dirent.matchesEntry, oldName]⟩
  rw [same, clearable, made]
  rintro rc next (⟨kept, -, cleaned⟩ | ⟨-, goesIn, done⟩ |
    ⟨clear, stopped, failed, mid, removed, cleaned⟩)
  · exact iff_of_true (fun _ => Ns.CleanedUp.unchanged narrow nonzero split cleaned)
      fun both => kept both.1
  · exact iff_of_true (fun failed => absurd done failed) fun both => both.2 goesIn
  · have once := @removed_count _ ino target newName
      (before ++ ⟨newName, ino, fileType⟩ :: after) _ newProper _ removed
    exact damages_iff ⟨clear, stopped⟩ failed
      (Ns.CleanedUp.target_lost nonzero present scene.distinct
      ⟨taken, inTaken, isTaken⟩ split once cleaned)

omit refilled in
/-- The cleanup for a directory whose new name is in restores everything. -/
theorem leads_cleanup_entered (recorded : LINUX_S_ISDIR inode.iMode = true) (ret : Errcode)
    (rest : List (Option Fault)) :
    Leads (linkLib env) (renameCleanup newDir newName ino inode ret)
      (fun _ next => (fs.ns env).Unchanged (next.1.ns env)) (linked, rest) := by
  obtain ⟨valid, sameDir, -⟩ := entered_frame made
  have cleaned := @holds_cleanup_directory δ env (linked.ns env) newDir ino newName inode lawful
    (valid ▸ scene.validNew) (sameDir ▸ scene.newIsDir) recorded ret
  refine (leads_of_holds (linkless_renameCleanup _ _ _ _ _) cleaned).mono ?_
  rw [made]
  rintro rc next ⟨-, cleaned⟩
  exact Ns.CleanedUp.unchanged scene.narrow scene.nonzero split cleaned

/-- How a directory's rename ends once the new name is in. -/
theorem leads_rename_entered (mapped : EXT2FS_INO newDir = newDir) (newProper : ProperName newName)
    (isDir : (fs.ns env).isDir ino = true) (recorded : LINUX_S_ISDIR inode.iMode = true) :
    let up := fs.upAttempt env newDir newName ino target entry
    Leads (linkLib env) (renameLinked perms dir name newDir newName ino target inode)
      (fun rc next => (rc ≠ 0 → (fs.ns env).Unchanged (next.1.ns env)) ↔
        ¬ ((target ≠ 0 ∧ (fs.ns env).isDir target = true ∧ Clearable env perms fs target ∧
            ¬ up.GoesIn) ∨
          (target = 0 ∧ newDir ≠ dir ∧ up.HalfIn)))
      (linked, entry.later) := by
  intro up
  obtain ⟨valid, sameDir, -⟩ := entered_frame made
  rw [renameLinked]
  by_cases vacant : target = 0
  · rw [if_neg (not_not.mpr vacant), if_pos recorded]
    refine (leads_rename_vacant lawful scene split made refilled mapped newProper isDir
      recorded).mono ?_
    intro rc next ends
    rw [ends]
    refine not_congr ?_
    simp only [vacant, up, false_or, true_and, ne_eq, not_true_eq_false, false_and]
  rw [if_pos vacant]
  have validTarget : linked.validIno target = true :=
    (congrFun valid target).trans (scene.validTarget vacant)
  have kindEq : LINUX_S_ISDIR (linked.inodeTab target).iMode = (fs.ns env).isDir target :=
    congrFun sameDir target
  rw [leads_bind, Leads, run_readInode_linkLib validTarget]
  dsimp only
  rw [if_pos recorded, kindEq]
  cases kind : (fs.ns env).isDir target
  · -- a file is in the way
    rw [Bool.not_false, if_pos rfl]
    refine (leads_cleanup_entered lawful scene split made recorded ENOTDIR entry.later).mono ?_
    intro rc next unchanged
    refine iff_of_true (fun _ => unchanged) ?_
    simp [vacant]
  · rw [Bool.not_true, if_neg (by simp)]
    refine (leads_rename_occupied lawful scene split made refilled mapped newProper
      isDir recorded vacant kind).mono ?_
    intro rc next ends
    rw [ends]
    refine not_congr ?_
    simp only [vacant, up, true_and, ne_eq, not_false_eq_true, false_and, or_false]

end Entered

/-- How `do_rename` of a directory ends. -/
theorem leads_rename_dir (mapped : EXT2FS_INO newDir = newDir) (newProper : ProperName newName)
    (isDir : (fs.ns env).isDir ino = true) (recorded : LINUX_S_ISDIR inode.iMode = true) :
    let entry := fs.renameAttempt env newDir newName ino filetype faults
    let up := fs.upAttempt env newDir newName ino target entry
    Leads (linkLib env) (do
        let ret ← doLink newDir newName ino filetype
        if ret ≠ 0 then renameCleanup newDir newName ino inode ret
        else renameLinked perms dir name newDir newName ino target inode)
      (fun rc next => (rc ≠ 0 → (fs.ns env).Unchanged (next.1.ns env)) ↔
        ¬ (entry.StaysOut ∨
          (entry.GoesIn ∧ target ≠ 0 ∧ (fs.ns env).isDir target = true ∧
            Clearable env perms fs target ∧ ¬ up.GoesIn) ∨
          (entry.GoesIn ∧ target = 0 ∧ newDir ≠ dir ∧ up.HalfIn)))
      (fs.withRaised newDir, faults) := by
  intro entry up
  have eio : EIO ≠ 0 := by decide
  have raised : (fs.withRaised newDir).ns env = (fs.ns env).bumped newDir :=
    ns_withRaised scene.validNew
  refine leads_bind_of ?_
  rintro ret ⟨linked, rest⟩ outcome
  have ended := (leads_newName lawful newDir).outcome outcome
  rw [raised] at ended
  obtain ⟨goesIn, rfl, rfl, refilled, before, after, fileType, split, made⟩ |
    ⟨half, rfl, before, after, fileType, split, made⟩ | ⟨staysOut, rfl, unchanged⟩ := ended
  · have refilled : (fs.withRaised newDir).Refilled linked newDir entry.entered := refilled
    have isIn : entry.GoesIn := goesIn
    have staysIn : ¬ entry.StaysOut := fun staysOut => staysOut.1 isIn
    rw [if_neg (by simp)]
    refine (leads_rename_entered lawful scene split made refilled mapped newProper isDir
      recorded).mono ?_
    intro rc next ends
    rw [ends]
    refine not_congr ?_
    simp only [staysIn, isIn, up, false_or, true_and]
  · -- the entry is taken out again
    rw [if_pos eio]
    refine (leads_cleanup_entered lawful scene split made recorded EIO rest).mono ?_
    intro rc next unchanged
    refine iff_of_true (fun _ => unchanged) ?_
    rintro (staysOut | ⟨goesIn, -⟩ | ⟨goesIn, -⟩)
    · exact staysOut.2 half
    · exact half.not_goesIn lawful goesIn
    · exact half.not_goesIn lawful goesIn
  · have unchanged : linked.ns env = (fs.ns env).bumped newDir := unchanged
    have sameDirs : ((fs.ns env).bumped newDir).isDir = (fs.ns env).isDir :=
      setInode_isDir_of_mode _ _ _
    have cleaned := @holds_cleanup_directory δ env (linked.ns env) newDir ino newName inode lawful
      (unchanged ▸ scene.validNew) (by rw [unchanged, sameDirs]; exact scene.newIsDir) recorded EIO
    rw [if_pos eio]
    refine (leads_of_holds (linkless_renameCleanup _ _ _ _ _) cleaned).mono ?_
    rw [unchanged]
    rintro rc next ⟨rfl, after⟩
    exact damages_iff (.inl staysOut) eio
      (Ns.CleanedUp.not_unchanged scene.narrow scene.nonzero scene.distinct after)

end Outcomes

/-- A rename that fails changes nothing, unless it is one that leaves a change behind it. -/
theorem rename_unchanged_iff (lawful : env.dir.Lawful) (consistent : (fs.ns env).Consistent)
    (distinct : (fs.ns env).Distinct) {parent newparent : Nat}
    (reachable : (fs.ns env).Reachable (EXT2FS_INO parent))
    (newReachable : (fs.ns env).Reachable (EXT2FS_INO newparent)) (proper : ProperName name)
    (newProper : ProperName newName) :
    Leads (linkLib env) (doRename perms (EXT2FS_INO parent) name (EXT2FS_INO newparent) newName)
      (fun rc next => (rc ≠ 0 → (fs.ns env).Unchanged (next.1.ns env)) ↔
        ¬ RenameDamages env perms (EXT2FS_INO parent) name (EXT2FS_INO newparent) newName fs faults)
      (fs, faults) := by
  have mapped : EXT2FS_INO (EXT2FS_INO newparent) = EXT2FS_INO newparent := by
    simp only [EXT2FS_INO]
    split <;> rfl
  generalize EXT2FS_INO parent = dir at reachable ⊢
  generalize EXT2FS_INO newparent = newDir at newReachable mapped ⊢
  cases found : fs.ext2fsLookup env dir name with
  | error rc =>
      -- there is no such name
      rw [Leads, doRename, run_bind, run_getInoByName_linkLib, found]
      refine iff_of_true (fun _ => Ns.Unchanged.refl _) ?_
      rintro ⟨ino, isFound, -⟩
      rw [found] at isFound
      cases isFound
  | ok ino =>
      have scene := renameScene lawful consistent distinct reachable newReachable
        proper newProper found
      have mode : (fs.inodeTab ino).raiseLinks.iMode = (fs.inodeTab ino).iMode := raiseLinks_mode _
      refine leads_doRename_raised found scene.valid scene.validNew ?_
      rw [renameDamages_iff found]
      generalize (fs.ext2fsLookup env newDir newName).toOption.getD 0 = target at scene ⊢
      have targetIsDir : (fs.ns env).isDir target = LINUX_S_ISDIR (fs.inodeTab target).iMode := rfl
      cases kind : LINUX_S_ISDIR (fs.inodeTab ino).iMode
      · have recorded : LINUX_S_ISDIR (fs.inodeTab ino).raiseLinks.iMode = false := by
          rw [mode, kind]
        simp only [Bool.false_eq_true, if_false]
        refine (leads_rename_file lawful scene kind recorded).mono fun rc next ends => ?_
        rw [ends, MoveDamages, kind, targetIsDir]
        simp
      · simp only [if_true]
        refine (leads_rename_dir lawful scene mapped newProper kind kind).mono
          fun rc next ends => ?_
        rw [ends, MoveDamages, kind, targetIsDir]
        simp

/-- In the example's directory the names are distinct. -/
theorem crowded_distinct : ((crowded 3).ns listEnv).Distinct := by
  intro dir reachable
  by_cases root : dir = 2
  · subst root
    change [dotName, dotDotName, letters 11, letters 12, letters 13].Nodup
    decide
  · rw [crowded_ents_sub root]
    exact show [dotName, dotDotName].Nodup by decide

/-- Someone who may not write to a directory does not get another one in its place, and everything
is as it was. -/
theorem rename_refused_unchanged :
    let outcome :=
      (doRename (some ⟨1000, 1000⟩) (EXT2FS_INO 1) (letters 11) (EXT2FS_INO 1) (letters 12)).run
      (linkLib listEnv) (crowded 3, [])
    outcome.1 = EACCES ∧ ((crowded 3).ns listEnv).Unchanged (outcome.2.1.ns listEnv) := by
  intro outcome
  have denied : outcome.1 = EACCES := by decide +kernel
  have root : ((crowded 3).ns listEnv).Reachable (EXT2FS_INO 1) := .refl
  refine ⟨denied, (rename_unchanged_iff listDir_lawful (crowded_consistent (by decide))
    crowded_distinct
    root root (letters_proper 11) (letters_proper 12)).mpr ?_ (by rw [denied]; decide)⟩
  have enters : ((crowded 3).renameAttempt listEnv (EXT2FS_INO 1) (letters 12) 11 EXT2_FT_DIR
    []).first.1 = 0 :=
    by decide +kernel
  rintro ⟨ino, found, damages⟩
  obtain rfl : ino = 11 := (Except.ok.inj found).symm
  obtain ⟨staysOut, -⟩ | ⟨-, -, -, isFile | ⟨⟨allowed, -⟩, -⟩⟩ | ⟨-, -, -, away, -⟩ := damages
  · exact staysOut.1 (.inl enters)
  · cases (@crowded_isDir 3 11).symm.trans isFile
  · exact absurd allowed (by decide +kernel)
  · exact away rfl

/-- The link of the new name fails: the file keeps a link that no entry stands for. -/
theorem rename_keeps_raised_count :
    let fs := twoFilesOf (LINUX_S_IFREG ||| 0o644)
    (fs.ns listEnv).Consistent ∧ (fs.ns listEnv).Distinct ∧
    (fs.ns listEnv).Reachable (EXT2FS_INO 1) ∧
    ProperName [0x62] ∧ ProperName [0x63] ∧
    let outcome := (doRename none (EXT2FS_INO 1) [0x62] (EXT2FS_INO 1) [0x63]).run (linkLib listEnv)
      (fs, [some ioFault])
    outcome.1 = EIO ∧ (outcome.2.1.inodeTab 12).iLinksCount = 2 ∧
      ¬ (fs.ns listEnv).Unchanged (outcome.2.1.ns listEnv) := by
  intro fs
  refine ⟨(twoFilesOf_flat (by decide) (by decide)).consistent,
    twoFilesOf_distinct (by decide) (by decide),
    .refl, ⟨by decide, by decide⟩, ⟨by decide, by decide⟩, ?_⟩
  intro outcome
  have raised : (outcome.2.1.inodeTab 12).iLinksCount = 2 := by decide +kernel
  refine ⟨by decide +kernel, raised, fun unchanged => ?_⟩
  have same : (outcome.2.1.inodeTab 12).iLinksCount = 1 := congrFun unchanged.links 12
  rw [raised] at same
  cases same

end Results

end Ext2Fuse
