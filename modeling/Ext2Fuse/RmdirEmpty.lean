import Ext2Fuse.DirLink
import Ext2Fuse.LastLink
import Ext2Fuse.NsConsistent

/-!
# Removing empty directories

`do_rmdir_on_ino` where it is called: by `do_rmdir`, and by `do_rename` for the directory in the
way, when the parent has a second entry of the name already and a link more for it.
-/

namespace Ext2Fuse

open Lib Program Fs Ns

variable {δ : Type}

/-- The iteration visits the entries of a directory, and its names are looked up among them. -/
structure DirLib.Readable (dir : DirLib δ) (contents : δ) : Prop where
  iterate_eq : dir.iterate contents = (0, dir.entries contents)
  lookup_eq : ∀ name, dir.lookup contents name =
    match (dir.entries contents).find? (fun entry => entry.name == name) with
    | some entry => .ok entry.inode
    | none => .error EXT2_ET_FILE_NOT_FOUND

/-- `ext2fs_unlink` removes the first entry that matches, and there is one if it says so. -/
structure DirLib.Unlinks (dir : DirLib δ) (contents : δ) (name : Name) (ino : Nat) : Prop where
  entries : dir.entries (dir.unlink contents name ino).2 =
    (dir.entries contents).eraseP (Dirent.matchesEntry name ino)
  rc : (dir.unlink contents name ino).1 = 0 ↔
    (dir.entries contents).any (Dirent.matchesEntry name ino) = true

/-- Every directory of a lawful library is readable. -/
theorem DirLib.Lawful.readable {dir : DirLib δ} (lawful : dir.Lawful) (contents : δ) :
    dir.Readable contents :=
  ⟨lawful.iterate_eq contents, lawful.lookup_eq contents⟩

/-- A lawful library removes what it finds. -/
theorem DirLib.Lawful.unlinks {dir : DirLib δ} (lawful : dir.Lawful) (contents : δ)
    (name : Name) (ino : Nat) :
    dir.Unlinks contents name ino where
  entries := lawful.unlink_entries contents name ino
  rc := by
    rw [lawful.unlink_rc]
    split
    · simp [*]
    · simp [*, EXT2_ET_DIR_NO_SPACE]

section Records

open DirBlock

variable {bs : Nat} {blocks : List Block}

/-- The entries of well-formed blocks are the live ones. -/
theorem DirBlock.WellFormed.entries_eq (wellFormed : WellFormed bs blocks) :
    (dirLib bs).entries blocks = liveEntries bs blocks :=
  congrArg Prod.snd wellFormed.iterate_eq

/-- Over records that fill their blocks, deleted ones among them. -/
theorem DirBlock.WellFormed.readable (wellFormed : WellFormed bs blocks) :
    (dirLib bs).Readable blocks where
  iterate_eq := by rw [wellFormed.entries_eq, wellFormed.iterate_eq]
  lookup_eq name := by
    rw [wellFormed.entries_eq]
    refine (wellFormed.lookup_eq name).trans ?_
    cases (liveEntries bs blocks).find? fun entry => entry.name == name <;> rfl

/-- The records that `ext2fs_unlink` removes without a loss. -/
theorem DirBlock.WellFormed.unlinks (positive : 0 < bs) (bounded : bs ≤ 65536)
    (wellFormed : WellFormed bs blocks)
    {name : Name} {ino : Nat}
    (found : ∃ entry ∈ liveEntries bs blocks, Dirent.matchesEntry name ino entry = true)
    (inside : ¬ StartsBlock bs blocks name ino) (fits : ¬ FillsBlock bs blocks name ino) :
    (dirLib bs).Unlinks blocks name ino where
  entries := by
    obtain ⟨stillWellFormed, removed⟩ :=
      wellFormed.unlink_removes positive bounded found inside fits
    rw [stillWellFormed.entries_eq, wellFormed.entries_eq, removed]
  rc := by
    obtain ⟨earlier, block, later, before, offset, after, first⟩ := wellFormed.found found
    obtain ⟨prev, -, -, unlinked⟩ := first.unlink_eq positive wellFormed
    rw [unlinked, wellFormed.entries_eq]
    exact iff_of_true rfl (List.any_eq_true.mpr found)

end Records

variable {env : Env δ} {fs fs' : Fs δ} {perms : Perms} {parent ino : Nat} {name : Name}

/-- A directory has a live entry other than `.` and `..`. -/
def Fs.Occupied (env : Env δ) (fs : Fs δ) (dir : Nat) : Prop :=
  ∃ entry ∈ env.dir.entries (fs.dirs dir), entry.inode ≠ 0 ∧ entry.proper = true

/-- A directory is occupied when rmdir_proc finds it not empty. -/
theorem occupied_iff : fs.Occupied env ino ↔
    ((env.dir.entries (fs.dirs ino)).foldl rmdirProc {}).empty = false := by
  rw [foldl_rmdirProc_empty, Bool.true_and, ← Bool.not_eq_true, List.all_eq_true]
  simp [Fs.Occupied]

/-- What a successful ext2fs_unlink has done. -/
theorem ext2fsUnlink_ok (outcome : fs.ext2fsUnlink env parent name ino = (0, fs')) :
    fs.validIno parent = true ∧ (env.dir.unlink (fs.dirs parent) name ino).1 = 0 ∧
      fs' = { fs with
        dirs := Function.update fs.dirs parent (env.dir.unlink (fs.dirs parent) name ino).2 } := by
  rw [ext2fsUnlink] at outcome
  split at outcome
  · rename_i checked
    obtain ⟨removed, rfl⟩ := Prod.mk.inj outcome
    exact ⟨(ext2fsCheckDirectory_ok checked).1, removed, rfl⟩
  · rename_i failed
    exact absurd (Prod.mk.inj outcome).1 failed

/-- Killing an inode changes that inode, and no directory. -/
theorem killFileByInode_others (valid : fs.validIno ino = true) (inode : Inode)
    (apart : parent ≠ ino) :
    Leads (lib env) (killFileByInode ino inode)
      (fun _ fs' => fs'.super = fs.super ∧ fs'.dirs = fs.dirs ∧
      fs'.inodeTab parent = fs.inodeTab parent) fs := by
  obtain ⟨vol, now, super, killed⟩ := @run_killFileByInode _ env fs ino valid inode
  have released : ∀ (fs : Fs δ) isdir, (fs.releasedIno ino isdir).super = fs.super ∧
      (fs.releasedIno ino isdir).dirs = fs.dirs ∧
        (fs.releasedIno ino isdir).inodeTab = fs.inodeTab := by
    intro fs isdir
    rw [releasedIno, ext2fsUnmarkInodeBitmap, ext2fsInodeAllocStats2]
    split <;> split <;> exact ⟨rfl, rfl, rfl⟩
  rw [Leads, killed]
  split
  · obtain ⟨sameSuper, sameDirs, sameTab⟩ := released { fs with
      vol := vol
      inodeTab := Function.update fs.inodeTab ino { inode with iLinksCount := 0, iDtime := now } }
      (LINUX_S_ISDIR inode.iMode)
    rw [sameSuper, sameDirs, sameTab]
    exact ⟨super, rfl, Function.update_of_ne apart _ _⟩
  · exact ⟨super, rfl, Function.update_of_ne apart _ _⟩

/-- `do_rmdir_on_ino` past its checks: an occupied directory is refused, and another one goes if
`ext2fs_unlink` finds its entry. -/
theorem leads_doRmdirOnIno (valid : fs.validIno ino = true)
    (isDir : LINUX_S_ISDIR (fs.inodeTab ino).iMode = true)
    (passes : checkPermsInInode perms (fs.inodeTab ino) W_OK = 0)
    (readable : env.dir.Readable (fs.dirs ino)) (apart : parent ≠ ino)
    (dotDot : ∃ entry ∈ env.dir.entries (fs.dirs ino), entry.name = dotDotName ∧ entry.inode ≠ 0) :
    Leads (lib env) (doRmdirOnIno perms parent name ino) (fun rc fs' =>
      (fs.Occupied env ino ∧ rc = ENOTEMPTY ∧ fs' = fs) ∨
      (¬ fs.Occupied env ino ∧ rc ≠ ENOTEMPTY ∧
        (rc = 0 ↔ (fs.ext2fsUnlink env parent name ino).1 = 0) ∧
        (rc = 0 → fs'.super = fs.super ∧ fs'.dirs = (fs.ext2fsUnlink env parent name ino).2.dirs ∧
          fs'.inodeTab parent = if (fs.inodeTab parent).iLinksCount >
            1 then (fs.inodeTab parent).lowerLinks
            else fs.inodeTab parent))) fs := by
  have checked : fs.ext2fsCheckDirectory ino = 0 :=
    @checkDirectory_of_isDir _ env fs ino valid isDir
  rw [doRmdirOnIno, leads_bind, Leads, run_readInode valid]
  dsimp only
  rw [if_neg (by simpa using passes), if_neg (by simp [isDir])]
  refine leads_lift_bind fun listed _ outcome => ?_
  obtain ⟨rfl, rfl⟩ := Prod.mk.inj outcome
  rw [ext2fsDirIterate, if_pos checked, readable.iterate_eq]
  dsimp only
  rw [if_neg (by simp)]
  split
  · rename_i occupied
    refine .inl ⟨occupied_iff.mpr (by simpa using occupied), rfl, rfl⟩
  rename_i passed
  have vacant : ¬ fs.Occupied env ino := fun occupied => passed (by simp [occupied_iff.mp occupied])
  refine leads_lift_bind fun rc unlinked outcome => ?_
  change fs.ext2fsUnlink env parent name ino = _ at outcome
  rw [outcome]
  split
  · rename_i failed
    exact .inr ⟨vacant, show EIO ≠ ENOTEMPTY
      by decide, iff_of_false (show EIO ≠ 0 by decide) failed,
      fun done => absurd done (show EIO ≠ 0 by decide)⟩
  rename_i removed
  rw [not_not] at removed
  subst removed
  obtain ⟨validParent, -, unlinkedEq⟩ := ext2fsUnlink_ok outcome
  refine leads_bind_of fun _ killed outcome => ?_
  have validNow : unlinked.validIno ino = true := by rw [unlinkedEq]; exact valid
  obtain ⟨super, dirs, sameParent⟩ :=
    (killFileByInode_others validNow (fs.inodeTab ino) apart).outcome outcome
  have known : ((env.dir.entries (fs.dirs ino)).foldl rmdirProc {}).parent ≠ 0 := by
    obtain ⟨entry, member, isDotDot, nonzero⟩ := dotDot
    exact foldl_rmdirProc_parent _ _ (.inr ⟨entry, member, isDotDot, nonzero⟩)
  rw [if_neg known]
  have validLast : killed.validIno parent = true := by
    rw [validIno_congr super, unlinkedEq]
    exact validParent
  have unlinkedTab : unlinked.inodeTab = fs.inodeTab := by rw [unlinkedEq]
  rw [leads_bind, Leads, run_readInode validLast]
  dsimp only
  rw [Leads, run_writeInode validLast, sameParent, unlinkedTab]
  have unlinkedSuper : unlinked.super = fs.super := by
    rw [unlinkedEq]
    rfl
  refine .inr ⟨vacant, show (0 : Errcode) ≠ ENOTEMPTY by decide, iff_of_true rfl rfl,
    fun _ => ⟨super.trans unlinkedSuper, dirs, ?_⟩⟩
  exact Function.update_self _ _ _

/-- A removal refuses an occupied directory and changes nothing, and one that succeeds takes one
entry from the parent, and one link. -/
structure RemovesEmpty (env : Env δ) (perms : Perms) (parent : Nat) (name : Name)
    (ino : Nat) (fs : Fs δ) : Prop where
  refuses : fs.Occupied env ino →
    (doRmdirOnIno perms parent name ino).run (lib env) fs = (ENOTEMPTY, fs)
  occupied : ∀ fs', (doRmdirOnIno perms parent name ino).run (lib env) fs = (ENOTEMPTY, fs') →
    fs.Occupied env ino
  removes : ∀ fs', (doRmdirOnIno perms parent name ino).run (lib env) fs = (0, fs') →
    (∃ before entry after, env.dir.entries (fs.dirs parent) = before ++ entry :: after ∧
      entry.name = name ∧ entry.inode = ino ∧ env.dir.entries (fs'.dirs parent) = before ++ after) ∧
    (∀ dir, dir ≠ parent → fs'.dirs dir = fs.dirs dir) ∧
    (fs'.inodeTab parent).iLinksCount + 1 = (fs.inodeTab parent).iLinksCount

/-- Who calls `do_rmdir_on_ino`: `do_rmdir`, or `do_rename` when this directory moves. -/
inductive RmdirCaller where
  | rmdir
  | rename (moved : Nat)

/-- The state the call is made in. `do_rename` has raised the count of the parent and entered the
directory that moves. -/
def RmdirCaller.Calls (env : Env δ) (parent : Nat) (name : Name) (ino : Nat) (first fs : Fs δ) :
    RmdirCaller → Prop
  | rmdir => first.ext2fsLookup env parent name = .ok ino ∧ fs = first
  | rename moved => first.ext2fsLookup env parent name = .ok ino ∧
      LINUX_S_ISDIR (first.inodeTab moved).iMode = true ∧ ∃ inode raised,
        (renameRaise parent moved (first.inodeTab moved)).run (lib env) first =
          (.ok inode, raised) ∧
        (doLink parent name moved (ext2FileType inode.iMode)).run (lib env) raised = (0, fs)

/-- What has become of the parent's count when the call is made. -/
def RmdirCaller.links (count : Nat) : RmdirCaller → Nat
  | rmdir => count
  | rename _ => (count + 1) % 2 ^ 16

/-- The count was raised beyond what fits. -/
def RmdirCaller.Wraps (parent : Nat) (first : Fs δ) : RmdirCaller → Prop
  | rmdir => False
  | rename _ => (first.inodeTab parent).iLinksCount = 65535

section Removing

variable {first : Fs δ} {caller : RmdirCaller}

/-- A name is entered in one directory. -/
theorem doLink_dirs (dir target filetype : Nat) {other : Nat} (apart : other ≠ dir) (contents : δ) :
    Keeps (lib env) (fun fs : Fs δ => fs.dirs other = contents)
      (doLink dir name target filetype) := by
  have linked : Keeps (lib env) (fun fs : Fs δ => fs.dirs other = contents)
      (lift (.link dir name target filetype)) := by
    refine keeps_lift fun state same => ?_
    change (state.ext2fsLink env dir name target filetype).2.dirs other = contents
    by_cases checked : state.ext2fsCheckDirectory dir = 0
    · rw [ext2fsLink_eq checked]
      exact (Function.update_of_ne apart _ _).trans same
    · rw [ext2fsLink, if_neg checked]
      exact same
  refine keeps_bind linked fun rc => ?_
  split
  · refine keeps_bind (keeps_lift fun state same => ?_) fun rc => ?_
    · change (state.ext2fsExpandDir env dir).2.dirs other = contents
      obtain ⟨vol, iBlock, -, iterated⟩ := ext2fsBlockIterate2_frame expandDirProc_super state dir
        false { append := true } {}
      rw [ext2fsExpandDir]
      generalize state.ext2fsBlockIterate2 dir false { append := true } expandDirProc {} = outcome
        at iterated ⊢
      have unwritten : outcome.2.2.dirs other = contents := by
        rw [iterated]
        exact same
      split
      · dsimp only
        split
        · exact unwritten
        split
        · exact unwritten
        · rw [ext2fsWriteInode_dirs]
          exact (Function.update_of_ne apart _ _).trans unwritten
      · exact same
    · exact keeps_ite (keeps_pure _) (keeps_bind linked fun rc => keeps_pure _)
  · exact keeps_pure _

/-- What `do_rename` has raised for a directory that moves. -/
theorem renameRaise_dir {moved : Nat} {inode : Inode} {raised : Fs δ}
    (isDir : LINUX_S_ISDIR (first.inodeTab moved).iMode = true)
    (valid : first.validIno parent = true)
    (raising : (renameRaise parent moved (first.inodeTab moved)).run (lib env) first =
      (.ok inode, raised)) :
    inode = first.inodeTab moved ∧ raised = { first with
      inodeTab := Function.update first.inodeTab parent (first.inodeTab parent).raiseLinks } := by
  rw [renameRaise, if_neg (by simp [isDir]), run_bind, run_lift, lib_readInode, ext2fsReadInode,
    if_pos valid] at raising
  dsimp only at raising
  rw [run_bind, run_lift, lib_writeInode, ext2fsWriteInode, if_pos valid] at raising
  dsimp only at raising
  rw [if_neg (by simp)] at raising
  obtain ⟨same, written⟩ := Prod.mk.inj raising
  exact ⟨(Except.ok.inj same).symm, written.symm⟩

/-- The call is made with the directory as it was at first, and the parent's count raised if the
caller is `do_rename`. -/
theorem RmdirCaller.Calls.kept (calls : caller.Calls env parent name ino first fs)
    (apart : ino ≠ parent) :
    fs.super = first.super ∧ fs.dirs ino = first.dirs ino ∧ fs.inodeTab ino = first.inodeTab ino ∧
      (fs.inodeTab parent).iMode = (first.inodeTab parent).iMode ∧
      (fs.inodeTab parent).iLinksCount = caller.links (first.inodeTab parent).iLinksCount := by
  cases caller with
  | rmdir =>
      obtain ⟨-, rfl⟩ := calls
      exact ⟨rfl, rfl, rfl, rfl, rfl⟩
  | rename moved =>
      obtain ⟨found, movedDir, inode, raised, raising, linking⟩ := calls
      have valid := (lookup_isDir found).1
      obtain ⟨-, raisedEq⟩ := renameRaise_dir movedDir valid raising
      have entered := @doLink_enters _ env raised parent name moved (ext2FileType inode.iMode)
      rw [linking] at entered
      have dirs :=
        (doLink_dirs parent moved (ext2FileType inode.iMode) apart
        (raised.dirs ino) raised rfl).outcome linking
      have table : raised.inodeTab parent = (first.inodeTab parent).raiseLinks := by
        rw [raisedEq]
        exact Function.update_self _ _ _
      have apartTable : raised.inodeTab ino = first.inodeTab ino := by
        rw [raisedEq]
        exact Function.update_of_ne apart _ _
      have sized := (entered parent).resizes
      have mode : (fs.inodeTab parent).iMode = (raised.inodeTab parent).iMode :=
        sized.kept .mode rfl nofun
      have links : (fs.inodeTab parent).iLinksCount = (raised.inodeTab parent).iLinksCount :=
        sized.kept .links rfl nofun
      rw [table] at mode links
      refine ⟨sized.super.trans ?_, dirs.trans ?_, ((entered ino).apart apart).trans apartTable,
        mode.trans (raiseLinks_mode _), links⟩
      · rw [raisedEq]
        rfl
      · rw [raisedEq]

/-- `do_rename` of one directory over another comes down to the call. -/
theorem RmdirCaller.Calls.run_doRename {moved dir : Nat} {oldName : Name}
    (calls : (RmdirCaller.rename moved).Calls env parent name ino first fs) (apart : ino ≠ parent)
    (old : first.ext2fsLookup env dir oldName = .ok moved)
    (validMoved : first.validIno moved = true)
    (valid : first.validIno ino = true) (isDir : LINUX_S_ISDIR (first.inodeTab ino).iMode = true) :
    (doRename perms dir oldName parent name).run (lib env) first =
      ((do
        let ret ← doRmdirOnIno perms parent name ino
        if ret ≠ 0 then renameCleanup parent name moved (first.inodeTab moved) ret
        else renameDirOld dir oldName parent name moved (first.inodeTab moved)) :
          Prog δ _).run (lib env) fs := by
  obtain ⟨super, -, same, -⟩ := calls.kept apart
  obtain ⟨found, movedDir, inode, raised, raising, linking⟩ := calls
  obtain ⟨rfl, -⟩ := renameRaise_dir movedDir (lookup_isDir found).1 raising
  have target : ino ≠ 0 := by
    rintro rfl
    simp [validIno] at valid
  rw [doRename, run_bind, getInoByName, run_lift, lib_namei, old]
  dsimp only
  rw [run_bind, getInoByName, run_lift, lib_namei, found]
  dsimp only [Except.toOption, Option.getD_some]
  rw [run_bind, run_readInode validMoved]
  dsimp only
  rw [run_bind, raising]
  dsimp only
  rw [run_bind, linking]
  dsimp only
  rw [if_neg (by simp), renameLinked, if_pos target, run_bind,
    run_readInode ((validIno_congr super ino).trans valid), same]
  dsimp only
  rw [if_pos movedDir, if_neg (by simp [isDir])]

/-- What consistency says of a directory with a name of its own. -/
theorem subdirectory_of_lookup (consistent : (first.ns env).Consistent)
    (reachable : (first.ns env).Reachable parent) (readable : env.dir.Readable (first.dirs parent))
    (properName : name ≠ dotName ∧ name ≠ dotDotName)
    (found : first.ext2fsLookup env parent name = .ok ino)
    (isDir : LINUX_S_ISDIR (first.inodeTab ino).iMode = true) :
    first.validIno ino = true ∧ ino ≠ parent ∧ 1 < (first.inodeTab parent).iLinksCount ∧
      (first.inodeTab parent).iLinksCount < 2 ^ 16 ∧
      ∃ entry ∈ env.dir.entries (first.dirs ino), entry.name = dotDotName ∧ entry.inode ≠ 0 := by
  obtain ⟨narrow, live, above, tree, counted⟩ := consistent.sound
  have member := tree.reachable_iff.mp reachable
  obtain ⟨valid, parentDir⟩ := lookup_isDir found
  have checked : first.ext2fsCheckDirectory parent = 0 :=
    @checkDirectory_of_isDir _ env first parent valid parentDir
  rw [ext2fsLookup, if_pos checked, readable.lookup_eq] at found
  split at found
  · rename_i entry hit
    cases found
    have inEnts := List.mem_of_find?_eq_some hit
    have named : entry.name = name := by simpa using List.find?_some hit
    obtain ⟨isLive, notRoot, isParent⟩ := tree.child parent member entry inEnts
      (by simp [Dirent.proper, named, properName]) isDir
    have alive := tree.alive parent member entry inEnts
    obtain ⟨dotDot, inOwn, isDotDot⟩ := exists_of_countP_eq_one (tree.dotDot _ isLive).1
    have dotDotAlive := (tree.alive _ isLive dotDot inOwn).1
    have covers := (counted.dir parent member).1
    refine ⟨alive.1, ?_, ?_, narrow parent, dotDot, inOwn, by simpa using isDotDot, ?_⟩
    · rw [← isParent]
      exact (tree.parent_ne isLive notRoot).symm
    · have links : (first.ns env).links parent = (first.inodeTab parent).iLinksCount := rfl
      omega
    · intro zero
      simp [Ns.valid, zero] at dotDotAlive
  · cases found

/-- The caller comes down to the call. -/
def RmdirCaller.Makes (env : Env δ) (perms : Perms) (parent : Nat) (name : Name) (ino : Nat)
    (first fs : Fs δ) :
    RmdirCaller → Prop
  | rmdir => (doRmdir perms parent name).run (lib env) first =
      (doRmdirOnIno perms parent name ino).run (lib env) fs
  | rename moved => ∀ dir oldName, first.ext2fsLookup env dir oldName = .ok moved →
      first.validIno moved = true →
      (doRename perms dir oldName parent name).run (lib env) first =
        ((do
          let ret ← doRmdirOnIno perms parent name ino
          if ret ≠ 0 then renameCleanup parent name moved (first.inodeTab moved) ret
          else renameDirOld dir oldName parent name moved (first.inodeTab moved)) :
            Prog δ _).run (lib env) fs

/-- A caller that makes the call ends as do_rmdir_on_ino does. -/
theorem RmdirCaller.Calls.makes (calls : caller.Calls env parent name ino first fs)
    (apart : ino ≠ parent)
    (valid : first.validIno ino = true) (isDir : LINUX_S_ISDIR (first.inodeTab ino).iMode = true) :
    caller.Makes env perms parent name ino first fs := by
  cases caller with
  | rmdir =>
      obtain ⟨found, rfl⟩ := calls
      rw [Makes, doRmdir, run_bind, run_lift, lib_namei, found]
  | rename moved =>
      exact fun dir oldName old validMoved => calls.run_doRename apart old validMoved valid isDir

/-- **`do_rmdir_on_ino` removes empty directories only, and takes one entry and one link from the
parent, if and only if it is not called by a `do_rename` that has raised a count of 65535.** A
directory that is occupied, or whose entry is not there, is left alone even then. -/
theorem rmdir_removes_empty_iff (consistent : (first.ns env).Consistent)
    (reachable : (first.ns env).Reachable parent)
    (readable : ∀ dir, env.dir.Readable (first.dirs dir))
    (properName : name ≠ dotName ∧ name ≠ dotDotName)
    (calls : caller.Calls env parent name ino first fs)
    (isDir : LINUX_S_ISDIR (first.inodeTab ino).iMode = true)
    (passes : checkPermsInInode perms (first.inodeTab ino) W_OK = 0)
    (unlinks : env.dir.Unlinks (fs.dirs parent) name ino) :
    caller.Makes env perms parent name ino first fs ∧
    (RemovesEmpty env perms parent name ino fs ↔
      ¬ (caller.Wraps parent first ∧ ¬ first.Occupied env ino ∧
        (env.dir.entries (fs.dirs parent)).any (Dirent.matchesEntry name ino) = true)) := by
  have found : first.ext2fsLookup env parent name = .ok ino := by
    cases caller with
    | rmdir => exact calls.1
    | rename moved => exact calls.1
  obtain ⟨valid, apart, more, narrow, dotDot⟩ :=
    subdirectory_of_lookup consistent reachable (readable parent) properName found isDir
  refine ⟨calls.makes apart valid isDir, ?_⟩
  obtain ⟨super, dirs, same, mode, count⟩ := calls.kept apart
  have validNow : fs.validIno ino = true := (validIno_congr super ino).trans valid
  have occupied : fs.Occupied env ino ↔ first.Occupied env ino := by
    rw [Fs.Occupied, Fs.Occupied, dirs]
  obtain ⟨validParent, parentDir⟩ := lookup_isDir found
  have checked : fs.ext2fsCheckDirectory parent = 0 :=
    @checkDirectory_of_isDir _ env fs parent ((validIno_congr super parent).trans validParent)
      ((congrArg LINUX_S_ISDIR mode).trans parentDir)
  have unlinking : fs.ext2fsUnlink env parent name ino =
    ((env.dir.unlink (fs.dirs parent) name ino).1,
      { fs with
        dirs := Function.update fs.dirs parent (env.dir.unlink (fs.dirs parent) name ino).2 }) := by
    rw [ext2fsUnlink, if_pos checked]
  have ran := @leads_doRmdirOnIno _ env fs perms parent ino name validNow
    (by rw [same]; exact isDir)
    (by rw [same]; exact passes) (by rw [dirs]; exact readable ino) (Ne.symm apart)
      (by rw [dirs]; exact dotDot)
  rw [unlinking, unlinks.rc, occupied] at ran
  generalize outcome : (doRmdirOnIno perms parent name ino).run (lib env) fs = result
  obtain ⟨rc, fs'⟩ := result
  replace ran := ran.outcome outcome
  have one : (fs.inodeTab parent).iLinksCount > 1 ↔ ¬ caller.Wraps parent first := by
    rw [count]
    cases caller with
    | rmdir => simp [RmdirCaller.links, RmdirCaller.Wraps, more]
    | rename moved =>
        simp only [RmdirCaller.links, RmdirCaller.Wraps]
        omega
  have fits : (fs.inodeTab parent).iLinksCount < 2 ^ 16 := by
    rw [count]
    cases caller with
    | rmdir => exact narrow
    | rename moved => exact Nat.mod_lt _ (by decide)
  rcases ran with ⟨full, rfl, rfl⟩ | ⟨vacant, other, succeeds, removed⟩
  · refine iff_of_true ⟨fun _ => outcome, fun _ _ => occupied.mpr full,
      fun fs' done => ?_⟩ fun wraps =>
      wraps.2.1 full
    rw [outcome] at done
    cases done
  constructor
  · rintro property ⟨wraps, -, found⟩
    have done := succeeds.mpr found
    rw [done] at outcome
    obtain ⟨-, -, table⟩ := removed done
    obtain ⟨-, -, fewer⟩ := property.removes fs' outcome
    rw [if_neg (fun many => one.mp many wraps)] at table
    rw [table] at fewer
    omega
  · intro plain
    refine ⟨fun full => absurd (occupied.mp full) vacant, fun later same => ?_,
      fun later same => ?_⟩
    · rw [outcome] at same
      exact absurd (Prod.mk.inj same).1 other
    · rw [outcome] at same
      obtain ⟨done, rfl⟩ := Prod.mk.inj same
      have found := succeeds.mp done
      obtain ⟨-, dirs', table⟩ := removed done
      have many := one.mpr fun wraps => plain ⟨wraps, vacant, found⟩
      obtain ⟨hit, member, matching⟩ := List.any_eq_true.mp found
      obtain ⟨entry, before, after, -, matched, split, erased⟩ :=
        List.exists_of_eraseP member matching
      obtain ⟨named, numbered⟩ :=
        (matchesEntry_iff (show (first.ns env).valid ino = true from valid) entry).mp matched
      refine ⟨⟨before, entry, after, split, named, numbered, ?_⟩, fun dir elsewhere => ?_, ?_⟩
      · have contents : fs'.dirs parent = (env.dir.unlink (fs.dirs parent) name ino).2 :=
          (congrFun dirs' parent).trans (Function.update_self _ _ _)
        rw [contents, unlinks.entries, erased]
      · exact (congrFun dirs' dir).trans (Function.update_of_ne elsewhere _ _)
      · rw [table, if_pos many, lowerLinks_count (by omega) fits]
        omega

end Removing

section Crowded

/-- A root with so many empty directories, from inode 11 on. -/
def crowded (count : Nat) : Fs (List Dirent) :=
  { twoFiles with
    vol := { twoFiles.vol with super := { twoFiles.vol.super with sInodesCount := 2 ^ 17 } }
    inodeTab := fun ino =>
      { iMode := LINUX_S_IFDIR ||| 0o755, iLinksCount :=
        if ino = 2 then 2 + count else 2, iSize := 1024 }
    inodeMap := fun _ => true
    dirs := fun ino =>
      if ino = 2 then ⟨dotName, 2, EXT2_FT_DIR⟩ :: ⟨dotDotName, 2, EXT2_FT_DIR⟩ ::
        (List.range' 11 count).map fun sub => ⟨letters sub, sub, EXT2_FT_DIR⟩
      else [⟨dotName, ino, EXT2_FT_DIR⟩, ⟨dotDotName, 2, EXT2_FT_DIR⟩] }

variable {count : Nat}

/-- All inodes of the example are directories. -/
theorem crowded_isDir (ino : Nat) : ((crowded count).ns listEnv).isDir ino = true :=
  show LINUX_S_ISDIR (LINUX_S_IFDIR ||| 0o755) = true by decide

/-- The subdirectories of the example are empty. -/
theorem crowded_ents_sub {ino : Nat} (sub : ino ≠ 2) :
    ((crowded count).ns listEnv).ents ino =
    [⟨dotName, ino, EXT2_FT_DIR⟩, ⟨dotDotName, 2, EXT2_FT_DIR⟩] :=
  if_neg sub

/-- What entries the example has. -/
theorem crowded_ents {ino : Nat} {entry : Dirent}
    (member : entry ∈ ((crowded count).ns listEnv).ents ino) :
    entry.name = dotName ∧ entry.inode = ino ∨ entry.name = dotDotName ∧ entry.inode = 2 ∨
      ino = 2 ∧ entry.name = letters entry.inode ∧ 11 ≤ entry.inode ∧ entry.inode < 11 + count := by
  by_cases root : ino = 2
  · subst root
    change entry ∈ (_ :: _ :: _ : List Dirent) at member
    rcases List.mem_cons.mp member with rfl | member
    · exact .inl ⟨rfl, rfl⟩
    rcases List.mem_cons.mp member with rfl | member
    · exact .inr (.inl ⟨rfl, rfl⟩)
    obtain ⟨sub, inRange, rfl⟩ := List.mem_map.mp member
    obtain ⟨least, most⟩ := List.mem_range'_1.mp inRange
    exact .inr (.inr ⟨rfl, rfl, least, most⟩)
  · rw [crowded_ents_sub root] at member
    rcases List.mem_cons.mp member with rfl | member
    · exact .inl ⟨rfl, rfl⟩
    · obtain rfl := List.mem_singleton.mp member
      exact .inr (.inl ⟨rfl, rfl⟩)

/-- The only edges of the example go from the root to its subdirectories. -/
theorem crowded_edge {dir sub : Nat} (edge : ((crowded count).ns listEnv).Edge dir sub) :
    dir = 2 ∧ 11 ≤ sub ∧ sub < 11 + count := by
  obtain ⟨-, entry, member, proper, rfl⟩ := edge
  rcases crowded_ents member with ⟨named, -⟩ | ⟨named, -⟩ | ⟨root, -, bounds⟩
  · simp [Dirent.proper, named] at proper
  · simp [Dirent.proper, named] at proper
  · exact ⟨root, bounds⟩

/-- Only the root and its subdirectories are reachable. -/
theorem crowded_reachable {dir : Nat} (reachable : ((crowded count).ns listEnv).Reachable dir) :
    2 ≤ dir ∧ dir < 11 + count := by
  rcases reachable.cases_tail with rfl | ⟨above, -, edge⟩
  · exact ⟨by decide, by rw [EXT2_ROOT_INO]; omega⟩
  · have bounds := crowded_edge edge
    omega

/-- How many entries of the root pass a test. -/
theorem crowded_countP (test : Dirent → Bool) : (((crowded count).ns listEnv).ents 2).countP test =
    (List.range' 11 count).countP (fun sub => test ⟨letters sub, sub, EXT2_FT_DIR⟩) +
      (if test ⟨dotDotName, 2, EXT2_FT_DIR⟩ then 1 else 0) +
      if test ⟨dotName, 2, EXT2_FT_DIR⟩ then 1 else 0 := by
  change (_ :: _ :: _ : List Dirent).countP test = _
  rw [List.countP_cons, List.countP_cons, List.countP_map]
  rfl

/-- No subdirectory is named '.' or '..'. -/
theorem crowded_names {name : Name} (dots : name = dotName ∨ name = dotDotName) :
    (List.range' 11 count).countP (fun sub => letters sub == name) = 0 := by
  refine List.countP_eq_zero.mpr fun sub _ named => ?_
  rw [beq_iff_eq] at named
  obtain ⟨notDot, notDotDot⟩ := letters_proper sub
  rcases dots with rfl | rfl
  · exact notDot named
  · exact notDotDot named

/-- Every '..' of the example is the root. -/
theorem crowded_dotDot {dir : Nat} {entry : Dirent}
    (member : entry ∈ ((crowded count).ns listEnv).ents dir)
    (named : entry.name = dotDotName) : entry.inode = 2 := by
  rcases crowded_ents member with ⟨isDot, -⟩ | ⟨-, same⟩ | ⟨-, isLetters, -⟩
  · simp [isDot, dotName, dotDotName] at named
  · exact same
  · exact absurd (isLetters.symm.trans named) (letters_proper _).2

/-- The example is consistent as long as the root's count fits sixteen bits. -/
theorem crowded_consistent (few : count < 65534) : ((crowded count).ns listEnv).Consistent where
  narrow ino := by
    change (if ino = 2 then 2 + count else 2) < 2 ^ 16
    split <;> omega
  root := crowded_isDir 2
  alive dir reachable entry member := by
    have bounds := crowded_reachable reachable
    have numbered : 2 ≤ entry.inode ∧ entry.inode < 11 + count := by
      rcases crowded_ents member with ⟨-, same⟩ | ⟨-, same⟩ | ⟨-, -, least, most⟩ <;> omega
    refine ⟨?_, rfl, show LINUX_S_IFDIR ||| 0o755 ≠ 0 by decide⟩
    have table : ((crowded count).ns listEnv).inodesCount = 2 ^ 17 := rfl
    rw [Ns.valid, table, Bool.and_eq_true, decide_eq_true_eq, decide_eq_true_eq]
    omega
  dot dir _ := by
    refine ⟨?_, fun entry member named => ?_⟩
    · by_cases root : dir = 2
      · rw [root, crowded_countP, crowded_names (.inl rfl)]
        rfl
      · rw [crowded_ents_sub root]
        rfl
    · rcases crowded_ents member with ⟨-, same⟩ | ⟨isDotDot, -⟩ | ⟨-, isLetters, -⟩
      · exact same
      · simp [isDotDot, dotName, dotDotName] at named
      · exact absurd (isLetters.symm.trans named) (letters_proper _).1
  dotDot dir _ := by
    by_cases root : dir = 2
    · rw [root, crowded_countP, crowded_names (.inr rfl)]
      rfl
    · rw [crowded_ents_sub root]
      rfl
  rootDotDot entry member named := crowded_dotDot member named
  subDotDot dir sub _ edge entry member named :=
    (crowded_dotDot member named).trans (crowded_edge edge).1.symm
  once dir sub _ edge := by
    obtain ⟨rfl, least, most⟩ := crowded_edge edge
    refine ⟨by rw [EXT2_ROOT_INO]; omega, ?_⟩
    have only : (List.range' 11 count).countP (fun other =>
        (⟨letters other, other, EXT2_FT_DIR⟩ : Dirent).proper && other == sub) = 1 := by
      have counted : (List.range' 11 count).count sub = 1 :=
        List.count_eq_one_of_mem List.nodup_range' (List.mem_range'_1.mpr ⟨least, most⟩)
      refine (List.countP_congr fun other _ => ?_).trans counted
      simp [Dirent.proper, letters_proper]
    rw [crowded_countP]
    simp only [only]
    rfl
  fileLinks dir _ entry _ isFile := by
    rw [crowded_isDir] at isFile
    cases isFile
  dirLinks dir _ := by
    change (if dir = 2 then 2 + count else 2) = 2 + (((crowded count).ns listEnv).ents dir).countP _
    by_cases root : dir = 2
    · have every : ∀ sub ∈ List.range' 11 count,
        ((⟨letters sub, sub, EXT2_FT_DIR⟩ : Dirent).proper &&
          ((crowded count).ns listEnv).isDir sub) = true := by
        intro sub _
        rw [crowded_isDir, Bool.and_true]
        simp [Dirent.proper, letters_proper]
      rw [if_pos root, root, crowded_countP, List.countP_eq_length.mpr every, List.length_range']
      rfl
    · rw [if_neg root, crowded_ents_sub root]
      rfl

/-- The example's directories are readable. -/
theorem crowded_readable (count dir : Nat) : listEnv.dir.Readable ((crowded count).dirs dir) :=
  listDir_lawful.readable _

/-- `do_rmdir` of the first directory. -/
theorem rmdir_removes_empty_few :
    RemovesEmpty listEnv (some ⟨0, 0⟩) 2 (letters 11) 11 (crowded 3) :=
  (@rmdir_removes_empty_iff _ listEnv (crowded 3) (some ⟨0, 0⟩) 2 11 (letters 11) (crowded 3) .rmdir
    (crowded_consistent (by decide)) .refl (crowded_readable 3) (letters_proper 11)
      ⟨rfl, rfl⟩ (by decide)
    (by decide) (listDir_lawful.unlinks _ _ _)).2.mpr fun wraps => wraps.1

/-- The root with as many directories as its count can be exact for, after `do_rename` has raised
the count for the first of them. -/
def overfull : Fs (List Dirent) :=
  ((doLink 2 (letters 12) 11 EXT2_FT_DIR).run (lib listEnv)
    ((renameRaise 2 11 ((crowded 65533).inodeTab 11)).run (lib listEnv) (crowded 65533)).2).2

/-- do_rename makes the call in the example with a full count. -/
theorem overfull_calls : (RmdirCaller.rename 11).Calls listEnv 2 (letters 12) 12
    (crowded 65533) overfull := by
  refine ⟨rfl, by decide, (crowded 65533).inodeTab 11,
    ((renameRaise 2 11 ((crowded 65533).inodeTab 11)).run (lib listEnv) (crowded 65533)).2, ?_, ?_⟩
  · exact Prod.ext rfl rfl
  · exact Prod.ext rfl rfl

/-- `do_rename` over an empty directory in a root with 65535 links: the count has become 0, and
`do_rmdir_on_ino` does not lower it. -/
theorem rmdir_keeps_wrapped_count :
    ((crowded 65533).ns listEnv).Consistent ∧
      (RmdirCaller.rename 11).Calls listEnv 2 (letters 12) 12 (crowded 65533) overfull ∧
      ¬ RemovesEmpty listEnv (some ⟨0, 0⟩) 2 (letters 12) 12 overfull := by
  refine ⟨crowded_consistent (by decide), overfull_calls, fun removes => ?_⟩
  obtain ⟨-, -, fewer⟩ := removes.removes
    ((doRmdirOnIno (some ⟨0, 0⟩) 2 (letters 12) 12).run (lib listEnv) overfull).2 (Prod.ext rfl rfl)
  have wrapped : (overfull.inodeTab 2).iLinksCount = 0 := rfl
  rw [wrapped] at fewer
  cases fewer

end Crowded

end Ext2Fuse
