import Ext2Fuse.EntryRuns

/-!
# The types in directory entries

On a volume with the FILETYPE feature an entry carries the type of the inode it names. What
`op_rename` and `op_link` enter for an inode has the type of its mode.
-/

namespace Ext2Fuse

open Lib Program Fs

variable {δ : Type}

/-- The inode has its mode still, and every entry for it that was not there in `base` has the type
of this mode. -/
structure Typed (env : Env δ) (base : Fs δ) (number mode : Nat) (fs : Fs δ) : Prop where
  super : fs.super = base.super
  moded : (fs.inodeTab number).iMode = mode
  entries : ∀ dir, ∀ entry ∈ env.dir.entries (fs.dirs dir), entry.inode = number →
    entry ∈ env.dir.entries (base.dirs dir) ∨ entry.fileType = ext2FileType mode

/-- Runs of the program keep an inode's entries typed. -/
abbrev Types (env : Env δ) (base : Fs δ) (number mode : Nat) {α : Type} (program : Prog δ α)
    (fact : α → Prop) : Prop :=
  Preserves (lib env) (Typed env base number mode) (fun _ _ _ => True) program fact

/-- A file type fits the three bits that the directory entry has for it. -/
theorem ext2FileType_lt (mode : Nat) : ext2FileType mode < 8 := by
  simp only [ext2FileType]
  repeat' split
  all_goals decide

/-- A directory's mode gives the directory type. -/
theorem ext2FileType_dir {mode : Nat} (isDir : LINUX_S_ISDIR mode = true) :
    ext2FileType mode = EXT2_FT_DIR := by
  have other : LINUX_S_ISREG mode = false := by
    simp only [LINUX_S_ISDIR, LINUX_S_ISREG, hasType, beq_iff_eq] at isDir ⊢
    rw [isDir]
    decide
  rw [ext2FileType, other, isDir]
  rfl

section Links

variable {env : Env δ} {fs : Fs δ}

/-- What `ext2fs_link` and `do_link` do to the entries: there is one more in the directory, or an
error and none. -/
def EntersTyped (env : Env δ) (dir : Nat) (entry : Dirent) (fs : Fs δ) (rc : Errcode)
    (next : Fs δ) : Prop :=
  (rc = 0 → LINUX_S_ISDIR (fs.inodeTab dir).iMode = true ∧
    (env.dir.entries (next.dirs dir)).Perm (entry :: env.dir.entries (fs.dirs dir))) ∧
  ∀ other, (other = dir → rc ≠ 0) → env.dir.entries (next.dirs other) =
    env.dir.entries (fs.dirs other)

/-- ext2fs_link enters the type it was given, or none where the volume records none. -/
theorem ext2fsLink_typed (lawful : env.dir.Lawful) (dir : Nat) (name : Name) (ino flags : Nat) :
    EntersTyped env dir ⟨name, ino, if fs.super.filetype then flags % 8 else 0⟩ fs
      (fs.ext2fsLink env dir name ino flags).1 (fs.ext2fsLink env dir name ino flags).2 := by
  by_cases checked : fs.ext2fsCheckDirectory dir = 0
  · obtain ⟨-, isDir⟩ := ext2fsCheckDirectory_ok checked
    have contract := lawful.link_spec (fs.dirs dir) name ino
      (if fs.super.filetype then flags % 8 else 0)
    rw [EntersTyped, ext2fsLink_eq checked]
    dsimp only
    rcases contract with ⟨done, before, after, old, new⟩ | ⟨full, same⟩
    · constructor
      · intro _
        rw [Function.update_self, new, old]
        exact ⟨isDir, List.perm_middle⟩
      · intro other apart
        rw [Function.update_of_ne fun same => apart same done]
    · constructor
      · intro done
        rw [full] at done
        cases done
      · intro other _
        by_cases here : other = dir
        · rw [here, Function.update_self, same]
        · rw [Function.update_of_ne here]
  · rw [ext2fsLink, if_neg checked]
    exact ⟨fun done => absurd done checked, fun _ _ => rfl⟩

/-- The entries when one is made. -/
theorem EntersTyped.mem {dir other : Nat} {entry found : Dirent} {rc : Errcode} {next : Fs δ}
    (enters : EntersTyped env dir entry fs rc next)
    (member : found ∈ env.dir.entries (next.dirs other)) :
    found ∈ env.dir.entries (fs.dirs other) ∨ found = entry := by
  by_cases made : other = dir ∧ rc = 0
  · obtain ⟨rfl, done⟩ := made
    have inNew := (enters.1 done).2.mem_iff.mp member
    rcases List.mem_cons.mp inNew with same | old
    · exact .inr same
    · exact .inl old
  · rw [enters.2 other fun here done => made ⟨here, done⟩] at member
    exact .inl member

/-- Nothing is entered before, where only blocks are added. -/
theorem EntersTyped.after {dir : Nat} {entry : Dirent} {rc : Errcode} {middle next : Fs δ}
    (enters : EntersTyped env dir entry middle rc next)
    (isDir : (middle.inodeTab dir).iMode = (fs.inodeTab dir).iMode)
    (same : ∀ other, env.dir.entries (middle.dirs other) = env.dir.entries (fs.dirs other)) :
    EntersTyped env dir entry fs rc next := by
  refine ⟨fun done => ?_, fun other apart => (enters.2 other apart).trans (same other)⟩
  rw [← isDir, ← same dir]
  exact enters.1 done

end Links

section Tracking

variable {env : Env δ} {base fs : Fs δ} {number mode dir ino : Nat} {name : Name}

/-- A call that changes no directory and no mode. -/
theorem types_quiet {α : Type} {operation : LibCall δ α}
    (super : ∀ fs, ((lib env).exec operation fs).2.super = fs.super)
    (dirs : ∀ fs, ((lib env).exec operation fs).2.dirs = fs.dirs)
    (modes : ∀ fs, (((lib env).exec operation fs).2.inodeTab number).iMode =
      (fs.inodeTab number).iMode) :
    Types env base number mode (lift operation) fun _ => True := by
  refine preserves_lift fun fs typed _ =>
    ⟨⟨(super fs).trans typed.super, (modes fs).trans typed.moded, ?_⟩, trivial⟩
  rw [dirs]
  exact typed.entries

/-- Reading the inode gives its mode. -/
theorem types_readInode (ino : Nat) :
    Types env base number mode (lift (.readInode ino)) fun result =>
      ∀ inode, result = .ok inode → ino = number → inode.iMode = mode := by
  refine preserves_lift fun fs typed _ => ⟨typed, fun inode read here => ?_⟩
  rw [lib_readInode, ext2fsReadInode] at read
  dsimp only at read
  split at read
  · cases read
    rw [here]
    exact typed.moded
  · cases read

/-- Writing an inode keeps the mode when the copy written has it. -/
theorem types_writeInode {inode : Inode} (same : ino = number → inode.iMode = mode) :
    Types env base number mode (lift (.writeInode ino inode)) fun _ => True := by
  refine preserves_lift fun fs typed _ => ⟨?_, trivial⟩
  rw [lib_writeInode, ext2fsWriteInode]
  split
  · refine ⟨typed.super, ?_, typed.entries⟩
    by_cases here : number = ino
    · subst here
      simpa using same rfl
    · exact (congrArg Inode.iMode (Function.update_of_ne here _ _)).trans typed.moded
  · exact typed

/-- The same of read_inode. -/
theorem types_readInode' (ino : Nat) :
    Types env base number mode (readInode ino) fun result =>
      ∀ inode, result = .ok inode → ino = number → inode.iMode = mode := by
  refine preserves_bind (types_readInode ino) fun result facts => ?_
  cases result with
  | error rc => exact preserves_pure nofun
  | ok inode => exact preserves_pure facts

/-- The same of write_inode. -/
theorem types_writeInode' {inode : Inode} (same : ino = number → inode.iMode = mode) :
    Types env base number mode (writeInode ino inode) fun _ => True :=
  preserves_bind (types_writeInode same) fun _ _ => preserves_pure trivial

/-- Asking for the time changes no type. -/
theorem types_time : Types env base number mode (lift .time) fun _ => True :=
  types_quiet (fun _ => rfl) (fun _ => rfl) fun _ => rfl

/-- Looking a name up changes no type. -/
theorem types_namei (dir : Nat) (name : Name) :
    Types env base number mode (lift (.namei dir name)) fun _ => True :=
  types_quiet (fun _ => rfl) (fun _ => rfl) fun _ => rfl

/-- Reading a directory changes no type. -/
theorem types_dirIterate (dir : Nat) : Types env base number mode
    (lift (.dirIterate dir)) fun _ => True :=
  types_quiet (fun _ => rfl) (fun _ => rfl) fun _ => rfl

section Directories

variable (lawful : env.dir.Lawful)

include lawful

/-- A link for the inode that is tracked needs its type. -/
theorem types_link {flags : Nat} (filetype : base.super.filetype = true)
    (right : ino = number → flags = ext2FileType mode) :
    Types env base number mode (lift (.link dir name ino flags)) fun rc =>
      rc = 0 → dir = number → LINUX_S_ISDIR mode = true := by
  refine preserves_lift fun fs typed _ => ?_
  have enters := @ext2fsLink_typed _ env fs lawful dir name ino flags
  have entered := @ext2fsLink_enters _ env fs dir name ino flags number
  change Typed env base number mode (fs.ext2fsLink env dir name ino flags).2 ∧
    ((fs.ext2fsLink env dir name ino flags).1 = 0 → _)
  refine ⟨⟨entered.resizes.super.trans typed.super, ?_, fun other entry member here => ?_⟩,
    fun done here => ?_⟩
  · exact (entered.resizes.kept .mode rfl nofun).trans typed.moded
  · rcases enters.mem member with old | rfl
    · exact typed.entries other entry old here
    · right
      dsimp only at here ⊢
      rw [typed.super, filetype, right here]
      exact Nat.mod_eq_of_lt (ext2FileType_lt mode)
  · rw [← typed.moded, ← here]
    exact (enters.1 done).1

/-- Removing an entry changes no other one's type. -/
theorem types_unlink (target : Nat) :
    Types env base number mode (lift (.unlink dir name target)) fun _ => True := by
  refine preserves_lift fun fs typed _ => ⟨?_, trivial⟩
  change Typed env base number mode (fs.ext2fsUnlink env dir name target).2
  rw [ext2fsUnlink]
  split
  · refine ⟨typed.super, typed.moded,
      fun other entry member here => typed.entries other entry ?_ here⟩
    by_cases same : other = dir
    · subst same
      have inErased : entry ∈ (env.dir.entries (fs.dirs other)).eraseP
        (Dirent.matchesEntry name target) := by
        rw [← lawful.unlink_entries]
        simpa using member
      exact List.mem_of_mem_eraseP inErased
    · simpa [Function.update_of_ne same] using member
  · exact typed

/-- A new directory block has no entry. -/
theorem types_expandDir (dir : Nat) :
    Types env base number mode (lift (.expandDir dir)) fun _ => True := by
  refine preserves_lift fun fs typed _ => ⟨?_, trivial⟩
  obtain ⟨super, -, unsized⟩ := ext2fsExpandDir_frame env fs dir number
  have moded : ((fs.ext2fsExpandDir env dir).2.inodeTab number).iMode =
    (fs.inodeTab number).iMode :=
    (congrArg Inode.iMode unsized :)
  refine ⟨super.trans typed.super, moded.trans typed.moded, fun other => ?_⟩
  have same : env.dir.entries ((fs.ext2fsExpandDir env dir).2.dirs other) =
    env.dir.entries (fs.dirs other) :=
    congrFun (congrArg Ns.ents (ns_expandDir lawful)) other
  change ∀ entry ∈ env.dir.entries ((fs.ext2fsExpandDir env dir).2.dirs other), _
  rw [same]
  exact typed.entries other

end Directories

/-- Releasing blocks changes no type. -/
theorem types_blockIterateRelease (ino : Nat) :
    Types env base number mode (lift (.blockIterateRelease ino)) fun _ => True :=
  types_quiet (fun fs => (lib_blockIterateRelease_frame env fs ino).1)
    (fun fs => (lib_blockIterateRelease_kept env fs ino).1)
    fun fs => by rw [(lib_blockIterateRelease_frame env fs ino).2]

/-- Counting inodes changes no type. -/
theorem types_inodeAllocStats2 (ino : Nat) (inuse isdir : Bool) :
    Types env base number mode (lift (.inodeAllocStats2 ino inuse isdir)) fun _ => True :=
  types_quiet (fun _ => rfl) (fun _ => rfl) fun _ => rfl

/-- Clearing an inode's bit changes no type. -/
theorem types_unmarkInodeBitmap (ino : Nat) :
    Types env base number mode (lift (.unmarkInodeBitmap ino)) fun _ => True :=
  types_quiet (fun _ => rfl) (fun _ => rfl) fun _ => rfl

/-- Asking for the superblock changes no type. -/
theorem types_super : Types env base number mode (lift .super) fun _ => True :=
  types_quiet (fun _ => rfl) (fun _ => rfl) fun _ => rfl

/-- Killing an inode writes it back with the mode it had. -/
theorem types_killFileByInode (inode : Inode) (same : ino = number → inode.iMode = mode) :
    Types env base number mode (killFileByInode ino inode) fun _ => True := by
  refine preserves_bind types_time fun now _ => ?_
  refine preserves_bind (types_writeInode' same) fun rc _ => ?_
  refine preserves_ite (preserves_pure trivial) (preserves_ite (preserves_pure trivial) ?_)
  refine preserves_bind (types_blockIterateRelease ino) fun _ _ => ?_
  exact preserves_bind (types_inodeAllocStats2 ino _ _) fun _ _ => types_unmarkInodeBitmap ino

section Routines

variable {newparent : Nat} {newname : Name} (lawful : env.dir.Lawful)
  (filetype : base.super.filetype = true)

include lawful

/-- do_unlink_on_ino keeps types and mode. -/
theorem types_doUnlinkOnIno (links : Int) :
    Types env base number mode (doUnlinkOnIno dir name ino links) fun _ => True := by
  refine preserves_bind (types_readInode' ino) fun result facts => ?_
  cases result with
  | error rc => exact preserves_pure trivial
  | ok inode =>
      refine preserves_ite (preserves_pure trivial) ?_
      have same : ino = number → (if inode.iLinksCount > 0 then
          { inode with iLinksCount := ((inode.iLinksCount + links) % 2 ^ 16).toNat }
          else inode).iMode = mode := by
        intro here
        split
        · exact facts inode rfl here
        · exact facts inode rfl here
      refine preserves_bind (types_unlink lawful ino) fun _ _ => preserves_ite ?_ ?_
      · exact preserves_bind (types_killFileByInode _ same) fun _ _ => preserves_pure trivial
      · exact preserves_bind (types_writeInode' same) fun _ _ => preserves_pure trivial

/-- do_unlink keeps types and mode. -/
theorem types_doUnlink (links : Int) :
    Types env base number mode (doUnlink dir name links) fun _ => True := by
  refine preserves_bind (types_namei dir name) fun result _ => ?_
  cases result with
  | error rc => exact preserves_pure trivial
  | ok ino => exact types_doUnlinkOnIno lawful links

/-- do_rmdir_on_ino keeps types and mode, the parent's included. -/
theorem types_doRmdirOnIno (perms : Perms) :
    Types env base number mode (doRmdirOnIno perms dir name ino) fun _ => True := by
  refine preserves_bind (types_readInode' ino) fun result facts => ?_
  cases result with
  | error rc => exact preserves_pure trivial
  | ok inode =>
      refine preserves_ite (preserves_pure trivial) (preserves_ite (preserves_pure trivial) ?_)
      refine preserves_bind (types_dirIterate ino) fun listed _ => ?_
      refine preserves_ite (preserves_pure trivial) (preserves_ite (preserves_pure trivial) ?_)
      refine preserves_bind (types_unlink lawful ino)
        fun rc _ => preserves_ite (preserves_pure trivial) ?_
      refine preserves_bind (types_killFileByInode inode (facts inode rfl)) fun _ _ => ?_
      refine preserves_ite (preserves_pure trivial) ?_
      refine preserves_bind (types_readInode' dir) fun read facts => ?_
      cases read with
      | error rc => exact preserves_pure trivial
      | ok parentInode =>
          refine types_writeInode' fun here => ?_
          split
          · rw [lowerLinks_mode]
            exact facts parentInode rfl here
          · exact facts parentInode rfl here

/-- The cleanup of a rename keeps types and mode. -/
theorem types_renameCleanup (inode : Inode) (same : ino = number → inode.iMode = mode)
    (ret : Errcode) :
    Types env base number mode (renameCleanup newparent newname ino inode ret) fun _ => True := by
  refine preserves_bind (types_unlink lawful ino) fun rc _ => ?_
  refine preserves_ite (preserves_pure trivial) (preserves_ite ?_ ?_)
  · refine preserves_bind (types_writeInode' fun here => ?_) fun _ _ => preserves_pure trivial
    rw [lowerLinks_mode]
    exact same here
  · refine preserves_bind (types_readInode newparent) fun read facts => ?_
    cases read with
    | error rc => exact preserves_pure trivial
    | ok newparentInode =>
        refine preserves_bind (types_writeInode fun here => ?_) fun _ _ => preserves_pure trivial
        rw [lowerLinks_mode]
        exact facts newparentInode rfl here

/-- The rest of a file's rename keeps types and mode. -/
theorem types_renameFileOld (inode : Inode) (same : ino = number → inode.iMode = mode) :
    Types env base number mode
      (renameFileOld dir name newparent newname ino inode) fun _ => True := by
  refine preserves_bind (types_doUnlink lawful (-1)) fun ret _ => ?_
  exact preserves_ite (types_renameCleanup lawful inode same ret) (preserves_pure trivial)

include filetype

/-- do_link enters the inode under the type of its mode. -/
theorem types_doLink {flags : Nat} (right : ino = number → flags = ext2FileType mode) :
    Types env base number mode (doLink dir name ino flags) fun rc =>
      rc = 0 → dir = number → LINUX_S_ISDIR mode = true := by
  have eio : EIO ≠ 0 := by decide
  have last : ∀ rc : Errcode, (rc = 0 → dir = number → LINUX_S_ISDIR mode = true) →
      Types env base number mode (return if rc ≠ 0 then EIO else 0) fun rc =>
        rc = 0 → dir = number → LINUX_S_ISDIR mode = true := by
    intro rc isDir
    refine preserves_pure fun done => isDir ?_
    by_contra failed
    rw [if_pos failed] at done
    exact eio done
  refine preserves_bind (types_link lawful filetype right) fun rc isDir => ?_
  refine preserves_ite ?_ (last rc isDir)
  refine preserves_bind (types_expandDir lawful dir) fun rc _ => ?_
  refine preserves_ite (preserves_pure fun done => absurd done eio) ?_
  exact preserves_bind (types_link lawful filetype right) last

/-- The new `..` of a directory that moves names a directory. -/
theorem types_renameDirOld (inode : Inode) (same : ino = number → inode.iMode = mode)
    (isDir : EXT2FS_INO newparent = number → LINUX_S_ISDIR mode = true) :
    Types env base number mode
      (renameDirOld dir name newparent newname ino inode) fun _ => True := by
  have cleanup : ∀ ret, Types env base number mode (renameCleanup newparent newname ino inode ret)
      fun _ => True := types_renameCleanup lawful inode same
  refine preserves_bind (types_doLink lawful filetype fun here => ?_) fun ret _ => ?_
  · exact (ext2FileType_dir (isDir here)).symm
  refine preserves_ite (cleanup ret) ?_
  refine preserves_bind (types_unlink lawful dir) fun rc _ => preserves_ite (cleanup EIO) ?_
  refine preserves_bind (types_unlink lawful 0) fun rc _ => preserves_ite (cleanup EIO) ?_
  refine preserves_bind (types_readInode dir) fun read facts => ?_
  cases read with
  | error rc => exact preserves_pure trivial
  | ok parentInode =>
      refine types_writeInode fun here => ?_
      rw [lowerLinks_mode]
      exact facts parentInode rfl here

/-- The part of a rename after the new name keeps types; '..' is entered as a directory. -/
theorem types_renameLinked (perms : Perms) (target : Nat) (inode : Inode)
    (same : ino = number → inode.iMode = mode)
    (isDir : EXT2FS_INO newparent = number → LINUX_S_ISDIR mode = true) :
    Types env base number mode (renameLinked perms dir name newparent newname ino target inode)
      fun _ => True := by
  have cleanup : ∀ ret, Types env base number mode (renameCleanup newparent newname ino inode ret)
      fun _ => True := types_renameCleanup lawful inode same
  have ofDir := @types_renameDirOld _ env base number mode dir ino name newparent
    newname lawful filetype
    inode same isDir
  have ofFile := @types_renameFileOld _ env base number mode dir ino name newparent newname
    lawful inode same
  rw [renameLinked]
  refine preserves_ite ?_ (preserves_ite ofDir ofFile)
  refine preserves_bind (types_readInode' target) fun read _ => ?_
  cases read with
  | error rc => exact cleanup EIO
  | ok targetInode =>
      refine preserves_ite (preserves_ite (cleanup ENOTDIR) ?_)
        (preserves_ite (preserves_pure trivial) ?_)
      · refine preserves_bind (types_doRmdirOnIno lawful perms) fun ret _ => ?_
        exact preserves_ite (cleanup ret) ofDir
      · refine preserves_bind (types_doUnlinkOnIno lawful (-1)) fun ret _ => ?_
        exact preserves_ite (cleanup ret) ofFile

omit lawful filetype in
/-- Raising a count keeps the mode. -/
theorem types_renameRaise (inode : Inode) (same : ino = number → inode.iMode = mode) :
    Types env base number mode (renameRaise newparent ino inode)
      fun result => ∀ raised, result = .ok raised → raised.iMode = inode.iMode := by
  refine preserves_ite ?_ ?_
  · refine preserves_bind (types_writeInode' fun here => ?_) fun rc _ => preserves_pure ?_
    · rw [raiseLinks_mode]
      exact same here
    · intro raised ok
      split at ok
      · cases ok
      · cases ok
        exact raiseLinks_mode inode
  · refine preserves_bind (types_readInode newparent) fun read facts => ?_
    cases read with
    | error rc => exact preserves_pure nofun
    | ok newparentInode =>
        refine preserves_bind (types_writeInode fun here => ?_) fun rc _ => preserves_pure ?_
        · rw [raiseLinks_mode]
          exact facts newparentInode rfl here
        · intro raised ok
          split at ok
          · cases ok
          · cases ok
            rfl

/-- A rename enters the moved inode under the type of its mode. -/
theorem types_doRename (perms : Perms) (mapped : EXT2FS_INO newparent = newparent) :
    Types env base number mode (doRename perms dir name newparent newname) fun _ => True := by
  refine preserves_bind (types_namei dir name) fun result _ => ?_
  cases result with
  | error rc => exact preserves_pure trivial
  | ok ino =>
      refine preserves_bind (types_namei newparent newname) fun target _ => ?_
      refine preserves_bind (types_readInode' ino) fun read facts => ?_
      cases read with
      | error rc => exact preserves_pure trivial
      | ok inode =>
          refine preserves_bind (types_renameRaise inode (facts inode rfl)) fun result raises => ?_
          cases result with
          | error rc => exact preserves_pure trivial
          | ok raised =>
              have same : ino = number → raised.iMode = mode :=
                fun here => (raises raised rfl).trans (facts inode rfl here)
              refine preserves_bind (types_doLink lawful filetype fun here => ?_)
                fun ret isDir => ?_
              · rw [same here]
              split
              · exact types_renameCleanup lawful raised same ret
              · rename_i linked
                refine types_renameLinked lawful filetype perms _ raised same ?_
                rw [mapped]
                exact isDir (not_not.mp linked)

omit lawful filetype in
/-- Checking permissions changes no type. -/
theorem types_checkPerms (perms : Perms) (ino requested : Nat) :
    Types env base number mode (checkPerms perms ino requested) fun _ => True :=
  preserves_pure trivial

/-- The requests that give an inode another name, or one in place of the one it has. -/
def NameOp.Moves : NameOp → Prop
  | .link .. | .rename .. => True
  | _ => False

/-- Every handler that moves names keeps the types right, one case per request. -/
theorem types_handler (ctx : FuseCtx) {op : NameOp} (moves : op.Moves) :
    Types env base number mode (op.handler ctx) fun _ => True := by
  cases op with
  | link ino dir nm =>
      refine preserves_bind (types_checkPerms _ _ _)
        fun rc _ => preserves_ite (preserves_pure trivial) ?_
      refine preserves_bind (types_readInode' _) fun read facts => ?_
      cases read with
      | error rc => exact preserves_pure trivial
      | ok inode =>
          have same : EXT2FS_INO ino = number → inode.raiseLinks.iMode = mode := by
            rw [raiseLinks_mode]
            exact facts inode rfl
          refine preserves_bind (types_writeInode' same) fun rc _ => ?_
          refine preserves_ite (preserves_pure trivial) ?_
          refine preserves_bind (types_doLink lawful filetype fun here => ?_) fun ret _ => ?_
          · rw [same here]
          refine preserves_ite ?_ (preserves_bind types_super fun _ _ => preserves_pure trivial)
          refine preserves_bind (types_writeInode' fun here => ?_) fun rc _ =>
            preserves_ite (preserves_pure trivial) (preserves_pure trivial)
          rw [lowerLinks_mode]
          exact same here
  | rename dir nm newparent newname =>
      refine preserves_bind (types_checkPerms _ _ _) fun first _ => ?_
      refine preserves_bind (types_checkPerms _ _ _) fun second _ => ?_
      refine preserves_ite (preserves_pure trivial) ?_
      exact preserves_bind (types_doRename lawful filetype _ (EXT2FS_INO_idem newparent)) fun _ _ =>
        preserves_pure trivial
  | _ => exact moves.elim

omit lawful filetype

/-- The filesystem after requests, one after the other. -/
def afterRequests (env : Env δ) (fs : Fs δ) (ops : List (FuseCtx × NameOp)) : Fs δ :=
  ops.foldl (fun fs op => ((op.2.handler op.1).run (lib env) fs).2) fs

/-- Whatever is renamed and linked, the entries of an inode stay typed. -/
theorem Typed.moves (lawful : env.dir.Lawful) (filetype : base.super.filetype = true)
    {ops : List (FuseCtx × NameOp)} (moves : ∀ op ∈ ops, op.2.Moves)
    (typed : Typed env base number mode fs) :
    Typed env base number mode (afterRequests env fs ops) := by
  induction ops generalizing fs with
  | nil => exact typed
  | cons op rest inductionHypothesis =>
      have step := types_handler lawful filetype op.1 (moves op List.mem_cons_self) fs typed
        (meets_trivial _ _)
      exact inductionHypothesis
        (fun other member => moves other (List.mem_cons_of_mem _ member)) step.1

end Routines

end Tracking

end Ext2Fuse
