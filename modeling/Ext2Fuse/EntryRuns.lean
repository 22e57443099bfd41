import Ext2Fuse.Entries
import Ext2Fuse.Replies

/-!
# What is created can be looked up

Requests on other names leave a name standing for what it stands for; the requests that
create a name make it stand for the inode they report. Over a whole run, `op_lookup` and
`op_readdir` then report that number.
-/

namespace Ext2Fuse

open Lib Program Fs DirBlock

variable {super : Super} {parent : Nat} {name : Name} {number : Option Nat}
  {env : Env (List Block)} {ino dir : Nat}

/-- Mapping the root's number twice is mapping it once. -/
theorem EXT2FS_INO_idem (ino : Nat) : EXT2FS_INO (EXT2FS_INO ino) = EXT2FS_INO ino := by
  simp only [EXT2FS_INO]
  split <;> rfl

section Directories

variable (envDir : env.dir = dirLib super.blocksize) (bounded : super.blocksize < 65536)

include envDir bounded

/-- Entering another name leaves the entry. -/
theorem pins_link {nm : Name} (flags : Nat) (numbered : Numbered super ino)
    (other : dir = parent → nm ≠ name) :
    Pins env super parent name number (lift (.link dir nm ino flags)) fun _ => True :=
  preserves_lift fun _ pinned short => ⟨pinned.link envDir bounded short numbered other, trivial⟩

/-- Removing another name leaves the entry. -/
theorem pins_unlink {nm : Name} (target : Nat) (other : dir = parent → nm ≠ name) :
    Pins env super parent name number (lift (.unlink dir nm target)) fun _ => True :=
  preserves_lift fun _ pinned careful => ⟨pinned.unlink envDir bounded careful other, trivial⟩

/-- A new directory block leaves the entry. -/
theorem pins_expandDir (dir : Nat) :
    Pins env super parent name number (lift (.expandDir dir)) fun _ => True :=
  preserves_lift fun _ pinned _ => ⟨pinned.expandDir envDir bounded, trivial⟩

/-- The block made for a new directory is well formed. -/
theorem pins_newDirBlock (ino dir : Nat) :
    Pins env super parent name number (lift (.newDirBlock ino dir)) fun result =>
      ∃ block, result = .ok block ∧ WellFormed super.blocksize block := by
  obtain ⟨large, aligned⟩ := blocksize_bounds super
  refine pins_look (fun _ => rfl) fun fs _ => ⟨env.dir.newDirBlock ino dir _, rfl, ?_⟩
  rw [envDir]
  exact WellFormed.newDirBlock bounded aligned (by omega) ino dir _

omit envDir bounded in
/-- Writing another directory's block leaves the entry. -/
theorem pins_writeDirBlock {contents : List Block} (blk : Nat) (apart : ino ≠ parent)
    (wellFormed : WellFormed super.blocksize contents) :
    Pins env super parent name number (lift (.writeDirBlock ino blk contents)) fun _ => True :=
  preserves_lift fun _ pinned _ =>
    ⟨pinned.setDir wellFormed fun same => absurd same apart, trivial⟩

omit bounded in
/-- A directory with the name in it is not empty. -/
theorem pins_dirIterate (proper : ProperName name) (named : number ≠ none) (dir : Nat) :
    Pins env super parent name number (lift (.dirIterate dir)) fun result =>
      dir = parent → result.1 = 0 → (result.2.foldl rmdirProc {}).empty = false := by
  refine pins_look (fun _ => rfl) fun fs pinned => ?_
  rintro rfl -
  have isDirectory : fs.ext2fsCheckDirectory dir = 0 := by
    simp [ext2fsCheckDirectory, ext2fsReadInode, pinned.valid, pinned.isDir]
  change ((fs.ext2fsDirIterate env dir).2.foldl rmdirProc {}).empty = false
  rw [ext2fsDirIterate, if_pos isDirectory, envDir, (pinned.wellFormed dir).iterate_eq,
    foldl_rmdirProc_empty, Bool.true_and, Bool.eq_false_iff]
  intro empty
  have found := pinned.number_eq
  cases hit : (liveEntries super.blocksize (fs.dirs dir)).find? fun entry => entry.name == name with
  | none =>
      rw [hit] at found
      exact named found.symm
  | some entry =>
      have member := List.mem_of_find?_eq_some hit
      have same : entry.name = name := by simpa using List.find?_some hit
      have gone := List.all_eq_true.mp empty entry member
      obtain ⟨block, -, inBlock⟩ := List.mem_flatMap.mp member
      have live : entry.inode ≠ 0 := by
        simp only [liveFrom, List.mem_map, List.mem_filter, decide_eq_true_eq] at inBlock
        obtain ⟨offset, ⟨-, positive⟩, rfl⟩ := inBlock
        exact positive
      simp [live, Dirent.proper, same, proper.1, proper.2] at gone

section Routines

/-- do_link of another name leaves the entry, with its second try in a new block. -/
theorem pins_doLink {nm : Name} (flags : Nat) (numbered : Numbered super ino)
    (other : dir = parent → nm ≠ name) :
    Pins env super parent name number (doLink dir nm ino flags) fun _ => True := by
  refine preserves_bind (pins_link envDir bounded flags numbered other) fun rc _ => ?_
  refine preserves_ite ?_ (preserves_pure trivial)
  refine preserves_bind (pins_expandDir envDir bounded dir) fun rc _ => ?_
  refine preserves_ite (preserves_pure trivial) ?_
  exact preserves_bind (pins_link envDir bounded flags numbered other)
    fun _ _ => preserves_pure trivial

omit envDir bounded in
/-- Killing another inode leaves the entry: the directory's own blocks stay. -/
theorem pins_killFileByInode (apart : ino ≠ parent) (inode : Inode) :
    Pins env super parent name number (killFileByInode ino inode) fun _ => True := by
  refine preserves_bind pins_time fun now _ => ?_
  refine preserves_bind (pins_writeInode fun same => absurd same apart) fun rc _ => ?_
  refine preserves_ite (preserves_pure trivial) (preserves_ite (preserves_pure trivial) ?_)
  refine preserves_bind (pins_blockIterateRelease ino) fun _ _ => ?_
  refine preserves_bind (pins_inodeAllocStats2 fun same => absurd same apart) fun _ _ => ?_
  exact pins_unmarkInodeBitmap apart

/-- do_unlink_on_ino of another name leaves the entry. -/
theorem pins_doUnlinkOnIno {nm : Name} (other : dir = parent → nm ≠ name) (links : Int) :
    Pins env super parent name number (doUnlinkOnIno dir nm ino links) fun _ => True := by
  refine preserves_bind (pins_readInode ino) fun result facts => ?_
  cases result with
  | error rc => exact preserves_pure trivial
  | ok inode =>
      dsimp only
      split
      · exact preserves_pure trivial
      · rename_i notDir
        -- the directory itself has been refused
        have apart : ino ≠ parent := fun same => notDir ((facts inode rfl).2 same)
        refine preserves_bind (pins_unlink envDir bounded ino other) fun _ _ => ?_
        refine preserves_ite ?_ ?_
        · exact preserves_bind (pins_killFileByInode apart _) fun _ _ => preserves_pure trivial
        · exact preserves_bind (pins_writeInode fun same => absurd same apart) fun _ _ =>
            preserves_pure trivial

/-- do_unlink of another name leaves the entry. -/
theorem pins_doUnlink {nm : Name} (other : dir = parent → nm ≠ name) (links : Int) :
    Pins env super parent name number (doUnlink dir nm links) fun _ => True := by
  refine preserves_bind (pins_namei dir nm) fun result _ => ?_
  cases result with
  | error rc => exact preserves_pure trivial
  | ok ino => exact pins_doUnlinkOnIno envDir bounded other links

/-- A directory with the entry is not empty, so the one removed is another. -/
theorem pins_doRmdirOnIno {nm : Name} (proper : ProperName name) (named : number ≠ none)
    (other : dir = parent → nm ≠ name) (perms : Perms) :
    Pins env super parent name number (doRmdirOnIno perms dir nm ino) fun _ => True := by
  refine preserves_bind (pins_readInode ino) fun result facts => ?_
  cases result with
  | error rc => exact preserves_pure trivial
  | ok inode =>
      refine preserves_ite (preserves_pure trivial) (preserves_ite (preserves_pure trivial) ?_)
      refine preserves_bind (pins_dirIterate envDir proper named ino) fun listed kept => ?_
      dsimp only
      split
      · exact preserves_pure trivial
      rename_i iterated
      split
      · exact preserves_pure trivial
      rename_i empty
      have apart : ino ≠ parent := fun same => empty (by simp [kept same (not_not.mp iterated)])
      refine preserves_bind (pins_unlink envDir bounded ino other) fun rc _ => ?_
      refine preserves_ite (preserves_pure trivial) ?_
      refine preserves_bind (pins_killFileByInode apart inode) fun _ _ => ?_
      refine preserves_ite (preserves_pure trivial) ?_
      refine preserves_bind (pins_readInode dir) fun read facts => ?_
      cases read with
      | error rc => exact preserves_pure trivial
      | ok parentInode =>
          refine pins_writeInode fun same => ?_
          have isDir := (facts parentInode rfl).2 same
          split
          · rw [lowerLinks_mode]
            exact isDir
          · exact isDir

/-- do_rmdir of another name leaves the entry. -/
theorem pins_doRmdir {nm : Name} (proper : ProperName name) (named : number ≠ none)
    (other : dir = parent → nm ≠ name) (perms : Perms) :
    Pins env super parent name number (doRmdir perms dir nm) fun _ => True := by
  refine preserves_bind (pins_namei dir nm) fun result _ => ?_
  cases result with
  | error rc => exact preserves_pure trivial
  | ok ino => exact pins_doRmdirOnIno envDir bounded proper named other perms

/-- The inode that do_create takes is not the directory's. -/
theorem pins_doCreate {nm : Name} (perms : Perms) (mode filetype : Nat)
    (other : dir = parent → nm ≠ name) :
    Pins env super parent name number (doCreate perms dir nm mode filetype)
      fun result => ∀ made, result = .ok made → made.1 ≠ parent := by
  have failed : ∀ rc : Errcode, ∀ made : Nat × Inode, Except.error rc = .ok made →
    made.1 ≠ parent :=
    fun _ _ same => by cases same
  refine preserves_bind (pins_readInode dir) fun result _ => ?_
  cases result with
  | error rc => exact preserves_pure (failed _)
  | ok parentInode =>
      refine preserves_ite (preserves_pure (failed _)) ?_
      refine preserves_bind (pins_newInode dir) fun result fresh => ?_
      cases result with
      | error rc => exact preserves_pure (failed _)
      | ok ino =>
          have apart : ino ≠ parent := fresh
          refine preserves_bind pins_time fun now _ => ?_
          refine preserves_bind (pins_writeNewInode apart) fun rc numbered => ?_
          split
          · exact preserves_pure (failed _)
          rename_i wrote
          refine preserves_bind (pins_inodeAllocStats2 fun _ => rfl) fun _ _ => ?_
          refine preserves_bind (pins_doLink envDir bounded filetype
            (numbered (not_not.mp wrote)) other)
            fun rc _ => ?_
          refine preserves_ite (preserves_pure (failed _)) (preserves_pure ?_)
          intro made same
          cases same
          exact apart

/-- Nor is the one that new_ext2fs_mkdir takes, and it writes the new directory's block. -/
theorem pins_newExt2fsMkdir {nm : Name} (perms : Perms) (other : dir = parent → nm ≠ name) :
    Pins env super parent name number (newExt2fsMkdir perms dir nm) fun _ => True := by
  refine preserves_bind (pins_newInode dir) fun result fresh => ?_
  cases result with
  | error rc => exact preserves_pure trivial
  | ok ino =>
  have apart : ino ≠ parent := fresh
  refine preserves_bind (pins_newBlock 0) fun result _ => ?_
  cases result with
  | error rc => exact preserves_pure trivial
  | ok blk =>
  refine preserves_bind (pins_newDirBlock envDir bounded ino dir) ?_
  rintro _ ⟨block, rfl, wellFormed⟩
  refine preserves_bind (pins_readInodeOr dir) fun read isDir => ?_
  refine preserves_ite (preserves_pure trivial) ?_
  refine preserves_bind pins_super fun _ _ => ?_
  refine preserves_bind pins_time fun now _ => ?_
  refine preserves_bind (pins_blockAllocStats blk true) fun _ _ => ?_
  refine preserves_bind (pins_inodeAllocStats2 fun _ => rfl) fun _ _ => ?_
  refine preserves_bind (pins_writeDirBlock blk apart wellFormed) fun rc _ => ?_
  refine preserves_ite (preserves_pure trivial) ?_
  refine preserves_bind (pins_writeNewInode apart) fun rc numbered => ?_
  split
  · exact preserves_pure trivial
  rename_i wrote
  refine preserves_bind (pins_lookup dir nm) fun result _ => ?_
  cases result with
  | ok found => exact preserves_pure trivial
  | error rc =>
      refine preserves_ite (preserves_pure trivial) ?_
      refine preserves_bind (pins_link envDir bounded EXT2_FT_DIR
        (numbered (not_not.mp wrote)) other)
        fun rc _ => ?_
      refine preserves_ite (preserves_pure trivial) ?_
      refine pins_ext2fsWriteInode fun same => ?_
      rw [raiseLinks_mode]
      exact isDir same

/-- Every turn of the loop leaves the entry. -/
theorem pins_mkdirLoop {nm : Name} (perms : Perms)
    (other : dir = parent → nm ≠ name) (bound : Nat) :
    Pins env super parent name number (mkdirLoop perms dir nm bound) fun _ => True := by
  induction bound with
  | zero => exact preserves_pure trivial
  | succ bound inductionHypothesis =>
      refine preserves_bind (pins_newExt2fsMkdir envDir bounded perms other) fun rc _ => ?_
      refine preserves_ite ?_ (preserves_pure trivial)
      refine preserves_bind (pins_expandDir envDir bounded dir) fun rc _ => ?_
      exact preserves_ite (preserves_pure trivial) inductionHypothesis

/-- do_mkdir of another name leaves the entry. -/
theorem pins_doMkdir {nm : Name} (perms : Perms) (other : dir = parent → nm ≠ name) :
    Pins env super parent name number (doMkdir perms dir nm) fun _ => True := by
  refine preserves_bind pins_super fun found _ => ?_
  refine preserves_bind (pins_mkdirLoop envDir bounded perms other _) fun rc _ => ?_
  rw [mkdirFinish]
  refine preserves_ite (preserves_pure trivial) ?_
  refine preserves_bind (pins_lookup dir nm) fun result _ => ?_
  cases result with
  | error rc => exact preserves_pure trivial
  | ok ino => exact preserves_pure trivial

section Rename

variable {newparent : Nat} {nm newname : Name} (other : dir = parent → nm ≠ name)
  (newOther : newparent = parent → newname ≠ name)

include newOther in
/-- The cleanup of a rename removes the name that the rename entered. -/
theorem pins_renameCleanup (ino : Nat) (inode : Inode)
    (isFile : ino = parent → LINUX_S_ISDIR inode.iMode = true) (ret : Errcode) :
    Pins env super parent name number
      (renameCleanup newparent newname ino inode ret) fun _ => True := by
  refine preserves_bind (pins_unlink envDir bounded ino newOther) fun rc _ => ?_
  refine preserves_ite (preserves_pure trivial) (preserves_ite ?_ ?_)
  · refine preserves_bind (pins_writeInode fun same => ?_) fun _ _ => preserves_pure trivial
    rw [lowerLinks_mode]
    exact isFile same
  · refine preserves_bind (pins_ext2fsReadInode newparent) fun read facts => ?_
    cases read with
    | error rc => exact preserves_pure trivial
    | ok newparentInode =>
        refine preserves_bind (pins_ext2fsWriteInode fun same => ?_)
          fun _ _ => preserves_pure trivial
        rw [lowerLinks_mode]
        exact (facts newparentInode rfl).2 same

include other newOther

/-- The rest of a file's rename removes the name it moved. -/
theorem pins_renameFileOld (inode : Inode)
    (isFile : ino = parent → LINUX_S_ISDIR inode.iMode = true) :
    Pins env super parent name number (renameFileOld dir nm newparent newname ino inode)
      fun _ => True := by
  refine preserves_bind (pins_doUnlink envDir bounded other (-1)) fun ret _ => ?_
  exact preserves_ite (pins_renameCleanup envDir bounded newOther ino inode isFile ret)
    (preserves_pure trivial)

/-- The rest of a directory's rename rewrites '..' and removes the name it moved. -/
theorem pins_renameDirOld (proper : ProperName name) (inode : Inode)
    (isFile : ino = parent → LINUX_S_ISDIR inode.iMode = true)
    (numbered : Numbered super (EXT2FS_INO newparent)) :
    Pins env super parent name number (renameDirOld dir nm newparent newname ino inode)
      fun _ => True := by
  have cleanup : ∀ ret, Pins env super parent name number
      (renameCleanup newparent newname ino inode ret) fun _ => True :=
    fun ret => pins_renameCleanup envDir bounded newOther ino inode isFile ret
  refine preserves_bind (pins_doLink envDir bounded EXT2_FT_DIR numbered fun _ => proper.2.symm)
    fun ret _ => ?_
  refine preserves_ite (cleanup ret) ?_
  refine preserves_bind (pins_unlink envDir bounded dir fun _ => proper.2.symm) fun rc _ => ?_
  refine preserves_ite (cleanup EIO) ?_
  refine preserves_bind (pins_unlink envDir bounded 0 other) fun rc _ => ?_
  refine preserves_ite (cleanup EIO) ?_
  refine preserves_bind (pins_ext2fsReadInode dir) fun read facts => ?_
  cases read with
  | error rc => exact preserves_pure trivial
  | ok parentInode =>
      refine pins_ext2fsWriteInode fun same => ?_
      rw [lowerLinks_mode]
      exact (facts parentInode rfl).2 same

/-- So does the part before it, which may remove what stood at the new name. -/
theorem pins_renameLinked (proper : ProperName name) (named : number ≠ none) (perms : Perms)
    (target : Nat) (inode : Inode) (isFile : ino = parent → LINUX_S_ISDIR inode.iMode = true)
    (numbered : LINUX_S_ISDIR inode.iMode = true → Numbered super (EXT2FS_INO newparent)) :
    Pins env super parent name number
      (renameLinked perms dir nm newparent newname ino target inode) fun _ => True := by
  have cleanup : ∀ ret, Pins env super parent name number
      (renameCleanup newparent newname ino inode ret) fun _ => True :=
    fun ret => pins_renameCleanup envDir bounded newOther ino inode isFile ret
  have old : Pins env super parent name number (if LINUX_S_ISDIR inode.iMode then
      renameDirOld dir nm newparent newname ino inode
      else renameFileOld dir nm newparent newname ino inode) fun _ => True := by
    split
    · rename_i isDir
      exact pins_renameDirOld envDir bounded other newOther proper inode isFile (numbered isDir)
    · exact pins_renameFileOld envDir bounded other newOther inode isFile
  rw [renameLinked]
  split
  · refine preserves_bind (pins_readInode target) fun read _ => ?_
    cases read with
    | error rc => exact cleanup EIO
    | ok targetInode =>
        dsimp only
        split
        · rename_i isDir
          refine preserves_ite (cleanup ENOTDIR) ?_
          refine preserves_bind (pins_doRmdirOnIno envDir bounded proper named newOther perms)
            fun ret _ => ?_
          rw [if_pos isDir] at old
          exact preserves_ite (cleanup ret) old
        · rename_i isDir
          refine preserves_ite (preserves_pure trivial) ?_
          refine preserves_bind (pins_doUnlinkOnIno envDir bounded newOther (-1)) fun ret _ => ?_
          rw [if_neg isDir] at old
          exact preserves_ite (cleanup ret) old
  · exact old

omit other newOther envDir bounded in
/-- Raising the moved inode's count keeps its mode. -/
theorem pins_renameRaise (inode : Inode) (isDir : ino = parent → LINUX_S_ISDIR inode.iMode = true) :
    Pins env super parent name number (renameRaise newparent ino inode)
      fun result => ∀ raised, result = .ok raised → raised.iMode = inode.iMode ∧
        (LINUX_S_ISDIR inode.iMode = true → Numbered super newparent) := by
  rw [renameRaise]
  split
  · rename_i notDir
    refine preserves_bind (pins_writeInode fun same => ?_) fun rc _ => preserves_pure ?_
    · rw [raiseLinks_mode]
      exact isDir same
    · intro raised same
      split at same
      · cases same
      · cases same
        exact ⟨raiseLinks_mode inode, fun isDir => by simp [isDir] at notDir⟩
  · refine preserves_bind (pins_ext2fsReadInode newparent) fun read facts => ?_
    cases read with
    | error rc => exact preserves_pure fun raised same => by cases same
    | ok newparentInode =>
        obtain ⟨numbered, staysDir⟩ := facts newparentInode rfl
        refine preserves_bind (pins_ext2fsWriteInode fun same => ?_) fun rc _ => preserves_pure ?_
        · rw [raiseLinks_mode]
          exact staysDir same
        · intro raised same
          split at same
          · cases same
          · cases same
            exact ⟨rfl, fun _ => numbered⟩

/-- A whole rename between other names leaves the entry. -/
theorem pins_doRename (proper : ProperName name) (named : number ≠ none) (perms : Perms)
    (mapped : EXT2FS_INO newparent = newparent) :
    Pins env super parent name number (doRename perms dir nm newparent newname) fun _ => True := by
  refine preserves_bind (pins_namei dir nm) fun result _ => ?_
  cases result with
  | error rc => exact preserves_pure trivial
  | ok ino =>
      refine preserves_bind (pins_namei newparent newname) fun target _ => ?_
      refine preserves_bind (pins_readInode ino) fun read facts => ?_
      cases read with
      | error rc => exact preserves_pure trivial
      | ok inode =>
          obtain ⟨numbered, isDir⟩ := facts inode rfl
          refine preserves_bind (pins_renameRaise inode isDir) fun result raises => ?_
          cases result with
          | error rc => exact preserves_pure trivial
          | ok raised =>
              obtain ⟨mode, numberedNew⟩ := raises raised rfl
              rw [← mode] at isDir numberedNew
              refine preserves_bind (pins_doLink envDir bounded _ numbered newOther) fun ret _ => ?_
              refine preserves_ite (pins_renameCleanup envDir bounded newOther ino
                raised isDir ret) ?_
              rw [← mapped] at numberedNew
              exact pins_renameLinked envDir bounded other newOther proper named
                perms _ raised isDir
                numberedNew

end Rename

end Routines

section Requests

/-- The request neither creates nor removes the name in the directory. -/
def NameOp.Spares (parent : Nat) (name : Name) : NameOp → Prop
  | .create dir nm _ _ | .symlink _ dir nm | .mkdir dir nm | .rmdir dir nm | .unlink dir nm
  | .link _ dir nm => EXT2FS_INO dir = parent → nm ≠ name
  | .rename dir nm newparent newname =>
      (EXT2FS_INO dir = parent → nm ≠ name) ∧ (EXT2FS_INO newparent = parent → newname ≠ name)

omit envDir bounded in
/-- What `op_create` does with the file it has created. -/
theorem pins_createRest (apart : ino ≠ parent) (inode : Inode) (flags : OpenFlags) :
    Pins env super parent name number (do
      match ← doOpen none ino flags with
      | .error rc => return [Reply.err rc]
      | .ok efile =>
          let super ← lift .super
          return [.create ino inode.iGeneration (fillStatbuf super ino inode) efile])
      fun replies => replies.all Reply.ok = true →
        ∃ generation stat efile, replies = [.create ino generation stat efile] := by
  refine preserves_bind (pins_doOpen apart none _) fun opened own => ?_
  cases opened with
  | error rc =>
      refine preserves_pure fun succeeded => ?_
      have nonzero : rc ≠ 0 := own
      simp [Reply.ok, nonzero] at succeeded
  | ok file => exact preserves_bind pins_super fun _ _ => preserves_pure fun _ => ⟨_, _, _, rfl⟩

/-- op_create of another name leaves the entry. -/
theorem pins_opCreate {nm : Name} (ctx : FuseCtx) (other : EXT2FS_INO dir = parent → nm ≠ name)
    (mode : Nat) (flags : OpenFlags) :
    Pins env super parent name number (opCreate ctx dir nm mode flags) fun _ => True := by
  refine preserves_bind (pins_doCreate envDir bounded _ _ _ other) fun result apart => ?_
  cases result with
  | error rc => exact preserves_pure trivial
  | ok made => exact (pins_createRest (apart made rfl) made.2 _).mono fun _ _ => trivial

omit envDir bounded in
/-- What `op_symlink` does with the file it has created. -/
theorem pins_symlinkRest (apart : ino ≠ parent) (link : Name) (inode : Inode) :
    Pins env super parent name number (do
      match ← doOpen none ino { wronly := true } with
      | .error rc => return [Reply.err rc]
      | .ok efile =>
          let (rc, bytes, efile) ← doWrite efile ino (link ++ [0]) 0
          if rc ≠ 0 then return [.err rc]
          let rc ← doFileClose efile
          if rc ≠ 0 then return [.err rc]
          let super ← lift .super
          let reply := Reply.entry ino inode.iGeneration (fillStatbuf super ino inode)
          if bytes ≠ link.length + 1 then return [.err EIO, reply]
          else return [reply]) fun replies => replies.all Reply.ok = true →
            ∃ generation stat, replies = [.entry ino generation stat] := by
  have failed : ∀ rc : Errcode, rc ≠ 0 → [Reply.err rc].all Reply.ok = true →
      ∃ generation stat, [Reply.err rc] = [.entry ino generation stat] := by
    intro rc nonzero succeeded
    simp [Reply.ok, nonzero] at succeeded
  refine preserves_bind (pins_doOpen apart none _) fun opened own => ?_
  cases opened with
  | error rc => exact preserves_pure (failed rc own)
  | ok file =>
      refine preserves_bind (pins_doWrite apart own _ 0) fun wrote stays => ?_
      dsimp only
      split
      · exact preserves_pure (failed _ ‹_›)
      refine preserves_bind (pins_doFileClose stays) fun rc _ => ?_
      split
      · exact preserves_pure (failed _ ‹_›)
      refine preserves_bind pins_super fun _ _ => ?_
      refine preserves_ite (preserves_pure fun succeeded => ?_)
        (preserves_pure fun _ => ⟨_, _, rfl⟩)
      cases succeeded

/-- op_symlink of another name leaves the entry. -/
theorem pins_opSymlink {nm : Name} (ctx : FuseCtx) (other : EXT2FS_INO dir = parent → nm ≠ name)
    (link : Name) : Pins env super parent name number
    (opSymlink ctx link dir nm) fun _ => True := by
  refine preserves_bind (pins_doCreate envDir bounded _ _ _ other) fun result apart => ?_
  cases result with
  | error rc => exact preserves_pure trivial
  | ok made => exact (pins_symlinkRest (apart made rfl) link made.2).mono fun _ _ => trivial

/-- op_link of another name leaves the entry. -/
theorem pins_opLink {newname : Name} (ctx : FuseCtx)
    (other : EXT2FS_INO dir = parent → newname ≠ name) :
    Pins env super parent name number (opLink ctx ino dir newname) fun _ => True := by
  refine preserves_bind (pins_checkPerms _ _ _) fun rc _ => ?_
  refine preserves_ite (preserves_pure trivial) ?_
  refine preserves_bind (pins_readInode _) fun read facts => ?_
  cases read with
  | error rc => exact preserves_pure trivial
  | ok inode =>
      obtain ⟨numbered, isDir⟩ := facts inode rfl
      refine preserves_bind (pins_writeInode fun same => ?_) fun rc _ => ?_
      · rw [raiseLinks_mode]
        exact isDir same
      refine preserves_ite (preserves_pure trivial) ?_
      refine preserves_bind (pins_doLink envDir bounded _ numbered other) fun ret _ => ?_
      refine preserves_ite ?_ ?_
      · refine preserves_bind (pins_writeInode fun same => ?_) fun rc _ => ?_
        · rw [lowerLinks_mode, raiseLinks_mode]
          exact isDir same
        · exact preserves_ite (preserves_pure trivial) (preserves_pure trivial)
      · exact preserves_bind pins_super fun _ _ => preserves_pure trivial

/-- op_mkdir of another name leaves the entry. -/
theorem pins_opMkdir {nm : Name} (ctx : FuseCtx) (other : EXT2FS_INO dir = parent → nm ≠ name) :
    Pins env super parent name number (opMkdir ctx dir nm) fun _ => True := by
  refine preserves_bind (pins_doMkdir envDir bounded _ other) fun result _ => ?_
  cases result with
  | error rc => exact preserves_ite (preserves_pure trivial) (preserves_pure trivial)
  | ok ino =>
      refine preserves_bind (pins_readInode ino) fun read _ => ?_
      cases read with
      | error rc => exact preserves_pure trivial
      | ok inode => exact preserves_bind pins_super fun _ _ => preserves_pure trivial

/-- Requests that spare the name leave it as it is. -/
theorem pins_handler (proper : ProperName name) (named : number ≠ none)
    (ctx : FuseCtx) {op : NameOp} (spares : op.Spares parent name) :
    Pins env super parent name number (op.handler ctx) fun _ => True := by
  cases op with
  | create dir nm mode flags => exact pins_opCreate envDir bounded ctx spares mode flags
  | symlink target dir nm => exact pins_opSymlink envDir bounded ctx spares target
  | mkdir dir nm => exact pins_opMkdir envDir bounded ctx spares
  | rmdir dir nm =>
      refine preserves_bind (pins_checkPerms _ _ _) fun rc _ => ?_
      refine preserves_ite (preserves_pure trivial) ?_
      exact preserves_bind (pins_doRmdir envDir bounded proper named spares _) fun _ _ =>
        preserves_pure trivial
  | unlink dir nm =>
      refine preserves_bind (pins_checkPerms _ _ _) fun rc _ => ?_
      refine preserves_ite (preserves_pure trivial) ?_
      exact preserves_bind (pins_doUnlink envDir bounded spares _) fun _ _ => preserves_pure trivial
  | link ino dir nm => exact pins_opLink envDir bounded ctx spares
  | rename dir nm newparent newname =>
      refine preserves_bind (pins_checkPerms _ _ _) fun first _ => ?_
      refine preserves_bind (pins_checkPerms _ _ _) fun second _ => ?_
      refine preserves_ite (preserves_pure trivial) ?_
      exact preserves_bind (pins_doRename envDir bounded spares.1 spares.2 proper named _
        (EXT2FS_INO_idem newparent)) fun _ _ => preserves_pure trivial

end Requests

section Creating

/-- Runs with careful calls only. -/
abbrev Makes (env : Env (List Block)) (super : Super) {α : Type} (pre : Fs (List Block) → Prop)
    (program : Prog (List Block) α) (post : α → Fs (List Block) → Prop) : Prop :=
  Secures (lib env) (Careful super.blocksize) pre program post

/-- The name stands for the number that was reported. -/
def StandsFor (super : Super) (parent : Nat) (name : Name) (reported : Option Nat)
    (fs : Fs (List Block)) : Prop :=
  ∃ ino, reported = some ino ∧ Numbered super ino ∧ Pinned super parent name (some ino) fs

/-- ext2fs_link enters the missing name when it succeeds, and nothing else. -/
theorem makes_link (flags : Nat) (numbered : Numbered super ino) :
    Makes env super (Pinned super parent name none) (lift (.link parent name ino flags))
      fun rc => Pinned super parent name (if rc = 0 then some ino else none) :=
  fun _ pinned meets => pinned.link_new envDir bounded meets.1 numbered

/-- do_link enters the missing name when it succeeds, in the old blocks or in a new one. -/
theorem makes_doLink (flags : Nat) (numbered : Numbered super ino) :
    Makes env super (Pinned super parent name none) (doLink parent name ino flags)
      fun rc => Pinned super parent name (if rc = 0 then some ino else none) := by
  have failed : ∀ rc : Errcode, rc ≠ 0 →
    (if (if rc ≠ 0 then EIO else 0) = 0 then some ino else none) = none := by
    intro rc nonzero
    rw [if_pos nonzero]
    rfl
  have last : ∀ rc, Makes env super (Pinned super parent name (if rc = 0 then some ino else none))
      (return if rc ≠ 0 then EIO else 0)
      fun rc => Pinned super parent name (if rc = 0 then some ino else none) := by
    intro rc
    refine secures_pure fun fs pinned => ?_
    by_cases linked : rc = 0
    · simpa [linked] using pinned
    · rw [failed rc linked]
      simpa [linked] using pinned
  refine secures_bind (makes_link envDir bounded flags numbered) fun rc => ?_
  refine secures_ite (fun full => ?_) fun _ => last rc
  have nothing : (if rc = 0 then some ino else none) = none := by
    rw [full]
    rfl
  rw [nothing]
  refine secures_after (pins_expandDir envDir bounded parent) fun rc _ => ?_
  refine secures_ite (fun _ => secures_pure fun fs pinned => pinned) fun _ => ?_
  exact secures_bind (makes_link envDir bounded flags numbered) last

/-- What the creating routines have done when they return. -/
def MadeFact (super : Super) (parent : Nat) (name : Name) :
    Except Errcode (Nat × Inode) → Fs (List Block) → Prop
  | .ok made, fs => made.1 ≠ parent ∧ StandsFor super parent name (some made.1) fs
  | .error rc, _ => rc ≠ 0

/-- do_create enters the missing name for the inode it took. -/
theorem makes_doCreate (perms : Perms) (mode filetype : Nat) :
    Makes env super (Pinned super parent name none) (doCreate perms parent name mode filetype)
      (MadeFact super parent name) := by
  have failed : ∀ rc : Errcode, rc ≠ 0 → Makes env super (Pinned super parent name none)
      (return .error rc) (MadeFact super parent name) :=
    fun rc nonzero => secures_pure fun _ _ => nonzero
  refine secures_after (pins_readInode parent) fun result _ => ?_
  cases result with
  | error rc => exact failed EIO (by decide)
  | ok parentInode =>
      refine secures_ite (fun _ => failed EACCES (by decide)) fun _ => ?_
      refine secures_after (pins_newInode parent) fun result fresh => ?_
      cases result with
      | error rc => exact failed ENOSPC (by decide)
      | ok ino =>
          have apart : ino ≠ parent := fresh
          refine secures_after pins_time fun now _ => ?_
          refine secures_after (pins_writeNewInode apart) fun rc numbered => ?_
          refine secures_ite (fun _ => failed EIO (by decide)) fun wrote => ?_
          refine secures_after (pins_inodeAllocStats2 fun _ => rfl) fun _ _ => ?_
          have isNumbered := numbered (not_not.mp wrote)
          refine secures_bind (makes_doLink envDir bounded filetype isNumbered) fun rc => ?_
          refine secures_ite (fun denied => secures_pure fun _ _ => denied) fun linked => ?_
          rw [if_pos (not_not.mp linked)]
          exact secures_pure fun _ pinned => ⟨apart, ino, rfl, isNumbered, pinned⟩

/-- The number a reply carries. -/
def Reply.reported : Reply → Option Nat
  | .entry ino _ _ => some ino
  | .create ino _ _ _ => some ino
  | _ => none

/-- If the request succeeds, the name stands for the number it reports. -/
def Succeeded (super : Super) (parent : Nat) (name : Name) (replies : List Reply)
    (fs : Fs (List Block)) : Prop :=
  replies.all Reply.ok = true → StandsFor super parent name (replies.head?.bind Reply.reported) fs

omit envDir bounded in
/-- A reply with an error is no success. -/
theorem makes_err {pre : Fs (List Block) → Prop} {rc : Errcode} (nonzero : ∀ fs, pre fs → rc ≠ 0) :
    Makes env super pre (return [.err rc]) (Succeeded super parent name) := by
  refine secures_pure fun fs holds succeeded => ?_
  simp [Reply.ok, nonzero fs holds] at succeeded

/-- Create, then go on with a routine that leaves names alone. -/
theorem makes_creating {ctx : FuseCtx} {mode filetype : Nat}
    {rest : Nat → Inode → Prog (List Block) (List Reply)}
    (keeps : ∀ ino inode, ino ≠ parent → Pins env super parent name (some ino) (rest ino inode)
      fun replies => replies.all Reply.ok = true → replies.head?.bind Reply.reported = some ino) :
    Makes env super (Pinned super parent name none) (do
      match ← doCreate (some ctx) parent name mode filetype with
      | .error rc => return [.err rc]
      | .ok (ino, inode) => rest ino inode) (Succeeded super parent name) := by
  refine secures_bind (makes_doCreate envDir bounded (some ctx) mode filetype) fun result => ?_
  rcases result with rc | ⟨ino, inode⟩
  · exact makes_err fun _ nonzero => nonzero
  · rintro fs ⟨apart, _, same, numbered, pinned⟩ meets
    cases same
    have later := keeps ino inode apart fs pinned meets
    exact fun succeeded => ⟨ino, later.2 succeeded, numbered, later.1⟩

/-- op_create enters the missing name when it replies with an entry. -/
theorem makes_opCreate (ctx : FuseCtx) (mode : Nat) (flags : OpenFlags)
    (here : EXT2FS_INO dir = parent) :
    Makes env super (Pinned super parent name none) (opCreate ctx dir name mode flags)
      (Succeeded super parent name) := by
  subst here
  refine makes_creating envDir bounded fun ino inode apart => ?_
  refine (pins_createRest apart inode _).mono fun replies reported succeeded => ?_
  obtain ⟨generation, stat, efile, rfl⟩ := reported succeeded
  rfl

/-- op_symlink enters the missing name when it replies with an entry. -/
theorem makes_opSymlink (ctx : FuseCtx) (link : Name) (here : EXT2FS_INO dir = parent) :
    Makes env super (Pinned super parent name none) (opSymlink ctx link dir name)
      (Succeeded super parent name) := by
  subst here
  refine makes_creating envDir bounded fun ino inode apart => ?_
  refine (pins_symlinkRest apart link inode).mono fun replies reported succeeded => ?_
  obtain ⟨generation, stat, rfl⟩ := reported succeeded
  rfl

/-- op_link enters the missing name when it replies with an entry. -/
theorem makes_opLink (ctx : FuseCtx) (here : EXT2FS_INO dir = parent) :
    Makes env super (Pinned super parent name none) (opLink ctx ino dir name)
      (Succeeded super parent name) := by
  subst here
  refine secures_after (pins_checkPerms _ _ _) fun rc _ => ?_
  refine secures_ite (fun denied => makes_err fun _ _ => denied) fun _ => ?_
  refine secures_after (pins_readInode _) fun read facts => ?_
  cases read with
  | error rc => exact makes_err fun _ _ => by decide
  | ok inode =>
      obtain ⟨numbered, isDir⟩ := facts inode rfl
      refine secures_after (pins_writeInode fun same => ?_) fun rc _ => ?_
      · rw [raiseLinks_mode]
        exact isDir same
      refine secures_ite (fun _ => makes_err fun _ _ => by decide) fun _ => ?_
      refine secures_bind (makes_doLink envDir bounded _ numbered) fun ret => ?_
      refine secures_ite (fun failed => ?_) fun linked => ?_
      · rw [if_neg failed]
        refine secures_after (pins_writeInode fun same => ?_) fun rc _ => ?_
        · rw [lowerLinks_mode, raiseLinks_mode]
          exact isDir same
        · exact secures_ite (fun _ => makes_err fun _ _ => by decide) fun _ =>
          makes_err fun _ _ => by decide
      · rw [if_pos (not_not.mp linked)]
        refine secures_after pins_super fun _ _ => secures_pure fun fs pinned _ => ?_
        exact ⟨_, rfl, numbered, pinned⟩

omit bounded in
/-- What `ext2fs_lookup` finds. -/
theorem lookup_pinned {fs : Fs (List Block)} (pinned : Pinned super parent name number fs) :
    fs.ext2fsLookup env parent name = number.elim (.error EXT2_ET_FILE_NOT_FOUND) .ok := by
  have isDirectory : fs.ext2fsCheckDirectory parent = 0 := by
    simp [ext2fsCheckDirectory, ext2fsReadInode, pinned.valid, pinned.isDir]
  rw [ext2fsLookup, if_pos isDirectory, envDir, (pinned.wellFormed parent).lookup_eq name,
    ← pinned.number_eq]
  cases (liveEntries super.blocksize (fs.dirs parent)).find? fun entry => entry.name == name with
  | none => rfl
  | some entry => rfl

omit bounded in
/-- ext2fs_lookup of the name gives the number that it stands for. -/
theorem pins_lookup_here : Pins env super parent name number (lift (.lookup parent name))
    fun result => result = number.elim (.error EXT2_ET_FILE_NOT_FOUND) .ok :=
  pins_look (fun _ => rfl) fun _ pinned => lookup_pinned envDir pinned

omit bounded in
/-- ext2fs_namei of the name gives the number that it stands for. -/
theorem pins_namei_here : Pins env super parent name number (lift (.namei parent name))
    fun result => result = number.elim (.error EXT2_ET_FILE_NOT_FOUND) .ok :=
  pins_look (fun _ => rfl) fun _ pinned => lookup_pinned envDir pinned

/-- What a turn of the `mkdir` loop has done: it made the entry, or the name still stands for
nothing. -/
def TurnFact (super : Super) (parent : Nat) (name : Name) (rc : Errcode)
    (fs : Fs (List Block)) : Prop :=
  (rc ≠ 0 ∧ Pinned super parent name none fs) ∨
    (rc = 0 ∧ ∃ ino, Numbered super ino ∧ Pinned super parent name (some ino) fs)

/-- A turn enters the missing name when it succeeds. -/
theorem makes_newExt2fsMkdir (perms : Perms) :
    Makes env super (Pinned super parent name none) (newExt2fsMkdir perms parent name)
      (TurnFact super parent name) := by
  have failed : ∀ rc : Errcode, rc ≠ 0 → Makes env super (Pinned super parent name none) (return rc)
      (TurnFact super parent name) :=
    fun rc nonzero => secures_pure fun _ pinned => .inl ⟨nonzero, pinned⟩
  refine secures_after (pins_newInode parent) fun result fresh => ?_
  cases result with
  | error rc => exact failed rc fresh
  | ok ino =>
  have apart : ino ≠ parent := fresh
  refine secures_after (pins_newBlock 0) fun result nonzero => ?_
  cases result with
  | error rc => exact failed rc (nonzero rc rfl)
  | ok blk =>
  refine secures_after (pins_newDirBlock envDir bounded ino parent) ?_
  rintro _ ⟨block, rfl, wellFormed⟩
  refine secures_after (pins_readInodeOr parent) fun read isDir => ?_
  refine secures_ite (fun _ => failed EACCES (by decide)) fun _ => ?_
  refine secures_after pins_super fun _ _ => ?_
  refine secures_after pins_time fun now _ => ?_
  refine secures_after (pins_blockAllocStats blk true) fun _ _ => ?_
  refine secures_after (pins_inodeAllocStats2 fun _ => rfl) fun _ _ => ?_
  refine secures_after (pins_writeDirBlock blk apart wellFormed) fun rc _ => ?_
  refine secures_ite (failed rc) fun _ => ?_
  refine secures_after (pins_writeNewInode apart) fun rc numbered => ?_
  refine secures_ite (failed rc) fun wrote => ?_
  refine secures_after (pins_lookup_here envDir) fun result absent => ?_
  subst absent
  refine secures_ite (fun other => absurd rfl other) fun _ => ?_
  have isNumbered := numbered (not_not.mp wrote)
  refine secures_bind (makes_link envDir bounded EXT2_FT_DIR isNumbered) fun rc => ?_
  refine secures_ite (fun full => ?_) fun linked => ?_
  · rw [if_neg full]
    exact failed rc full
  · rw [if_pos (not_not.mp linked)]
    intro fs pinned _
    refine .inr ⟨?_, ino, isNumbered, ?_⟩
    · change (fs.ext2fsWriteInode parent _).1 = 0
      rw [ext2fsWriteInode, if_pos pinned.valid]
    · refine pinned.writeInode fun _ => ?_
      rw [raiseLinks_mode]
      exact isDir rfl

/-- The loop enters the missing name in its last turn. -/
theorem makes_mkdirLoop (perms : Perms) (bound : Nat) :
    Makes env super (Pinned super parent name none) (mkdirLoop perms parent name bound)
      (TurnFact super parent name) := by
  have failed : Makes env super (Pinned super parent name none) (return ENOSPC)
      (TurnFact super parent name) :=
    secures_pure fun _ pinned => .inl ⟨by decide, pinned⟩
  induction bound with
  | zero => exact secures_pure fun _ pinned => .inl ⟨by decide, pinned⟩
  | succ bound inductionHypothesis =>
      refine secures_bind (makes_newExt2fsMkdir envDir bounded perms) fun rc => ?_
      refine secures_ite ?_ fun _ => secures_pure fun _ turn => turn
      rintro rfl fs (⟨-, pinned⟩ | ⟨made, -⟩) meets
      · refine secures_after (pins_expandDir envDir bounded parent) (fun rc _ => ?_) fs pinned meets
        exact secures_ite (fun _ => failed) fun _ => inductionHypothesis
      · cases made

/-- The loop of `do_mkdir` comes to its end, so that there is a reply. -/
theorem makes_opMkdir (ctx : FuseCtx) (here : EXT2FS_INO dir = parent) :
    Makes env super (Pinned super parent name none) (opMkdir ctx dir name)
      (Succeeded super parent name) := by
  suffices replies : Makes env super (Pinned super parent name none) (opMkdir ctx dir name)
      fun replies fs => Once replies → Succeeded super parent name replies fs from
    fun fs pinned meets => replies fs pinned meets (@once_opMkdir _ env _ _ _ _)
  subst here
  have made : Makes env super (Pinned super (EXT2FS_INO dir) name none)
      (doMkdir (some ctx) (EXT2FS_INO dir) name) fun result fs =>
        (∀ rc, result = .error rc → rc ≠ 0) ∧
          ∀ ino, result = .ok ino → Numbered super ino ∧
            Pinned super (EXT2FS_INO dir) name (some ino) fs := by
    refine secures_after pins_super fun found _ => ?_
    refine secures_bind (makes_mkdirLoop envDir bounded _ _) fun rc => ?_
    refine secures_ite (fun nonzero => secures_pure fun _ _ => ⟨?_, by rintro _ ⟨⟩⟩) ?_
    · rintro _ ⟨⟩
      exact nonzero
    rintro zero fs (⟨nonzero, -⟩ | ⟨-, ino, numbered, pinned⟩) meets
    · exact absurd nonzero zero
    · refine secures_after (pins_lookup_here envDir) (fun result found => ?_) fs pinned meets
      subst found
      refine secures_pure fun _ pinned => ⟨by rintro _ ⟨⟩, ?_⟩
      rintro _ ⟨⟩
      exact ⟨numbered, pinned⟩
  refine secures_bind made fun result => ?_
  cases result with
  | error rc =>
      refine secures_ite (fun _ => secures_pure fun _ _ none => by simp [Once] at none) fun _ => ?_
      exact (makes_err fun _ failed => failed.1 rc rfl).mono fun _ _ succeeded _ => succeeded
  | ok ino =>
      rintro fs ⟨-, succeeds⟩ meets
      obtain ⟨numbered, pinned⟩ := succeeds ino rfl
      refine secures_after (pins_readInode ino) (fun read _ => ?_) fs pinned meets
      cases read with
      | error rc => exact (makes_err fun _ _ => by decide).mono fun _ _ succeeded _ => succeeded
      | ok inode =>
          exact secures_after pins_super fun _ _ => secures_pure fun _ pinned _ _ =>
            ⟨ino, rfl, numbered, pinned⟩

section Rename

variable {nm : Name}

/-- The number is that of a file. -/
def IsFile (ino : Nat) (fs : Fs (List Block)) : Prop :=
  fs.validIno ino = true ∧ LINUX_S_ISDIR (fs.inodeTab ino).iMode = false

omit envDir bounded in
/-- Entering a name makes no directory of a file. -/
theorem isFile_doLink (env : Env (List Block)) (super : Super) (ino dir : Nat) (nm : Name)
    (target filetype : Nat) :
    Makes env super (IsFile ino) (doLink dir nm target filetype) fun _ => IsFile ino := by
  rintro fs ⟨valid, isFile⟩ -
  have later := later_doLink env fs dir nm target filetype ino
  refine ⟨?_, ?_⟩
  · rw [validIno_congr later.super]
    exact valid
  · rw [later.mode]
    exact isFile

omit bounded in
/-- The old name of a file that is there can be removed. -/
theorem makes_doUnlink : Makes env super
    (fun fs => Pinned super dir nm (some ino) fs ∧ IsFile ino fs) (doUnlink dir nm (-1))
      fun rc _ => rc = 0 := by
  rintro fs ⟨pinned, valid, isFile⟩ -
  have same : (fs.ext2fsUnlink env dir nm ino).2.super = fs.super := by
    rw [ext2fsUnlink]
    split <;> rfl
  have validLater : (fs.ext2fsUnlink env dir nm ino).2.validIno ino = true := by
    rw [validIno_congr same]
    exact valid
  rw [doUnlink, leads_bind, leads_lift, lib_namei, lookup_pinned envDir pinned]
  dsimp only [Option.elim]
  rw [doUnlinkOnIno, leads_bind, Leads, run_readInode valid]
  dsimp only
  rw [if_neg (by simp [isFile])]
  generalize (if (fs.inodeTab ino).iLinksCount > 0 then _ else fs.inodeTab ino) = lowered
  rw [leads_bind, leads_lift]
  change Leads (lib env) _ _ (fs.ext2fsUnlink env dir nm ino).2
  split
  · exact leads_bind_of fun _ _ _ => rfl
  · rw [leads_bind, Leads, run_writeInode validLater]
    rfl

/-- The file has its new name; the old one goes. -/
theorem makes_renameFileOld (inode : Inode) (apart : dir = parent → nm ≠ name) :
    Makes env super
      (fun fs => Pinned super parent name (some ino) fs ∧
        Pinned super dir nm (some ino) fs ∧ IsFile ino fs)
      (renameFileOld dir nm parent name ino inode)
      fun _ => Pinned super parent name (some ino) := by
  have unlinked : Makes env super (fun fs => Pinned super parent name (some ino) fs ∧
      Pinned super dir nm (some ino) fs ∧ IsFile ino fs) (doUnlink dir nm (-1))
      fun rc fs => rc = 0 ∧ Pinned super parent name (some ino) fs := by
    rintro fs ⟨pinned, old⟩ meets
    exact ⟨makes_doUnlink envDir fs old meets,
      (pins_doUnlink envDir bounded apart (-1) fs pinned meets).1⟩
  refine secures_bind unlinked fun ret => ?_
  refine secures_ite (fun failed => ?_) fun _ => secures_pure fun _ kept => kept.2
  rintro fs ⟨zero, -⟩
  exact absurd zero failed

/-- The directory has its new name; unless something fails, it keeps it. -/
theorem makes_renameDirOld {inode : Inode} (isDir : LINUX_S_ISDIR inode.iMode = true)
    (proper : ProperName name) (apart : dir = parent → nm ≠ name)
    (numbered : Numbered super (EXT2FS_INO parent)) :
    Makes env super (Pinned super parent name (some ino))
      (renameDirOld dir nm parent name ino inode)
      fun ret fs => ret = 0 → Pinned super parent name (some ino) fs := by
  have cleanup : ∀ ret, ret ≠ 0 → Makes env super (Pinned super parent name (some ino))
      (renameCleanup parent name ino inode ret)
      fun ret fs => ret = 0 → Pinned super parent name (some ino) fs := by
    intro ret nonzero fs _ _ zero
    have cleaned : Ends (fun rc => rc = ret)
        (renameCleanup parent name ino inode ret : Prog (List Block) Errcode) :=
      ends_renameCleanup isDir ret
    have same := cleaned.run (lib env) fs
    rw [zero] at same
    exact absurd same.symm nonzero
  refine secures_after (pins_doLink envDir bounded EXT2_FT_DIR numbered fun _ => proper.2.symm)
    fun ret _ => ?_
  refine secures_ite (cleanup ret) fun _ => ?_
  refine secures_after (pins_unlink envDir bounded dir fun _ => proper.2.symm) fun rc _ => ?_
  refine secures_ite (fun _ => cleanup EIO (by decide)) fun _ => ?_
  refine secures_after (pins_unlink envDir bounded 0 apart) fun rc _ => ?_
  refine secures_ite (fun _ => cleanup EIO (by decide)) fun _ => ?_
  refine secures_after (pins_ext2fsReadInode dir) fun read facts => ?_
  cases read with
  | error rc => exact secures_pure fun _ pinned _ => pinned
  | ok parentInode =>
      refine (pins_ext2fsWriteInode fun same => ?_).secures fun _ _ pinned _ _ => pinned
      rw [lowerLinks_mode]
      exact (facts parentInode rfl).2 same

omit bounded in
/-- Where the name stands for nothing there is nothing to clean up. -/
theorem makes_renameCleanup (inode : Inode) {ret : Errcode} (nonzero : ret ≠ 0) :
    Makes env super (Pinned super parent name none) (renameCleanup parent name ino inode ret)
      fun rc _ => rc ≠ 0 := by
  intro fs pinned _
  obtain ⟨large, -⟩ := blocksize_bounds super
  have absent := Option.map_eq_none_iff.mp pinned.number_eq
  have missing : lacks name ino (liveEntries super.blocksize (fs.dirs parent)) = true := by
    rw [lacks, List.all_eq_true]
    intro entry member
    have different : entry.name ≠ name := by simpa using List.find?_eq_none.mp absent entry member
    simp [Dirent.matchesEntry, different]
  have isDirectory : fs.ext2fsCheckDirectory parent = 0 := by
    simp [ext2fsCheckDirectory, ext2fsReadInode, pinned.valid, pinned.isDir]
  have unlinked : ((lib env).exec (.unlink parent name ino) fs).1 = EXT2_ET_DIR_NO_SPACE := by
    change (fs.ext2fsUnlink env parent name ino).1 = _
    rw [ext2fsUnlink, if_pos isDirectory, envDir,
      (pinned.wellFormed parent).unlink_missing (by omega) missing]
  rw [renameCleanup, leads_bind, leads_lift, unlinked]
  exact nonzero

omit envDir bounded in
/-- The count is raised first. Both names stand for what they did, and a file is still a file. -/
theorem makes_renameRaise {source : Option Nat} {inode : Inode}
    (facts : ReadFact super parent ino inode) (sourceFacts : ReadFact super dir ino inode) :
    Makes env super
      (fun fs => Pinned super parent name none fs ∧ Pinned super dir nm source fs)
      (renameRaise parent ino inode) fun result fs => ∃ raised, result = .ok raised ∧
        raised.iMode = inode.iMode ∧ Pinned super parent name none fs ∧
          Pinned super dir nm source fs ∧
        (LINUX_S_ISDIR inode.iMode = false → IsFile ino fs) := by
  rintro fs ⟨absent, present⟩ meets
  have kept := (pins_renameRaise inode facts.2 fs absent meets).1
  have sourceKept := (pins_renameRaise inode sourceFacts.2 fs present meets).1
  have valid : fs.validIno ino = true := by
    obtain ⟨notZero, bound⟩ := facts.1
    simp only [validIno, absent.super_eq, Bool.and_eq_true, decide_eq_true_eq]
    omega
  cases isDir : LINUX_S_ISDIR inode.iMode with
  | true =>
      refine ⟨inode, ?_, rfl, kept, sourceKept, by rintro ⟨⟩⟩
      rw [run_renameRaise isDir absent.valid]
  | false =>
      have raised : (renameRaise parent ino inode).run (lib env) fs =
        (.ok inode.raiseLinks, { fs with
          inodeTab := Function.update fs.inodeTab ino inode.raiseLinks }) := by
        rw [renameRaise, if_pos (by simp [isDir]), run_bind, run_writeInode valid]
        rfl
      refine ⟨inode.raiseLinks, ?_, raiseLinks_mode inode, kept, sourceKept, fun _ => ?_⟩
      · rw [raised]
      · rw [raised]
        refine ⟨valid, ?_⟩
        dsimp only
        rw [Function.update_self, raiseLinks_mode]
        exact isDir

/-- The new entry is made; the other name stands for what it did. -/
theorem makes_renameLink {source : Option Nat} {moves : Prop}
    (numbered : Numbered super ino) (flags : Nat) (apart : dir = parent → nm ≠ name) :
    Makes env super (fun fs => Pinned super parent name none fs ∧ Pinned super dir nm source fs ∧
        (moves → IsFile ino fs)) (doLink parent name ino flags) fun rc fs =>
        Pinned super parent name
          (if rc = 0 then some ino else none) fs ∧ Pinned super dir nm source fs ∧
          (moves → IsFile ino fs) := by
  rintro fs ⟨absent, present, isFile⟩ meets
  have other : parent = dir → name ≠ nm := fun same => (apart same.symm).symm
  exact ⟨makes_doLink envDir bounded flags numbered fs absent meets,
    (pins_doLink envDir bounded flags numbered other fs present meets).1,
    fun moves => isFile_doLink env super ino parent name ino flags fs (isFile moves) meets⟩

/-- From the new link on, for a name that was free. -/
theorem makes_rename_raised {inode : Inode} (perms : Perms) (proper : ProperName name)
    (apart : dir = parent → nm ≠ name) (numbered : Numbered super ino)
    (numberedNew : Numbered super (EXT2FS_INO parent)) :
    Makes env super
      (fun fs => Pinned super parent name none fs ∧ Pinned super dir nm (some ino) fs ∧
        (LINUX_S_ISDIR inode.iMode = false → IsFile ino fs)) (do
        let ret ← doLink parent name ino (ext2FileType inode.iMode)
        if ret ≠ 0 then renameCleanup parent name ino inode ret
        else renameLinked perms dir nm parent name ino 0 inode)
      fun ret fs => ret = 0 → Pinned super parent name (some ino) fs := by
  refine secures_bind (makes_renameLink envDir bounded numbered _ apart) fun ret => ?_
  refine secures_ite (fun failed => ?_) fun linked => ?_
  · rintro fs ⟨pinned, -⟩ meets
    rw [if_neg failed] at pinned
    exact (makes_renameCleanup envDir inode failed fs pinned meets).mono fun _ _ nonzero zero =>
      absurd zero nonzero
  · rw [if_pos (not_not.mp linked)]
    rintro fs ⟨pinned, present, isFile⟩ meets
    rw [renameLinked, if_neg (not_not.mpr rfl)] at meets ⊢
    by_cases isDir : LINUX_S_ISDIR inode.iMode = true
    · rw [if_pos isDir] at meets ⊢
      exact makes_renameDirOld envDir bounded isDir proper apart numberedNew fs pinned meets
    · rw [if_neg isDir] at meets ⊢
      exact (makes_renameFileOld envDir bounded inode apart fs
        ⟨pinned, present, isFile (Bool.eq_false_iff.mpr isDir)⟩ meets).mono
          fun _ _ pinned _ => pinned

/-- do_rename enters the missing name for the inode that the old one stood for. -/
theorem makes_doRename (perms : Perms) (proper : ProperName name) {source : Option Nat}
    (mapped : EXT2FS_INO parent = parent) :
    Makes env super
      (fun fs => Pinned super parent name none fs ∧ Pinned super dir nm source fs)
      (doRename perms dir nm parent name)
      fun ret fs => ret = 0 → StandsFor super parent name source fs := by
  have failed : ∀ {pre : Fs (List Block) → Prop} {rc : Errcode}, rc ≠ 0 →
      Makes env super pre (return rc) fun ret fs => ret = 0 →
        StandsFor super parent name source fs :=
    fun nonzero => secures_pure fun _ _ zero => absurd zero nonzero
  refine secures_after ((pins_namei dir nm).and (pins_namei_here envDir)) fun result found => ?_
  rw [found.2]
  cases source with
  | none => exact failed (by decide)
  | some ino =>
      refine secures_after ((pins_namei_here envDir).and (pins_namei parent name))
        fun target missing => ?_
      rw [missing.1]
      refine secures_after ((pins_readInode ino).and (pins_readInode ino)) fun read facts => ?_
      cases read with
      | error rc => exact failed (by decide)
      | ok inode =>
          rintro fs ⟨absent, present⟩ meets
          have apart : dir = parent → nm ≠ name := by
            rintro rfl rfl
            have same := absent.number_eq.symm.trans present.number_eq
            cases same
          have numberedNew : Numbered super (EXT2FS_INO parent) := by
            rw [mapped]
            exact absent.numbered absent.valid
          obtain ⟨numbered, -⟩ := facts.1 inode rfl
          refine secures_bind (makes_renameRaise (facts.1 inode rfl) (facts.2 inode rfl))
            (fun result => ?_)
            fs ⟨absent, present⟩ meets
          rintro fs ⟨raised, rfl, mode, absent, present, isFile⟩ meets
          rw [← mode] at isFile
          have moved := makes_rename_raised envDir bounded perms proper apart
            numbered numberedNew fs
            ⟨absent, present, isFile⟩ meets
          exact fun zero => ⟨ino, rfl, numbered, moved zero⟩

end Rename

/-- The request is to create the name in the directory. -/
def NameOp.Creates (parent : Nat) (name : Name) : NameOp → Prop
  | .create dir nm _ _ | .symlink _ dir nm | .mkdir dir nm | .link _ dir nm =>
      EXT2FS_INO dir = parent ∧ nm = name
  | .rename _ _ newparent newname => EXT2FS_INO newparent = parent ∧ newname = name
  | .rmdir _ _ | .unlink _ _ => False

/-- The directory an object is moved from is in use. -/
def NameOp.SourceUsed (fs : Fs (List Block)) : NameOp → Prop
  | .rename dir _ _ _ => fs.inodeMap (EXT2FS_INO dir) = true
  | _ => True

/-- The number of the object that gets the name: the reply carries it, except for a rename, where
it is the one the old name stands for. -/
def NameOp.object (env : Env (List Block)) (fs : Fs (List Block)) (replies : List Reply) :
    NameOp → Option Nat
  | .rename dir nm _ _ => (fs.ext2fsLookup env (EXT2FS_INO dir) nm).toOption
  | _ => replies.head?.bind Reply.reported

/-- op_rename enters the missing name when it replies success. -/
theorem makes_opRename (ctx : FuseCtx) (newparent : Nat) (here : EXT2FS_INO newparent = parent)
    (proper : ProperName name) {nm : Name} {source : Option Nat} :
    Makes env super
      (fun fs => Pinned super parent name none fs ∧ Pinned super (EXT2FS_INO dir) nm source fs)
      (opRename ctx dir nm newparent name)
      fun replies fs => replies.all Reply.ok = true → StandsFor super parent name source fs := by
  subst here
  refine secures_after ((pins_checkPerms _ _ _).and (pins_checkPerms _ _ _)) fun first _ => ?_
  refine secures_after ((pins_checkPerms _ _ _).and (pins_checkPerms _ _ _)) fun second _ => ?_
  refine secures_ite (fun denied => secures_pure fun fs _ succeeded => ?_) fun _ => ?_
  · simp [Reply.ok, denied] at succeeded
  · refine secures_bind (makes_doRename envDir bounded (some ctx) proper
      (EXT2FS_INO_idem newparent))
      fun ret => secures_pure fun fs moved succeeded => moved ?_
    simpa [Reply.ok] using succeeded

/-- What is created stands for the object. -/
theorem stands_of_creates {fs : Fs (List Block)} {ctx : FuseCtx} {op : NameOp}
    (start : Pinned super parent name none fs) (proper : ProperName name)
    (creates : op.Creates parent name) (used : op.SourceUsed fs)
    (careful : Meets (lib env) (Careful super.blocksize) (op.handler ctx) fs)
    (succeeded : (op.run env ctx fs).1.all Reply.ok = true) :
    StandsFor super parent name (op.object env fs (op.run env ctx fs).1) (op.run env ctx fs).2 := by
  cases op with
  | create dir nm mode flags =>
      obtain ⟨here, rfl⟩ := creates
      exact makes_opCreate envDir bounded ctx mode flags here fs start careful succeeded
  | symlink target dir nm =>
      obtain ⟨here, rfl⟩ := creates
      exact makes_opSymlink envDir bounded ctx target here fs start careful succeeded
  | mkdir dir nm =>
      obtain ⟨here, rfl⟩ := creates
      exact makes_opMkdir envDir bounded ctx here fs start careful succeeded
  | link ino dir nm =>
      obtain ⟨here, rfl⟩ := creates
      exact makes_opLink envDir bounded ctx here fs start careful succeeded
  | rmdir dir nm => exact creates.elim
  | unlink dir nm => exact creates.elim
  | rename dir nm newparent newname =>
      obtain ⟨here, rfl⟩ := creates
      change StandsFor super parent newname (fs.ext2fsLookup env (EXT2FS_INO dir) nm).toOption _
      cases found : fs.ext2fsLookup env (EXT2FS_INO dir) nm with
      | error rc =>
          have failed : (NameOp.rename dir nm newparent newname).run env ctx fs =
            ([.err ENOENT], fs) := by
            change (opRename ctx dir nm newparent newname).run (lib env) fs = _
            simp [opRename, checkPerms, doPermissionsChecks, doRename, getInoByName,
              lib_namei, found]
          rw [failed] at succeeded
          cases succeeded
      | ok ino =>
          obtain ⟨valid, isDir⟩ := lookup_isDir found
          obtain ⟨source, present⟩ : ∃ source, Pinned super (EXT2FS_INO dir) nm source fs :=
            ⟨_, start.super_eq, start.few, start.wellFormed, valid, isDir, used, rfl⟩
          have same := (lookup_pinned envDir present).symm.trans found
          cases source with
          | none => cases same
          | some number =>
              cases same
              exact makes_opRename envDir bounded ctx newparent here proper fs
                ⟨start, present⟩ careful
                succeeded

end Creating

end Directories

section Runs

/-- Between two requests on names: names, the inode bitmap and what is a directory stay. -/
structure NamesAlone (fs next : Fs (List Block)) : Prop where
  super : next.super = fs.super
  dirs : next.dirs = fs.dirs
  inodeMap : next.inodeMap = fs.inodeMap
  kinds : ∀ ino, LINUX_S_ISDIR (next.inodeTab ino).iMode = LINUX_S_ISDIR (fs.inodeTab ino).iMode

/-- Requests on other names, all of whose calls are careful, lead from one filesystem to another;
in between anything may happen that leaves names alone. -/
inductive Sparing (env : Env (List Block)) (super : Super) (parent : Nat) (name : Name)
    (start : Fs (List Block)) : Fs (List Block) → Prop
  | refl : Sparing env super parent name start start
  | other {fs next : Fs (List Block)} (runs : Sparing env super parent name start fs)
      (alone : NamesAlone fs next) : Sparing env super parent name start next
  | step {fs : Fs (List Block)} {ctx : FuseCtx} {op : NameOp}
      (runs : Sparing env super parent name start fs) (spares : op.Spares parent name)
      (careful : Meets (lib env) (Careful super.blocksize) (op.handler ctx) fs) :
      Sparing env super parent name start (op.run env ctx fs).2

variable {fs final : Fs (List Block)}

/-- A step that leaves the names alone leaves the entry. -/
theorem Pinned.alone (pinned : Pinned super parent name number fs) (alone : NamesAlone fs final) :
    Pinned super parent name number final where
  super_eq := alone.super.trans pinned.super_eq
  few := pinned.few
  wellFormed := by
    rw [alone.dirs]
    exact pinned.wellFormed
  valid := by
    rw [validIno_congr alone.super]
    exact pinned.valid
  isDir := by
    rw [alone.kinds]
    exact pinned.isDir
  used := by
    rw [alone.inodeMap]
    exact pinned.used
  number_eq := by
    rw [alone.dirs]
    exact pinned.number_eq

/-- Over a whole run on other names the name stands for what it stood for. -/
theorem pinned_of_sparing (envDir : env.dir = dirLib super.blocksize)
    (bounded : super.blocksize < 65536) (proper : ProperName name)
    (pinned : Pinned super parent name (some ino) fs)
    (runs : Sparing env super parent name fs final) :
    Pinned super parent name (some ino) final := by
  induction runs with
  | refl => exact pinned
  | other _ alone inductionHypothesis => exact inductionHypothesis.alone alone
  | @step _ ctx op _ spares careful inductionHypothesis =>
      exact (pins_handler envDir bounded proper
        (by simp) ctx spares _ inductionHypothesis careful).1

/-- `op_lookup` by root. -/
theorem opLookup_pinned (envDir : env.dir = dirLib super.blocksize) {gid : Nat}
    (notNull : ¬ nullName.isPrefixOf name = true) (here : EXT2FS_INO dir = parent)
    (pinned : Pinned super parent name (some ino) fs) (numbered : Numbered super ino) :
    ∃ generation stat, (opLookup ⟨0, gid⟩ dir name).run (lib env) fs =
      ([.entry ino generation stat], fs) := by
  subst here
  have found := lookup_pinned envDir pinned
  have valid : fs.validIno ino = true := by
    obtain ⟨notZero, bound⟩ := numbered
    simp only [validIno, pinned.super_eq, Bool.and_eq_true, decide_eq_true_eq]
    omega
  have passes : checkPermsInInode (some ⟨0, gid⟩) (fs.inodeTab (EXT2FS_INO dir)) X_OK = 0 := rfl
  rw [run_opLookup_found notNull found valid, if_pos passes]
  exact ⟨_, _, rfl⟩

/-- A complete listing shows the name. -/
theorem listing_pinned (envDir : env.dir = dirLib super.blocksize)
    (bounded : super.blocksize < 65536) {fuse : FuseDir}
    {parse : List UInt8 → List ((Name × Nat) × Nat)} (protocol : fuse.Protocol parse)
    (here : EXT2FS_INO dir = parent) (pinned : Pinned super parent name (some ino) fs)
    (sound : DirSound super dir fs) {ctx : FuseCtx} {sizes : Nat → Nat}
    (large : ∀ index, ∀ item ∈ listed super dir fs, fuse.direntSize item.1.length ≤ sizes index) :
    ∃ count, (listing fuse parse env ctx dir (fun _ => fs) sizes).reply count = [] ∧
      (name, ino) ∈ (listing fuse parse env ctx dir (fun _ => fs) sizes).received count := by
  subst here
  obtain ⟨count, ended, -, received⟩ :=
    (listing_serves_blocks envDir (by omega) protocol fun _ => sound).complete_of_constant
      (fun _ => rfl) large
  refine ⟨count, ended, ?_⟩
  rw [received]
  obtain ⟨entry, hit, same⟩ := Option.map_eq_some_iff.mp pinned.number_eq
  have named : entry.name = name := by simpa using List.find?_some hit
  refine List.mem_map.mpr ⟨entry, List.mem_of_find?_eq_some hit, ?_⟩
  rw [Dirent.listed, named, same]

/-- What is created can be looked up: after a request that creates the name succeeded, and any
run on other names, `op_lookup` by root replies the number of the object, and a complete listing
shows the name with it. The name does not begin with `(null)`, and no call of the requests is
one that damages the directory it is made on. -/
theorem created_name_found (envDir : env.dir = dirLib super.blocksize)
    (bounded : super.blocksize < 65536) {ctx : FuseCtx} {op : NameOp}
    (start : Pinned super (EXT2FS_INO dir) name none fs) (proper : ProperName name)
    (notNull : ¬ nullName.isPrefixOf name = true) (creates : op.Creates (EXT2FS_INO dir) name)
    (used : op.SourceUsed fs)
    (careful : Meets (lib env) (Careful super.blocksize) (op.handler ctx) fs)
    (succeeded : (op.run env ctx fs).1.all Reply.ok = true)
    (runs : Sparing env super (EXT2FS_INO dir) name (op.run env ctx fs).2 final) :
    ∃ ino, op.object env fs (op.run env ctx fs).1 = some ino ∧
      (∀ gid, ∃ generation stat, (opLookup ⟨0, gid⟩ dir name).run (lib env) final =
        ([.entry ino generation stat], final)) ∧
      ∀ (fuse : FuseDir) (parse : List UInt8 → List ((Name × Nat) × Nat)), fuse.Protocol parse →
        DirSound super dir final → ∀ (ctx : FuseCtx) (sizes : Nat → Nat),
        (∀ index, ∀ item ∈ listed super dir final, fuse.direntSize item.1.length ≤ sizes index) →
        ∃ count, (listing fuse parse env ctx dir (fun _ => final) sizes).reply count = [] ∧
          (name, ino) ∈ (listing fuse parse env ctx dir (fun _ => final) sizes).received count := by
  obtain ⟨ino, object, numbered, pinned⟩ :=
    stands_of_creates envDir bounded start proper creates used careful succeeded
  have later := pinned_of_sparing envDir bounded proper pinned runs
  refine ⟨ino, object, fun gid => opLookup_pinned envDir notNull rfl later numbered, ?_⟩
  intro fuse parse protocol sound ctx sizes large
  exact listing_pinned envDir bounded protocol rfl later sound large

/-- In the small file system a name that is not in the root is missing there. -/
theorem smallFs_pinned {absent : Name} (missing : ((liveEntries 1024 smallRoot).find?
    fun entry => entry.name == absent).map Dirent.inode = none) :
    Pinned smallSuper 2 absent none smallFs where
  super_eq := rfl
  few := by decide
  wellFormed _ := smallFs_sound.wellFormed
  valid := by decide
  isDir := by decide
  used := by decide
  number_eq := missing

/-- The file `c` is created in the root directory, then the file `d`. -/
theorem created_name_found_small :
    let made := (NameOp.create 1 [0x63] 0o644 {}).run smallEnv ⟨0, 0⟩ smallFs
    let final := ((NameOp.create 1 [0x64] 0o644 {}).run smallEnv ⟨0, 0⟩ made.2).2
    ∃ ino, made.1.head?.bind Reply.reported = some ino ∧
      ∀ gid, ∃ generation stat, (opLookup ⟨0, gid⟩ 1 [0x63]).run (lib smallEnv) final =
        ([.entry ino generation stat], final) := by
  intro made final
  have short : 1 ≤ 255 := by decide
  have careful : Meets (lib smallEnv) (Careful smallSuper.blocksize)
      ((NameOp.create 1 [0x63] 0o644 {}).handler ⟨0, 0⟩) smallFs :=
    ⟨trivial, trivial, trivial, trivial, trivial, short, trivial, trivial, trivial⟩
  have carefulNext : Meets (lib smallEnv) (Careful smallSuper.blocksize)
      ((NameOp.create 1 [0x64] 0o644 {}).handler ⟨0, 0⟩)
      ((NameOp.create 1 [0x63] 0o644 {}).run smallEnv ⟨0, 0⟩ smallFs).2 :=
    ⟨trivial, trivial, trivial, trivial, trivial, short, trivial, trivial, trivial⟩
  have runs : Sparing smallEnv smallSuper (EXT2FS_INO 1) [0x63] made.2 final :=
    .step .refl (fun _ => by decide) carefulNext
  have start : Pinned smallSuper (EXT2FS_INO 1) [0x63] none smallFs :=
    smallFs_pinned (by decide +kernel)
  have creates : (NameOp.create 1 [0x63] 0o644 {}).Creates (EXT2FS_INO 1) [0x63] := ⟨rfl, rfl⟩
  obtain ⟨ino, object, found, -⟩ := created_name_found rfl (by decide) start ⟨by decide, by decide⟩
    (by decide) creates trivial careful (by decide +kernel) runs
  exact ⟨ino, object, found⟩

/-- A file can be created under a name that begins with `(null)`, but nobody can look it up. -/
theorem created_null_not_found :
    let name := nullName ++ [0x78]
    let made := (NameOp.create 1 name 0o644 {}).run smallEnv ⟨0, 0⟩ smallFs
    Pinned smallSuper 2 name none smallFs ∧ name.length ≤ 255 ∧ made.1.all Reply.ok = true ∧
      (opLookup ⟨0, 0⟩ 1 name).run (lib smallEnv) made.2 = ([.err ENOENT], made.2) := by
  refine ⟨smallFs_pinned (by decide +kernel), by decide, by decide +kernel, ?_⟩
  exact run_opLookup_missing fun _ _ => .inl (by decide)

end Runs

end Ext2Fuse
