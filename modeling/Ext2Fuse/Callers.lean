import Ext2Fuse.LinkAttempt
import Ext2Fuse.Owners

/-!
# Callers

Two callers make the same request from the same state, with `do_permissions_checks` off. The
checks behind `check_perms` are skipped then; those that call `check_perms_in_inode`
directly are not, and they alone tell callers apart.
-/

namespace Ext2Fuse

open Lib Program Fs

/-- Attributes with the owner hidden, or as they are. -/
def Stat.anonymous (hidden : Bool) (stat : Stat) : Stat :=
  { stat with
    stUid := if hidden then 0 else stat.stUid
    stGid := if hidden then 0 else stat.stGid }

/-- A reply with the owner of a `hidden` inode left out. -/
def Reply.anonymous (hidden : Nat → Bool) : Reply → Reply
  | entry ino generation stat => entry ino generation (stat.anonymous (hidden ino))
  | create ino generation stat file =>
      create ino generation (stat.anonymous (hidden ino)) (file.anonymous (hidden ino))
  | reply => reply

variable {δ : Type}

/-- Two programs that reply alike from `fs` and leave the same behind, but for the owners
of inodes that are not in use in `fs`. -/
def Alike (env : Env δ) (fs : Fs δ) (first second : Prog δ (List Reply)) : Prop :=
  (first.run (lib env) fs).1.map (Reply.anonymous fun ino => !fs.inodeMap ino) =
      (second.run (lib env) fs).1.map (Reply.anonymous fun ino => !fs.inodeMap ino) ∧
    (first.run (lib env) fs).2.anonymous (fun ino => !fs.inodeMap ino) =
      (second.run (lib env) fs).2.anonymous (fun ino => !fs.inodeMap ino)

section Creating

variable {env : Env δ} {hidden : Nat → Bool} {fs : Fs δ} {ino : Nat}

/-- Two programs with one outcome are alike. -/
theorem Alike.of_eq {first second : Prog δ (List Reply)}
    (same : first.run (lib env) fs = second.run (lib env) fs) : Alike env fs first second := by
  rw [Alike, same]
  exact ⟨rfl, rfl⟩

/-- Two programs that mirror one and the same image are alike. -/
theorem Alike.of_mirrors {first second image : Prog δ (List Reply)}
    (one : Mirrors (lib env) (Fs.anonymous fun ino => !fs.inodeMap ino)
      (List.map (Reply.anonymous fun ino => !fs.inodeMap ino)) first image fs)
    (other : Mirrors (lib env) (Fs.anonymous fun ino => !fs.inodeMap ino)
      (List.map (Reply.anonymous fun ino => !fs.inodeMap ino)) second image fs) :
    Alike env fs first second :=
  one.congr other

/-- Opening an empty file gives handles that differ in the owner at most. -/
theorem mirrors_doOpen_empty (valid : fs.validIno ino = true)
    (empty : (fs.inodeTab ino).iSize = 0) (flags : OpenFlags) :
    Mirrors (lib env) (Fs.anonymous hidden) (Except.map (File.anonymous (hidden ino)))
      (doOpen none ino flags) (doOpen none ino flags) fs := by
  rw [Mirrors, run_doOpen_empty valid empty,
    run_doOpen_empty (show (fs.anonymous hidden).validIno ino = true from valid) empty]
  rfl

/-- The inode number that a request picks is not in use before. -/
theorem newInode_free {dir : Nat} (found : fs.ext2fsNewInode dir = .ok ino) :
    (!fs.inodeMap ino) = true := by
  simp only [ext2fsNewInode] at found
  split at found
  · rename_i hit
    cases found
    simpa using List.find?_some hit
  · cases found

/-- Where both callers pass the check of the parent, op_create treats them alike. -/
theorem opCreate_alike {ctx ctx' : FuseCtx} {parent : Nat}
    (passes : checkPermsInInode (some ctx) (fs.inodeTab (EXT2FS_INO parent)) W_OK = 0)
    (passes' : checkPermsInInode (some ctx') (fs.inodeTab (EXT2FS_INO parent)) W_OK = 0)
    (name : Name) (mode : Nat) (flags : OpenFlags) :
    Alike env fs (opCreate ctx parent name mode flags) (opCreate ctx' parent name mode flags) := by
  rw [opCreate, opCreate]
  refine .of_mirrors (mirrors_bind_self (mirrors_doCreate passes fun _ => newInode_free) ?_)
    (mirrors_bind_self (mirrors_doCreate passes' fun _ => newInode_free) ?_)
  all_goals
    intro result later outcome
    have created := (doCreate_created (regular_isFile mode)).outcome outcome
    rcases result with rc | ⟨ino, inode⟩
    · exact mirrors_pure rfl _
    · obtain ⟨valid, recorded, empty⟩ := created
      refine mirrors_bind (mirrors_doOpen_empty valid (by rw [recorded]; exact empty) _) ?_
      intro opened after _
      cases opened with
      | error rc => exact mirrors_pure rfl _
      | ok file => exact mirrors_call_bind rfl fun super _ _ => mirrors_pure rfl _

/-- Writing through a handle does not look at the owner of its inode. -/
theorem mirrors_fileWrite (file : File) (own : file.ino = ino) (data : List UInt8) :
    Mirrors (lib env) (Fs.anonymous hidden)
      (fun result : Errcode × Nat × File =>
        (result.1, result.2.1, result.2.2.anonymous (hidden ino)))
      (lift (.fileWrite file data)) (lift (.fileWrite (file.anonymous (hidden ino)) data)) fs := by
  subst own
  have wrote := fileWrite_anonymous hidden fs file data
  rcases outcome : fs.ext2fsFileWrite file data with ⟨rc, written, file', fs'⟩
  rw [outcome] at wrote
  rw [Mirrors, run_lift, run_lift, lib_fileWrite outcome, lib_fileWrite wrote]

/-- Nor does closing it. -/
theorem mirrors_doFileClose (file : File) (own : file.ino = ino) :
    Mirrors (lib env) (Fs.anonymous hidden) id (doFileClose file)
      (doFileClose (file.anonymous (hidden ino))) fs := by
  subst own
  have flushed := fileFlush_anonymous hidden fs file
  rcases outcome : fs.ext2fsFileFlush file with ⟨rc, file', fs'⟩
  rw [outcome] at flushed
  simp only [Mirrors, doFileClose, run_bind, run_lift, lib_fileFlush outcome, lib_fileFlush flushed,
    run_pure, id]

/-- Nor does storing a new size. -/
theorem mirrors_setFileSize (inode : Inode) (size : Nat) :
    Mirrors (lib env) (Fs.anonymous hidden)
      (fun result : Errcode × Inode => (result.1, result.2.anonymous (hidden ino)))
      (setFileSize ino inode size) (setFileSize ino (inode.anonymous (hidden ino)) size) fs := by
  refine mirrors_call_bind rfl fun now later _ => ?_
  exact mirrors_bind (mirrors_writeInode _) fun rc later _ => mirrors_pure rfl _

/-- Nor does the writing of data with all it brings about. -/
theorem mirrors_writeData (file : File) (own : file.ino = ino) (data : List UInt8) (off : Nat) :
    Mirrors (lib env) (Fs.anonymous hidden)
      (fun result : Errcode × Nat × File =>
        (result.1, result.2.1, result.2.2.anonymous (hidden ino)))
      (writeData file ino data off) (writeData (file.anonymous (hidden ino)) ino data off) fs := by
  refine mirrors_bind (mirrors_fileWrite { file with pos := off } own _) ?_
  rintro ⟨rc, bytes, file'⟩ later _
  dsimp only
  split
  · exact mirrors_pure rfl _
  · split
    · exact mirrors_pure rfl _
    · by_cases inside : off + data.length ≤ file'.inode.iSize
      · rw [if_pos inside, if_pos (show _ ≤ (file'.anonymous (hidden ino)).inode.iSize from inside)]
        exact mirrors_pure rfl _
      · rw [if_neg inside,
          if_neg (show ¬ _ ≤ (file'.anonymous (hidden ino)).inode.iSize from inside)]
        by_cases gap : off > file'.inode.iSize
        · rw [if_pos gap, if_pos (show _ > (file'.anonymous (hidden ino)).inode.iSize from gap)]
          exact mirrors_pure rfl _
        · rw [if_neg gap, if_neg (show ¬ _ > (file'.anonymous (hidden ino)).inode.iSize from gap)]
          exact mirrors_bind (mirrors_setFileSize _ _) fun result later _ => mirrors_pure rfl _

/-- Nor does do_write at the front of the file, as op_symlink calls it. -/
theorem mirrors_doWrite_front (file : File) (own : file.ino = ino) (data : List UInt8) :
    Mirrors (lib env) (Fs.anonymous hidden)
      (fun result : Errcode × Nat × File =>
        (result.1, result.2.1, result.2.2.anonymous (hidden ino)))
      (doWrite file ino data 0) (doWrite (file.anonymous (hidden ino)) ino data 0) fs := by
  rw [doWrite, doWrite, if_neg (Nat.not_lt_zero _), if_neg (Nat.not_lt_zero _)]
  exact mirrors_writeData file own data 0

/-- Where both callers pass the check of the parent, op_symlink treats them alike. -/
theorem opSymlink_alike {ctx ctx' : FuseCtx} {parent : Nat}
    (passes : checkPermsInInode (some ctx) (fs.inodeTab (EXT2FS_INO parent)) W_OK = 0)
    (passes' : checkPermsInInode (some ctx') (fs.inodeTab (EXT2FS_INO parent)) W_OK = 0)
    (target name : Name) :
    Alike env fs (opSymlink ctx target parent name) (opSymlink ctx' target parent name) := by
  have isFile : LINUX_S_ISDIR (LINUX_S_IFLNK ||| 0o777) = false := by decide
  have some : target ++ [0] ≠ [] :=
    List.append_ne_nil_of_right_ne_nil target (List.cons_ne_nil 0 [])
  rw [opSymlink, opSymlink]
  refine .of_mirrors (mirrors_bind_self (mirrors_doCreate passes fun _ => newInode_free) ?_)
    (mirrors_bind_self (mirrors_doCreate passes' fun _ => newInode_free) ?_)
  all_goals
    intro result later outcome
    have created := (doCreate_created isFile).outcome outcome
    rcases result with rc | ⟨ino, inode⟩
    · exact mirrors_pure rfl _
    obtain ⟨valid, recorded, empty⟩ := created
    rw [← recorded] at empty
    refine mirrors_bind (mirrors_doOpen_empty valid empty _) ?_
    intro opened after outcome
    rw [run_doOpen_empty valid empty] at outcome
    cases outcome
    refine mirrors_bind (mirrors_doWrite_front _ rfl _) ?_
    rintro ⟨rc, bytes, file⟩ written outcome
    have sized := (doWrite_hasSize ⟨valid, rfl, empty, empty⟩ some).outcome outcome
    dsimp only
    split
    · exact mirrors_pure rfl _
    rename_i succeeded
    refine mirrors_bind (mirrors_doFileClose file (sized (not_not.mp succeeded)).own) ?_
    intro rc closed _
    dsimp only [id]
    split
    · exact mirrors_pure rfl _
    refine mirrors_call_bind rfl fun super _ _ => ?_
    split
    · exact mirrors_pure rfl _
    · exact mirrors_pure rfl _

end Creating

section Mkdir

variable {env : Env δ} {hidden : Nat → Bool} {fs fs' fs'' : Fs δ} {parent : Nat} {name : Name}

/-- A state later in the run of a request that creates: what was in use still is, and the
rights on the parent are the same. -/
structure Later (fs : Fs δ) (parent : Nat) (fs' : Fs δ) : Prop where
  super : fs'.super = fs.super
  used : ∀ ino, fs.inodeMap ino = true → fs'.inodeMap ino = true
  mode : (fs'.inodeTab parent).iMode = (fs.inodeTab parent).iMode
  uid : (fs'.inodeTab parent).iUid = (fs.inodeTab parent).iUid
  gid : (fs'.inodeTab parent).iGid = (fs.inodeTab parent).iGid

/-- Every state is later than itself. -/
theorem Later.refl (fs : Fs δ) (parent : Nat) : Later fs parent fs :=
  ⟨rfl, fun _ used => used, rfl, rfl, rfl⟩

/-- What is later than a later state is later. -/
theorem Later.trans (first : Later fs parent fs') (second : Later fs' parent fs'') :
    Later fs parent fs'' where
  super := second.super.trans first.super
  used ino used := second.used ino (first.used ino used)
  mode := second.mode.trans first.mode
  uid := second.uid.trans first.uid
  gid := second.gid.trans first.gid

/-- A state with the same inodes whose parent was resized at most is later. -/
theorem Later.of_resizes (same : fs.SameInodes fs') (resizes : Resizes parent fs fs') :
    Later fs parent fs' where
  super := same.1
  used ino used := by rw [same.2]; exact used
  mode := resizes.kept .mode rfl nofun
  uid := resizes.kept .uid rfl nofun
  gid := resizes.kept .gid rfl nofun

/-- The check looks at the mode and the owner of the inode only. -/
theorem checkPermsInInode_congr {inode inode' : Inode} (mode : inode'.iMode = inode.iMode)
    (uid : inode'.iUid = inode.iUid) (gid : inode'.iGid = inode.iGid) (perms : Perms)
    (requested : Nat) :
    checkPermsInInode perms inode' requested = checkPermsInInode perms inode requested := by
  unfold checkPermsInInode
  rw [mode, uid, gid]

/-- The check on the parent answers as before. -/
theorem Later.check (later : Later fs parent fs') (perms : Perms) (requested : Nat) :
    checkPermsInInode perms ((fs'.ext2fsReadInode parent).toOption.getD {}) requested =
      checkPermsInInode perms ((fs.ext2fsReadInode parent).toOption.getD {}) requested := by
  rw [ext2fsReadInode, ext2fsReadInode, validIno_congr later.super]
  split
  · exact checkPermsInInode_congr later.mode later.uid later.gid perms requested
  · rfl

/-- Entering a name leads to a later state. -/
theorem later_link (target flags : Nat) :
    Later fs parent ((lib env).exec (.link parent name target flags) fs).2 :=
  .of_resizes (sameInodes_link fs parent name target flags)
    (ext2fsLink_enters fs parent name target flags parent).resizes

/-- Giving the directory another block leads to a later state. -/
theorem later_expandDir : Later fs parent ((lib env).exec (.expandDir parent) fs).2 :=
  .of_resizes (sameInodes_expandDir fs parent) (ext2fsExpandDir_enters fs parent parent).resizes

/-- Writing another inode, or the parent with the rights it has. -/
theorem later_writeInode {ino : Nat} {inode : Inode}
    (same : ino = parent → inode.iMode = (fs.inodeTab parent).iMode ∧
      inode.iUid = (fs.inodeTab parent).iUid ∧ inode.iGid = (fs.inodeTab parent).iGid) :
    Later fs parent (fs.ext2fsWriteInode ino inode).2 := by
  rw [ext2fsWriteInode]
  split
  · by_cases here : ino = parent
    · obtain ⟨mode, uid, gid⟩ := same here
      subst here
      exact ⟨rfl, fun _ used => used, by simpa using mode, by simpa using uid, by simpa using gid⟩
    · have apart : Function.update fs.inodeTab ino inode parent = fs.inodeTab parent :=
        Function.update_of_ne (Ne.symm here) _ _
      exact ⟨rfl, fun _ used => used, congrArg Inode.iMode apart, congrArg Inode.iUid apart,
        congrArg Inode.iGid apart⟩
  · exact .refl fs parent

/-- Taking an inode leads to a later state. -/
theorem later_inodeAllocStats2 (ino : Nat) (isdir : Bool) :
    Later fs parent (fs.ext2fsInodeAllocStats2 ino true isdir) := by
  refine ⟨rfl, fun other used => ?_, rfl, rfl, rfl⟩
  simp only [ext2fsInodeAllocStats2]
  split
  · by_cases same : other = ino
    · simp [same]
    · simpa [same] using used
  · exact used

/-- A turn of the loop of `do_mkdir` leaves the rights on the parent alone, and takes no
inode that is in use. -/
theorem newExt2fsMkdir_later (perms : Perms) (inUse : fs.inodeMap parent = true) :
    Leads (lib env) (newExt2fsMkdir perms parent name) (fun _ fs' => Later fs parent fs') fs := by
  unfold newExt2fsMkdir
  refine leads_lift_bind fun found _ outcome => ?_
  obtain ⟨rfl, rfl⟩ := Prod.mk.inj outcome
  split
  · exact Later.refl fs parent
  rename_i ino found
  have apart : ino ≠ parent := by
    rintro rfl
    have free := newInode_free found
    rw [inUse] at free
    cases free
  refine leads_lift_bind fun found _ outcome => ?_
  obtain ⟨rfl, rfl⟩ := Prod.mk.inj outcome
  split
  · exact Later.refl fs parent
  refine leads_lift_bind fun block _ outcome => ?_
  obtain ⟨rfl, rfl⟩ := Prod.mk.inj outcome
  refine leads_lift_bind fun read _ outcome => ?_
  obtain ⟨rfl, rfl⟩ := Prod.mk.inj outcome
  dsimp only
  split
  · exact Later.refl fs parent
  have keeps : ∀ program : Prog δ Errcode, Keeps (lib env) (Later fs parent) program →
      Leads (lib env) program (fun _ fs' => Later fs parent fs') fs :=
    fun program kept => kept fs (Later.refl fs parent)
  have call : ∀ {α : Type} {operation : LibCall δ α},
      (∀ state : Fs δ, Later state parent ((lib env).exec operation state).2) →
        Keeps (lib env) (Later fs parent) (lift operation) :=
    fun later => keeps_lift fun state sofar => sofar.trans (later state)
  refine keeps _ (keeps_bind (call fun state => .refl state parent) fun super => ?_)
  refine keeps_bind (call fun state => ⟨rfl, fun _ used => used, rfl, rfl, rfl⟩) fun now => ?_
  refine keeps_bind (call fun state => ⟨rfl, fun _ used => used, rfl, rfl, rfl⟩) fun _ => ?_
  refine keeps_bind (call fun state => later_inodeAllocStats2 ino true) fun _ => ?_
  refine keeps_bind (call fun state => ⟨rfl, fun _ used => used, rfl, rfl, rfl⟩) fun rc => ?_
  split
  · exact keeps_pure _
  refine keeps_bind (call fun state => later_writeInode fun here => absurd here apart) fun rc => ?_
  split
  · exact keeps_pure _
  refine keeps_bind (call fun state => .refl state parent) fun present => ?_
  split
  · exact keeps_pure _
  split
  · exact keeps_pure _
  refine keeps_bind (call fun state => later_link ino EXT2_FT_DIR) fun rc => ?_
  split
  · exact keeps_pure _
  refine keeps_lift fun state sofar => sofar.trans ?_
  change Later state parent (state.ext2fsWriteInode parent _).2
  by_cases valid : fs.validIno parent = true
  · refine later_writeInode fun _ => ?_
    rw [ext2fsReadInode, if_pos valid]
    exact ⟨sofar.mode.symm, sofar.uid.symm, sofar.gid.symm⟩
  · rw [ext2fsWriteInode, if_neg (by rw [validIno_congr sofar.super]; exact valid)]
    exact .refl state parent

/-- A caller that passes the check makes the directory as a caller without checks does. -/
theorem mirrors_newExt2fsMkdir {ctx : FuseCtx}
    (passes : checkPermsInInode (some ctx) ((fs.ext2fsReadInode parent).toOption.getD {}) W_OK = 0)
    (shown : hidden parent = false)
    (new : ∀ ino, fs.ext2fsNewInode parent = .ok ino → hidden ino = true) :
    Mirrors (lib env) (Fs.anonymous hidden) id (newExt2fsMkdir (some ctx) parent name)
      (newExt2fsMkdir none parent name) fs := by
  have whole : ∀ inode : Inode, inode.anonymous (hidden parent) = inode := by
    intro inode
    rw [shown]
    rfl
  have read : (fs.anonymous hidden).ext2fsReadInode parent = fs.ext2fsReadInode parent := by
    rw [readInode_anonymous]
    cases fs.ext2fsReadInode parent with
    | error rc => rfl
    | ok inode => exact congrArg Except.ok (whole inode)
  unfold newExt2fsMkdir
  refine mirrors_call_bind rfl fun found _ outcome => ?_
  obtain ⟨rfl, rfl⟩ := Prod.mk.inj outcome
  rcases picked : fs.ext2fsNewInode parent with rc | ino
  · exact mirrors_pure rfl _
  refine mirrors_call_bind rfl fun found _ outcome => ?_
  obtain ⟨rfl, rfl⟩ := Prod.mk.inj outcome
  dsimp only
  split
  · exact mirrors_pure rfl _
  rename_i blk _
  refine mirrors_call_bind rfl fun block _ outcome => ?_
  obtain ⟨rfl, rfl⟩ := Prod.mk.inj outcome
  refine mirrors_call_bind (congrArg (·, fs.anonymous hidden) read) fun read _ outcome => ?_
  obtain ⟨rfl, rfl⟩ := Prod.mk.inj outcome
  rw [if_neg (show ¬ checkPermsInInode (some ctx) _ 2 ≠ 0 from not_not.mpr passes),
    if_neg (not_not.mpr (checkPermsInInode_none _ _))]
  refine mirrors_call_bind rfl fun super _ outcome => ?_
  refine mirrors_call_bind rfl fun now timed _ => ?_
  refine mirrors_call_bind rfl fun _ marked _ => ?_
  refine mirrors_call_bind rfl fun _ taken _ => ?_
  refine mirrors_call_bind rfl fun rc filled _ => ?_
  split
  · exact mirrors_pure rfl _
  have owner : ({ setPerms (some ctx) {} with
      iMode := LINUX_S_IFDIR ||| 0o755
      iBlocks := super.blocksize / 512
      iBlock := Function.update (fun _ => 0) 0 blk
      iLinksCount := 2
      iCtime := now, iAtime := now, iMtime := now
      iSize := super.blocksize } : Inode).anonymous (hidden ino) = { setPerms none {} with
      iMode := LINUX_S_IFDIR ||| 0o755
      iBlocks := super.blocksize / 512
      iBlock := Function.update (fun _ => 0) 0 blk
      iLinksCount := 2
      iCtime := now, iAtime := now, iMtime := now
      iSize := super.blocksize } := by
    rw [new ino picked]
    rfl
  rw [← owner]
  refine mirrors_bind (mirrors_writeNewInode _) fun rc written _ => ?_
  dsimp only [id]
  split
  · exact mirrors_pure rfl _
  refine mirrors_bind (mirrors_lookup parent name) fun present later _ => ?_
  dsimp only [id]
  split
  · exact mirrors_pure rfl _
  split
  · exact mirrors_pure rfl _
  refine mirrors_bind (mirrors_link parent name ino EXT2_FT_DIR) fun rc linked _ => ?_
  dsimp only [id]
  split
  · exact mirrors_pure rfl _
  have written : Mirrors (lib env) (Fs.anonymous hidden) id (lift (.writeInode parent _))
      (lift (.writeInode parent _)) linked :=
    mirrors_writeInode ((fs.ext2fsReadInode parent).toOption.getD {}).raiseLinks
  rw [whole] at written
  exact written

/-- So does the loop around it, whose later turns still find the parent's rights. -/
theorem mirrors_mkdirLoop {ctx : FuseCtx} (inUse : fs.inodeMap parent = true)
    (passes : checkPermsInInode (some ctx) ((fs.ext2fsReadInode parent).toOption.getD {}) W_OK = 0)
    (bound : Nat) (later : Later fs parent fs') :
    Mirrors (lib env) (Fs.anonymous fun ino => !fs.inodeMap ino) id
      (mkdirLoop (some ctx) parent name bound) (mkdirLoop none parent name bound) fs' := by
  induction bound generalizing fs' with
  | zero => exact mirrors_pure rfl _
  | succ bound inductionHypothesis =>
      have stillInUse := later.used parent inUse
      have turn : Mirrors (lib env) (Fs.anonymous fun ino => !fs.inodeMap ino) id
          (newExt2fsMkdir (some ctx) parent name) (newExt2fsMkdir none parent name) fs' := by
        refine mirrors_newExt2fsMkdir ?_ ?_ fun ino found => ?_
        · rw [later.check]
          exact passes
        · rw [inUse]
          rfl
        · by_contra shown
          have used := later.used ino (by simpa using shown)
          have free := newInode_free found
          rw [used] at free
          cases free
      refine mirrors_bind turn fun rc after outcome => ?_
      have further := later.trans ((newExt2fsMkdir_later (some ctx) stillInUse).outcome outcome)
      dsimp only [id]
      split
      · refine mirrors_bind (mirrors_expandDir parent) fun rc expanded outcome => ?_
        dsimp only [id]
        split
        · exact mirrors_pure rfl _
        · refine inductionHypothesis (further.trans ?_)
          have grown : Later after parent ((lib env).exec (.expandDir parent) after).2 :=
            later_expandDir
          rw [show (lib env).exec (.expandDir parent) after = _ from outcome] at grown
          exact grown
      · exact mirrors_pure rfl _

/-- Where both callers pass the check of the parent, op_mkdir treats them alike. -/
theorem opMkdir_alike {ctx ctx' : FuseCtx} {parent : Nat}
    (inUse : fs.inodeMap (EXT2FS_INO parent) = true) (passes : checkPermsInInode (some ctx)
      ((fs.ext2fsReadInode (EXT2FS_INO parent)).toOption.getD {}) W_OK = 0)
    (passes' : checkPermsInInode (some ctx')
      ((fs.ext2fsReadInode (EXT2FS_INO parent)).toOption.getD {}) W_OK = 0) (name : Name) :
    Alike env fs (opMkdir ctx parent name) (opMkdir ctx' parent name) := by
  have made : ∀ ctx, checkPermsInInode (some ctx)
      ((fs.ext2fsReadInode (EXT2FS_INO parent)).toOption.getD {}) W_OK = 0 →
      Mirrors (lib env) (Fs.anonymous fun ino => !fs.inodeMap ino) id
        (doMkdir (some ctx) (EXT2FS_INO parent) name)
          (doMkdir none (EXT2FS_INO parent) name) fs := by
    intro ctx passes
    refine mirrors_call_bind rfl fun super _ outcome => ?_
    obtain ⟨rfl, rfl⟩ := Prod.mk.inj outcome
    refine mirrors_bind (mirrors_mkdirLoop inUse passes _ (.refl fs _)) fun rc looped _ => ?_
    dsimp only [id]
    rw [mkdirFinish]
    split
    · exact mirrors_pure rfl _
    refine mirrors_bind (mirrors_lookup _ name) fun found later _ => ?_
    cases found <;> exact mirrors_pure rfl _
  rw [opMkdir, opMkdir]
  refine .of_mirrors (mirrors_bind_self (made ctx passes) ?_)
    (mirrors_bind_self (made ctx' passes') ?_)
  all_goals
    intro result later _
    cases result with
    | error rc =>
        dsimp only [id]
        rw [replyMkdir]
        split
        · exact mirrors_pure rfl _
        · exact mirrors_pure rfl _
    | ok ino =>
        refine mirrors_bind mirrors_readInode fun read after _ => ?_
        cases read with
        | error rc => exact mirrors_pure rfl _
        | ok inode => exact mirrors_call_bind rfl fun super _ _ => mirrors_pure rfl _

end Mkdir

section Checks

variable {env : Env δ} {fs : Fs δ} {ctx ctx' : FuseCtx}

/-- Does `do_rename` of the directory `ino` get its link into the new parent? -/
def renameLinks (env : Env δ) (fs : Fs δ) (newparent : Nat) (newname : Name) (ino : Nat) : Bool :=
  linkRoom env fs newparent newname ino (ext2FileType (fs.inodeTab ino).iMode)

/-- The inode and the rights a handler passes straight to `check_perms_in_inode`, if it gets
there and what it does depends on the answer. -/
def Request.directCheck (env : Env δ) (fs : Fs δ) : Request → Option (Inode × Nat)
  | lookup parent name =>
      match fs.ext2fsLookup env (EXT2FS_INO parent) name with
      | .ok ino =>
          if !nullName.isPrefixOf name && fs.validIno ino then
            some (fs.inodeTab (EXT2FS_INO parent), X_OK)
          else none
      | .error _ => none
  | create parent _ _ _ | symlink _ parent _ =>
      if fs.validIno (EXT2FS_INO parent) then some (fs.inodeTab (EXT2FS_INO parent), W_OK) else none
  | mkdir parent _ =>
      match fs.ext2fsNewInode (EXT2FS_INO parent), fs.vol.ext2fsNewBlock 0 with
      | .ok _, .ok _ => some ((fs.ext2fsReadInode (EXT2FS_INO parent)).toOption.getD {}, W_OK)
      | _, _ => none
  | rmdir parent name =>
      match fs.ext2fsLookup env (EXT2FS_INO parent) name with
      | .ok ino => if fs.validIno ino then some (fs.inodeTab ino, W_OK) else none
      | .error _ => none
  | rename parent name newparent newname =>
      match fs.ext2fsLookup env (EXT2FS_INO parent) name,
        fs.ext2fsLookup env (EXT2FS_INO newparent) newname with
      | .ok ino, .ok target =>
          if fs.validIno ino && LINUX_S_ISDIR (fs.inodeTab ino).iMode && fs.validIno target &&
              LINUX_S_ISDIR (fs.inodeTab target).iMode &&
              renameLinks env fs (EXT2FS_INO newparent) newname ino then
            some (fs.inodeTab target, W_OK)
          else none
      | _, _ => none
  | _ => none

/-- The callers get the same answer from every direct check. -/
def Request.ChecksAgree (env : Env δ) (fs : Fs δ) (ctx ctx' : FuseCtx) (request : Request) : Prop :=
  ∀ inode rights, request.directCheck env fs = some (inode, rights) →
    checkPermsInInode (some ctx) inode rights = checkPermsInInode (some ctx') inode rights

/-- The kernel names directories that are in use. -/
def Request.Live (fs : Fs δ) : Request → Prop
  | mkdir parent _ => fs.inodeMap (EXT2FS_INO parent) = true
  | _ => True

/-- The check either passes or gives EACCES. -/
theorem checkPermsInInode_cases (perms : Perms) (inode : Inode) (requested : Nat) :
    checkPermsInInode perms inode requested = 0 ∨
      checkPermsInInode perms inode requested = EACCES := by
  simp only [checkPermsInInode]
  split
  · exact .inl rfl
  · repeat' split
    all_goals first | exact .inl rfl | exact .inr rfl

/-- Reading an inode number out of range gives EIO and changes nothing. -/
theorem run_readInode_invalid {ino : Nat} (invalid : ¬ fs.validIno ino = true) :
    (readInode ino : Prog δ _).run (lib env) fs = (.error 1, fs) := by
  simp [readInode, ext2fsReadInode, invalid]

/-- A name is found in a directory only. -/
theorem lookup_checked {dir ino : Nat} {name : Name}
    (found : fs.ext2fsLookup env dir name = .ok ino) :
    fs.ext2fsCheckDirectory dir = 0 := by
  rw [ext2fsLookup] at found
  split at found
  · assumption
  · cases found

/-- A name is only found in a directory. -/
theorem lookup_isDir {dir ino : Nat} {name : Name}
    (found : fs.ext2fsLookup env dir name = .ok ino) :
    fs.validIno dir = true ∧ LINUX_S_ISDIR (fs.inodeTab dir).iMode = true :=
  ext2fsCheckDirectory_ok (lookup_checked found)

/-- The library's answer to ext2fs_lookup. -/
theorem lib_lookup (dir : Nat) (name : Name) :
    (lib env).exec (.lookup dir name) fs = (fs.ext2fsLookup env dir name, fs) := rfl

/-- The library's answer to ext2fs_namei. -/
theorem lib_namei (dir : Nat) (name : Name) :
    (lib env).exec (.namei dir name) fs = (fs.ext2fsLookup env dir name, fs) := rfl

/-- `op_lookup` of a name that is there asks for the right to search the parent. -/
theorem run_opLookup_found {parent ino : Nat} {name : Name}
    (proper : ¬ nullName.isPrefixOf name = true)
    (found : fs.ext2fsLookup env (EXT2FS_INO parent) name = .ok ino)
    (valid : fs.validIno ino = true) :
    (opLookup ctx parent name).run (lib env) fs =
      ([if checkPermsInInode (some ctx) (fs.inodeTab (EXT2FS_INO parent)) X_OK = 0 then
          .entry ino (fs.inodeTab ino).iGeneration (fillStatbuf fs.super ino (fs.inodeTab ino))
        else .err ENOENT], fs) := by
  have parentValid := (lookup_isDir found).1
  rw [opLookup, if_neg proper, doLookup, run_bind, run_bind, run_readInode parentValid]
  dsimp only
  by_cases passes : checkPermsInInode (some ctx) (fs.inodeTab (EXT2FS_INO parent)) X_OK = 0
  · rw [if_neg (not_not.mpr passes), if_pos passes, run_bind, run_lift, lib_lookup, found]
    dsimp only
    rw [run_bind, run_readInode valid]
    rfl
  · rw [if_pos passes, if_neg passes]
    rfl

/-- `op_lookup` of a name that is not there replies `ENOENT` to everybody. -/
theorem run_opLookup_missing {parent : Nat} {name : Name}
    (missing : ∀ ino, fs.ext2fsLookup env (EXT2FS_INO parent) name = .ok ino →
      nullName.isPrefixOf name = true ∨ ¬ fs.validIno ino = true) :
    (opLookup ctx parent name).run (lib env) fs = ([.err ENOENT], fs) := by
  rw [opLookup]
  by_cases null : nullName.isPrefixOf name = true
  · rw [if_pos null]
    rfl
  rw [if_neg null, doLookup, run_bind, run_bind]
  by_cases parentValid : fs.validIno (EXT2FS_INO parent) = true
  · rw [run_readInode parentValid]
    dsimp only
    by_cases passes : checkPermsInInode (some ctx) (fs.inodeTab (EXT2FS_INO parent)) X_OK = 0
    · rw [if_neg (not_not.mpr passes), run_bind, run_lift, lib_lookup]
      rcases found : fs.ext2fsLookup env (EXT2FS_INO parent) name with rc | ino
      · rfl
      · have invalid := (missing ino found).resolve_left null
        dsimp only
        rw [run_bind, run_readInode_invalid invalid]
        rfl
    · rw [if_pos passes]
      rfl
  · rw [run_readInode_invalid parentValid]
    rfl

/-- Two callers, one of whom replies `ENOENT` or `EACCES`, as the other does not. -/
theorem not_alike_of_err {first second : Prog δ (List Reply)} (rc : Errcode)
    (refused : (second.run (lib env) fs).1 = [.err rc])
    (served : .err rc ∉ (first.run (lib env) fs).1) : ¬ Alike env fs first second := by
  rintro ⟨replies, -⟩
  rw [refused] at replies
  have shown : Reply.err rc ∈ (first.run (lib env) fs).1.map
      (Reply.anonymous fun ino => !fs.inodeMap ino) := by
    rw [replies]
    exact List.mem_singleton_self _
  obtain ⟨reply, member, isErr⟩ := List.mem_map.mp shown
  cases reply with
  | err code =>
      cases isErr
      exact served member
  | _ => cases isErr

/-- Hiding owners leaves the inode bitmap. -/
theorem anonymous_inodeMap (hidden : Nat → Bool) (fs : Fs δ) :
    (fs.anonymous hidden).inodeMap = fs.inodeMap := rfl

/-- One caller takes an inode that the other leaves free. -/
theorem not_alike_of_inodeMap {first second : Prog δ (List Reply)} {ino : Nat}
    (took : (first.run (lib env) fs).2.inodeMap ino = true)
    (left : (second.run (lib env) fs).2.inodeMap ino = false) : ¬ Alike env fs first second := by
  rintro ⟨-, states⟩
  have same := congrArg Fs.inodeMap states
  rw [anonymous_inodeMap, anonymous_inodeMap] at same
  rw [same, left] at took
  cases took

/-- A direct check that is made decides whether the callers are alike. -/
theorem alike_iff (handler : FuseCtx → Prog δ (List Reply)) {request : Request} {inode : Inode}
    {rights : Nat} (check : request.directCheck env fs = some (inode, rights))
    (passed : ∀ ctx ctx', checkPermsInInode (some ctx) inode rights = 0 →
      checkPermsInInode (some ctx') inode rights = 0 → Alike env fs (handler ctx) (handler ctx'))
    (denied : ∀ ctx ctx', checkPermsInInode (some ctx) inode rights ≠ 0 →
      checkPermsInInode (some ctx') inode rights ≠ 0 →
        (handler ctx).run (lib env) fs = (handler ctx').run (lib env) fs)
    (told : ∀ ctx ctx', checkPermsInInode (some ctx) inode rights = 0 →
      checkPermsInInode (some ctx') inode rights ≠ 0 →
        ¬ Alike env fs (handler ctx) (handler ctx')) :
    Alike env fs (handler ctx) (handler ctx') ↔ request.ChecksAgree env fs ctx ctx' := by
  have agree : request.ChecksAgree env fs ctx ctx' ↔
      checkPermsInInode (some ctx) inode rights = checkPermsInInode (some ctx') inode rights := by
    constructor
    · exact fun same => same inode rights check
    · intro same _ _ made
      rw [check] at made
      cases made
      exact same
  rw [agree]
  by_cases first : checkPermsInInode (some ctx) inode rights = 0 <;>
    by_cases second : checkPermsInInode (some ctx') inode rights = 0
  · exact iff_of_true (passed ctx ctx' first second) (first.trans second.symm)
  · exact iff_of_false (told ctx ctx' first second) fun same => second (same.symm.trans first)
  · refine iff_of_false (fun alike => told ctx' ctx second first ?_)
      fun same => first (same.trans second)
    exact ⟨alike.1.symm, alike.2.symm⟩
  · have eacces : ∀ ctx, checkPermsInInode (some ctx) inode rights ≠ 0 →
        checkPermsInInode (some ctx) inode rights = EACCES := fun ctx refused =>
      (checkPermsInInode_cases (some ctx) inode rights).resolve_left refused
    exact iff_of_true (.of_eq (denied ctx ctx' first second))
      ((eacces ctx first).trans (eacces ctx' second).symm)

/-- Without a direct check the callers are alike if the runs are the same. -/
theorem alike_iff_of_none (handler : FuseCtx → Prog δ (List Reply)) {request : Request}
    (check : request.directCheck env fs = none)
    (same : (handler ctx).run (lib env) fs = (handler ctx').run (lib env) fs) :
    Alike env fs (handler ctx) (handler ctx') ↔ request.ChecksAgree env fs ctx ctx' := by
  refine iff_of_true (.of_eq same) fun inode rights made => ?_
  rw [check] at made
  cases made

/-- op_lookup treats two callers alike exactly when its checks do. -/
theorem opLookup_alike_iff {parent : Nat} {name : Name} :
    Alike env fs (opLookup ctx parent name) (opLookup ctx' parent name) ↔
      (Request.lookup parent name).ChecksAgree env fs ctx ctx' := by
  by_cases reached : ∃ ino, fs.ext2fsLookup env (EXT2FS_INO parent) name = .ok ino ∧
      ¬ nullName.isPrefixOf name = true ∧ fs.validIno ino = true
  · obtain ⟨ino, found, proper, valid⟩ := reached
    have check : (Request.lookup parent name).directCheck env fs =
        some (fs.inodeTab (EXT2FS_INO parent), X_OK) := by
      simp [Request.directCheck, found, proper, valid]
    have run : ∀ ctx, (opLookup ctx parent name).run (lib env) fs = _ :=
      fun ctx => run_opLookup_found proper found valid
    refine alike_iff (opLookup · parent name) check ?_ ?_ ?_
    · intro ctx ctx' first second
      refine .of_eq ?_
      rw [run, run, if_pos first, if_pos second]
    · intro ctx ctx' first second
      rw [run, run, if_neg first, if_neg second]
    · intro ctx ctx' first second
      refine not_alike_of_err ENOENT ?_ ?_
      · rw [run, if_neg second]
      · rw [run, if_pos first]
        simp
  · have missing : ∀ ino, fs.ext2fsLookup env (EXT2FS_INO parent) name = .ok ino →
        nullName.isPrefixOf name = true ∨ ¬ fs.validIno ino = true := by
      intro ino found
      by_contra both
      rw [not_or, not_not] at both
      exact reached ⟨ino, found, both⟩
    refine alike_iff_of_none (opLookup · parent name) ?_ ?_
    · rw [Request.directCheck]
      split
      · rename_i ino found
        rcases missing ino found with null | invalid
        · simp [null]
        · simp [invalid]
      · rfl
    · rw [run_opLookup_missing missing, run_opLookup_missing missing]

/-- do_link ends with success or with EIO. -/
theorem ends_doLink (dir : Nat) (name : Name) (target filetype : Nat) :
    Ends (fun rc => rc = 0 ∨ rc = EIO) (doLink dir name target filetype : Prog δ Errcode) := by
  have last : ∀ rc : Errcode, (if rc ≠ 0 then EIO else 0) = 0 ∨
    (if rc ≠ 0 then EIO else 0) = EIO := by
    intro rc
    split
    · exact .inr rfl
    · exact .inl rfl
  refine ends_bind_of_forall fun rc => ?_
  split
  · refine ends_bind_of_forall fun rc => ?_
    split
    · exact .inr rfl
    · exact ends_bind_of_forall fun rc => last rc
  · exact last rc

/-- A caller who passes the check of `do_create` is not refused later. -/
theorem doCreate_undenied {parent mode filetype : Nat} {name : Name}
    (passes : checkPermsInInode (some ctx) (fs.inodeTab parent) W_OK = 0) :
    Leads (lib env) (doCreate (some ctx) parent name mode filetype)
      (fun result _ => result ≠ .error EACCES) fs := by
  have other : ∀ rc, rc ≠ EACCES →
      (.error rc : Except Errcode (Nat × Inode)) ≠ .error EACCES := by
    rintro rc different ⟨⟩
    exact different rfl
  have eio := other EIO (by decide)
  rw [doCreate, leads_bind]
  refine leads_readInode eio fun _ => ?_
  dsimp only
  rw [if_neg (not_not.mpr passes)]
  refine leads_lift_bind fun found _ outcome => ?_
  obtain ⟨rfl, rfl⟩ := Prod.mk.inj outcome
  split
  · exact other ENOSPC (by decide)
  refine leads_lift_bind fun now timed _ => ?_
  refine leads_lift_bind fun rc written _ => ?_
  split
  · exact eio
  refine leads_lift_bind fun _ taken _ => ?_
  refine leads_bind_of fun rc linked outcome => ?_
  have code := (ends_doLink parent name _ filetype).outcome outcome
  split
  · rcases code with rfl | rfl
    · exact other 0 (by decide)
    · exact eio
  · rintro ⟨⟩

/-- Where the check of the parent fails do_create gives EACCES and changes nothing. -/
theorem run_doCreate_denied {parent mode filetype : Nat} {name : Name}
    (valid : fs.validIno parent = true)
    (denied : checkPermsInInode (some ctx) (fs.inodeTab parent) W_OK ≠ 0) :
    (doCreate (some ctx) parent name mode filetype).run (lib env) fs = (.error EACCES, fs) := by
  rw [doCreate, run_bind, run_readInode valid]
  dsimp only
  rw [if_pos denied]
  rfl

/-- Where the parent cannot be read do_create gives EIO and changes nothing. -/
theorem run_doCreate_invalid {parent mode filetype : Nat} {name : Name}
    (invalid : ¬ fs.validIno parent = true) :
    (doCreate (some ctx) parent name mode filetype).run (lib env) fs = (.error EIO, fs) := by
  rw [doCreate, run_bind, run_readInode_invalid invalid]
  rfl

/-- The reply does not refuse the caller. -/
def Undenied (replies : List Reply) : Prop := .err EACCES ∉ replies

/-- An error other than EACCES is no denial. -/
theorem undenied_err {rc : Errcode} (other : rc ≠ EACCES) : Undenied [.err rc] := by
  intro member
  rw [List.mem_singleton] at member
  cases member
  exact other rfl

/-- The handlers that create are alike for two callers who both pass the check on the
parent or both do not. -/
theorem creating_alike_iff {parent mode filetype : Nat} {name : Name} {request : Request}
    (check : request.directCheck env fs = if fs.validIno (EXT2FS_INO parent) then
      some (fs.inodeTab (EXT2FS_INO parent), W_OK) else none)
    (isFile : LINUX_S_ISDIR mode = false)
    {rest : Except Errcode (Nat × Inode) → Prog δ (List Reply)}
    (failed : ∀ rc, rest (.error rc) = pure [.err rc])
    (passed : ∀ ctx ctx',
      checkPermsInInode (some ctx) (fs.inodeTab (EXT2FS_INO parent)) W_OK = 0 →
      checkPermsInInode (some ctx') (fs.inodeTab (EXT2FS_INO parent)) W_OK = 0 →
        Alike env fs (doCreate (some ctx) (EXT2FS_INO parent) name mode filetype >>= rest)
          (doCreate (some ctx') (EXT2FS_INO parent) name mode filetype >>= rest))
    (undenied : ∀ ino inode (fs' : Fs δ), Created (.ok (ino, inode)) fs' →
      Leads (lib env) (rest (.ok (ino, inode))) (fun replies _ => Undenied replies) fs') :
    Alike env fs (doCreate (some ctx) (EXT2FS_INO parent) name mode filetype >>= rest)
        (doCreate (some ctx') (EXT2FS_INO parent) name mode filetype >>= rest) ↔
      request.ChecksAgree env fs ctx ctx' := by
  by_cases valid : fs.validIno (EXT2FS_INO parent) = true
  · rw [if_pos valid] at check
    have refused : ∀ ctx, checkPermsInInode (some ctx) (fs.inodeTab (EXT2FS_INO parent)) W_OK ≠ 0 →
        (doCreate (some ctx) (EXT2FS_INO parent) name mode filetype >>= rest).run (lib env) fs =
          ([.err EACCES], fs) := by
      intro ctx denied
      rw [run_bind, run_doCreate_denied valid denied]
      dsimp only
      rw [failed]
      rfl
    refine alike_iff
      (fun ctx => doCreate (some ctx) (EXT2FS_INO parent) name mode filetype >>= rest) check passed
      ?_ ?_
    · intro ctx ctx' first second
      rw [refused ctx first, refused ctx' second]
    · intro ctx ctx' first second
      refine not_alike_of_err EACCES (by rw [refused ctx' second]) ?_
      suffices served : Leads (lib env)
          (doCreate (some ctx) (EXT2FS_INO parent) name mode filetype >>= rest)
          (fun replies _ => Undenied replies) fs from served
      refine leads_bind_of fun result created outcome => ?_
      have allowed := (doCreate_undenied first).outcome outcome
      have made := (doCreate_created isFile).outcome outcome
      rcases result with rc | ⟨ino, inode⟩
      · rw [failed, leads_pure]
        exact undenied_err fun same => allowed (congrArg Except.error same)
      · exact undenied ino inode created made
  · rw [if_neg valid] at check
    refine alike_iff_of_none
      (fun ctx => doCreate (some ctx) (EXT2FS_INO parent) name mode filetype >>= rest) check ?_
    rw [run_bind, run_bind, run_doCreate_invalid valid, run_doCreate_invalid valid]

/-- op_create treats two callers alike exactly when its checks do. -/
theorem opCreate_alike_iff {parent mode : Nat} {name : Name} {flags : OpenFlags} :
    Alike env fs (opCreate ctx parent name mode flags) (opCreate ctx' parent name mode flags) ↔
      (Request.create parent name mode flags).ChecksAgree env fs ctx ctx' := by
  refine creating_alike_iff rfl (regular_isFile mode) (fun _ => rfl) ?_ ?_
  · exact fun ctx ctx' first second => opCreate_alike first second name mode flags
  · rintro ino inode fs' ⟨valid, recorded, empty⟩
    refine leads_bind_of fun opened later outcome => ?_
    rw [run_doOpen_empty valid (by rw [recorded]; exact empty)] at outcome
    cases outcome
    rw [leads_bind, leads_lift, lib_super, leads_pure]
    simp [Undenied]

/-- Success is no denial. -/
theorem zero_ne_EACCES : (0 : Errcode) ≠ EACCES := by decide

/-- `ext2fs_write_inode` does not fail for want of rights. -/
theorem writeInode_undenied (fs : Fs δ) (ino : Nat) (inode : Inode) :
    (fs.ext2fsWriteInode ino inode).1 ≠ EACCES := by
  have badIno : EXT2_ET_BAD_INODE_NUM ≠ EACCES := by decide
  rw [ext2fsWriteInode]
  split
  · exact zero_ne_EACCES
  · exact badIno

/-- Flushing a file is never denied. -/
theorem fileFlush_undenied (fs : Fs δ) (file : File) : (fs.ext2fsFileFlush file).1 ≠ EACCES := by
  rw [ext2fsFileFlush]
  split
  · exact zero_ne_EACCES
  · split
    · split
      · rename_i rc _ _ failed
        have code : rc ≠ EACCES := by
          rcases ext2fsBmap_code failed with rfl | rfl <;> decide
        exact code
      · exact zero_ne_EACCES
    · exact zero_ne_EACCES

/-- Writing is never denied: the handle was opened before. -/
theorem doWrite_undenied {ino : Nat} (file : File) (data : List UInt8) :
    Leads (lib env) (doWrite file ino data 0) (fun result _ => result.1 ≠ EACCES) fs := by
  have eio : EIO ≠ EACCES := by decide
  rw [doWrite, if_neg (Nat.not_lt_zero _), writeData]
  refine leads_lift_bind ?_
  rintro ⟨rc, bytes, fh⟩ written -
  dsimp only
  split
  · exact eio
  split
  · exact eio
  split
  · exact zero_ne_EACCES
  split
  · exact eio
  rw [leads_bind, setFileSize]
  refine leads_lift_bind fun now later _ => ?_
  exact writeInode_undenied later ino _

/-- op_symlink treats two callers alike exactly when its checks do. -/
theorem opSymlink_alike_iff {target name : Name} {parent : Nat} :
    Alike env fs (opSymlink ctx target parent name) (opSymlink ctx' target parent name) ↔
      (Request.symlink target parent name).ChecksAgree env fs ctx ctx' := by
  have isFile : LINUX_S_ISDIR (LINUX_S_IFLNK ||| 0o777) = false := by decide
  refine creating_alike_iff rfl isFile (fun _ => rfl) ?_ ?_
  · exact fun ctx ctx' first second => opSymlink_alike first second target name
  · rintro ino inode fs' ⟨valid, recorded, empty⟩
    refine leads_bind_of fun opened later outcome => ?_
    rw [run_doOpen_empty valid (by rw [recorded]; exact empty)] at outcome
    cases outcome
    refine leads_bind_of ?_
    rintro ⟨rc, bytes, file⟩ written outcome
    have code := (doWrite_undenied _ _).outcome outcome
    dsimp only
    split
    · exact undenied_err code
    refine leads_bind_of fun rc closed outcome => ?_
    have code : rc ≠ EACCES := by
      rcases flush : written.ext2fsFileFlush file with ⟨closeRc, file', fs''⟩
      have flushed := fileFlush_undenied written file
      rw [flush] at flushed
      rw [doFileClose, run_bind, run_lift, lib_fileFlush flush] at outcome
      cases outcome
      exact flushed
    split
    · exact undenied_err code
    rw [leads_bind, leads_lift, lib_super]
    dsimp only
    split
    · simp [Leads, Undenied, EIO, EACCES]
    · simp [Leads, Undenied]

section MkdirCheck

variable {parent new blk : Nat} {name : Name}

/-- Where the check of the parent fails the routine gives EACCES and changes nothing. -/
theorem run_newExt2fsMkdir_denied
    (picked : fs.ext2fsNewInode parent = .ok new) (fresh : fs.vol.ext2fsNewBlock 0 = .ok blk)
    (denied : checkPermsInInode (some ctx)
      ((fs.ext2fsReadInode parent).toOption.getD {}) W_OK ≠ 0) :
    (newExt2fsMkdir (some ctx) parent name).run (lib env) fs = (EACCES, fs) := by
  suffices leads : Leads (lib env) (newExt2fsMkdir (some ctx) parent name)
      (fun rc fs' => (rc, fs') = (EACCES, fs)) fs from leads
  unfold newExt2fsMkdir
  refine leads_lift_bind fun found _ outcome => ?_
  obtain ⟨rfl, rfl⟩ := Prod.mk.inj outcome
  rw [picked]
  refine leads_lift_bind fun found _ outcome => ?_
  obtain ⟨rfl, rfl⟩ := Prod.mk.inj outcome
  rw [fresh]
  refine leads_lift_bind fun block _ outcome => ?_
  obtain ⟨rfl, rfl⟩ := Prod.mk.inj outcome
  refine leads_lift_bind fun read _ outcome => ?_
  obtain ⟨rfl, rfl⟩ := Prod.mk.inj outcome
  dsimp only
  rw [if_pos (show checkPermsInInode (some ctx) _ 2 ≠ 0 from denied)]
  rfl

/-- Without an inode or a block the check is not reached. -/
theorem run_newExt2fsMkdir_full (full : ∀ new blk, fs.ext2fsNewInode parent = .ok new →
      fs.vol.ext2fsNewBlock 0 ≠ .ok blk) :
    ∃ rc, rc ≠ EXT2_ET_DIR_NO_SPACE ∧ ∀ perms : Perms,
      (newExt2fsMkdir perms parent name).run (lib env) fs = (rc, fs) := by
  rcases picked : fs.ext2fsNewInode parent with rc | new
  · refine ⟨rc, ?_, fun perms => ?_⟩
    · rw [ext2fsNewInode] at picked
      split at picked <;> cases picked
      decide
    · rw [newExt2fsMkdir, run_bind, run_lift, show (lib env).exec (.newInode parent) fs =
        (fs.ext2fsNewInode parent, fs) from rfl, picked]
      rfl
  · rcases fresh : fs.vol.ext2fsNewBlock 0 with rc | blk
    · refine ⟨rc, ?_, fun perms => ?_⟩
      · rw [Volume.ext2fsNewBlock] at fresh
        split at fresh <;> cases fresh
        decide
      · rw [newExt2fsMkdir, run_bind, run_lift, show (lib env).exec (.newInode parent) fs =
          (fs.ext2fsNewInode parent, fs) from rfl, picked]
        dsimp only
        rw [run_bind, run_lift, show (lib env).exec (.newBlock 0) fs =
          (fs.vol.ext2fsNewBlock 0, fs) from rfl, fresh]
        rfl
    · exact absurd fresh (full new blk picked)

/-- A caller who passes takes the inode, unless it is no inode of the table. -/
theorem newExt2fsMkdir_passed
    (picked : fs.ext2fsNewInode parent = .ok new) (fresh : fs.vol.ext2fsNewBlock 0 = .ok blk)
    (passes : checkPermsInInode (some ctx)
      ((fs.ext2fsReadInode parent).toOption.getD {}) W_OK = 0) :
    Leads (lib env) (newExt2fsMkdir (some ctx) parent name)
      (fun rc fs' => rc = EXT2_ET_BAD_INODE_NUM ∨ fs'.inodeMap new = true) fs := by
  unfold newExt2fsMkdir
  refine leads_lift_bind fun found _ outcome => ?_
  obtain ⟨rfl, rfl⟩ := Prod.mk.inj outcome
  rw [picked]
  refine leads_lift_bind fun found _ outcome => ?_
  obtain ⟨rfl, rfl⟩ := Prod.mk.inj outcome
  rw [fresh]
  refine leads_lift_bind fun block _ outcome => ?_
  obtain ⟨rfl, rfl⟩ := Prod.mk.inj outcome
  refine leads_lift_bind fun read _ outcome => ?_
  obtain ⟨rfl, rfl⟩ := Prod.mk.inj outcome
  dsimp only
  rw [if_neg (show ¬ checkPermsInInode (some ctx) _ 2 ≠ 0 from not_not.mpr passes)]
  refine leads_lift_bind fun super _ outcome => ?_
  obtain ⟨rfl, rfl⟩ := Prod.mk.inj outcome
  refine leads_lift_bind fun now _ outcome => ?_
  obtain ⟨rfl, rfl⟩ := Prod.mk.inj outcome
  refine leads_lift_bind fun _ _ outcome => ?_
  obtain ⟨-, rfl⟩ := Prod.mk.inj outcome
  refine leads_lift_bind fun _ _ outcome => ?_
  obtain ⟨-, rfl⟩ := Prod.mk.inj outcome
  refine leads_lift_bind fun rc _ outcome => ?_
  obtain ⟨rfl, rfl⟩ := Prod.mk.inj outcome
  rw [if_neg (by simp)]
  by_cases valid : fs.validIno new = true
  · have call : ∀ {α : Type} {operation : LibCall δ α},
        (∀ state : Fs δ, state.SameInodes ((lib env).exec operation state).2) →
          Keeps (lib env) (fun state => state.inodeMap new = true) (lift operation) :=
      fun same => keeps_lift fun state used => by rw [(same state).2]; exact used
    have keeps : ∀ (program : Prog δ Errcode) (state : Fs δ), state.inodeMap new = true →
        Keeps (lib env) (fun state => state.inodeMap new = true) program →
        Leads (lib env) program
          (fun rc fs' => rc = EXT2_ET_BAD_INODE_NUM ∨ fs'.inodeMap new = true) state :=
      fun program state used kept => (kept state used).mono fun _ _ used => .inr used
    refine keeps _ _ ?_ ?_
    · change (if fs.validIno new = true then _ else _ : Nat → Bool) new = true
      rw [if_pos valid]
      exact Function.update_self _ _ _
    refine keeps_bind (call fun state => sameInodes_writeInode state new _) fun rc => ?_
    split
    · exact keeps_pure _
    refine keeps_bind (call fun _ => ⟨rfl, rfl⟩) fun present => ?_
    split
    · exact keeps_pure _
    split
    · exact keeps_pure _
    refine keeps_bind (call fun state => sameInodes_link state parent name new EXT2_FT_DIR)
      fun rc => ?_
    split
    · exact keeps_pure _
    exact call fun state => sameInodes_writeInode state parent _
  · refine leads_lift_bind fun rc later outcome => ?_
    have bad : rc = EXT2_ET_BAD_INODE_NUM := by
      change Fs.ext2fsWriteInode _ new _ = _ at outcome
      rw [ext2fsWriteInode, if_neg] at outcome
      · cases outcome
        rfl
      · exact valid
    have nonzero : EXT2_ET_BAD_INODE_NUM ≠ 0 := by decide
    rw [bad, if_pos nonzero]
    exact .inl rfl

/-- Expanding the parent takes and frees no inode. -/
theorem used_expandDir {rc : Errcode} {expanded : Fs δ}
    (outcome : (lib env).exec (.expandDir parent) fs = (rc, expanded)) :
    expanded.inodeMap = fs.inodeMap := by
  have same : fs.SameInodes ((lib env).exec (.expandDir parent) fs).2 :=
    sameInodes_expandDir fs parent
  rw [outcome] at same
  exact same.2

/-- The loop of `do_mkdir` gives no inode back. -/
theorem mkdirLoop_used (perms : Perms) (bound : Nat) (parentUsed : fs.inodeMap parent = true)
    (used : fs.inodeMap new = true) :
    Leads (lib env) (mkdirLoop perms parent name bound)
      (fun _ fs' => fs'.inodeMap new = true) fs := by
  induction bound generalizing fs with
  | zero => exact used
  | succ bound inductionHypothesis =>
      refine leads_bind_of fun rc later outcome => ?_
      have turned := (newExt2fsMkdir_later perms parentUsed).outcome outcome
      split
      · refine leads_lift_bind fun rc expanded outcome => ?_
        have same := used_expandDir outcome
        split
        · change expanded.inodeMap new = true
          rw [same]
          exact turned.used new used
        · refine inductionHypothesis ?_ ?_
          · rw [same]
            exact turned.used parent parentUsed
          · rw [same]
            exact turned.used new used
      · exact turned.used new used

/-- Once the check has passed no turn of the loop denies. -/
theorem mkdirLoop_passed (inUse : fs.inodeMap parent = true)
    (picked : fs.ext2fsNewInode parent = .ok new) (fresh : fs.vol.ext2fsNewBlock 0 = .ok blk)
    (passes : checkPermsInInode (some ctx) ((fs.ext2fsReadInode parent).toOption.getD {}) W_OK = 0)
    (bound : Nat) :
    Leads (lib env) (mkdirLoop (some ctx) parent name (bound + 1))
      (fun rc fs' => rc = EXT2_ET_BAD_INODE_NUM ∨ fs'.inodeMap new = true) fs := by
  refine leads_bind_of fun rc later outcome => ?_
  have taken := (newExt2fsMkdir_passed picked fresh passes).outcome outcome
  have turned := (newExt2fsMkdir_later (some ctx) inUse).outcome outcome
  split
  · rename_i full
    have used : later.inodeMap new = true := by
      refine taken.resolve_left fun bad => ?_
      rw [full] at bad
      cases bad
    refine leads_lift_bind fun rc expanded outcome => ?_
    have same := used_expandDir outcome
    split
    · refine .inr ?_
      change expanded.inodeMap new = true
      rw [same]
      exact used
    · refine (mkdirLoop_used (some ctx) bound ?_ ?_).mono fun _ _ used => .inr used
      · rw [same]
        exact turned.used parent inUse
      · rw [same]
        exact used
  · exact taken

/-- op_mkdir treats two callers alike exactly when its checks do. -/
theorem opMkdir_alike_iff (inUse : fs.inodeMap (EXT2FS_INO parent) = true) :
    Alike env fs (opMkdir ctx parent name) (opMkdir ctx' parent name) ↔
      (Request.mkdir parent name).ChecksAgree env fs ctx ctx' := by
  by_cases reached : ∃ new blk, fs.ext2fsNewInode (EXT2FS_INO parent) = .ok new ∧
      fs.vol.ext2fsNewBlock 0 = .ok blk
  · obtain ⟨new, blk, picked, fresh⟩ := reached
    have check : (Request.mkdir parent name).directCheck env fs =
        some ((fs.ext2fsReadInode (EXT2FS_INO parent)).toOption.getD {}, W_OK) := by
      simp [Request.directCheck, picked, fresh]
    have refused : ∀ ctx, checkPermsInInode (some ctx)
        ((fs.ext2fsReadInode (EXT2FS_INO parent)).toOption.getD {}) W_OK ≠ 0 →
        (opMkdir ctx parent name).run (lib env) fs = ([.err EACCES], fs) := by
      intro ctx denied
      rw [opMkdir, doMkdir, run_bind, run_bind, run_lift, lib_super]
      dsimp only
      rw [doMkdirWithin, run_bind, mkdirLoop, run_bind,
        run_newExt2fsMkdir_denied picked fresh denied]
      rfl
    refine alike_iff (opMkdir · parent name) check ?_ ?_ ?_
    · exact fun ctx ctx' first second => opMkdir_alike inUse first second name
    · intro ctx ctx' first second
      rw [refused ctx first, refused ctx' second]
    · intro ctx ctx' first second
      have served : Leads (lib env) (opMkdir ctx parent name)
          (fun replies fs' => Undenied replies ∨ fs'.inodeMap new = true) fs := by
        rw [opMkdir, doMkdir, leads_bind]
        refine leads_lift_bind fun super _ outcome => ?_
        obtain ⟨rfl, rfl⟩ := Prod.mk.inj outcome
        refine leads_bind_of fun rc looped outcome => ?_
        have taken := (mkdirLoop_passed inUse picked fresh first _).outcome outcome
        rw [mkdirFinish]
        split
        · rw [leads_pure, replyMkdir]
          split
          · rename_i full
            refine .inr (taken.resolve_left fun bad => ?_)
            rw [full] at bad
            cases bad
          · refine taken.imp (fun bad => ?_) id
            rw [bad]
            exact undenied_err (by decide)
        · rename_i succeeded
          have used : looped.inodeMap new = true := by
            refine taken.resolve_left fun bad => succeeded ?_
            rw [bad]
            decide
          refine leads_lift_bind fun found _ outcome => ?_
          obtain ⟨rfl, rfl⟩ := Prod.mk.inj outcome
          split
          · exact .inr used
          · rw [leads_pure, replyMkdir, leads_bind]
            refine leads_readInode (.inr used) fun _ => ?_
            exact leads_lift_bind fun super _ outcome => by
              obtain ⟨rfl, rfl⟩ := Prod.mk.inj outcome
              exact .inr used
      rcases (served : _ ∨ _) with undenied | used
      · exact not_alike_of_err EACCES (by rw [refused ctx' second]) undenied
      · refine not_alike_of_inodeMap used ?_
        rw [refused ctx' second]
        simpa using newInode_free picked
  · refine alike_iff_of_none (opMkdir · parent name) ?_ ?_
    · rw [Request.directCheck]
      split
      · rename_i new blk picked fresh
        exact absurd ⟨new, blk, picked, fresh⟩ reached
      · rfl
    · have full : ∀ new blk, fs.ext2fsNewInode (EXT2FS_INO parent) = .ok new →
          fs.vol.ext2fsNewBlock 0 ≠ .ok blk :=
        fun new blk picked fresh => reached ⟨new, blk, picked, fresh⟩
      obtain ⟨rc, ended, turn⟩ : ∃ rc, rc ≠ EXT2_ET_DIR_NO_SPACE ∧ ∀ perms : Perms,
        (newExt2fsMkdir perms (EXT2FS_INO parent) name).run (lib env) fs = (rc, fs) :=
          run_newExt2fsMkdir_full full
      have loop : ∀ (perms : Perms) bound,
        (mkdirLoop perms (EXT2FS_INO parent) name (bound + 1)).run
          (lib env) fs = (rc, fs) := by
        intro perms bound
        rw [mkdirLoop, run_bind, turn]
        dsimp only
        rw [if_neg ended]
        rfl
      have made : (doMkdir (some ctx) (EXT2FS_INO parent) name).run (lib env) fs =
          (doMkdir (some ctx') (EXT2FS_INO parent) name).run (lib env) fs :=
        run_bind_congr fun super later outcome => by
          rw [run_lift, lib_super] at outcome
          obtain ⟨rfl, rfl⟩ := Prod.mk.inj outcome
          rw [doMkdirWithin, doMkdirWithin, run_bind, loop, run_bind, loop]
      rw [opMkdir, run_bind, made, opMkdir, run_bind]

end MkdirCheck

section RmdirCheck

variable {parent ino : Nat} {name : Name}

/-- Where the check of the directory fails do_rmdir_on_ino gives EACCES and changes nothing. -/
theorem run_doRmdirOnIno_denied (valid : fs.validIno ino = true)
    (denied : checkPermsInInode (some ctx) (fs.inodeTab ino) W_OK ≠ 0) :
    (doRmdirOnIno (some ctx) parent name ino).run (lib env) fs = (EACCES, fs) := by
  rw [doRmdirOnIno, run_bind, run_readInode valid]
  dsimp only
  rw [if_pos denied]
  rfl

/-- Past the check `do_rmdir_on_ino` does not look at its caller. -/
theorem run_doRmdirOnIno_passed (valid : fs.validIno ino = true)
    (passes : checkPermsInInode (some ctx) (fs.inodeTab ino) W_OK = 0) :
    (doRmdirOnIno (some ctx) parent name ino).run (lib env) fs =
      (doRmdirOnIno none parent name ino).run (lib env) fs := by
  refine run_bind_congr fun read later outcome => ?_
  rw [run_readInode valid] at outcome
  obtain ⟨rfl, rfl⟩ := Prod.mk.inj outcome
  dsimp only
  rw [if_neg (not_not.mpr passes), if_neg (not_not.mpr (checkPermsInInode_none _ _))]

/-- Where the directory cannot be read do_rmdir_on_ino gives EIO and changes nothing. -/
theorem run_doRmdirOnIno_invalid (invalid : ¬ fs.validIno ino = true) (perms : Perms) :
    (doRmdirOnIno perms parent name ino).run (lib env) fs = ( EIO, fs) := by
  rw [doRmdirOnIno, run_bind, run_readInode_invalid invalid]
  rfl

/-- Without a check `do_rmdir_on_ino` has other reasons to fail. -/
theorem ends_doRmdirOnIno :
    Ends (fun rc => rc ≠ EACCES) (doRmdirOnIno none parent name ino : Prog δ Errcode) := by
  have eio : EIO ≠ EACCES := by decide
  have one : (1 : Errcode) ≠ EACCES := by decide
  have last : ∀ inode, Ends (fun rc => rc ≠ EACCES) (writeInode parent inode : Prog δ Errcode) := by
    intro inode
    refine ends_bind_of_forall fun rc => ?_
    split
    · exact one
    · exact zero_ne_EACCES
  have read : ∀ ino, Ends (fun result : Except Errcode Inode => ∀ rc, result = .error rc → rc = 1)
      (readInode ino : Prog δ _) := by
    intro ino
    refine ends_bind_of_forall fun result => ?_
    cases result with
    | ok inode => rintro rc ⟨⟩
    | error code =>
        rintro rc ⟨⟩
        rfl
  rw [doRmdirOnIno, ends_bind]
  refine (read ino).mono fun result _ => ?_
  cases result with
  | error rc => exact eio
  | ok inode =>
      dsimp only
      rw [if_neg (not_not.mpr (checkPermsInInode_none _ _))]
      split
      · exact (show ENOTDIR ≠ EACCES by decide)
      refine ends_bind_of_forall fun listed => ?_
      split
      · exact eio
      split
      · exact (show ENOTEMPTY ≠ EACCES by decide)
      refine ends_bind_of_forall fun rc => ?_
      split
      · exact eio
      refine ends_bind_of_forall fun _ => ?_
      split
      · exact zero_ne_EACCES
      rw [ends_bind]
      refine (read parent).mono fun result codes => ?_
      cases result with
      | error rc =>
          rw [codes rc rfl]
          exact one
      | ok parentInode => exact last _

/-- op_rmdir treats two callers alike exactly when its checks do. -/
theorem opRmdir_alike_iff :
    Alike env fs (opRmdir ctx parent name) (opRmdir ctx' parent name) ↔
      (Request.rmdir parent name).ChecksAgree env fs ctx ctx' := by
  rcases found : fs.ext2fsLookup env (EXT2FS_INO parent) name with rc | ino
  · refine alike_iff_of_none (opRmdir · parent name) ?_ ?_
    · simp [Request.directCheck, found]
    · have missing : ∀ ctx, (opRmdir ctx parent name).run (lib env) fs = ([.err ENOENT], fs) := by
        intro ctx
        change Program.run _ (doRmdir (some ctx) (EXT2FS_INO parent) name >>= _) _ = _
        rw [doRmdir, run_bind, run_bind, run_lift, lib_namei, found]
        rfl
      rw [missing, missing]
  · have serves : ∀ ctx, (opRmdir ctx parent name).run (lib env) fs =
        ([.err ((doRmdirOnIno (some ctx) (EXT2FS_INO parent) name ino).run (lib env) fs).1],
          ((doRmdirOnIno (some ctx) (EXT2FS_INO parent) name ino).run (lib env) fs).2) := by
      intro ctx
      change Program.run _ (doRmdir (some ctx) (EXT2FS_INO parent) name >>= _) _ = _
      rw [doRmdir, run_bind, run_bind, run_lift, lib_namei, found]
      rfl
    by_cases valid : fs.validIno ino = true
    · have check : (Request.rmdir parent name).directCheck env fs =
        some (fs.inodeTab ino, W_OK) := by
        simp [Request.directCheck, found, valid]
      refine alike_iff (opRmdir · parent name) check ?_ ?_ ?_
      · intro ctx ctx' first second
        refine .of_eq ?_
        rw [serves, serves, run_doRmdirOnIno_passed valid first,
          run_doRmdirOnIno_passed valid second]
      · intro ctx ctx' first second
        rw [serves, serves, run_doRmdirOnIno_denied valid first,
          run_doRmdirOnIno_denied valid second]
      · intro ctx ctx' first second
        refine not_alike_of_err EACCES ?_ ?_
        · rw [serves, run_doRmdirOnIno_denied valid second]
        · rw [serves, run_doRmdirOnIno_passed valid first]
          exact undenied_err (ends_doRmdirOnIno.run _ _)
    · refine alike_iff_of_none (opRmdir · parent name) ?_ ?_
      · simp [Request.directCheck, found, valid]
      · rw [serves, serves, run_doRmdirOnIno_invalid valid, run_doRmdirOnIno_invalid valid]

end RmdirCheck

section RenameCheck

variable {parent newparent ino target : Nat} {name newname : Name}

/-- Entering a name changes no inode that is in use. -/
theorem sameInodes_doLink (fs : Fs δ) (dir : Nat) (name : Name) (target filetype : Nat) :
    fs.SameInodes ((doLink dir name target filetype).run (lib env) fs).2 := by
  have linked : ∀ fs : Fs δ, fs.SameInodes ((lib env).exec (.link dir name target filetype) fs).2 :=
    fun fs => sameInodes_link fs dir name target filetype
  have expanded : ∀ fs : Fs δ, fs.SameInodes ((lib env).exec (.expandDir dir) fs).2 :=
    fun fs => sameInodes_expandDir fs dir
  rw [doLink, run_bind, run_lift, run_ite]
  split
  · rw [run_bind, run_lift, run_ite]
    split
    · exact Fs.SameInodes.trans (linked fs) (expanded _)
    · exact Fs.SameInodes.trans (Fs.SameInodes.trans (linked fs) (expanded _)) (linked _)
  · exact linked fs

/-- `do_link` leaves the rights on every inode alone. -/
theorem later_doLink (env : Env δ) (fs : Fs δ) (dir : Nat) (name : Name)
    (target filetype ino : Nat) :
    Later fs ino ((doLink dir name target filetype).run (lib env) fs).2 :=
  .of_resizes (sameInodes_doLink fs dir name target filetype)
    (doLink_enters env fs dir name target filetype ino).resizes

/-- The new parent with its count raised, for a directory that moves into it. -/
theorem run_renameRaise {inode : Inode} (isDir : LINUX_S_ISDIR inode.iMode = true)
    (valid : fs.validIno newparent = true) :
    (renameRaise newparent ino inode).run (lib env) fs = (.ok inode, { fs with
      inodeTab := Function.update fs.inodeTab newparent (fs.inodeTab newparent).raiseLinks }) := by
  simp [renameRaise, isDir, ext2fsReadInode, ext2fsWriteInode, valid]

/-- Raising a link count leads to a later state. -/
theorem later_raised : Later fs target { fs with
    inodeTab := Function.update fs.inodeTab newparent (fs.inodeTab newparent).raiseLinks } := by
  by_cases same : target = newparent
  · subst same
    refine ⟨rfl, fun _ used => used, ?_, ?_, ?_⟩
    all_goals
      dsimp only
      rw [Function.update_self]
      rfl
  · refine ⟨rfl, fun _ used => used, ?_, ?_, ?_⟩
    all_goals
      dsimp only
      rw [Function.update_of_ne same]

/-- `do_rename` of a name that is there, from the count it raises on. -/
theorem run_doRename_found (perms : Perms) (found : fs.ext2fsLookup env parent name = .ok ino)
    (valid : fs.validIno ino = true) :
    (doRename perms parent name newparent newname).run (lib env) fs =
      Program.run (lib env) (do
        match ← renameRaise newparent ino (fs.inodeTab ino) with
        | .error rc => return rc
        | .ok inode =>
            let ret ← doLink newparent newname ino (ext2FileType inode.iMode)
            if ret ≠ 0 then renameCleanup newparent newname ino inode ret
            else
              renameLinked perms parent name newparent newname ino
                ((fs.ext2fsLookup env newparent newname).toOption.getD 0) inode) fs := by
  rw [doRename, getInoByName, run_bind, run_lift, lib_namei, found]
  dsimp only
  rewrite [run_bind, getInoByName, run_lift, lib_namei, run_bind, run_readInode valid]
  rfl

/-- The link is made when the count has been raised, which takes no room. -/
theorem renameLinks_iff (isDir : fs.ext2fsCheckDirectory newparent = 0) :
    ((doLink newparent newname ino (ext2FileType (fs.inodeTab ino).iMode)).run (lib env) { fs with
      inodeTab := Function.update fs.inodeTab newparent
        (fs.inodeTab newparent).raiseLinks }).1 = 0 ↔
      renameLinks env fs newparent newname ino = true := by
  set raised : Fs δ := { fs with
    inodeTab := Function.update fs.inodeTab newparent (fs.inodeTab newparent).raiseLinks }
  have parent : raised.inodeTab newparent = (fs.inodeTab newparent).raiseLinks :=
    Function.update_self _ _ _
  obtain ⟨valid, directory⟩ := ext2fsCheckDirectory_ok isDir
  have checked : raised.ext2fsCheckDirectory newparent = 0 := by
    refine checkDirectory_eq_zero valid ?_
    rw [parent]
    exact directory
  have room : (raised.ext2fsExpandDir env newparent).1 = (fs.ext2fsExpandDir env newparent).1 :=
    ext2fsExpandDir_rc_congr rfl (by rw [parent]; rfl) (by rw [parent]; rfl)
  rw [run_doLink_rc checked, linkRoom, renameLinks, linkRoom, room]
  rfl

/-- A directory whose link was made: `do_rename` goes on with what had the new name. -/
theorem run_doRename_linked (perms : Perms) (found : fs.ext2fsLookup env parent name = .ok ino)
    (hit : fs.ext2fsLookup env newparent newname = .ok target) (valid : fs.validIno ino = true)
    (isDir : LINUX_S_ISDIR (fs.inodeTab ino).iMode = true)
    (links : renameLinks env fs newparent newname ino = true) :
    (doRename perms parent name newparent newname).run (lib env) fs =
      (renameLinked perms parent name newparent newname ino target (fs.inodeTab ino)).run (lib env)
        ((doLink newparent newname ino (ext2FileType (fs.inodeTab ino).iMode)).run
          (lib env) { fs with
          inodeTab := Function.update fs.inodeTab newparent
            (fs.inodeTab newparent).raiseLinks }).2 := by
  have linked := (renameLinks_iff (lookup_checked hit)).mpr links
  rw [run_doRename_found perms found valid, hit, run_bind,
    run_renameRaise isDir (lookup_isDir hit).1]
  dsimp only
  rw [run_bind, if_neg (not_not.mpr linked)]
  rfl

/-- The rights on an inode are the ones it had before the link was made. -/
theorem later_linked {filetype : Nat} {rc : Errcode} {linked : Fs δ}
    (outcome : (doLink newparent newname ino filetype).run (lib env) { fs with
      inodeTab := Function.update fs.inodeTab newparent (fs.inodeTab newparent).raiseLinks } =
        (rc, linked)) : Later fs target linked := by
  have entered := later_doLink env { fs with
    inodeTab := Function.update fs.inodeTab newparent (fs.inodeTab newparent).raiseLinks }
      newparent newname ino filetype target
  rw [outcome] at entered
  exact later_raised.trans entered

/-- The rest of `do_rename` for a directory over a directory. -/
def renameOver (perms : Perms) (parent : Nat) (name : Name) (newparent : Nat) (newname : Name)
    (ino target : Nat) (inode : Inode) : Prog δ Errcode := do
  let ret ← doRmdirOnIno perms newparent newname target
  if ret ≠ 0 then renameCleanup newparent newname ino inode ret
  else renameDirOld parent name newparent newname ino inode

/-- Over an existing directory a directory's rename goes on in the routine that replaces it. -/
theorem run_renameLinked_over (perms : Perms) {inode : Inode}
    (isDir : LINUX_S_ISDIR inode.iMode = true) (valid : fs.validIno target = true)
    (targetDir : LINUX_S_ISDIR (fs.inodeTab target).iMode = true) :
    (renameLinked perms parent name newparent newname ino target inode).run (lib env) fs =
      (renameOver perms parent name newparent newname ino target inode).run (lib env) fs := by
  have present : target ≠ 0 := by
    rintro rfl
    cases valid
  rw [renameLinked, if_pos present, run_bind, run_readInode valid]
  dsimp only
  rw [if_pos isDir, if_neg (by simp [targetDir])]
  rfl

/-- Nothing else that `do_rename` does looks at its caller. -/
theorem run_renameLinked_blind (perms : Perms) {inode : Inode}
    (other : LINUX_S_ISDIR inode.iMode = true → fs.validIno target = true →
      ¬ LINUX_S_ISDIR (fs.inodeTab target).iMode = true) :
    (renameLinked perms parent name newparent newname ino target inode).run (lib env) fs =
      (renameLinked none parent name newparent newname ino target inode).run (lib env) fs := by
  rw [renameLinked, renameLinked]
  by_cases present : target ≠ 0
  · rw [if_pos present, if_pos present]
    refine run_bind_congr fun read later outcome => ?_
    by_cases valid : fs.validIno target = true
    · rw [run_readInode valid] at outcome
      obtain ⟨rfl, rfl⟩ := Prod.mk.inj outcome
      dsimp only
      by_cases isDir : LINUX_S_ISDIR inode.iMode = true
      · rw [if_pos isDir, if_pos isDir, if_pos (by simpa using other isDir valid),
          if_pos (by simpa using other isDir valid)]
      · rw [if_neg isDir, if_neg isDir]
    · rw [run_readInode_invalid valid] at outcome
      obtain ⟨rfl, rfl⟩ := Prod.mk.inj outcome
      rfl
  · rw [if_neg present, if_neg present]

/-- The inode that is renamed stays a file, or a directory. -/
theorem ends_renameRaise (inode : Inode) :
    Ends (fun result => ∀ raised, result = .ok raised → raised.iMode = inode.iMode)
      (renameRaise newparent ino inode : Prog δ _) := by
  rw [renameRaise]
  split
  · refine ends_bind_of_forall fun rc raised result => ?_
    split at result
    · cases result
    · cases result
      rfl
  · refine ends_bind_of_forall fun read => ?_
    cases read with
    | error rc => rintro raised ⟨⟩
    | ok newparentInode =>
        refine ends_bind_of_forall fun rc raised result => ?_
        split at result
        · cases result
        · cases result
          rfl

/-- What `do_rename` of a directory over a directory finds when it comes to remove the target. -/
def Request.renames (env : Env δ) (fs : Fs δ) (parent : Nat) (name : Name) (newparent : Nat)
    (newname : Name) (ino target : Nat) : Prop :=
  fs.ext2fsLookup env parent name = .ok ino ∧ fs.ext2fsLookup env newparent newname = .ok target ∧
    fs.validIno ino = true ∧ LINUX_S_ISDIR (fs.inodeTab ino).iMode = true ∧
    fs.validIno target = true ∧ LINUX_S_ISDIR (fs.inodeTab target).iMode = true ∧
    renameLinks env fs newparent newname ino = true

/-- A run of `do_rename` that removes no directory is the same for every caller. -/
theorem run_doRename_blind (perms : Perms)
    (other : ∀ ino target, ¬ Request.renames env fs parent name newparent newname ino target) :
    (doRename perms parent name newparent newname).run (lib env) fs =
      (doRename none parent name newparent newname).run (lib env) fs := by
  rcases found : fs.ext2fsLookup env parent name with rc | ino
  · have missing : ∀ perms, (doRename perms parent name newparent newname).run (lib env) fs =
        (ENOENT, fs) := by
      intro perms
      rw [doRename, getInoByName, run_bind, run_lift, lib_namei, found]
      rfl
    rw [missing, missing]
  by_cases valid : fs.validIno ino = true
  · rw [run_doRename_found perms found valid, run_doRename_found none found valid]
    refine run_bind_congr fun result raised outcome => ?_
    have mode := (ends_renameRaise (fs.inodeTab ino)).outcome outcome
    cases result with
    | error rc => rfl
    | ok inode =>
        refine run_bind_congr fun ret linked linking => ?_
        by_cases failed : ret ≠ 0
        · rw [if_pos failed, if_pos failed]
        rw [if_neg failed, if_neg failed]
        by_cases isDir : LINUX_S_ISDIR (fs.inodeTab ino).iMode = true
        · rcases hit : fs.ext2fsLookup env newparent newname with rc | target
          · rfl
          rw [run_renameRaise isDir (lookup_isDir hit).1] at outcome
          obtain ⟨same, rfl⟩ := Prod.mk.inj outcome
          cases same
          have links : renameLinks env fs newparent newname ino = true := by
            rw [← renameLinks_iff (lookup_checked hit), linking]
            exact not_not.mp failed
          have later : Later fs target linked := later_linked linking
          refine run_renameLinked_blind perms fun _ targetValid targetDir => ?_
          rw [validIno_congr later.super] at targetValid
          have targetDir : LINUX_S_ISDIR (linked.inodeTab target).iMode = true := targetDir
          rw [later.mode] at targetDir
          exact other ino target ⟨found, hit, valid, isDir, targetValid, targetDir, links⟩
        · refine run_renameLinked_blind perms fun isDir' => ?_
          rw [mode inode rfl] at isDir'
          exact absurd isDir' isDir
  · have unread : ∀ perms, (doRename perms parent name newparent newname).run (lib env) fs =
        ( EIO, fs) := by
      intro perms
      rw [doRename, getInoByName, run_bind, run_lift, lib_namei, found]
      dsimp only
      rw [run_bind, getInoByName, run_lift, lib_namei, run_bind, run_readInode_invalid valid]
      rfl
    rw [unread, unread]

/-- For a directory the cleanup returns the code it was called with. -/
theorem ends_renameCleanup {inode : Inode} (isDir : LINUX_S_ISDIR inode.iMode = true)
    (ret : Errcode) : Ends (fun rc => rc = ret)
      (renameCleanup newparent newname ino inode ret : Prog δ Errcode) := by
  refine ends_bind_of_forall fun rc => ?_
  split
  · rfl
  rw [if_neg (by simp [isDir])]
  refine ends_bind_of_forall fun read => ?_
  cases read with
  | error rc => rfl
  | ok newparentInode => exact ends_bind_of_forall fun _ => rfl

/-- The second half of a directory's rename denies nobody. -/
theorem renameDirOld_undenied {inode : Inode} (isDir : LINUX_S_ISDIR inode.iMode = true) :
    Leads (lib env) (renameDirOld parent name newparent newname ino inode)
      (fun rc _ => rc ≠ EACCES) fs := by
  have eio : EIO ≠ EACCES := by decide
  have cleaned : ∀ (ret : Errcode) (fs : Fs δ), ret ≠ EACCES →
      Leads (lib env) (renameCleanup newparent newname ino inode ret)
        (fun rc _ => rc ≠ EACCES) fs := by
    intro ret fs other
    rw [Leads, (ends_renameCleanup isDir ret).run]
    exact other
  refine leads_bind_of fun ret linked outcome => ?_
  have code := (ends_doLink _ _ _ _).outcome outcome
  split
  · refine cleaned ret _ ?_
    rcases code with rfl | rfl
    · exact zero_ne_EACCES
    · exact eio
  refine leads_lift_bind fun rc _ _ => ?_
  split
  · exact cleaned EIO _ eio
  refine leads_lift_bind fun rc unlinked _ => ?_
  split
  · exact cleaned EIO _ eio
  refine leads_lift_bind fun read _ outcome => ?_
  obtain ⟨rfl, rfl⟩ := Prod.mk.inj outcome
  split
  · rename_i rc failed
    have badIno : EXT2_ET_BAD_INODE_NUM ≠ EACCES := by decide
    rw [ext2fsReadInode] at failed
    split at failed
    · cases failed
    · cases failed
      exact badIno
  · exact writeInode_undenied _ _ _

/-- Without checks the replacing of a directory denies nobody. -/
theorem renameOver_undenied {inode : Inode} (isDir : LINUX_S_ISDIR inode.iMode = true) :
    Leads (lib env) (renameOver none parent name newparent newname ino target inode)
      (fun rc _ => rc ≠ EACCES) fs := by
  refine leads_bind_of fun ret removed outcome => ?_
  have code := ends_doRmdirOnIno.outcome outcome
  split
  · rw [Leads, (ends_renameCleanup isDir ret).run]
    exact code
  · exact renameDirOld_undenied isDir

/-- op_rename treats two callers alike exactly when its checks do. -/
theorem opRename_alike_iff :
    Alike env fs (opRename ctx parent name newparent newname)
        (opRename ctx' parent name newparent newname) ↔
      (Request.rename parent name newparent newname).ChecksAgree env fs ctx ctx' := by
  have serves : ∀ ctx, (opRename ctx parent name newparent newname).run (lib env) fs =
      ([.err ((doRename (some ctx) (EXT2FS_INO parent) name (EXT2FS_INO newparent) newname).run
          (lib env) fs).1],
        ((doRename (some ctx) (EXT2FS_INO parent) name (EXT2FS_INO newparent) newname).run
          (lib env) fs).2) := by
    intro ctx
    change Program.run _ (doRename (some ctx) (EXT2FS_INO parent) name
      (EXT2FS_INO newparent) newname
      >>= _) _ = _
    rw [run_bind]
    rfl
  by_cases reached : ∃ ino target, Request.renames env fs (EXT2FS_INO parent) name
      (EXT2FS_INO newparent) newname ino target
  · obtain ⟨ino, target, found, hit, valid, isDir, targetValid, targetDir, links⟩ := reached
    have check : (Request.rename parent name newparent newname).directCheck env fs =
        some (fs.inodeTab target, W_OK) := by
      simp [Request.directCheck, found, hit, valid, isDir, targetValid, targetDir, links]
    rcases linking : (doLink (EXT2FS_INO newparent) newname ino
      (ext2FileType (fs.inodeTab ino).iMode)).run (lib env) { fs with
        inodeTab := Function.update fs.inodeTab (EXT2FS_INO newparent)
          (fs.inodeTab (EXT2FS_INO newparent)).raiseLinks } with ⟨linkRc, linked⟩
    have later : Later fs target linked := later_linked linking
    have linkedValid : linked.validIno target = true := by
      rw [validIno_congr later.super]
      exact targetValid
    have rights : ∀ ctx, checkPermsInInode (some ctx) (linked.inodeTab target) W_OK =
        checkPermsInInode (some ctx) (fs.inodeTab target) W_OK := fun ctx =>
      checkPermsInInode_congr later.mode later.uid later.gid _ _
    have overTarget : ∀ perms, (doRename perms (EXT2FS_INO parent) name (EXT2FS_INO newparent)
        newname).run (lib env) fs =
          (renameOver perms (EXT2FS_INO parent) name (EXT2FS_INO newparent)
          newname ino target (fs.inodeTab ino)).run (lib env) linked := by
      intro perms
      rw [run_doRename_linked perms found hit valid isDir links, linking]
      exact run_renameLinked_over perms isDir linkedValid (by rw [later.mode]; exact targetDir)
    have passed : ∀ ctx, checkPermsInInode (some ctx) (fs.inodeTab target) W_OK = 0 →
        (doRename (some ctx) (EXT2FS_INO parent) name (EXT2FS_INO newparent) newname).run (lib env)
          fs = (doRename none (EXT2FS_INO parent) name (EXT2FS_INO newparent) newname).run (lib env)
            fs := by
      intro ctx passes
      rw [overTarget, overTarget, renameOver, run_bind,
        run_doRmdirOnIno_passed linkedValid ((rights ctx).trans passes), renameOver, run_bind]
    have denied : ∀ ctx, checkPermsInInode (some ctx) (fs.inodeTab target) W_OK ≠ 0 →
        (doRename (some ctx) (EXT2FS_INO parent) name (EXT2FS_INO newparent) newname).run (lib env)
          fs = (renameCleanup (EXT2FS_INO newparent) newname ino (fs.inodeTab ino) EACCES).run
            (lib env) linked := by
      intro ctx denied
      rw [overTarget, renameOver, run_bind, run_doRmdirOnIno_denied linkedValid
        (by rw [rights]; exact denied)]
      rfl
    refine alike_iff (opRename · parent name newparent newname) check ?_ ?_ ?_
    · intro ctx ctx' first second
      refine .of_eq ?_
      rw [serves, serves, passed ctx first, passed ctx' second]
    · intro ctx ctx' first second
      rw [serves, serves, denied ctx first, denied ctx' second]
    · intro ctx ctx' first second
      refine not_alike_of_err EACCES ?_ ?_
      · rw [serves, denied ctx' second, (ends_renameCleanup isDir EACCES).run]
      · rw [serves, passed ctx first]
        refine undenied_err ?_
        rw [overTarget none]
        exact renameOver_undenied isDir
  · have other : ∀ ino target, ¬ Request.renames env fs (EXT2FS_INO parent) name
        (EXT2FS_INO newparent) newname ino target :=
      fun ino target renames => reached ⟨ino, target, renames⟩
    refine alike_iff_of_none (opRename · parent name newparent newname) ?_ ?_
    · rw [Request.directCheck]
      split
      · rename_i ino target found hit
        rw [if_neg]
        intro all
        simp only [Bool.and_eq_true] at all
        obtain ⟨⟨⟨⟨valid, isDir⟩, targetValid⟩, targetDir⟩, links⟩ := all
        exact other ino target ⟨found, hit, valid, isDir, targetValid, targetDir, links⟩
      · rfl
    · rw [serves, serves, run_doRename_blind (some ctx) other, run_doRename_blind (some ctx') other]

end RenameCheck

/-- With `do_permissions_checks` off, two callers get the same reply and leave the same state,
up to the owner of a new inode, if and only if every call of `check_perms_in_inode`
the handler makes by itself answers both of them alike. -/
theorem callers_alike_iff (fuse : FuseDir) (request : Request) (live : request.Live fs) :
    Alike env fs (request.handler fuse ctx) (request.handler fuse ctx') ↔
      request.ChecksAgree env fs ctx ctx' := by
  have unchecked : request.directCheck env fs = none →
      (request.handler fuse ctx : Prog δ _) = request.handler fuse ctx' →
      (Alike env fs (request.handler fuse ctx) (request.handler fuse ctx') ↔
        request.ChecksAgree env fs ctx ctx') := fun check same =>
    alike_iff_of_none (request.handler fuse ·) check (by rw [same])
  cases request with
  | lookup parent name => exact opLookup_alike_iff
  | mkdir parent name => exact opMkdir_alike_iff live
  | rmdir parent name => exact opRmdir_alike_iff
  | symlink target parent name => exact opSymlink_alike_iff
  | rename parent name newparent newname => exact opRename_alike_iff
  | create parent name mode flags => exact opCreate_alike_iff
  | _ => exact unchecked rfl rfl

end Checks

section Example

/-- Of two groups, root makes the directory `c` all the same. -/
theorem callers_alike_iff_mkdir :
    ((opMkdir ⟨0, 0⟩ 1 [0x63]).run (lib listEnv) twoFiles).1.all Reply.ok = true ∧
    Alike listEnv twoFiles (opMkdir ⟨0, 0⟩ 1 [0x63]) (opMkdir ⟨0, 1000⟩ 1 [0x63]) := by
  have live : (Request.mkdir 1 [0x63]).Live twoFiles := show twoFiles.inodeMap 2 = true by decide
  refine ⟨by decide +kernel, (callers_alike_iff wireDir (.mkdir 1 [0x63]) live).mpr ?_⟩
  intro inode rights check
  have asked : (Request.mkdir 1 [0x63]).directCheck listEnv twoFiles =
      some (twoFiles.inodeTab 2, W_OK) := rfl
  rw [asked] at check
  cases check
  decide +kernel

/-- Root creates `c`, and another user is told `EACCES`. -/
theorem create_tells_callers : ¬ ∀ (request : Request) (ctx ctx' : FuseCtx),
    Alike listEnv twoFiles (request.handler wireDir ctx) (request.handler wireDir ctx') := by
  intro alike
  have agree : checkPermsInInode (some ⟨0, 0⟩) (twoFiles.inodeTab 2) W_OK =
      checkPermsInInode (some ⟨1000, 1000⟩) (twoFiles.inodeTab 2) W_OK :=
    opCreate_alike_iff.mp (alike (.create 1 [0x63] 0o644 {}) ⟨0, 0⟩ ⟨1000, 1000⟩) _ _ rfl
  exact absurd agree (by decide +kernel)

end Example

end Ext2Fuse
