import Ext2Fuse.LastLink
import Ext2Fuse.FileFrames
import Ext2Fuse.LinkAttempt

/-!
# Creations that fail

`op_create`, `op_symlink` and `op_link` enter a name and then go on: the file is opened,
written and closed, or the link count that was raised first is restored. What an error
leaves behind depends on how far they had come.
-/

namespace Ext2Fuse

open Lib Program Fs Ns

variable {δ : Type}

/-- A reply reports an error. -/
def Refused (replies : List Reply) : Prop := ∃ reply ∈ replies, reply.ok = false

/-- The directory has the entries it had, and every inode that was in use its link count. -/
structure Untouched (env : Env δ) (dir : Nat) (fs fs' : Fs δ) : Prop where
  entries : (fs'.ns env).ents dir = (fs.ns env).ents dir
  counts : ∀ ino, (fs.ns env).used ino = true → (fs'.ns env).links ino = (fs.ns env).links ino

section Files

/-- The calls that do not reach a directory. -/
def LibCall.onFiles {β : Type} : LibCall δ β → Bool
  | .time | .super | .readInode _ | .writeInode _ _ | .blockIterateTruncate _ _ | .fileOpen _ _
  | .fileWrite _ _ | .fileFlush _ => true
  | _ => false

/-- A call on files leaves the directories. -/
theorem exec_dirs {β : Type} (env : Env δ) (fs : Fs δ) {operation : LibCall δ β}
    (onFiles : operation.onFiles = true) : ((lib env).exec operation fs).2.dirs = fs.dirs := by
  cases operation with
  | time => rfl
  | super => rfl
  | readInode ino => rfl
  | writeInode ino inode => exact (confined_writeInode fs ino inode).dirs
  | blockIterateTruncate ino info =>
      obtain ⟨vol, iBlock, -, truncated⟩ := lib_blockIterateTruncate_frame env fs ino info
      rw [truncated]
  | fileOpen ino writable => rfl
  | fileWrite file data => exact (onFile_write fs file data).confined.dirs
  | fileFlush file => exact (onFile_flush fs file).confined.dirs
  | _ => cases onFiles

/-- And when it fails it leaves the state. -/
theorem onFiles_leaves {β : Type} {env : Env δ} {operation : LibCall δ β}
    (onFiles : operation.onFiles = true) (fault : Fault) (fs : Fs δ) :
    operation.leaves env fault fs = fs := by
  cases operation with
  | link dir name ino flags => cases onFiles
  | _ => rfl

variable {env : Env δ} {dirs : Nat → δ}

/-- A call on files keeps the directories, failing or not. -/
theorem keeps_onFiles {β : Type} {operation : LibCall δ β} (onFiles : operation.onFiles = true) :
    Keeps (faultyLib env) (fun state => state.1.dirs = dirs) (lift operation) :=
  keeps_faulty (onFiles_leaves onFiles) fun fs same => (exec_dirs env fs onFiles).trans same

/-- So does storing a size. -/
theorem keeps_setFileSize (ino : Nat) (inode : Inode) (desiredSize : Nat) :
    Keeps (faultyLib env) (fun state => state.1.dirs = dirs) (setFileSize ino inode desiredSize) :=
  keeps_bind (keeps_onFiles rfl) fun _ => keeps_bind (keeps_onFiles rfl) fun _ => keeps_pure _

/-- So does do_ftruncate. -/
theorem keeps_doFtruncate (fh : File) (ino length : Nat) :
    Keeps (faultyLib env) (fun state => state.1.dirs = dirs) (doFtruncate fh ino length) := by
  have lengthen : Keeps (faultyLib env)
    (fun state => state.1.dirs = dirs) (doLengthen fh ino length) := by
    refine keeps_ite (keeps_pure _) (keeps_ite (keeps_pure _) ?_)
    refine keeps_bind (keeps_onFiles rfl)
      fun _ => keeps_ite (keeps_pure _) (keeps_ite (keeps_pure _) ?_)
    exact keeps_bind (keeps_setFileSize _ _ _) fun _ => keeps_pure _
  have shorten : Keeps (faultyLib env)
    (fun state => state.1.dirs = dirs) (doShorten fh ino length) := by
    refine keeps_ite (keeps_pure _) (keeps_ite (keeps_pure _) ?_)
    refine keeps_bind (keeps_onFiles rfl) fun _ => keeps_bind (keeps_setFileSize _ _ _) fun _ => ?_
    refine keeps_ite (keeps_pure _) (keeps_bind (keeps_onFiles rfl) fun _ => ?_)
    refine keeps_bind (keeps_onFiles rfl) fun found => ?_
    cases found with
    | error rc => exact keeps_pure _
    | ok inode => exact keeps_bind (keeps_onFiles rfl) fun _ => keeps_pure _
  exact keeps_ite lengthen shorten

/-- So does do_open. -/
theorem keeps_doOpen (ino : Nat) (flags : OpenFlags) :
    Keeps (faultyLib env) (fun state => state.1.dirs = dirs) (doOpen none ino flags) := by
  refine keeps_bind (keeps_pure _) fun _ => keeps_ite (keeps_pure _) ?_
  refine keeps_bind (keeps_onFiles rfl) fun opened => ?_
  cases opened with
  | error rc => exact keeps_pure _
  | ok efile =>
      exact keeps_ite (keeps_bind (keeps_doFtruncate _ _ _) fun _ => keeps_pure _) (keeps_pure _)

/-- So does do_write. -/
theorem keeps_doWrite (fh : File) (ino : Nat) (data : List UInt8) (off : Nat) :
    Keeps (faultyLib env) (fun state => state.1.dirs = dirs) (doWrite fh ino data off) := by
  have write : ∀ fh, Keeps (faultyLib env) (fun state => state.1.dirs = dirs)
      (writeData fh ino data off) := by
    intro fh
    refine keeps_bind (keeps_onFiles rfl)
      fun _ => keeps_ite (keeps_pure _) (keeps_ite (keeps_pure _) ?_)
    refine keeps_ite (keeps_pure _) (keeps_ite (keeps_pure _) ?_)
    exact keeps_bind (keeps_setFileSize _ _ _) fun _ => keeps_pure _
  refine keeps_ite (keeps_bind (keeps_doFtruncate _ _ _) fun _ => ?_) (write fh)
  exact keeps_ite (keeps_pure _) (write _)

end Files

section Creates

variable {env : Env δ} {fs : Fs δ} {faults : List (Option Fault)} {parent : Nat} {name : Name}

/-- The filesystem `do_create` enters the name in: the inode is written and marked. -/
def Fs.withNewFile (env : Env δ) (fs : Fs δ) (perms : Perms) (mode ino : Nat) : Fs δ :=
  let now := env.time fs.vol.tick
  let inode : Inode := { setPerms perms {} with
    iMode := mode, iAtime := now, iCtime := now, iMtime := now, iLinksCount := 1 }
  (fs.advance.ext2fsWriteInode ino inode).2.ext2fsInodeAllocStats2 ino true false

/-- A new file without a name, in the name space. -/
theorem ns_withNewFile {perms : Perms} {mode ino : Nat} (valid : fs.validIno ino = true) :
    (fs.withNewFile env perms mode ino).ns env =
    ((fs.ns env).setInode ino mode 1).setUsed ino true := by
  have validLater : (fs.advance.ns env).valid ino = true := valid
  have advanced : fs.advance.ns env = fs.ns env := ns_vol rfl
  rw [withNewFile]
  dsimp only
  rw [ns_inodeAllocStats2, ns_writeInode validLater, advanced]
  rw [ns_writeInode validLater]
  exact validLater

/-- What the attempts to enter a name depend on, over a schedule of faults: a directory is expanded
if there is room. -/
def Fs.faultyAttempt (env : Env δ) (fs : Fs δ) (dir : Nat) (name : Name) (ino filetype : Nat)
    (faults : List (Option Fault)) : LinkAttempt δ :=
  fs.linkAttempt env (fun fs dir => (fs.ext2fsExpandDir env dir).1 = 0) dir name ino filetype faults

/-- do_link ends as its attempt over the schedule says. -/
theorem leads_doLink_faulty (lawful : env.dir.Lawful) (fs : Fs δ) (dir : Nat) (name : Name)
    (ino filetype : Nat) (faults : List (Option Fault)) :
    Leads (faultyLib env) (doLink dir name ino filetype)
      ((fs.faultyAttempt env dir name ino filetype faults).Ended fs dir) (fs, faults) :=
  (entering_faulty env).leads_doLink lawful fs dir name ino filetype faults

/-- The creation does not get as far as the name: the parent cannot be read or the caller may not
write to it, there is no inode for the file or it cannot be written, or the name does not go in,
with or without an error. The calls are numbered in the order they are made. -/
def CreateBlocked (env : Env δ) (perms : Perms) (parent : Nat) (name : Name) (mode filetype : Nat)
    (fs : Fs δ) (faults : List (Option Fault)) : Prop :=
  Fails faults 0 ∨ fs.validIno parent = false ∨
    checkPermsInInode perms (fs.inodeTab parent) W_OK ≠ 0 ∨ Fails faults 1 ∨ Fails faults 3 ∨
    ∀ ino, fs.ext2fsNewInode parent = .ok ino → fs.validIno ino = false ∨
      ((fs.withNewFile env perms mode ino).faultyAttempt env parent name ino filetype
        (faults.drop 5)).StaysOut

/-- The creation was blocked and has left no trace, or the parent has one entry more, which has been
reported or not. -/
def CreateEnded (env : Env δ) (parent : Nat) (fs : Fs δ) (blocked : Prop)
    (result : Except Errcode (Nat × Inode)) (fs' : Fs δ) : Prop :=
  (blocked ∧ (∃ rc, result = .error rc) ∧ Untouched env parent fs fs') ∨
    (¬ blocked ∧ ((fs'.ns env).ents parent).length = ((fs.ns env).ents parent).length + 1)

/-- An entry more makes the directory longer by one. -/
theorem inserts_length {attempt : LinkAttempt δ} {contents contents' : δ}
    (inserts : attempt.Inserts contents contents') :
    (attempt.dir.entries contents').length = (attempt.dir.entries contents).length + 1 := by
  obtain ⟨front, back, fileType, split, inserted⟩ := inserts
  rw [split, inserted]
  simp only [List.length_append, List.length_cons]
  omega

/-- `do_create` from the link on. -/
theorem createEnded_link (lawful : env.dir.Lawful) {perms : Perms} {mode filetype ino : Nat}
    (valid : fs.validIno ino = true) (free : (fs.ns env).used ino = false) (inode : Inode) :
    let attempt :=
      (fs.withNewFile env perms mode ino).faultyAttempt env parent name ino filetype faults
    Leads (faultyLib env) (do
        let rc ← doLink parent name ino filetype
        if rc ≠ 0 then return .error rc
        return .ok (ino, inode))
      (fun result next => CreateEnded env parent fs attempt.StaysOut result next.1)
      (fs.withNewFile env perms mode ino, faults) := by
  intro attempt
  have whole : (fs.withNewFile env perms mode ino).ns env =
      ((fs.ns env).setInode ino mode 1).setUsed ino true := ns_withNewFile valid
  have before : env.dir.entries ((fs.withNewFile env perms mode ino).dirs parent) =
      (fs.ns env).ents parent := congrFun (congrArg Ns.ents whole) parent
  refine leads_bind_of fun rc ⟨linked, rest⟩ outcome => ?_
  obtain ⟨-, ⟨goesIn, -, refilled, -, inserts⟩ | ⟨half, -, contents, refilled, inserts⟩ |
      ⟨staysOut, rfl, contents, refilled, same⟩⟩ :=
    (leads_doLink_faulty lawful _ parent name ino filetype faults).outcome outcome
  · have longer : ((linked.ns env).ents parent).length = ((fs.ns env).ents parent).length + 1 := by
      rw [refilled.ns, setEnts_ents, Function.update_self, ← before]
      exact inserts_length inserts
    split
    · exact .inr ⟨fun blocked => blocked.1 goesIn, longer⟩
    · exact .inr ⟨fun blocked => blocked.1 goesIn, longer⟩
  · have longer : ((linked.ns env).ents parent).length = ((fs.ns env).ents parent).length + 1 := by
      rw [refilled.ns, setEnts_ents, Function.update_self, ← before]
      exact inserts_length inserts
    split
    · exact .inr ⟨fun blocked => blocked.2 half, longer⟩
    · exact .inr ⟨fun blocked => blocked.2 half, longer⟩
  · rw [if_pos (by decide)]
    have unchanged : linked.ns env = (fs.withNewFile env perms mode ino).ns env :=
      refilled.ns_same same
    refine .inl ⟨staysOut, ⟨_, rfl⟩, ?_, ?_⟩
    · change (linked.ns env).ents parent = _
      rw [unchanged, whole]
      rfl
    · intro other inUse
      have apart : other ≠ ino := by
        rintro rfl
        rw [free] at inUse
        cases inUse
      change (linked.ns env).links other = _
      rw [unchanged, whole]
      exact Function.update_of_ne apart _ _

/-- `do_create` either fails without a trace or adds an entry to the parent. -/
theorem doCreate_faulty (lawful : env.dir.Lawful) (perms : Perms) (mode filetype : Nat) :
    Leads (faultyLib env) (doCreate perms parent name mode filetype) (fun result next =>
      CreateEnded env parent fs (CreateBlocked env perms parent name mode filetype fs faults) result
        next.1) (fs, faults) := by
  have same : Untouched env parent fs fs := ⟨rfl, fun _ _ => rfl⟩
  have still : Untouched env parent fs fs.advance := ⟨rfl, fun _ _ => rfl⟩
  rw [doCreate]
  by_cases unread : Fails faults 0
  · rw [leads_bind, Leads, run_readInode_failed unread]
    exact .inl ⟨.inl unread, ⟨_, rfl⟩, same⟩
  by_cases valid : fs.validIno parent = true
  swap
  · rw [Bool.not_eq_true] at valid
    rw [leads_bind, readInode, leads_bind, leads_lift, faultyLib_ok unread, lib_readInode,
      ext2fsReadInode, valid]
    exact .inl ⟨.inr (.inl valid), ⟨_, rfl⟩, same⟩
  rw [leads_bind, Leads, run_readInode_ok unread valid]
  dsimp only
  by_cases denied : checkPermsInInode perms (fs.inodeTab parent) W_OK = 0
  swap
  · rw [if_pos denied]
    exact .inl ⟨.inr (.inr (.inl denied)), ⟨_, rfl⟩, same⟩
  rw [if_neg (not_not.mpr denied), leads_bind]
  by_cases noInode : Fails faults 1
  · obtain ⟨fault, outcome⟩ := @faultyLib_failed δ _ env fs faults.tail (.newInode parent)
      ((fails_tail 0).mpr noInode) (fun fault => .error fault.code) (fun _ => rfl)
      (fun _ => rfl)
    rw [leads_lift, outcome]
    exact .inl ⟨.inr (.inr (.inr (.inl noInode))), ⟨_, rfl⟩, same⟩
  rw [leads_lift, faultyLib_ok (mt (fails_tail 0).mp noInode), lib_newInode]
  dsimp only
  rw [show CreateBlocked env perms parent name mode filetype fs faults ↔ Fails faults 3 ∨
    ∀ ino, fs.ext2fsNewInode parent = .ok ino → fs.validIno ino = false ∨
      ((fs.withNewFile env perms mode ino).faultyAttempt env parent name ino filetype
        (faults.drop 5)).StaysOut by
    simp [CreateBlocked, unread, valid, denied, noInode]]
  cases found : fs.ext2fsNewInode parent with
  | error rc => exact .inl ⟨.inr (by rintro _ ⟨⟩), ⟨_, rfl⟩, same⟩
  | ok ino =>
    dsimp only
    rw [leads_bind, leads_lift, faultyLib_never (fun _ => rfl), lib_time, leads_bind]
    dsimp only
    have third : Fails faults.tail.tail.tail 0 ↔ Fails faults 3 := by simp only [fails_tail]
    by_cases unwritten : Fails faults 3
    · obtain ⟨fault, outcome⟩ := @faultyLib_failed δ _ env fs.advance faults.tail.tail.tail
        (.writeNewInode ino { setPerms perms {} with
          iMode := mode, iAtime := env.time fs.vol.tick, iCtime := env.time fs.vol.tick
          iMtime := env.time fs.vol.tick, iLinksCount := 1 })
        (third.mpr unwritten) (fun fault => fault.code) (fun _ => rfl) (fun _ => rfl)
      rw [leads_lift, outcome]
      dsimp only
      rw [if_pos fault.nonzero]
      exact .inl ⟨.inl unwritten, ⟨_, rfl⟩, still⟩
    rw [leads_lift, faultyLib_ok (mt third.mp unwritten)]
    by_cases known : fs.validIno ino = true
    swap
    · have refused : ∀ inode, (lib env).exec (.writeNewInode ino inode) fs.advance =
          (EXT2_ET_BAD_INODE_NUM, fs.advance) := fun inode => if_neg known
      rw [refused]
      dsimp only
      rw [if_pos (by decide)]
      rw [Bool.not_eq_true] at known
      exact .inl ⟨.inr fun other same => by cases same; exact .inl known, ⟨_, rfl⟩, still⟩
    have wrote : ∀ inode, ((lib env).exec (.writeNewInode ino inode) fs.advance).1 = 0 :=
      fun inode => @writeInode_rc δ env fs.advance ino inode known
    have dropped : faults.tail.tail.tail.tail.tail = faults.drop 5 := by
      simp only [← List.drop_one, List.drop_drop]
    rw [wrote, if_neg (not_not.mpr rfl), leads_bind, leads_lift, faultyLib_never
      (fun _ => rfl), dropped]
    refine (createEnded_link lawful known (ext2fsNewInode_ok found) _).mono
      fun result next ended => ?_
    rw [CreateEnded, show (Fails faults 3 ∨ ∀ other, (.ok ino : Except Errcode Nat) = .ok other →
      fs.validIno other = false ∨
        ((fs.withNewFile env perms mode other).faultyAttempt env parent name
        other filetype (faults.drop 5)).StaysOut) ↔
      ((fs.withNewFile env perms mode ino).faultyAttempt env parent name ino filetype
        (faults.drop 5)).StaysOut by simp [unwritten, known]]
    exact ended

variable {ctx : FuseCtx}

/-- After a creation that was not blocked the entry stays, whatever happens to the file. -/
theorem leads_touched {α : Type} {created : Fs δ} {program : Prog δ α}
    (more : ((created.ns env).ents parent).length = ((fs.ns env).ents parent).length + 1)
    (keeps : Keeps (faultyLib env) (fun state => state.1.dirs = created.dirs) program) :
    Leads (faultyLib env) program
      (fun _ next => ¬ Untouched env parent fs next.1) (created, faults) := by
  refine (keeps (created, faults) rfl).mono fun _ next dirs untouched => ?_
  have entries : (next.1.ns env).ents parent = (created.ns env).ents parent := by
    simp only [Fs.ns, dirs]
  have lengths := congrArg List.length untouched.entries
  rw [entries] at lengths
  omega

/-- A refused op_create leaves the parent untouched exactly when it was stopped before the entry.
-/
theorem opCreate_untouched_iff (lawful : env.dir.Lawful) (mode : Nat) (flags : OpenFlags) :
    Leads (faultyLib env) (opCreate ctx parent name mode flags)
      (fun replies next => Refused replies →
      (Untouched env (EXT2FS_INO parent) fs next.1 ↔
        CreateBlocked env (some ctx) (EXT2FS_INO parent)
        name (LINUX_S_IFREG ||| (mode &&& 0o777)) EXT2_FT_REG_FILE fs faults)) (fs, faults) := by
  refine leads_bind_of fun result ⟨created, rest⟩ outcome => ?_
  obtain ⟨blocked, ⟨rc, rfl⟩, untouched⟩ | ⟨unblocked, more⟩ :=
    (doCreate_faulty lawful _ _ _).outcome outcome
  · exact fun _ => iff_of_true untouched blocked
  · refine (leads_touched more ?_).mono fun _ _ touched _ => iff_of_false touched unblocked
    obtain rc | ⟨ino, inode⟩ := result
    · exact keeps_pure _
    refine keeps_bind (keeps_doOpen _ _) fun opened => ?_
    cases opened with
    | error rc => exact keeps_pure _
    | ok efile => exact keeps_bind (keeps_onFiles rfl) fun _ => keeps_pure _

/-- The same of a refused op_symlink. -/
theorem opSymlink_untouched_iff (lawful : env.dir.Lawful) (target : Name) :
    Leads (faultyLib env) (opSymlink ctx target parent name) (fun replies next => Refused replies →
      (Untouched env (EXT2FS_INO parent) fs next.1 ↔
        CreateBlocked env (some ctx) (EXT2FS_INO parent)
        name (LINUX_S_IFLNK ||| 0o777) EXT2_FT_UNKNOWN fs faults)) (fs, faults) := by
  refine leads_bind_of fun result ⟨created, rest⟩ outcome => ?_
  obtain ⟨blocked, ⟨rc, rfl⟩, untouched⟩ | ⟨unblocked, more⟩ :=
    (doCreate_faulty lawful _ _ _).outcome outcome
  · exact fun _ => iff_of_true untouched blocked
  · refine (leads_touched more ?_).mono fun _ _ touched _ => iff_of_false touched unblocked
    obtain rc | ⟨ino, inode⟩ := result
    · exact keeps_pure _
    refine keeps_bind (keeps_doOpen _ _) fun opened => ?_
    cases opened with
    | error rc => exact keeps_pure _
    | ok efile =>
      refine keeps_bind (keeps_doWrite _ _ _ _) fun _ => keeps_ite (keeps_pure _) ?_
      refine keeps_bind (keeps_bind (keeps_onFiles rfl) fun _ => keeps_pure _) fun _ => ?_
      refine keeps_ite (keeps_pure _) (keeps_bind (keeps_onFiles rfl) fun _ => ?_)
      exact keeps_ite (keeps_pure _) (keeps_pure _)

end Creates

section Hardlinks

variable {env : Env δ} {fs : Fs δ} {faults : List (Option Fault)} {dir ino : Nat} {name : Name}

/-- The filesystem `op_link` enters the name in: the count is raised already. -/
def Fs.withRaised (fs : Fs δ) (ino : Nat) : Fs δ :=
  { fs with inodeTab := Function.update fs.inodeTab ino (fs.inodeTab ino).raiseLinks }

/-- The name has gone in and an error is reported all the same, or the name does not go in, the
inode is in use and the write that would restore its count fails. -/
def LinkUnrestored (env : Env δ) (dir : Nat) (name : Name) (ino : Nat) (fs : Fs δ)
    (faults : List (Option Fault)) : Prop :=
  let attempt := (fs.withRaised ino).faultyAttempt env dir name ino
    (ext2FileType (fs.inodeTab ino).iMode) (faults.drop 2)
  fs.validIno ino = true ∧ ¬ Fails faults 0 ∧ ¬ Fails faults 1 ∧
    (attempt.HalfIn ∨ ((fs.ns env).used ino = true ∧ attempt.StaysOut ∧ attempt.NextFails))

/-- A raised count, in the name space. -/
theorem ns_withRaised (valid : fs.validIno ino = true) :
    (fs.withRaised ino).ns env =
      (fs.ns env).setInode ino ((fs.ns env).mode ino) (((fs.ns env).links ino + 1) % 2 ^ 16) := by
  have wrote := @ns_writeInode δ env fs ino (fs.inodeTab ino).raiseLinks valid
  rw [ext2fsWriteInode, if_pos valid] at wrote
  rw [withRaised, wrote, raiseLinks_mode]
  rfl

/-- A refused op_link leaves the parent untouched exactly when it was stopped before the entry. -/
theorem opLink_untouched_iff (lawful : env.dir.Lawful) (narrow : (fs.ns env).Narrow) {ctx : FuseCtx}
    {number newparent : Nat} :
    Leads (faultyLib env) (opLink ctx number newparent name) (fun replies next => Refused replies →
      (Untouched env (EXT2FS_INO newparent) fs next.1 ↔
        ¬ LinkUnrestored env (EXT2FS_INO newparent) name (EXT2FS_INO number) fs faults))
          (fs, faults) := by
  have same : Untouched env (EXT2FS_INO newparent) fs fs := ⟨rfl, fun _ _ => rfl⟩
  rw [opLink]
  refine leads_bind_of fun _ _ allowed => ?_
  cases allowed
  rw [if_neg (not_not.mpr rfl)]
  generalize EXT2FS_INO newparent = dir at same ⊢
  generalize EXT2FS_INO number = ino
  by_cases unread : Fails faults 0
  · rw [leads_bind, Leads, run_readInode_failed unread]
    exact fun _ => iff_of_true same fun unrestored => unrestored.2.1 unread
  by_cases valid : fs.validIno ino = true
  swap
  · rw [leads_bind, readInode, leads_bind, leads_lift, faultyLib_ok unread, lib_readInode,
      ext2fsReadInode, if_neg valid]
    exact fun _ => iff_of_true same fun unrestored => valid unrestored.1
  rw [leads_bind, Leads, run_readInode_ok unread valid]
  dsimp only
  rw [raiseLinks_mode]
  by_cases unwritten : Fails faults 1
  · rw [leads_bind, Leads, run_writeInode_failed ((fails_tail 0).mpr unwritten)]
    exact fun _ => iff_of_true same fun unrestored => unrestored.2.2.1 unwritten
  rw [leads_bind, Leads, run_writeInode_ok (mt (fails_tail 0).mp unwritten) valid]
  dsimp only
  rw [if_neg (not_not.mpr rfl)]
  have dropped : faults.tail.tail = faults.drop 2 := by
    simp only [← List.drop_one, List.drop_drop]
  rw [dropped]
  change Leads _ _ _ (fs.withRaised ino, _)
  refine leads_bind_of ?_
  rintro rc ⟨linked, rest⟩ outcome
  have raisedNs := @ns_withRaised δ env fs ino valid
  have before : env.dir.entries ((fs.withRaised ino).dirs dir) = (fs.ns env).ents dir := rfl
  rw [LinkUnrestored, eq_true valid, true_and, and_iff_right unread, and_iff_right unwritten]
  set attempt := (fs.withRaised ino).faultyAttempt env dir name ino
    (ext2FileType (fs.inodeTab ino).iMode) (faults.drop 2)
  obtain ⟨nextFails, ⟨-, rfl, -⟩ | ⟨half, rfl, contents, refilled, inserts⟩ |
      ⟨staysOut, rfl, contents, refilled, entries⟩⟩ :=
    (leads_doLink_faulty lawful _ dir name ino _ _).outcome outcome
  · rw [if_neg (not_not.mpr rfl), leads_bind, leads_lift, faultyLib_never (fun _ => rfl)]
    rintro ⟨reply, inReplies, notOk⟩
    rw [List.mem_singleton.mp inReplies] at notOk
    cases notOk
  · have longer : ((linked.ns env).ents dir).length = ((fs.ns env).ents dir).length + 1 := by
      rw [refilled.ns, setEnts_ents, Function.update_self, ← before]
      exact inserts_length inserts
    rw [if_pos (by decide)]
    refine (leads_touched longer ?_).mono fun _ _ touched _ =>
      iff_of_false touched (not_not.mpr (.inl half))
    exact keeps_bind (keeps_bind (keeps_onFiles rfl) fun _ => keeps_pure _) fun _ =>
      keeps_ite (keeps_pure _) (keeps_pure _)
  have unchanged := (refilled.ns_same entries).trans raisedNs
  have notHalf : ¬ attempt.HalfIn := staysOut.2
  rw [if_pos (by decide), or_iff_right notHalf, eq_true staysOut, true_and,
    ← nextFails]
  have validLinked : linked.validIno ino = true := by
    change (linked.ns env).valid ino = true
    rw [unchanged]
    exact valid
  by_cases lost : Fails rest 0
  · rw [leads_bind, Leads, run_writeInode_failed lost]
    change _ → (Untouched env dir fs linked ↔ _)
    have counts : ∀ other, (linked.ns env).links other = (fs.ns env).links other ∨ other = ino := by
      intro other
      by_cases own : other = ino
      · exact .inr own
      · rw [unchanged]
        exact .inl (Function.update_of_ne own _ _)
    have raised : (linked.ns env).links ino ≠ (fs.ns env).links ino := by
      have bound := narrow ino
      rw [unchanged]
      simp only [setInode_links, Function.update_self]
      omega
    refine fun _ => ⟨fun untouched both => raised (untouched.counts ino both.1), fun restored => ?_⟩
    refine ⟨by rw [unchanged]; rfl, fun other otherUsed => (counts other).resolve_right ?_⟩
    rintro rfl
    exact restored ⟨otherUsed, lost⟩
  · rw [leads_bind, Leads, run_writeInode_ok lost validLinked]
    have validNs : (linked.ns env).valid ino = true := validLinked
    have written := @ns_writeInode δ env linked ino (fs.inodeTab ino).raiseLinks.lowerLinks validNs
    have lowered : (fs.inodeTab ino).raiseLinks.lowerLinks.iLinksCount = (fs.ns env).links ino := by
      have bound : (fs.inodeTab ino).iLinksCount < 2 ^ 16 := narrow ino
      simp only [Inode.raiseLinks, Inode.lowerLinks, Fs.ns]
      omega
    rw [ext2fsWriteInode, if_pos validLinked, unchanged, lowerLinks_mode, raiseLinks_mode,
      lowered] at written
    have restored : Untouched env dir fs { linked with
        inodeTab := Function.update linked.inodeTab ino
          (fs.inodeTab ino).raiseLinks.lowerLinks } := by
      constructor
      · rw [written]
        rfl
      · intro other _
        rw [written]
        by_cases own : other = ino
        · subst own
          simp
        · simp [own]
    exact fun _ => iff_of_true restored fun both => lost both.2

end Hardlinks

/-- **An error leaves no trace exactly when it came before the name.** A creation that replies with
an error leaves the directory and the counts as they were if and only if it was blocked before the
name went in; of a hard link that fails, if and only if the raised count could be restored. -/
theorem failed_create_untouched_iff {env : Env δ} (lawful : env.dir.Lawful) {fs : Fs δ}
    (narrow : (fs.ns env).Narrow) (faults : List (Option Fault)) (ctx : FuseCtx) (parent : Nat)
    (name : Name) :
    (∀ mode flags, Leads (faultyLib env) (opCreate ctx parent name mode flags) (fun replies next =>
      Refused replies → (Untouched env (EXT2FS_INO parent) fs next.1 ↔ CreateBlocked env (some ctx)
        (EXT2FS_INO parent) name (LINUX_S_IFREG ||| (mode &&& 0o777)) EXT2_FT_REG_FILE fs faults))
      (fs, faults)) ∧
    (∀ target, Leads (faultyLib env) (opSymlink ctx target parent name) (fun replies next =>
      Refused replies → (Untouched env (EXT2FS_INO parent) fs next.1 ↔ CreateBlocked env (some ctx)
        (EXT2FS_INO parent) name
        (LINUX_S_IFLNK ||| 0o777) EXT2_FT_UNKNOWN fs faults)) (fs, faults)) ∧
    ∀ ino, Leads (faultyLib env) (opLink ctx ino parent name) (fun replies next =>
      Refused replies → (Untouched env (EXT2FS_INO parent) fs next.1 ↔
        ¬ LinkUnrestored env (EXT2FS_INO parent) name (EXT2FS_INO ino) fs faults)) (fs, faults) :=
  ⟨opCreate_untouched_iff lawful, opSymlink_untouched_iff lawful,
    fun _ => opLink_untouched_iff lawful narrow⟩

/-- Without a free inode the symlink is refused and nothing is left behind. -/
theorem failed_create_untouched_blocked :
    let outcome := (opSymlink ⟨0, 0⟩ [0x61] 1 [0x63]).run (faultyLib listEnv)
      (twoFiles, [none, some ioFault])
    Refused outcome.1 ∧ Untouched listEnv 2 twoFiles outcome.2.1 := by
  have refused : Refused ((opSymlink ⟨0, 0⟩ [0x61] 1 [0x63]).run (faultyLib listEnv)
      (twoFiles, [none, some ioFault])).1 := ⟨_, List.mem_singleton_self _, rfl⟩
  obtain ⟨-, symlink, -⟩ := failed_create_untouched_iff listDir_lawful twoFiles_narrow
    [none, some ioFault] ⟨0, 0⟩ 1 [0x63]
  exact ⟨refused, (symlink [0x61] refused).mpr (.inr (.inr (.inr (.inl ⟨_, rfl⟩))))⟩

/-- `twoFiles` with no free block. -/
def fullVolume : Fs (List Dirent) :=
  { twoFiles with vol := { twoFiles.vol with blockMap := fun _ => true } }

/-- On a volume without a free block `op_symlink` replies with an error, and the new name is
there. -/
theorem symlink_left_behind :
    let outcome := (opSymlink ⟨0, 0⟩ [0x61] 1 [0x63]).run (faultyLib listEnv) (fullVolume, [])
    Refused outcome.1 ∧ ((outcome.2.1.ns listEnv).ents 2).any
      (fun entry => entry.name == [0x63]) = true ∧
      ¬ Untouched listEnv 2 fullVolume outcome.2.1 := by
  refine ⟨⟨_, List.mem_singleton_self _, rfl⟩, by decide +kernel, fun untouched => ?_⟩
  exact absurd (congrArg List.length untouched.entries) (by decide +kernel)

end Ext2Fuse
