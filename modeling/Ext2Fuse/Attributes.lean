import Ext2Fuse.FuseDirent
import Ext2Fuse.FileSizes
import Ext2Fuse.Replies

/-!
# Replied attributes

The replies that carry attributes, compared with the inode on disk at the moment the reply
is sent. Every handler but one fills its reply from a copy that is still what the disk
has; `op_symlink` fills it from the copy `do_create` made, before the target was written.
-/

namespace Ext2Fuse

open Lib Program Fs

variable {δ : Type}

/-- The inode number `op_getattr` and `op_setattr` are about. -/
def Request.target : Request → Option Nat
  | getattr ino | setattr ino _ => some (EXT2FS_INO ino)
  | _ => none

/-- The requests whose reply carries attributes. -/
def Request.repliesAttributes : Request → Bool
  | lookup .. | getattr .. | setattr .. | create .. | mkdir .. | symlink .. | link .. => true
  | _ => false

/-- Is it a request to `op_symlink`? -/
def Request.isSymlink : Request → Bool
  | symlink _ _ _ => true
  | _ => false

/-- The kernel makes no hard links to directories. -/
def Request.Sent (fs : Fs δ) : Request → Prop
  | link ino _ _ => LINUX_S_ISDIR (fs.inodeTab (EXT2FS_INO ino)).iMode = false
  | _ => True

/-- The attributes of a reply are those of the inode on disk. -/
def Reply.Stored (fs : Fs δ) (request : Request) : Reply → Prop
  | attr stat => request.target = some stat.stIno ∧
      stat = fillStatbuf fs.super stat.stIno (fs.inodeTab stat.stIno)
  | entry ino generation stat | create ino generation stat _ =>
      generation = (fs.inodeTab ino).iGeneration ∧
        stat = fillStatbuf fs.super ino (fs.inodeTab ino)
  | _ => True

instance (fs : Fs δ) (request : Request) : (reply : Reply) → Decidable (reply.Stored fs request)
  | .attr _ | .entry .. | .create .. => inferInstanceAs (Decidable (_ ∧ _))
  | .err _ | .open _ | .buf _ | .write _ | .readlink _ | .statfs _ =>
      inferInstanceAs (Decidable True)

/-- The attributes of all replies are those on disk. -/
def AllStored (request : Request) (replies : List Reply) (fs : Fs δ) : Prop :=
  ∀ reply ∈ replies, reply.Stored fs request

/-- A single reply is checked on its own. -/
theorem allStored_singleton {request : Request} {reply : Reply} {fs : Fs δ} :
    AllStored request [reply] fs ↔ reply.Stored fs request := by
  simp [AllStored]

/-- An error reports no attributes. -/
theorem allStored_err (request : Request) (rc : Errcode) (fs : Fs δ) :
    AllStored request [.err rc] fs :=
  allStored_singleton.mpr trivial

section Leads

variable {env : Env δ} {fs : Fs δ} {ino : Nat}

/-- The two ends of read_inode. -/
theorem leads_readInode {post : Except Errcode Inode → Fs δ → Prop} (failed : post (.error 1) fs)
    (found : fs.validIno ino = true → post (.ok (fs.inodeTab ino)) fs) :
    Leads (lib env) (readInode ino) post fs := by
  by_cases valid : fs.validIno ino = true
  · rw [Leads, run_readInode valid]
    exact found valid
  · simpa [Leads, readInode, ext2fsReadInode, valid] using failed

/-- The two ends of write_inode. -/
theorem leads_writeInode {inode : Inode} {post : Errcode → Fs δ → Prop} (failed : post 1 fs)
    (written : fs.validIno ino = true →
      post 0 { fs with inodeTab := Function.update fs.inodeTab ino inode }) :
    Leads (lib env) (writeInode ino inode) post fs := by
  by_cases valid : fs.validIno ino = true
  · rw [Leads, run_writeInode valid]
    exact written valid
  · simpa [Leads, writeInode, ext2fsWriteInode, valid, EXT2_ET_BAD_INODE_NUM] using failed

/-- An inode is written when its number is in range. -/
theorem ext2fsWriteInode_ok {fs' : Fs δ} {inode : Inode}
    (outcome : fs.ext2fsWriteInode ino inode = (0, fs')) :
    fs.validIno ino = true ∧
      fs' = { fs with inodeTab := Function.update fs.inodeTab ino inode } := by
  rw [ext2fsWriteInode] at outcome
  split at outcome
  · rename_i valid
    cases outcome
    exact ⟨valid, rfl⟩
  · cases outcome

/-- ext2fs_write_inode fails with one code only. -/
theorem ext2fsWriteInode_code (fs : Fs δ) (ino : Nat) (inode : Inode) :
    (fs.ext2fsWriteInode ino inode).1 = 0 ∨
    (fs.ext2fsWriteInode ino inode).1 = EXT2_ET_BAD_INODE_NUM := by
  rw [ext2fsWriteInode]
  split
  · exact .inl rfl
  · exact .inr rfl

/-- With the switch off check_perms passes. -/
theorem leads_checkPerms {perms : Perms} {requested : Nat} {post : Errcode → Fs δ → Prop}
    (passed : post 0 fs) : Leads (lib env) (checkPerms perms ino requested) post fs :=
  passed

/-- The end of the handlers that reply an entry. -/
theorem leads_entry {request : Request} {inode : Inode} (stored : fs.inodeTab ino = inode) :
    Leads (lib env) (do
        let super ← lift .super
        return [.entry ino inode.iGeneration (fillStatbuf super ino inode)])
      (AllStored request) fs := by
  rw [leads_bind, leads_lift, lib_super, leads_pure, allStored_singleton, ← stored]
  exact ⟨rfl, rfl⟩

/-- `ext2fs_link` into what is no directory fails. -/
theorem doLink_isDir {dir target filetype : Nat} {name : Name} {fs' : Fs δ}
    (outcome : (doLink dir name target filetype).run (lib env) fs = (0, fs')) :
    LINUX_S_ISDIR (fs.inodeTab dir).iMode = true := by
  by_contra notDir
  have check : fs.ext2fsCheckDirectory dir = EXT2_ET_BAD_INODE_NUM ∨
      fs.ext2fsCheckDirectory dir = EXT2_ET_NO_DIRECTORY :=
    (ext2fsCheckDirectory_code fs dir).resolve_left
      fun checked => notDir (ext2fsCheckDirectory_ok checked).2
  have refused : ((lib env).exec (.link dir name target filetype) fs).1 =
      fs.ext2fsCheckDirectory dir := by
    change (fs.ext2fsLink env dir name target filetype).1 = _
    rw [ext2fsLink, if_neg]
    rcases check with is | is <;> rw [is] <;> decide
  have notFull : fs.ext2fsCheckDirectory dir ≠ EXT2_ET_DIR_NO_SPACE := by
    rcases check with is | is <;> rw [is] <;> decide
  have notZero : fs.ext2fsCheckDirectory dir ≠ 0 := by
    rcases check with is | is <;> rw [is] <;> decide
  rw [doLink, run_bind, run_lift, run_ite, refused, if_neg notFull, run_pure, if_pos notZero]
    at outcome
  cases outcome

/-- A link that succeeds was made in a directory, and leaves every other inode alone. -/
theorem doLink_ok {dir target filetype : Nat} {name : Name} {fs' : Fs δ}
    (outcome : (doLink dir name target filetype).run (lib env) fs = (0, fs')) :
    LINUX_S_ISDIR (fs.inodeTab dir).iMode = true ∧ fs'.super = fs.super ∧
      (ino ≠ dir → fs'.inodeTab ino = fs.inodeTab ino) := by
  have entered := doLink_enters env fs dir name target filetype ino
  rw [outcome] at entered
  exact ⟨doLink_isDir outcome, entered.resizes.super, entered.apart⟩

/-- A new inode number is not a reserved one. -/
theorem newInode_reserved {dir : Nat} (picked : fs.ext2fsNewInode dir = .ok ino) :
    fs.super.sFirstIno ≤ ino := by
  simp only [ext2fsNewInode] at picked
  split at picked
  · rename_i candidate found
    cases picked
    have member := List.mem_of_find?_eq_some found
    simp only [Volume.searchOrder, List.mem_append, List.mem_range'_1] at member
    omega
  · cases picked

/-- The inode `do_create` writes. -/
def newFileInode (perms : Perms) (mode now : Nat) : Inode :=
  { setPerms perms {} with
    iMode := mode, iAtime := now, iCtime := now, iMtime := now, iLinksCount := 1 }

/-- The filesystem with the inode written and marked, before it is linked. -/
def Fs.created (fs : Fs δ) (ino : Nat) (inode : Inode) : Fs δ :=
  ({ fs.advance with inodeTab := Function.update fs.inodeTab ino inode } : Fs
    δ).ext2fsInodeAllocStats2
    ino true false

/-- A created inode is what the table has at its number. -/
theorem created_self (ino : Nat) (inode : Inode) : (fs.created ino inode).inodeTab ino = inode :=
  Function.update_self _ _ _

/-- What `do_create` has done when it returns a new inode: it was free, is written and marked, and
the link was made. -/
theorem doCreate_cases (perms : Perms) (parent mode filetype : Nat) (name : Name) :
    Leads (lib env) (doCreate perms parent name mode filetype) (fun result fs' =>
      (∃ rc, rc ≠ 0 ∧ result = .error rc) ∨ ∃ ino inode,
        result = .ok (ino, inode) ∧ fs.ext2fsNewInode parent = .ok ino ∧ fs.validIno ino = true ∧
          inode = newFileInode perms mode (env.time fs.vol.tick) ∧
          (doLink parent name ino filetype).run (lib env) (fs.created ino inode) =
          (0, fs')) fs := by
  have eio : EIO ≠ 0 := by decide
  have eacces : EACCES ≠ 0 := by decide
  have enospc : ENOSPC ≠ 0 := by decide
  rw [doCreate, leads_bind]
  refine leads_readInode (.inl ⟨_, eio, rfl⟩) fun _ => ?_
  dsimp only
  split
  · exact .inl ⟨_, eacces, rfl⟩
  refine leads_lift_bind fun found _ outcome => ?_
  obtain ⟨rfl, rfl⟩ := Prod.mk.inj outcome
  split
  · exact .inl ⟨_, enospc, rfl⟩
  rename_i new picked
  refine leads_lift_bind fun now _ outcome => ?_
  obtain ⟨rfl, rfl⟩ := Prod.mk.inj outcome
  refine leads_lift_bind fun rc written outcome => ?_
  split
  · exact .inl ⟨_, eio, rfl⟩
  rename_i succeeded
  rw [not_not] at succeeded
  subst succeeded
  obtain ⟨valid, rfl⟩ := ext2fsWriteInode_ok outcome
  refine leads_lift_bind fun _ taken outcome => ?_
  obtain ⟨-, rfl⟩ := Prod.mk.inj outcome
  refine leads_bind_of fun rc linked outcome => ?_
  split
  · rename_i failed
    exact .inl ⟨_, failed, rfl⟩
  rename_i succeeded
  rw [not_not] at succeeded
  subst succeeded
  exact .inr ⟨new, _, rfl, picked, valid, rfl, outcome⟩

/-- What `do_create` returns: an error, or the inode as it is on disk, an empty one. -/
def Created (result : Except Errcode (Nat × Inode)) (fs : Fs δ) : Prop :=
  match result with
  | .error rc => rc ≠ 0
  | .ok (ino, inode) => fs.validIno ino = true ∧ fs.inodeTab ino = inode ∧ inode.iSize = 0

/-- do_create of a file returns the inode that it wrote. -/
theorem doCreate_created {perms : Perms} {parent mode filetype : Nat} {name : Name}
    (isFile : LINUX_S_ISDIR mode = false) :
    Leads (lib env) (doCreate perms parent name mode filetype) Created fs := by
  refine (doCreate_cases perms parent mode filetype name).mono ?_
  rintro result fs' (⟨rc, failed, rfl⟩ | ⟨ino, inode, rfl, -, valid, made, linked⟩)
  · exact failed
  have empty : inode.iSize = 0 := by
    rw [made, newFileInode]
    cases perms <;> rfl
  -- the new inode is no directory, so it is not the one linked into
  obtain ⟨isDir, super, kept⟩ := doLink_ok linked
  have apart : ino ≠ parent := by
    rintro rfl
    rw [created_self, made] at isDir
    exact absurd isDir (by rw [newFileInode, isFile]; decide)
  exact ⟨(validIno_congr super ino).trans valid, (kept apart).trans (created_self ino inode), empty⟩

end Leads

section Handlers

variable {env : Env δ} {fs : Fs δ}

/-- op_lookup reports what the table has. -/
theorem opLookup_stored (ctx : FuseCtx) (parent : Nat) (name : Name) (request : Request) :
    Leads (lib env) (opLookup ctx parent name) (AllStored request) fs := by
  rw [opLookup]
  split
  · exact allStored_err _ _ _
  rw [leads_bind, doLookup, leads_bind]
  refine leads_readInode (allStored_err _ _ _) fun _ => ?_
  dsimp only
  split
  · exact allStored_err _ _ _
  refine leads_lift_bind fun found _ outcome => ?_
  obtain ⟨rfl, rfl⟩ := Prod.mk.inj outcome
  split
  · exact allStored_err _ _ _
  rw [leads_bind]
  refine leads_readInode (allStored_err _ _ _) fun _ => ?_
  exact leads_entry rfl

/-- What `op_getattr` reports of an inode the table has. -/
theorem run_opGetattr {ino : Nat} (valid : fs.validIno (EXT2FS_INO ino) = true) :
    (opGetattr ino).run (lib env) fs =
      ([.attr (fillStatbuf fs.super (EXT2FS_INO ino) (fs.inodeTab (EXT2FS_INO ino)))], fs) := by
  rw [opGetattr, run_bind, run_readInode valid]
  rfl

/-- op_getattr reports what the table has. -/
theorem opGetattr_stored (ino : Nat) :
    Leads (lib env) (opGetattr ino) (AllStored (.getattr ino)) fs := by
  rw [opGetattr, leads_bind]
  refine leads_readInode (allStored_err _ _ _) fun _ => ?_
  rw [leads_bind, leads_lift, lib_super, leads_pure, allStored_singleton]
  exact ⟨rfl, rfl⟩

/-- The last part of op_setattr reports what it wrote. -/
theorem setAttrRest_stored (ctx : FuseCtx) (ino : Nat) (attr : SetAttr) :
    Leads (lib env) (setAttrRest ctx ino attr) (AllStored (.setattr ino attr)) fs := by
  rw [setAttrRest, leads_bind]
  refine leads_readInode (allStored_err _ _ _) fun _ => ?_
  refine leads_lift_bind fun now _ outcome => ?_
  obtain ⟨rfl, rfl⟩ := Prod.mk.inj outcome
  rw [leads_bind]
  refine leads_writeInode (allStored_err _ _ _) fun _ => ?_
  rw [if_neg (by simp), leads_bind, leads_lift, lib_super, leads_pure, allStored_singleton]
  refine ⟨rfl, ?_⟩
  simp [fillStatbuf]

/-- op_setattr reports what the table has at the end, with or without truncation. -/
theorem opSetattr_stored (ctx : FuseCtx) (ino : Nat) (attr : SetAttr) :
    Leads (lib env) (opSetattr ctx ino attr) (AllStored (.setattr ino attr)) fs := by
  rw [opSetattr]
  split
  · exact setAttrRest_stored ctx ino attr
  · refine leads_bind_of fun rc truncated _ => ?_
    split
    · exact allStored_err _ _ _
    · exact setAttrRest_stored ctx ino attr

/-- op_mkdir reads the new inode back before it replies. -/
theorem opMkdir_stored (ctx : FuseCtx) (parent : Nat) (name : Name) (request : Request) :
    Leads (lib env) (opMkdir ctx parent name) (AllStored request) fs := by
  refine leads_bind_of fun made later _ => ?_
  cases made with
  | error rc =>
      rw [replyMkdir]
      split
      · exact fun reply none => absurd none List.not_mem_nil
      · exact allStored_err _ _ _
  | ok ino =>
      rw [replyMkdir, leads_bind]
      refine leads_readInode (allStored_err _ _ _) fun _ => ?_
      exact leads_entry rfl

/-- The copy `op_link` replies is the one it has written, as the link changes the inode of
the directory only. -/
theorem opLink_stored (ctx : FuseCtx) (ino newparent : Nat) (newname : Name)
    (sent : (Request.link ino newparent newname).Sent fs) (request : Request) :
    Leads (lib env) (opLink ctx ino newparent newname) (AllStored request) fs := by
  rw [opLink, leads_bind]
  refine leads_checkPerms ?_
  rw [if_neg (by simp), leads_bind]
  refine leads_readInode (allStored_err _ _ _) fun valid => ?_
  rw [leads_bind]
  refine leads_writeInode (allStored_err _ _ _) fun _ => ?_
  rw [if_neg (by simp)]
  refine leads_bind_of fun rc linked outcome => ?_
  split
  · refine leads_bind_of fun rc reverted _ => ?_
    split <;> exact allStored_err _ _ _
  rename_i succeeded
  rw [not_not] at succeeded
  subst succeeded
  obtain ⟨isDir, -, kept⟩ := doLink_ok outcome
  have apart : EXT2FS_INO ino ≠ EXT2FS_INO newparent := by
    intro same
    rw [← same] at isDir
    simp [Inode.raiseLinks, show LINUX_S_ISDIR _ = false from sent] at isDir
  refine leads_entry ?_
  rw [kept apart]
  simp

/-- Opening the file that has just been created changes nothing, as it is empty. -/
theorem run_doOpen_empty {ino : Nat} (valid : fs.validIno ino = true)
    (empty : (fs.inodeTab ino).iSize = 0) (flags : OpenFlags) :
    (doOpen none ino flags).run (lib env) fs =
      (.ok { ino := ino, inode := fs.inodeTab ino
             writable := flags.trunc || flags.rdwr || flags.wronly }, fs) := by
  cases trunc : flags.trunc with
  | false => exact run_doOpen valid none trunc
  | true =>
      rw [run_doOpen_trunc valid none trunc]
      simp [doShorten, empty]

/-- op_create reports what the table has, as opening a new file changes nothing. -/
theorem opCreate_stored (ctx : FuseCtx) (parent : Nat) (name : Name) (mode : Nat)
    (flags : OpenFlags) (request : Request) :
    Leads (lib env) (opCreate ctx parent name mode flags) (AllStored request) fs := by
  rw [opCreate, leads_bind]
  refine (doCreate_created (regular_isFile mode)).mono fun result created stored => ?_
  rcases result with rc | ⟨ino, inode⟩
  · exact allStored_err _ _ _
  obtain ⟨valid, recorded, empty⟩ := stored
  have opened : (doOpen none ino { flags with creat := false }).run (lib env) created = _ :=
    run_doOpen_empty valid (by rw [recorded]; exact empty) _
  refine leads_bind_of fun result later outcome => ?_
  rw [opened] at outcome
  cases outcome
  rw [leads_bind, leads_lift, lib_super, leads_pure, allStored_singleton, ← recorded]
  exact ⟨rfl, rfl⟩

end Handlers

section Size

/-- A handle of `ino` whose copy and whose inode on disk have the size `size`. -/
structure HasSize (fs : Fs δ) (ino size : Nat) (file : File) : Prop where
  valid : fs.validIno ino = true
  own : file.ino = ino
  copy : file.inode.iSize = size
  disk : (fs.inodeTab ino).iSize = size

variable {fs fs' : Fs δ} {ino size : Nat} {file file' : File} {rc : Errcode}

/-- Handle and disk having a size is their carrying it. -/
theorem hasSize_iff : HasSize fs ino size file ↔ Carries fs ino Inode.iSize size file :=
  ⟨fun ⟨valid, own, copy, disk⟩ => ⟨valid, own, copy, disk⟩,
    fun ⟨valid, own, copy, disk⟩ => ⟨valid, own, copy, disk⟩⟩

/-- Flushing a handle leaves its size and the disk's. -/
theorem ext2fsFileFlush_hasSize (hasSize : HasSize fs ino size file) :
    HasSize (fs.ext2fsFileFlush file).2.2 ino size (fs.ext2fsFileFlush file).2.1 :=
  hasSize_iff.mpr (ext2fsFileFlush_carries (fun _ _ _ => rfl) (hasSize_iff.mp hasSize))

/-- Data written to an empty file is its size, in the handle and on disk. -/
theorem doWrite_hasSize {env : Env δ} (hasSize : HasSize fs ino 0 file) {data : List UInt8}
    (some : data ≠ []) :
    Leads (lib env) (doWrite file ino data 0)
      (fun result fs' => result.1 = 0 → HasSize fs' ino data.length result.2.2) fs := by
  have sized : Sized Inode.iSize id fun _ size => size :=
    ⟨fun _ _ _ => rfl, fun _ => rfl, fun _ _ _ => rfl⟩
  have positive := List.length_pos_of_ne_nil some
  rw [doWrite, if_neg (Nat.not_lt_zero _)]
  refine (writeData_part sized (hasSize_iff.mp hasSize) data 0).mono ?_
  rintro result later (⟨-, -, within, -⟩ | ⟨-, narrow, -, -, after⟩ | ⟨failed, -⟩) done
  · change 0 + data.length ≤ 0 at within
    omega
  · rw [Nat.zero_add, Nat.mod_eq_of_lt narrow] at after
    exact hasSize_iff.mpr after
  · exact absurd done failed

/-- What a successful `op_symlink` has done: the inode is created, the target is written through a
fresh handle, and the handle is flushed. The reply is made of the inode as it was created. -/
def SymlinkMade (env : Env δ) (ctx : FuseCtx) (target : Name) (parent : Nat) (name : Name)
    (fs : Fs δ) (ino : Nat) (stat : Stat) (fs' : Fs δ) : Prop :=
  ∃ inode created bytes file written file',
    (doCreate (some ctx) (EXT2FS_INO parent) name (LINUX_S_IFLNK ||| 0o777)
      EXT2_FT_UNKNOWN).run (lib env)
      fs = (.ok (ino, inode), created) ∧
    created.validIno ino = true ∧ created.inodeTab ino = inode ∧ inode.iSize = 0 ∧
    (doWrite { ino := ino, inode := inode, writable := true } ino (target ++ [0]) 0).run
      (lib env) created =
      ((0, bytes, file), written) ∧
    written.ext2fsFileFlush file = (0, file', fs') ∧ stat = fillStatbuf fs'.super ino inode

/-- `op_symlink` replies one error, or the entry of what it has made, perhaps after an error. -/
theorem opSymlink_cases {env : Env δ} (ctx : FuseCtx) (target : Name) (parent : Nat) (name : Name) :
    Leads (lib env) (opSymlink ctx target parent name) (fun replies fs' =>
      (∃ rc, rc ≠ 0 ∧ replies = [.err rc]) ∨ ∃ ino generation stat,
        (replies = [.entry ino generation stat] ∨
          replies = [.err EIO, .entry ino generation stat]) ∧
          SymlinkMade env ctx target parent name fs ino stat fs') fs := by
  have isFile : LINUX_S_ISDIR (LINUX_S_IFLNK ||| 0o777) = false := by decide
  rw [opSymlink]
  refine leads_bind_of fun result created creates => ?_
  have stored := (@doCreate_created _ env fs (some ctx) (EXT2FS_INO parent) _ EXT2_FT_UNKNOWN name
    isFile).outcome creates
  rcases result with rc | ⟨ino, inode⟩
  · exact .inl ⟨rc, stored, rfl⟩
  obtain ⟨valid, recorded, empty⟩ := stored
  have opened : (doOpen none ino { wronly := true }).run (lib env) created = _ :=
    run_doOpen valid none rfl
  refine leads_bind_of fun result later outcome => ?_
  rw [opened] at outcome
  cases outcome
  refine leads_bind_of fun ⟨rc, bytes, file⟩ written writes => ?_
  dsimp only
  split
  · exact .inl ⟨rc, ‹_›, rfl⟩
  rename_i succeeded
  obtain rfl := not_not.mp succeeded
  refine leads_bind_of fun rc closed outcome => ?_
  rcases flush : written.ext2fsFileFlush file with ⟨closeRc, file', fs'⟩
  rw [doFileClose, run_bind, run_lift, lib_fileFlush flush] at outcome
  cases outcome
  split
  · exact .inl ⟨rc, ‹_›, rfl⟩
  rename_i flushed
  obtain rfl := not_not.mp flushed
  rw [leads_bind, leads_lift, lib_super]
  have made : SymlinkMade env ctx target parent name fs ino
    (fillStatbuf fs'.super ino inode) fs' := by
    rw [recorded] at writes
    exact ⟨inode, created, bytes, file, written, file', creates, valid, recorded, empty,
      writes, flush, rfl⟩
  dsimp only
  split
  · exact .inr ⟨ino, _, _, .inr rfl, made⟩
  · exact .inr ⟨ino, _, _, .inl rfl, made⟩

/-- The size on disk counts the NUL, and the reply has the size of the empty file. -/
theorem SymlinkMade.sized {env : Env δ} {ctx : FuseCtx} {target : Name} {parent : Nat} {name : Name}
    {stat : Stat} (symlink : SymlinkMade env ctx target parent name fs ino stat fs') :
    fs'.validIno ino = true ∧ (fs'.inodeTab ino).iSize = target.length + 1 ∧ stat.stSize = 0 := by
  obtain ⟨inode, created, bytes, file, written, file', -, valid, recorded, empty,
    writes, flush, rfl⟩ :=
    symlink
  have fresh : HasSize created ino 0 { ino := ino, inode := inode, writable := true } :=
    ⟨valid, rfl, empty, by rw [recorded]; exact empty⟩
  have sized := (doWrite_hasSize fresh (List.append_ne_nil_of_right_ne_nil target
    (List.cons_ne_nil 0 []))).outcome writes rfl
  have flushed := ext2fsFileFlush_hasSize sized
  rw [flush] at flushed
  refine ⟨flushed.valid, ?_, empty⟩
  rw [flushed.disk, List.length_append]
  rfl

/-- A successful `op_symlink` replies the size 0 of the inode it has created, and not the
size of the target it has written since. -/
theorem opSymlink_stale {env : Env δ} (ctx : FuseCtx) (target : Name) (parent : Nat) (name : Name)
    (request : Request) :
    Leads (lib env) (opSymlink ctx target parent name)
      (fun replies fs' => replies.all Reply.ok = true → ¬ AllStored request replies fs') fs := by
  refine (opSymlink_cases ctx target parent name).mono fun replies fs' cases succeeded stored => ?_
  obtain ⟨rc, failed, rfl⟩ | ⟨ino, generation, stat, replied, symlink⟩ := cases
  · simp [Reply.ok, failed] at succeeded
  obtain ⟨-, size, stale⟩ := symlink.sized
  have inReplies : Reply.entry ino generation stat ∈ replies := by
    rcases replied with rfl | rfl <;> simp
  obtain ⟨-, same⟩ := stored _ inReplies
  have sizes : stat.stSize = (fs'.inodeTab ino).iSize := congrArg Stat.stSize same
  omega

end Size

/-- A successful request replies the attributes of the inode as it is on disk when the
reply is sent, if and only if it is not an `op_symlink` request. -/
theorem attributes_stored_iff {env : Env δ} {fs fs' : Fs δ} (fuse : FuseDir) (ctx : FuseCtx)
    {request : Request} {replies : List Reply} (about : request.repliesAttributes = true)
    (sent : request.Sent fs)
    (served : (request.handler fuse ctx).run (lib env) fs = (replies, fs'))
    (succeeded : replies.all Reply.ok = true) :
    (∀ reply ∈ replies, reply.Stored fs' request) ↔ request.isSymlink = false := by
  have stored : Leads (lib env) (request.handler fuse ctx) (AllStored request) fs →
      request.isSymlink = false →
      ((∀ reply ∈ replies, reply.Stored fs' request) ↔ request.isSymlink = false) := by
    intro leads other
    rw [Leads, served] at leads
    exact iff_of_true leads other
  cases request with
  | lookup parent name => exact stored (opLookup_stored ctx parent name _) rfl
  | getattr ino => exact stored (opGetattr_stored ino) rfl
  | setattr ino attr => exact stored (opSetattr_stored ctx ino attr) rfl
  | mkdir parent name => exact stored (opMkdir_stored ctx parent name _) rfl
  | link ino newparent newname => exact stored (opLink_stored ctx ino newparent newname sent _) rfl
  | create parent name mode flags =>
      exact stored (opCreate_stored ctx parent name mode flags _) rfl
  | symlink target parent name =>
      have stale : Leads (lib env) (opSymlink ctx target parent name) _ fs :=
        opSymlink_stale ctx target parent name (.symlink target parent name)
      rw [Leads, show (opSymlink ctx target parent name).run (lib env) fs = _ from served] at stale
      exact iff_of_false (stale succeeded) (by rintro ⟨⟩)
  | _ => cases about

section Example

/-- What a request by root on the example filesystem replies, and what it leaves. -/
def servedOnTwoFiles (request : Request) : List Reply × Fs (List Dirent) :=
  (request.handler wireDir ⟨0, 0⟩).run (lib listEnv) twoFiles

/-- The file `a` gets the name `c`, and the reply is what is on disk. -/
theorem attributes_stored_iff_link :
    (servedOnTwoFiles (.link 11 1 [0x63])).1.length = 1 ∧
    (servedOnTwoFiles (.link 11 1 [0x63])).1.all Reply.ok = true ∧
      ∀ reply ∈ (servedOnTwoFiles (.link 11 1 [0x63])).1,
        reply.Stored (servedOnTwoFiles (.link 11 1 [0x63])).2 (.link 11 1 [0x63]) := by
  have succeeded : (servedOnTwoFiles (.link 11 1 [0x63])).1.all Reply.ok = true := by decide +kernel
  have sent : (Request.link 11 1 [0x63]).Sent twoFiles :=
    show LINUX_S_ISDIR (twoFiles.inodeTab 11).iMode = false by decide
  exact ⟨by decide +kernel, succeeded,
    (attributes_stored_iff wireDir ⟨0, 0⟩ rfl sent rfl succeeded).mpr rfl⟩

/-- A symlink `c` to `a` is replied with the size 0, and has the size 2 on disk. -/
theorem symlink_replies_stale :
    (servedOnTwoFiles (.symlink [0x61] 1 [0x63])).1.all Reply.ok = true ∧
      ¬ ∀ reply ∈ (servedOnTwoFiles (.symlink [0x61] 1 [0x63])).1,
        reply.Stored (servedOnTwoFiles (.symlink [0x61] 1 [0x63])).2
          (.symlink [0x61] 1 [0x63]) := by
  decide +kernel

end Example

end Ext2Fuse
