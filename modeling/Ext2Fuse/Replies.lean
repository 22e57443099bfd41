import Ext2Fuse.Lib.Host
import Ext2Fuse.Statfs
import Ext2Fuse.FuseDirent
import Mathlib.Order.Interval.Finset.Nat

/-!
# Requests and their replies

All requests `ext2fs_ops` has a handler for, and how often a handler replies. A
library call, `malloc` included, may respond anything here, and the process may end in it.
Three handlers can come to no reply by what they make of a response: `op_statfs` divides by it,
`op_readdir` writes to it, and `op_mkdir` tries again.
-/

namespace Ext2Fuse

open Lib Program

/-- A request to one of the handlers in `ext2fs_ops`. The inode numbers are those FUSE
uses; `read`, `write`, `flush` and `release` come with the handle in `fi->fh`, and
`readlink` with the bytes that happen to be behind its buffer. -/
inductive Request where
  | lookup (parent : Nat) (name : Name)
  | getattr (ino : Nat)
  | setattr (ino : Nat) (attr : SetAttr)
  | readlink (ino : Nat) (behind : List UInt8)
  | mkdir (parent : Nat) (name : Name)
  | rmdir (parent : Nat) (name : Name)
  | symlink (target : Name) (parent : Nat) (name : Name)
  | rename (parent : Nat) (name : Name) (newparent : Nat) (newname : Name)
  | link (ino newparent : Nat) (newname : Name)
  | unlink (parent : Nat) (name : Name)
  | open (ino : Nat) (flags : OpenFlags)
  | read (fh : File) (ino size off : Nat)
  | write (fh : File) (ino : Nat) (data : List UInt8) (off : Nat)
  | flush (fh : File)
  | release (fh : File)
  | fsync (ino : Nat)
  | opendir (ino : Nat) (flags : OpenFlags)
  | readdir (ino size off : Nat)
  | releasedir (fh : File)
  | statfs
  | access (ino mask : Nat)
  | create (parent : Nat) (name : Name) (mode : Nat) (flags : OpenFlags)

variable {δ : Type}

/-- `ext2fs_ops`: the handler of a request. -/
def Request.handler (fuse : FuseDir) (ctx : FuseCtx) : Request → Prog δ (List Reply)
  | lookup parent name => opLookup ctx parent name
  | getattr ino => opGetattr ino
  | setattr ino attr => opSetattr ctx ino attr
  | readlink ino behind => opReadlink ctx ino behind
  | mkdir parent name => opMkdir ctx parent name
  | rmdir parent name => opRmdir ctx parent name
  | symlink target parent name => opSymlink ctx target parent name
  | rename parent name newparent newname => opRename ctx parent name newparent newname
  | link ino newparent newname => opLink ctx ino newparent newname
  | unlink parent name => opUnlink ctx parent name
  | .open ino flags => opOpen ctx ino flags
  | read fh ino size off => do return (← opRead fh ino size off).1
  | write fh ino data off => do return (← opWrite fh ino data off).1
  | flush fh => do return (← opFlush fh).1
  | release fh => opRelease fh
  | fsync _ => opFsync
  | opendir ino flags => opOpen ctx ino flags
  | readdir ino size off => opReaddir fuse ctx ino size off
  | releasedir fh => opRelease fh
  | statfs => opStatfs
  | access ino mask => opAccess ctx ino mask
  | create parent name mode flags => opCreate ctx parent name mode flags

/-- The handler of a request, the loop of `do_mkdir` followed for a number of turns. -/
def Request.within (turns : Nat) (fuse : FuseDir) (ctx : FuseCtx) : Request → Prog δ (List Reply)
  | mkdir parent name => opMkdirWithin turns ctx parent name
  | request => request.handler fuse ctx

/-- What a handler needs of a response to go on: `op_statfs` a superblock it can compute with, and
`op_readdir` memory for its buffer. -/
def Request.Needs : Request → {β : Type} → LibCall δ β → β → Prop
  | statfs, _, .superBlock, sb => sb.Computable
  | readdir _ _ _, _, .realloc _, memory => memory = true
  | _, _, _, _ => True

section Once

/-- The handler has replied once. -/
def Once (replies : List Reply) : Prop := replies.length = 1

/-- The return code and the count of `do_write`: success means that all bytes were written. -/
def WroteAll (data : List UInt8) (result : Errcode × Nat × File) : Prop :=
  result.1 = 0 → result.2.1 = data.length

/-- A failed write promises nothing about the count. -/
theorem wroteAll_of_failed {data : List UInt8} {rc : Errcode} (failed : rc ≠ 0) (bytes : Nat)
    (fh : File) : WroteAll data (rc, bytes, fh) :=
  fun succeeded => absurd succeeded failed

/-- write_data ends with all bytes written or with an error. -/
theorem ends_writeData (fh : File) (ino : Nat) (data : List UInt8) (off : Nat) :
    Ends (WroteAll data) (writeData fh ino data off : Prog δ (Errcode × Nat × File)) := by
  have eio : EIO ≠ 0 := by decide
  simp only [writeData, ends_bind, ends_lift]
  rintro ⟨rc, bytes, written⟩
  dsimp only
  split
  · exact wroteAll_of_failed eio _ _
  · split
    · exact wroteAll_of_failed eio _ _
    · rename_i complete
      have all : bytes = data.length := not_not.mp complete
      split
      · exact fun _ => all
      · split
        · exact wroteAll_of_failed eio _ _
        · exact ends_bind_of_forall fun _ _ => all

/-- So does do_write. -/
theorem ends_doWrite (fh : File) (ino : Nat) (data : List UInt8) (off : Nat) :
    Ends (WroteAll data) (doWrite fh ino data off : Prog δ (Errcode × Nat × File)) := by
  rw [doWrite]
  split
  · refine ends_bind_of_forall fun result => ?_
    dsimp only
    split
    · rename_i failed
      exact wroteAll_of_failed failed _ _
    · exact ends_writeData _ _ _ _
  · exact ends_writeData _ _ _ _

/-- op_access replies once. -/
theorem once_opAccess (ctx : FuseCtx) (ino mask : Nat) :
    Ends Once (opAccess ctx ino mask : Prog δ (List Reply)) :=
  ends_bind_of_forall fun _ => rfl

/-- op_getattr replies once. -/
theorem once_opGetattr (ino : Nat) : Ends Once (opGetattr ino : Prog δ (List Reply)) := by
  refine ends_bind_of_forall fun read => ?_
  cases read with
  | error rc => exact rfl
  | ok inode => exact ends_bind_of_forall fun _ => rfl

/-- op_lookup replies once. -/
theorem once_opLookup (ctx : FuseCtx) (parent : Nat) (name : Name) :
    Ends Once (opLookup ctx parent name : Prog δ (List Reply)) := by
  rw [opLookup]
  split
  · exact rfl
  · refine ends_bind_of_forall fun found => ?_
    cases found with
    | error rc => exact rfl
    | ok entry => exact ends_bind_of_forall fun _ => rfl

/-- op_open replies once. -/
theorem once_opOpen (ctx : FuseCtx) (ino : Nat) (flags : OpenFlags) :
    Ends Once (opOpen ctx ino flags : Prog δ (List Reply)) := by
  refine ends_bind_of_forall fun opened => ?_
  cases opened with
  | error rc => exact rfl
  | ok efile => exact rfl

/-- op_create replies once, also where the open after the create fails. -/
theorem once_opCreate (ctx : FuseCtx) (parent : Nat) (name : Name) (mode : Nat)
    (flags : OpenFlags) : Ends Once
    (opCreate ctx parent name mode flags : Prog δ (List Reply)) := by
  refine ends_bind_of_forall fun created => ?_
  cases created with
  | error rc => exact rfl
  | ok entry =>
      refine ends_bind_of_forall fun opened => ?_
      cases opened with
      | error rc => exact rfl
      | ok efile => exact ends_bind_of_forall fun _ => rfl

/-- A permission check in front replies the error, or lets the handler go on. -/
theorem once_checked {checked : Prog δ Errcode} {rest : Errcode → Prog δ (List Reply)}
    (once : ∀ ret, Ends Once (rest ret)) :
    Ends Once (do
      let ret ← checked
      if ret ≠ 0 then return [.err ret]
      rest ret) := by
  refine ends_bind_of_forall fun ret => ?_
  split
  · exact rfl
  · exact once ret

/-- op_unlink replies once. -/
theorem once_opUnlink (ctx : FuseCtx) (parent : Nat) (name : Name) :
    Ends Once (opUnlink ctx parent name : Prog δ (List Reply)) :=
  once_checked fun _ => ends_bind_of_forall fun _ => rfl

/-- op_rmdir replies once. -/
theorem once_opRmdir (ctx : FuseCtx) (parent : Nat) (name : Name) :
    Ends Once (opRmdir ctx parent name : Prog δ (List Reply)) :=
  once_checked fun _ => ends_bind_of_forall fun _ => rfl

/-- op_rename replies once. -/
theorem once_opRename (ctx : FuseCtx) (parent : Nat) (name : Name) (newparent : Nat)
    (newname : Name) :
    Ends Once (opRename ctx parent name newparent newname : Prog δ (List Reply)) := by
  refine ends_bind_of_forall fun first => ends_bind_of_forall fun second => ?_
  dsimp only
  split
  · exact rfl
  · exact ends_bind_of_forall fun _ => rfl

/-- op_link replies once. -/
theorem once_opLink (ctx : FuseCtx) (ino newparent : Nat) (newname : Name) :
    Ends Once (opLink ctx ino newparent newname : Prog δ (List Reply)) := by
  refine once_checked fun _ => ends_bind_of_forall fun read => ?_
  cases read with
  | error rc => exact rfl
  | ok inode =>
      refine ends_bind_of_forall fun written => ?_
      split
      · exact rfl
      · refine ends_bind_of_forall fun linked => ?_
        split
        · refine ends_bind_of_forall fun reverted => ?_
          split <;> exact rfl
        · exact ends_bind_of_forall fun _ => rfl

/-- `op_mkdir` replies once when the loop of `do_mkdir` has come to its end. -/
theorem once_replyMkdir {result : Except Errcode Nat}
    (ended : ∀ rc, result = .error rc → rc ≠ EXT2_ET_DIR_NO_SPACE) :
    Ends Once (replyMkdir result : Prog δ (List Reply)) := by
  cases result with
  | error rc =>
      rw [replyMkdir, if_neg (ended rc rfl)]
      exact rfl
  | ok ino =>
      refine ends_bind_of_forall fun read => ?_
      cases read with
      | error rc => exact rfl
      | ok inode => exact ends_bind_of_forall fun _ => rfl

/-- op_mkdir replies once after its last turn. -/
theorem once_mkdirFinish {parent : Nat} {name : Name} {rc : Errcode}
    (ended : rc ≠ EXT2_ET_DIR_NO_SPACE) :
    Ends Once (mkdirFinish parent name rc >>= replyMkdir : Prog δ (List Reply)) := by
  rw [ends_bind, mkdirFinish]
  split
  · rw [ends_pure]
    refine once_replyMkdir ?_
    rintro rc' same
    cases same
    exact ended
  · refine ends_bind_of_forall fun found => ?_
    cases found with
    | error rc =>
        rw [ends_pure]
        refine once_replyMkdir ?_
        rintro rc' same
        cases same
        decide
    | ok ino =>
        rw [ends_pure]
        refine once_replyMkdir ?_
        rintro rc' same
        cases same

/-- The second reply of `op_symlink` is never sent: `do_write` has not failed, so it
has written all bytes. -/
theorem once_opSymlink (ctx : FuseCtx) (target : Name) (parent : Nat) (name : Name) :
    Ends Once (opSymlink ctx target parent name : Prog δ (List Reply)) := by
  refine ends_bind_of_forall fun created => ?_
  cases created with
  | error rc => exact rfl
  | ok entry =>
      refine ends_bind_of_forall fun opened => ?_
      cases opened with
      | error rc => exact rfl
      | ok efile =>
          dsimp only
          rw [ends_bind]
          refine (ends_doWrite efile entry.1 (target ++ [0]) 0).mono ?_
          rintro ⟨rc, bytes, written⟩ complete
          dsimp only
          split
          · exact rfl
          · rename_i succeeded
            have all : bytes = target.length + 1 := by
              simpa using complete (not_not.mp succeeded)
            refine ends_bind_of_forall fun closed => ?_
            split
            · exact rfl
            · refine ends_bind_of_forall fun super => ?_
              rw [if_neg (not_not.mpr all)]
              exact rfl

/-- op_read replies once. -/
theorem once_opRead (fh : File) (ino size off : Nat) :
    Ends (fun result => Once result.1) (opRead fh ino size off : Prog δ (List Reply × File)) := by
  refine ends_bind_of_forall fun memory => ?_
  dsimp only
  split
  · exact rfl
  · refine ends_bind_of_forall fun result => ?_
    split <;> exact rfl

/-- op_write replies once, and with success only when all bytes were written. -/
theorem once_opWrite (fh : File) (ino : Nat) (data : List UInt8) (off : Nat) :
    Ends (fun result => Once result.1) (opWrite fh ino data off : Prog δ (List Reply × File)) := by
  refine ends_bind_of_forall fun result => ?_
  dsimp only
  split <;> exact rfl

/-- op_release replies once. -/
theorem once_opRelease (fh : File) : Ends Once (opRelease fh : Prog δ (List Reply)) := by
  refine ends_bind_of_forall fun closed => ?_
  split <;> exact rfl

/-- The part of op_setattr after the truncation replies once. -/
theorem once_setAttrRest (ctx : FuseCtx) (ino : Nat) (attr : SetAttr) :
    Ends Once (setAttrRest ctx ino attr : Prog δ (List Reply)) := by
  refine ends_bind_of_forall fun read => ?_
  cases read with
  | error rc => exact rfl
  | ok inode =>
      refine ends_bind_of_forall fun now => ends_bind_of_forall fun written => ?_
      split
      · exact rfl
      · exact ends_bind_of_forall fun _ => rfl

/-- op_setattr replies once, also where the truncation fails. -/
theorem once_opSetattr (ctx : FuseCtx) (ino : Nat) (attr : SetAttr) :
    Ends Once (opSetattr ctx ino attr : Prog δ (List Reply)) := by
  rw [opSetattr]
  split
  · exact once_setAttrRest ctx ino attr
  · exact once_checked fun _ => once_setAttrRest ctx ino attr

/-- op_readlink replies once. -/
theorem once_opReadlink (ctx : FuseCtx) (ino : Nat) (behind : List UInt8) :
    Ends Once (opReadlink ctx ino behind : Prog δ (List Reply)) := by
  refine ends_bind_of_forall fun read => ?_
  cases read with
  | error rc => exact rfl
  | ok inode =>
      refine ends_bind_of_forall fun memory => ?_
      dsimp only
      split
      · exact rfl
      · split
        · exact rfl
        · refine ends_bind_of_forall fun opened => ?_
          cases opened with
          | error rc => exact rfl
          | ok efile =>
              refine ends_bind_of_forall fun result => ?_
              split
              · exact rfl
              · refine ends_bind_of_forall fun closed => ?_
                split
                · exact rfl
                · split <;> exact rfl

/-- Requests whose handler makes something of every response. -/
def Request.plain : Request → Bool
  | mkdir _ _ => false
  | readdir _ _ _ => false
  | statfs => false
  | _ => true

/-- They need nothing of a response. -/
theorem needs_of_plain {request : Request} (plain : request.plain = true) {β : Type}
    (call : LibCall δ β) (response : β) : request.Needs call response := by
  cases request with
  | mkdir parent name => cases plain
  | readdir ino size off => cases plain
  | statfs => cases plain
  | _ => exact trivial

/-- Whatever the calls respond, such a handler replies once. -/
theorem once_handler (fuse : FuseDir) (ctx : FuseCtx) {request : Request}
    (plain : request.plain = true) :
    Ends Once (request.handler fuse ctx : Prog δ (List Reply)) := by
  cases request with
  | lookup parent name => exact once_opLookup ctx parent name
  | getattr ino => exact once_opGetattr ino
  | setattr ino attr => exact once_opSetattr ctx ino attr
  | readlink ino behind => exact once_opReadlink ctx ino behind
  | mkdir parent name => cases plain
  | rmdir parent name => exact once_opRmdir ctx parent name
  | symlink target parent name => exact once_opSymlink ctx target parent name
  | rename parent name newparent newname => exact once_opRename ctx parent name newparent newname
  | link ino newparent newname => exact once_opLink ctx ino newparent newname
  | unlink parent name => exact once_opUnlink ctx parent name
  | «open» ino flags => exact once_opOpen ctx ino flags
  | read fh ino size off => exact (ends_bind _ _).mpr (once_opRead fh ino size off)
  | write fh ino data off => exact (ends_bind _ _).mpr (once_opWrite fh ino data off)
  | flush fh => exact (ends_bind _ _).mpr (ends_bind_of_forall fun _ => rfl)
  | release fh => exact once_opRelease fh
  | fsync ino => exact ends_bind_of_forall fun _ => rfl
  | opendir ino flags => exact once_opOpen ctx ino flags
  | readdir ino size off => cases plain
  | releasedir fh => exact once_opRelease fh
  | statfs => cases plain
  | access ino mask => exact once_opAccess ctx ino mask
  | create parent name mode flags => exact once_opCreate ctx parent name mode flags

/-- A superblock `op_statfs` cannot compute with leaves it without a reply. -/
theorem decides_opStatfs : Decides Request.statfs.Needs Once (opStatfs : Prog δ (List Reply)) := by
  refine decides_lift_bind (fun sb computable => ?_) fun sb refused => ?_
  · obtain ⟨statvfs, isStatvfs⟩ :=
      Option.isSome_iff_exists.mp (sb.doStatvfs_isSome_iff.mpr computable)
    rw [isStatvfs]
    exact decides_pure rfl
  · have none : sb.doStatvfs = none := by
      rw [← Option.not_isSome_iff_eq_none]
      exact mt sb.doStatvfs_isSome_iff.mp refused
    rw [none]
    exact ⟨[], rfl, by simp [Once]⟩

section Readdir

variable (fuse : FuseDir) (ino size off : Nat)

/-- The walk is abandoned only when there is no memory for the buffer. -/
theorem decides_walkEntries (entries : List Dirent) (buf : List UInt8) :
    Decides (Request.readdir ino size off).Needs (fun walked => walked ≠ none)
      (walkEntries fuse entries buf : Prog δ (Option (List UInt8))) := by
  induction entries generalizing buf with
  | nil => exact decides_pure (by simp)
  | cons entry entries inductionHypothesis =>
      have walks : Decides (Request.readdir ino size off).Needs (fun walked => walked ≠ none)
          (walkDir fuse buf entry : Prog δ (Option (List UInt8))) := by
        refine decides_lift_any (fun _ => trivial) fun memory => ?_
        cases memory
        · exact decides_pure (by simp)
        refine decides_lift_bind (fun memory given => ?_) fun memory none => ?_
        · have isGiven : memory = true := given
          subst isGiven
          exact decides_pure (by simp)
        · have isNone : memory = false := by
            cases memory
            · rfl
            · exact absurd rfl none
          subst isNone
          exact ⟨_, rfl, by simp⟩
      refine decides_bind walks (fun walked some => ?_) fun walked none => ?_
      · cases walked with
        | none => exact absurd rfl some
        | some buf => exact inductionHypothesis buf
      · cases walked with
        | none => exact ⟨_, rfl, by simp⟩
        | some buf => exact absurd (by simp) none

/-- Without memory for its buffer `op_readdir` is left without a reply. -/
theorem decides_opReaddir (ctx : FuseCtx) : Decides (Request.readdir ino size off).Needs Once
    (opReaddir fuse ctx ino size off : Prog δ (List Reply)) := by
  have checks : Decides (Request.readdir ino size off).Needs (fun _ => True)
      (checkPerms (some ctx) (EXT2FS_INO ino) R_OK : Prog δ Errcode) := by
    rw [checkPerms]
    split
    · exact decides_pure trivial
    · refine decides_lift_any (fun _ => trivial) fun read => ?_
      cases read with
      | error rc => exact decides_pure trivial
      | ok inode => exact decides_pure trivial
  refine decides_bind checks (fun rc _ => ?_) fun rc failed => absurd trivial failed
  split
  · exact decides_pure rfl
  refine decides_lift_any (fun _ => trivial) fun listing => ?_
  obtain ⟨rc, entries⟩ := listing
  dsimp only
  refine decides_bind (decides_walkEntries fuse ino size off entries []) (fun walked some => ?_)
    fun walked none => ?_
  · cases walked with
    | none => exact absurd rfl some
    | some buf =>
        dsimp only
        split
        · exact decides_pure rfl
        · exact decides_pure rfl
  · cases walked with
    | none => exact ⟨[], rfl, by simp [Once]⟩
    | some buf => exact absurd (by simp) none

end Readdir

end Once

section MkdirLoop

open Fs Volume

variable {env : Env δ}

/-- The inode numbers the bitmap has free. -/
def Fs.freeInodes (fs : Fs δ) : Finset Nat :=
  (Finset.Icc 1 fs.super.sInodesCount).filter fun ino => fs.inodeMap ino = false

/-- The superblock and the inode bitmap are the same. -/
def Fs.SameInodes (fs fs' : Fs δ) : Prop := fs'.super = fs.super ∧ fs'.inodeMap = fs.inodeMap

/-- Two steps that keep the inodes keep them together. -/
theorem Fs.SameInodes.trans {fs fs' fs'' : Fs δ} (first : fs.SameInodes fs')
    (second : fs'.SameInodes fs'') : fs.SameInodes fs'' :=
  ⟨second.1.trans first.1, second.2.trans first.2⟩

/-- As many inodes are free as before. -/
theorem Fs.SameInodes.freeInodes {fs fs' : Fs δ} (same : fs.SameInodes fs') :
    fs'.freeInodes = fs.freeInodes := by
  simp only [Fs.freeInodes, same.1, same.2]

/-- Writing an inode takes none. -/
theorem sameInodes_writeInode (fs : Fs δ) (ino : Nat) (inode : Inode) :
    fs.SameInodes (fs.ext2fsWriteInode ino inode).2 := by
  rw [ext2fsWriteInode]
  split <;> exact ⟨rfl, rfl⟩

/-- Entering a name takes no inode. -/
theorem sameInodes_link (fs : Fs δ) (dir : Nat) (name : Name) (ino flags : Nat) :
    fs.SameInodes (fs.ext2fsLink env dir name ino flags).2 := by
  simp only [ext2fsLink]
  generalize (if fs.super.filetype = true then flags % 8 else 0) = fileType
  split
  · split
    · exact ⟨rfl, rfl⟩
    · split
      · exact sameInodes_writeInode { fs with dirs := _ } _ _
      · exact ⟨rfl, rfl⟩
  · exact ⟨rfl, rfl⟩

/-- Giving a directory a block takes no inode. -/
theorem sameInodes_expandDir (fs : Fs δ) (dir : Nat) :
    fs.SameInodes (fs.ext2fsExpandDir env dir).2 := by
  obtain ⟨vol, iBlock, super, iterated⟩ := ext2fsBlockIterate2_frame expandDirProc_super fs dir
    false { append := true } {}
  rw [ext2fsExpandDir]
  generalize fs.ext2fsBlockIterate2 dir false { append := true } expandDirProc {} = outcome
    at iterated ⊢
  have unwritten : fs.SameInodes outcome.2.2 := by
    rw [iterated]
    exact ⟨super, rfl⟩
  split
  · dsimp only
    split
    · exact unwritten
    · split
      · exact unwritten
      · have written := sameInodes_writeInode
          { outcome.2.2 with
            dirs := Function.update outcome.2.2.dirs dir (env.dir.expand (outcome.2.2.dirs dir)) }
          dir
        exact ⟨(written _).1.trans unwritten.1, (written _).2.trans unwritten.2⟩
  · exact ⟨rfl, rfl⟩

/-- `ext2fs_new_inode` finds a number that is free. -/
theorem newInode_mem_freeInodes {fs : Fs δ} {dir ino : Nat}
    (found : fs.ext2fsNewInode dir = .ok ino)
    (valid : fs.validIno ino = true) : ino ∈ fs.freeInodes := by
  obtain ⟨positive, bounded⟩ : 0 < ino ∧ ino ≤ fs.super.sInodesCount := by
    simpa [Fs.validIno] using valid
  simp only [ext2fsNewInode] at found
  split at found
  · rename_i candidate hit
    cases found
    have free : fs.inodeMap ino = false := by simpa using List.find?_some hit
    simp only [Fs.freeInodes, Finset.mem_filter, Finset.mem_Icc]
    exact ⟨⟨positive, bounded⟩, free⟩
  · cases found

/-- Taking a free inode leaves fewer. -/
theorem inodeAllocStats2_takes {fs : Fs δ} {ino : Nat} (free : ino ∈ fs.freeInodes)
    (isdir : Bool) : (fs.ext2fsInodeAllocStats2 ino true isdir).freeInodes ⊂ fs.freeInodes := by
  have bounds := (Finset.mem_filter.mp free).1
  rw [Finset.mem_Icc] at bounds
  have valid : fs.validIno ino = true := by simp [Fs.validIno, bounds.2]; omega
  have map : (fs.ext2fsInodeAllocStats2 ino true isdir).inodeMap =
      Function.update fs.inodeMap ino true := by simp [ext2fsInodeAllocStats2, valid]
  refine Finset.ssubset_iff_of_subset ?_ |>.mpr ⟨ino, free, ?_⟩
  · intro other otherFree
    simp only [Fs.freeInodes, Finset.mem_filter, map] at otherFree ⊢
    refine ⟨otherFree.1, ?_⟩
    by_cases same : other = ino
    · simp [same] at otherFree
    · simpa [same] using otherFree.2
  · simp [Fs.freeInodes, map]

/-- Some inode has been taken since `fs`. -/
def Fs.TakenSince (fs fs' : Fs δ) : Prop :=
  fs'.super = fs.super ∧ fs'.freeInodes ⊂ fs.freeInodes

/-- An inode taken stays taken over a step that keeps the inodes. -/
theorem Fs.TakenSince.next {fs fs' fs'' : Fs δ} (taken : fs.TakenSince fs')
    (same : fs'.SameInodes fs'') : fs.TakenSince fs'' :=
  ⟨same.1.trans taken.1, same.freeInodes ▸ taken.2⟩

/-- The rest of `new_ext2fs_mkdir` once the inode is taken gives none back. -/
theorem keeps_of_sameInodes (fs : Fs δ) {α : Type} {operation : LibCall δ α}
    (same : ∀ state : Fs δ, state.SameInodes ((lib env).exec operation state).2) :
    Keeps (lib env) fs.TakenSince (lift operation) :=
  keeps_lift fun state taken => taken.next (same state)

/-- Once an inode is taken the program ends with it taken. -/
theorem leads_of_taken {fs state : Fs δ} (taken : fs.TakenSince state) {program : Prog δ Errcode}
    (keeps : Keeps (lib env) fs.TakenSince program) :
    Leads (lib env) program
      (fun rc fs' => rc = EXT2_ET_DIR_NO_SPACE → fs.TakenSince fs') state :=
  (keeps state taken).mono fun _ _ taken _ => taken

/-- A turn of the loop of `do_mkdir` that finds no space has taken an inode. -/
theorem newExt2fsMkdir_takes {fs : Fs δ} {parent : Nat} (perms : Perms) (name : Name) :
    Leads (lib env) (newExt2fsMkdir perms parent name)
      (fun rc fs' => rc = EXT2_ET_DIR_NO_SPACE → fs.TakenSince fs') fs := by
  unfold newExt2fsMkdir
  refine leads_lift_bind fun found _ outcome => ?_
  obtain ⟨rfl, rfl⟩ := Prod.mk.inj outcome
  split
  · rename_i rc failed
    rw [leads_pure]
    refine fun full => absurd full ?_
    simp only [ext2fsNewInode] at failed
    split at failed <;> cases failed
    decide
  rename_i ino found
  refine leads_lift_bind fun found _ outcome => ?_
  obtain ⟨rfl, rfl⟩ := Prod.mk.inj outcome
  split
  · rename_i rc failed
    rw [leads_pure]
    refine fun full => absurd full ?_
    simp only [ext2fsNewBlock] at failed
    split at failed <;> cases failed
    decide
  refine leads_lift_bind fun block _ outcome => ?_
  obtain ⟨rfl, rfl⟩ := Prod.mk.inj outcome
  refine leads_lift_bind fun read _ outcome => ?_
  obtain ⟨rfl, rfl⟩ := Prod.mk.inj outcome
  dsimp only
  split
  · rw [leads_pure]
    exact fun full => absurd full (by decide)
  refine leads_lift_bind fun super _ outcome => ?_
  obtain ⟨rfl, rfl⟩ := Prod.mk.inj outcome
  refine leads_lift_bind fun now _ outcome => ?_
  obtain ⟨rfl, rfl⟩ := Prod.mk.inj outcome
  refine leads_lift_bind fun _ _ outcome => ?_
  obtain ⟨-, rfl⟩ := Prod.mk.inj outcome
  refine leads_lift_bind fun _ _ outcome => ?_
  obtain ⟨-, rfl⟩ := Prod.mk.inj outcome
  by_cases valid : fs.validIno ino = true
  swap
  · -- a number that is none of the inode table cannot be written
    refine leads_lift_bind fun rc _ outcome => ?_
    obtain ⟨rfl, rfl⟩ := Prod.mk.inj outcome
    rw [if_neg (by simp)]
    refine leads_lift_bind fun rc written outcome => ?_
    have bad : rc = EXT2_ET_BAD_INODE_NUM := by
      have refused : ∀ (state : Fs δ) (inode : Inode), state.super = fs.super →
          (state.ext2fsWriteInode ino inode).1 = EXT2_ET_BAD_INODE_NUM := by
        intro state inode super
        rw [ext2fsWriteInode, validIno_congr super, if_neg valid]
      exact (congrArg Prod.fst outcome).symm.trans (refused _ _ rfl)
    subst bad
    rw [if_pos (by decide), leads_pure]
    exact fun full => absurd full (by decide)
  have free : ino ∈ fs.freeInodes := newInode_mem_freeInodes found valid
  -- from here on the inode is taken, and no call gives it back
  have taken : fs.TakenSince (fs.ext2fsInodeAllocStats2 ino true true) :=
    ⟨rfl, inodeAllocStats2_takes free true⟩
  refine leads_of_taken ?_ ?_
  · exact ⟨taken.1, taken.2⟩
  refine keeps_bind (keeps_of_sameInodes fs fun (_ : Fs δ) => ⟨rfl, rfl⟩) fun rc => ?_
  split
  · exact keeps_pure _
  refine keeps_bind (keeps_of_sameInodes fs fun state => sameInodes_writeInode state _ _)
    fun rc => ?_
  split
  · exact keeps_pure _
  refine keeps_bind (keeps_of_sameInodes fs fun (_ : Fs δ) => ⟨rfl, rfl⟩) fun present => ?_
  split
  · exact keeps_pure _
  split
  · exact keeps_pure _
  refine keeps_bind (keeps_of_sameInodes fs fun state => sameInodes_link state _ _ _ _) fun rc => ?_
  split
  · exact keeps_pure _
  exact keeps_of_sameInodes fs fun state => sameInodes_writeInode state _ _

/-- The loop of `do_mkdir` ends by itself: it never goes around as often as there are
free inodes. -/
theorem mkdirLoop_ends (perms : Perms) {parent : Nat} (name : Name) {fs : Fs δ} (turns : Nat)
    (enough : fs.freeInodes.card < turns) :
    Leads (lib env) (mkdirLoop perms parent name turns)
      (fun rc _ => rc ≠ EXT2_ET_DIR_NO_SPACE) fs := by
  induction turns generalizing fs with
  | zero => omega
  | succ turns inductionHypothesis =>
      rw [mkdirLoop, leads_bind]
      refine (newExt2fsMkdir_takes perms name).mono fun rc later turn => ?_
      split
      · rename_i full
        obtain ⟨super, fewer⟩ := turn full
        refine leads_lift_bind fun expanded last outcome => ?_
        have same : later.SameInodes last := by
          have kept := @sameInodes_expandDir _ env later parent
          rwa [show (later.ext2fsExpandDir env parent).2 =
            last from congrArg Prod.snd outcome] at kept
        split
        · rw [leads_pure]
          decide
        · have less := Finset.card_lt_card fewer
          rw [← same.freeInodes] at less
          exact inductionHypothesis (Nat.lt_of_lt_of_le less (Nat.lt_succ_iff.mp enough))
      · rename_i other
        exact other

/-- So the turns that `do_mkdir` is followed for are enough. -/
theorem mkdirLoop_settles (perms : Perms) (parent : Nat) (name : Name) (fs : Fs δ) :
    Leads (lib env) (mkdirLoop perms parent name (fs.super.sInodesCount + 1))
      (fun rc _ => rc ≠ EXT2_ET_DIR_NO_SPACE) fs := by
  refine mkdirLoop_ends perms name _ ?_
  have few := Finset.card_filter_le (Finset.Icc 1 fs.super.sInodesCount)
    fun ino => fs.inodeMap ino = false
  rw [Nat.card_Icc, Nat.add_sub_cancel] at few
  exact Nat.lt_succ_of_le few

/-- Over the library itself `op_mkdir` replies once. -/
theorem once_opMkdir {fs : Fs δ} {ctx : FuseCtx} {parent : Nat} {name : Name} :
    Leads (lib env) (opMkdir ctx parent name) (fun replies _ => Once replies) fs := by
  have ended := @mkdirLoop_settles _ env (some ctx) (EXT2FS_INO parent) name fs
  rw [opMkdir, doMkdir, leads_bind, leads_bind, leads_lift, lib_super]
  dsimp only
  rw [doMkdirWithin, leads_bind]
  refine ended.mono fun rc later other => ?_
  rw [← leads_bind]
  exact (once_mkdirFinish other).run (lib env) later

end MkdirLoop

section Process

variable {σ : Type} (host : Host (LibCall δ) σ) (fuse : FuseDir) (ctx : FuseCtx)

/-- `ext2fs_expand_dir` has expanded a directory. -/
def LibCall.expanded : {β : Type} → LibCall δ β → β → Bool
  | _, .expandDir _, rc => rc == 0
  | _, _, _ => false

/-- The handler makes exactly one reply: followed for enough turns of the loop of `do_mkdir`, it
comes to its end with one, or the process leaves in a call. -/
def RepliesOnce (request : Request) (state : σ) : Prop :=
  ∃ enough, ∀ turns ≥ enough, Completes Once ((request.within turns fuse ctx).runOn host state)

/-- No call faults, what the handler needs is there, and directories are not expanded for ever. -/
def Undisturbed (request : Request) (state : σ) : Prop :=
  ∃ enough, ∀ turns ≥ enough, Answered host request.Needs (request.within turns fuse ctx) state ∧
    (request.within turns fuse ctx).tally host LibCall.expanded state < turns

/-- One handler, however many turns. -/
theorem repliesOnce_iff_of_decides {request : Request} {program : Prog δ (List Reply)}
    (same : ∀ turns, request.within turns fuse ctx = program)
    (decides : Decides request.Needs Once program)
    (state : σ) : RepliesOnce host fuse ctx request state ↔
    Undisturbed host fuse ctx request state := by
  have completes := decides.completes_iff host state
  simp only [RepliesOnce, Undisturbed, same, completes]
  constructor
  · rintro ⟨enough, answered⟩
    exact ⟨enough + program.tally host LibCall.expanded state + 1, fun turns more =>
      ⟨answered turns (by omega), by omega⟩⟩
  · rintro ⟨enough, undisturbed⟩
    exact ⟨enough, fun turns more => (undisturbed turns more).1⟩

section Loop

variable {host fuse ctx} {parent : Nat} {name : Name} {perms : Perms}

/-- A turn of do_mkdir itself never expands the directory. -/
theorem uncounted_newExt2fsMkdir :
    Uncounted LibCall.expanded (newExt2fsMkdir perms parent name : Prog δ Errcode) := by
  refine uncounted_lift_bind (fun _ => rfl) fun found => ?_
  cases found with
  | error rc => exact uncounted_pure _
  | ok ino =>
  refine uncounted_lift_bind (fun _ => rfl) fun found => ?_
  cases found with
  | error rc => exact uncounted_pure _
  | ok blk =>
  refine uncounted_lift_bind (fun _ => rfl) fun memory => ?_
  cases memory with
  | error rc => exact uncounted_pure _
  | ok block =>
  refine uncounted_lift_bind (fun _ => rfl) fun read => uncounted_ite (uncounted_pure _) ?_
  refine uncounted_lift_bind (fun _ => rfl) fun super => uncounted_lift_bind
    (fun _ => rfl) fun now => ?_
  refine uncounted_lift_bind (fun _ => rfl) fun _ => uncounted_lift_bind (fun _ => rfl) fun _ => ?_
  refine uncounted_lift_bind (fun _ => rfl) fun rc => uncounted_ite (uncounted_pure _) ?_
  refine uncounted_lift_bind (fun _ => rfl) fun rc => uncounted_ite (uncounted_pure _) ?_
  refine uncounted_lift_bind (fun _ => rfl) fun present => ?_
  cases present with
  | ok ino => exact uncounted_pure _
  | error rc =>
      refine uncounted_ite (uncounted_pure _) (uncounted_lift_bind (fun _ => rfl) fun rc => ?_)
      exact uncounted_ite (uncounted_pure _) (uncounted_lift_bind
        (fun _ => rfl) fun _ => uncounted_pure _)

/-- The loop of `do_mkdir` goes on after a number of turns exactly when each of them has expanded
the directory. -/
theorem mkdirLoop_tally (turns : Nat) (state : σ) :
    let loop : Prog δ Errcode := mkdirLoop perms parent name turns
    (loop.tally host LibCall.expanded state < turns ∧
      ∀ rc later, loop.runOn host state = .ok (rc, later) → rc ≠ EXT2_ET_DIR_NO_SPACE) ∨
    (loop.tally host LibCall.expanded state = turns ∧
      ∃ later, loop.runOn host state = .ok (EXT2_ET_DIR_NO_SPACE, later)) := by
  induction turns generalizing state with
  | zero => exact .inr ⟨rfl, state, rfl⟩
  | succ turns inductionHypothesis =>
      have none := (@uncounted_newExt2fsMkdir δ parent name perms).tally host state
      dsimp only
      rw [mkdirLoop, runOn_bind]
      cases turn : (newExt2fsMkdir perms parent name).runOn host state with
      | error halt =>
          refine .inl ⟨?_, fun rc later ended => by cases ended⟩
          rw [tally_bind_error turn, none]
          omega
      | ok answer =>
          obtain ⟨rc, later⟩ := answer
          rw [tally_bind turn, none, Nat.zero_add]
          change (tally host LibCall.expanded
            (if rc = EXT2_ET_DIR_NO_SPACE then _ else _) later < _ ∧
            ∀ _ _, runOn host (if rc = EXT2_ET_DIR_NO_SPACE then _ else _) later = _ → _) ∨
            (tally host LibCall.expanded (if rc = EXT2_ET_DIR_NO_SPACE then _ else _) later = _ ∧
              ∃ _, runOn host (if rc = EXT2_ET_DIR_NO_SPACE then _ else _) later = _)
          by_cases full : rc = EXT2_ET_DIR_NO_SPACE
          swap
          · rw [if_neg full]
            refine .inl ⟨Nat.succ_pos _, fun rc' last ended => ?_⟩
            cases ended
            exact full
          rw [if_pos full, runOn_bind, runOn_lift]
          cases answered : host.exec (.expandDir parent) later with
          | error halt =>
              refine .inl ⟨?_, fun rc last ended => by cases ended⟩
              rw [tally_lift_bind_error answered]
              omega
          | ok answer =>
              obtain ⟨expanded, last⟩ := answer
              rw [tally_lift_bind_ok answered]
              change (_ + tally host LibCall.expanded (if expanded ≠ 0 then _ else _) last < _ ∧
                ∀ _ _, runOn host (if expanded ≠ 0 then _ else _) last = _ → _) ∨
                (_ + tally host LibCall.expanded (if expanded ≠ 0 then _ else _) last = _ ∧
                  ∃ _, runOn host (if expanded ≠ 0 then _ else _) last = _)
              by_cases failed : expanded ≠ 0
              · have free : (LibCall.expandDir parent : LibCall δ Errcode).expanded
                  expanded = false := by
                  simpa [LibCall.expanded] using failed
                rw [if_pos failed, free, if_neg Bool.false_ne_true]
                refine .inl ⟨Nat.succ_pos _, fun rc' final ended => ?_⟩
                cases ended
                decide
              · have counted : (LibCall.expandDir parent : LibCall δ Errcode).expanded
                  expanded = true := by
                  simpa [LibCall.expanded] using failed
                rw [if_neg failed, counted, if_pos rfl]
                obtain ⟨fewer, ended⟩ | ⟨all, goesOn⟩ := inductionHypothesis last
                · exact .inl ⟨by omega, ended⟩
                · exact .inr ⟨by omega, goesOn⟩

/-- After the loop nothing is expanded. -/
theorem tally_opMkdirWithin (turns : Nat) (state : σ) :
    (opMkdirWithin turns ctx parent name : Prog δ (List Reply)).tally host LibCall.expanded state =
      (mkdirLoop (some ctx) (EXT2FS_INO parent) name turns : Prog δ Errcode).tally host
        LibCall.expanded state := by
  have finish : ∀ rc, Uncounted LibCall.expanded
      (mkdirFinish (EXT2FS_INO parent) name rc : Prog δ (Except Errcode Nat)) := by
    intro rc
    refine uncounted_ite (uncounted_pure _) (uncounted_lift_bind (fun _ => rfl) fun found => ?_)
    cases found with
    | error rc => exact uncounted_pure _
    | ok ino => exact uncounted_pure _
  have replies : ∀ result,
    Uncounted LibCall.expanded (replyMkdir result : Prog δ (List Reply)) := by
    intro result
    cases result with
    | error rc => exact uncounted_ite (uncounted_pure _) (uncounted_pure _)
    | ok ino =>
        refine uncounted_lift_bind (fun _ => rfl) fun read => ?_
        cases read with
        | error rc => exact uncounted_pure _
        | ok inode => exact uncounted_lift_bind (fun _ => rfl) fun _ => uncounted_pure _
  have within : (doMkdirWithin turns (some ctx) (EXT2FS_INO parent) name : Prog δ _).tally host
      LibCall.expanded state =
        (mkdirLoop (some ctx) (EXT2FS_INO parent) name turns : Prog δ Errcode).tally
        host LibCall.expanded state := by
    rw [doMkdirWithin]
    cases looped : (mkdirLoop (some ctx) (EXT2FS_INO parent) name turns).runOn host state with
    | error halt => exact tally_bind_error looped
    | ok answer => rw [tally_bind looped, (finish _).tally, Nat.add_zero]
  rw [opMkdirWithin]
  cases made : (doMkdirWithin turns (some ctx) (EXT2FS_INO parent) name).runOn host state with
  | error halt => rw [tally_bind_error made, within]
  | ok answer => rw [tally_bind made, (replies _).tally, Nat.add_zero, within]

/-- Of `op_mkdir` every reply is one, but it has none as long as the loop goes on. -/
theorem opMkdirWithin_completes_iff (turns : Nat) (state : σ) :
    Completes Once ((opMkdirWithin turns ctx parent name : Prog δ (List Reply)).runOn host state) ↔
      Answered host (fun _ _ => True)
        (opMkdirWithin turns ctx parent name : Prog δ (List Reply)) state ∧
        (opMkdirWithin turns ctx parent name : Prog δ (List Reply)).tally host
        LibCall.expanded state <
          turns := by
  have any : Decides (fun _ _ => True) (fun _ : List Reply => True)
      (opMkdirWithin turns ctx parent name : Prog δ _) :=
    (ends_of_forall (fun _ => trivial) _).decides fun _ _ => trivial
  rw [← any.completes_iff host state, tally_opMkdirWithin]
  have looped := @mkdirLoop_tally δ σ host (EXT2FS_INO parent) name (some ctx) turns state
  dsimp only at looped
  rw [opMkdirWithin, doMkdirWithin, runOn_bind, runOn_bind]
  obtain ⟨fewer, ended⟩ | ⟨all, later, goesOn⟩ := looped
  swap
  · refine iff_of_false (fun completes => ?_) (by omega)
    have none : Once [] := completes.2 [] later (by rw [goesOn]; rfl)
    simp [Once] at none
  refine (and_congr_right fun _ => ?_).trans (and_iff_left fewer).symm
  refine forall_congr' fun replies => forall_congr' fun last => forall_congr' fun outcome => ?_
  refine iff_true_intro ?_
  cases loop : (mkdirLoop (some ctx) (EXT2FS_INO parent) name turns).runOn host state with
  | error halt =>
      rw [loop] at outcome
      cases outcome
  | ok answer =>
      obtain ⟨rc, middle⟩ := answer
      rw [loop] at outcome
      change ((mkdirFinish (EXT2FS_INO parent) name rc).runOn host middle).bind _ = _ at outcome
      rw [← runOn_bind] at outcome
      exact (once_mkdirFinish (ended rc middle loop)).runOn outcome

end Loop

/-- **Exactly one reply.** In every process, and whatever the calls respond, a handler replies
exactly once if and only if no call faults, `op_statfs` is given a superblock it can compute with,
`op_readdir` memory for its buffer, and the directory of `op_mkdir` is not expanded for ever. And
`do_write`, on which `op_symlink` rests, returns 0 only when all bytes were written. -/
theorem exactly_one_reply_iff (state : σ) :
    (∀ request : Request,
      RepliesOnce host fuse ctx request state ↔ Undisturbed host fuse ctx request state) ∧
    ∀ fh ino data off bytes written later,
      (doWrite fh ino data off).runOn host state = .ok ((0, bytes, written), later) →
        bytes = data.length := by
  refine ⟨fun request => ?_, fun fh ino data off bytes written later outcome => ?_⟩
  · by_cases plain : request.plain = true
    · have same : ∀ turns, request.within turns fuse ctx =
        (request.handler fuse ctx : Prog δ _) := by
        intro turns
        cases request with
        | mkdir parent name => cases plain
        | _ => rfl
      exact repliesOnce_iff_of_decides host fuse ctx same
        ((once_handler fuse ctx plain).decides (needs_of_plain plain)) state
    · cases request with
      | mkdir parent name =>
          refine exists_congr fun enough => forall_congr' fun turns => forall_congr' fun _ => ?_
          exact opMkdirWithin_completes_iff turns state
      | readdir ino size off =>
          exact repliesOnce_iff_of_decides host fuse ctx (fun _ => rfl)
            (decides_opReaddir fuse ino size off ctx) state
      | statfs =>
          exact repliesOnce_iff_of_decides host fuse ctx (fun _ => rfl) decides_opStatfs state
      | _ => exact absurd rfl plain
  · exact (ends_doWrite fh ino data off).runOn outcome rfl

end Process

/-- The library on a journal that was mounted as a volume. -/
def journalEnv : Env (List Dirent) := { listEnv with superBlock := .journal }

/-- `op_statfs` never replies there: the superblock is accepted, and `do_statvfs` divides by its
blocks per group. -/
theorem journal_statfs_unanswered : journalEnv.superBlock.accepted = true ∧
    ¬ RepliesOnce (Fs.lib journalEnv).host wireDir ⟨0, 0⟩ .statfs twoFiles := by
  refine ⟨by decide +kernel, ?_⟩
  rintro ⟨enough, replies⟩
  have once := replies enough le_rfl
  rw [runOn_host, completes_ok] at once
  have unanswered :
      ((opStatfs : Prog (List Dirent) _).run (Fs.lib journalEnv) twoFiles).1 = [] := by
    decide +kernel
  change ((opStatfs : Prog (List Dirent) _).run (Fs.lib journalEnv) twoFiles).1.length = 1 at once
  rw [unanswered] at once
  cases once

end Ext2Fuse
