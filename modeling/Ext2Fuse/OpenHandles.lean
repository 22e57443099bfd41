import Ext2Fuse.FileSizes
import Ext2Fuse.LastLink

/-!
# Handles that are opened

`do_open` checks the rights, opens the file and truncates it, and reports the three steps in three
ways: only the error of the first two becomes a null pointer, and the handle of the second is looked
at before its error is.
-/

namespace Ext2Fuse

open Lib Program Fs

variable {δ : Type}

/-- What a run of `do_open` ends with: the pointer it returns and what it leaves in `errno`, whether
one of its steps has failed, whether `ext2fs_file_open` has allocated a handle, and whether it was
read through the pointer when there was none. -/
structure OpenResult where
  handle : Option File := none
  errno : Errcode := 0
  failed : Bool := false
  opened : Bool := false
  strayRead : Bool := false

/-- The flags `do_open` goes on with: `O_RDONLY` becomes `O_RDWR` for `O_TRUNC`. -/
def OpenFlags.forTrunc (flags : OpenFlags) : OpenFlags :=
  if flags.trunc && !flags.wronly then { flags with rdwr := true } else flags

/-- `do_open` with what a caller cannot see, for any `check_perms`. The messages of a debug build
read the handle. -/
def doOpenTraced (debug : Bool) (checkPerms : Nat → Prog δ Errcode) (ino : Nat)
    (flags : OpenFlags) :
    Prog δ OpenResult := do
  let flags := flags.forTrunc
  let rc ← checkPerms (if flags.wronly || flags.rdwr then W_OK else R_OK)
  if rc ≠ 0 then return { errno := rc, failed := true }
  match ← lift (.fileOpen ino (flags.rdwr || flags.wronly)) with
  | .error rc => return { errno := rc, failed := true, strayRead := debug || flags.rdwr }
  | .ok efile =>
      let efile := if flags.rdwr && !efile.writable then { efile with writable := true } else efile
      if flags.trunc then
        let (rc, efile) ← doFtruncate efile ino 0
        return { handle := some efile, errno := rc, failed := rc ≠ 0, opened := true }
      else return { handle := some efile, opened := true }

/-- What the caller sees of it: a handle, or the error that goes with the null pointer. -/
def OpenResult.seen (result : OpenResult) : Except Errcode File :=
  match result.handle with
  | some efile => .ok efile
  | none => .error result.errno

variable {env : Env δ} {fs : Fs δ} {faults : List (Option Fault)} {perms : Perms} {ino : Nat}
    {flags : OpenFlags}

/-- `ext2fs_file_open` with no fault for it. -/
theorem exec_fileOpen_ok (ok : ¬ Fails faults 0) (valid : fs.validIno ino = true)
    (writable : Bool) :
    (faultyLib env).exec (.fileOpen ino writable) (fs, faults) =
      (.ok { ino := ino, inode := fs.inodeTab ino, writable := writable }, (fs, faults.tail)) := by
  rw [faultyLib_ok ok, lib_fileOpen, ext2fsFileOpen, ext2fsReadInode, if_pos valid]

/-- Opening fails where the schedule says so or the number is out of range. -/
theorem exec_fileOpen_failed (failing : Fails faults 0 ∨ ¬ fs.validIno ino = true)
    (writable : Bool) :
    ∃ rc, rc ≠ 0 ∧
      (faultyLib env).exec (.fileOpen ino writable) (fs, faults) =
      (.error rc, (fs, faults.tail)) := by
  by_cases fault : Fails faults 0
  · obtain ⟨fault, outcome⟩ := @faultyLib_failed δ _ env fs faults (.fileOpen ino writable) fault
      (fun fault => .error fault.code) (fun _ => rfl) (fun _ => rfl)
    exact ⟨fault.code, fault.nonzero, outcome⟩
  · refine ⟨EXT2_ET_BAD_INODE_NUM, by decide, ?_⟩
    rw [faultyLib_ok fault, lib_fileOpen, ext2fsFileOpen, ext2fsReadInode,
      if_neg (failing.resolve_left fault)]

/-- A write that does not fail updates the table. -/
theorem exec_writeInode_ok (ok : ¬ Fails faults 0) (valid : fs.validIno ino = true)
    (inode : Inode) :
    (faultyLib env).exec (.writeInode ino inode) (fs, faults) =
      (0, ({ fs with inodeTab := Function.update fs.inodeTab ino inode }, faults.tail)) := by
  rw [faultyLib_ok ok, lib_writeInode, ext2fsWriteInode, if_pos valid]

/-- A write that fails leaves the table. -/
theorem exec_writeInode_failed (failing : Fails faults 0) (inode : Inode) :
    ∃ rc, rc ≠ 0 ∧ (faultyLib env).exec (.writeInode ino inode) (fs, faults) =
      (rc, (fs, faults.tail)) := by
  obtain ⟨fault, outcome⟩ := @faultyLib_failed δ _ env fs faults (.writeInode ino inode) failing
    (fun fault => fault.code) (fun _ => rfl) (fun _ => rfl)
  exact ⟨fault.code, fault.nonzero, outcome⟩

/-- A read that fails changes nothing. -/
theorem exec_readInode_failed (failing : Fails faults 0) :
    ∃ rc, rc ≠ 0 ∧ (faultyLib env).exec (.readInode ino) (fs, faults) =
      (.error rc, (fs, faults.tail)) := by
  obtain ⟨fault, outcome⟩ := @faultyLib_failed δ _ env fs faults (.readInode ino) failing
    (fun fault => .error fault.code) (fun _ => rfl) (fun _ => rfl)
  exact ⟨fault.code, fault.nonzero, outcome⟩

/-- The iteration that truncates changes the pointers of the inode and nothing else of it. -/
theorem blockIterateTruncate_sizes (info : TruncateBlocksInfo) :
    Leads (faultyLib env) (lift (.blockIterateTruncate ino info)) (fun _ next =>
      next.2 = faults.tail ∧ next.1.super = fs.super ∧
        (next.1.inodeTab ino).ext2ISize = (fs.inodeTab ino).ext2ISize) (fs, faults) := by
  refine leads_faulty ⟨rfl, ?_⟩ fun _ _ _ => ⟨rfl, rfl, rfl⟩
  obtain ⟨vol, iBlock, super, truncated⟩ := lib_blockIterateTruncate_frame env fs ino info
  rw [truncated]
  refine ⟨super, ?_⟩
  dsimp only
  rw [Function.update_self]
  rfl

/-- Truncating to nothing: where the size word is 0 already, nothing is done, and else the three
accesses to the inode decide. What `ext2fs_block_iterate` reports is not looked at. -/
theorem doFtruncate_zero (fh : File) (valid : fs.validIno ino = true) :
    Leads (faultyLib env) (doFtruncate fh ino 0) (fun result next =>
      result.2.writable = fh.writable ∧
      (fh.inode.iSize = 0 → result = (0, fh) ∧ next.1 = fs) ∧
      (fh.inode.iSize ≠ 0 → (result.1 = 0 ↔ ¬ Fails faults 2 ∧ ¬ Fails faults 4 ∧
        ¬ Fails faults 5) ∧
        (result.1 = 0 → result.2.inode.ext2ISize = 0 ∧ (next.1.inodeTab ino).ext2ISize = 0)))
        (fs, faults) := by
  rw [doFtruncate, if_neg (by omega), doShorten]
  by_cases empty : fh.inode.iSize = 0
  · rw [if_pos empty.symm]
    exact ⟨rfl, fun _ => ⟨rfl, rfl⟩, fun large => absurd empty large⟩
  rw [if_neg (Ne.symm empty), if_neg (by omega), leads_bind, leads_lift, faultyLib_never
    (fun _ => rfl), leads_bind, setFileSize, leads_bind, leads_lift, faultyLib_never (fun _ => rfl)]
  have third : Fails faults.tail.tail 0 ↔ Fails faults 2 := (fails_tail 0).trans (fails_tail 1)
  have fifth : Fails faults.tail.tail.tail.tail 0 ↔ Fails faults 4 :=
    (fails_tail 0).trans ((fails_tail 1).trans ((fails_tail 2).trans (fails_tail 3)))
  have sixth : Fails faults.tail.tail.tail.tail.tail 0 ↔ Fails faults 5 :=
    (fails_tail 0).trans ((fails_tail 1).trans
      ((fails_tail 2).trans ((fails_tail 3).trans (fails_tail 4))))
  rw [leads_bind, leads_lift]
  generalize newInode : ({ fh.inode with
    iMtime := ((lib env).exec .time ((lib env).exec .super fs).2).1, iSize :=
      0 % 2 ^ 32, iSizeHigh := 0 } : Inode) =
      inode
  have inodeEmpty : inode.ext2ISize = 0 := by
    rw [← newInode, Inode.ext2ISize]
    simp
  have validNow : ((lib env).exec .time ((lib env).exec .super fs).2).2.validIno ino = true := valid
  generalize ((lib env).exec .time ((lib env).exec .super fs).2).2 = now at validNow ⊢
  by_cases write : Fails faults 2
  · obtain ⟨rc, failed, outcome⟩ :=
      @exec_writeInode_failed _ env now faults.tail.tail ino (third.mpr write) inode
    rw [outcome, leads_pure]
    dsimp only
    rw [if_pos failed]
    exact ⟨rfl, fun zero => absurd zero empty, fun _ => ⟨iff_of_false failed fun ok => ok.1 write,
      fun done => absurd done failed⟩⟩
  rw [exec_writeInode_ok (mt third.mp write) validNow, leads_pure]
  dsimp only
  rw [if_neg (by simp)]
  refine leads_bind_of fun iterated after outcome => ?_
  obtain ⟨restEq, super, sizes⟩ := (blockIterateTruncate_sizes _).outcome outcome
  obtain ⟨after, rest⟩ := after
  dsimp only at restEq super sizes
  subst restEq
  have validAfter : after.validIno ino = true := (validIno_congr super ino).trans validNow
  have sizesAfter : (after.inodeTab ino).ext2ISize = 0 := by
    rw [sizes, Function.update_self]
    exact inodeEmpty
  rw [leads_bind, leads_lift]
  by_cases read : Fails faults 4
  · obtain ⟨rc, failed, outcome⟩ :=
      @exec_readInode_failed _ env after faults.tail.tail.tail.tail ino (fifth.mpr read)
    rw [outcome]
    exact ⟨rfl, fun zero => absurd zero empty, fun _ => ⟨iff_of_false failed fun ok => ok.2.1 read,
      fun done => absurd done failed⟩⟩
  rw [faultyLib_ok (mt fifth.mp read), lib_readInode, ext2fsReadInode, if_pos validAfter]
  dsimp only
  rw [leads_bind, leads_lift]
  by_cases last : Fails faults 5
  · obtain ⟨rc, failed, outcome⟩ :=
      @exec_writeInode_failed _ env after faults.tail.tail.tail.tail.tail ino
      (sixth.mpr last) { after.inodeTab ino with
        iBlocks := iterated.2.totalNumBlocks * fs.super.blocksize % 2 ^ 32 / 512 }
    change Leads _ (pure (((faultyLib env).exec (.writeInode ino { after.inodeTab ino with
        iBlocks := iterated.2.totalNumBlocks * fs.super.blocksize % 2 ^ 32 / 512 })
      (after, faults.tail.tail.tail.tail.tail)).1, _)) _ _
    rw [outcome]
    exact ⟨rfl, fun zero => absurd zero empty, fun _ => ⟨iff_of_false failed fun ok => ok.2.2 last,
      fun done => absurd done failed⟩⟩
  rw [exec_writeInode_ok (mt sixth.mp last) validAfter, leads_pure]
  refine ⟨rfl, fun zero => absurd zero empty,
    fun _ => ⟨iff_of_true rfl ⟨write, read, last⟩, fun _ =>
    ⟨inodeEmpty, ?_⟩⟩⟩
  dsimp only
  rw [Function.update_self]
  exact sizesAfter

/-- `do_open` is what the caller sees of it. -/
theorem run_doOpen_traced (debug : Bool) (state : Fs δ × List (Option Fault)) :
    let traced := (doOpenTraced debug (checkPerms perms ino) ino flags).run (faultyLib env) state
    (doOpen perms ino flags).run (faultyLib env) state = (traced.1.seen, traced.2) := by
  have sameFlags : (if flags.trunc && !flags.wronly then { flags with rdwr := true } else flags) =
      flags.forTrunc := rfl
  dsimp only
  rw [doOpen, doOpenTraced, sameFlags, run_bind, run_bind]
  generalize (checkPerms perms ino
    (if flags.forTrunc.wronly || flags.forTrunc.rdwr then W_OK else R_OK)).run
    (faultyLib env) state = checked
  obtain ⟨rc, fs, faults⟩ := checked
  dsimp only
  split
  · rfl
  rw [run_bind, run_bind, run_lift]
  by_cases opens : ¬ Fails faults 0 ∧ fs.validIno ino = true
  · rw [exec_fileOpen_ok opens.1 opens.2]
    have granted : ¬ (flags.forTrunc.rdwr &&
      !(flags.forTrunc.rdwr || flags.forTrunc.wronly)) = true := by
      cases flags.forTrunc.rdwr <;> simp
    dsimp only
    rw [if_neg granted]
    split
    · rw [run_bind, run_bind]
      rfl
    · rfl
  · obtain ⟨rc, -, refused⟩ := @exec_fileOpen_failed _ env fs faults ino (by tauto)
      (flags.forTrunc.rdwr || flags.forTrunc.wronly)
    rw [refused]
    rfl

/-- A handle comes only from a run in which all that was asked for has been done. -/
structure OpensWholly (ino : Nat) (flags : OpenFlags) (result : OpenResult) (fs : Fs δ) : Prop where
  failing : result.failed = true → result.handle = none ∧ result.errno ≠ 0 ∧
    result.strayRead = false
  released : result.handle = none → result.opened = false
  truncated : ∀ efile, result.handle = some efile → flags.trunc = true →
    efile.writable = true ∧ efile.inode.ext2ISize = 0 ∧ (fs.inodeTab ino).ext2ISize = 0

/-- Where the steps after the check do what they are asked to, or a failure of `ext2fs_file_open` is
not preceded by a look at the handle. -/
structure OpenGoesWell (debug : Bool) (ino : Nat) (flags : OpenFlags) (fs : Fs δ)
    (faults : List (Option Fault)) : Prop where
  unread : Fails faults 0 ∨ ¬ fs.validIno ino = true → debug = false ∧ flags.forTrunc.rdwr = false
  empties : ¬ Fails faults 0 → fs.validIno ino = true → flags.trunc = true →
    if (fs.inodeTab ino).iSize = 0 then (fs.inodeTab ino).iSizeHigh = 0
    else ¬ Fails faults 3 ∧ ¬ Fails faults 5 ∧ ¬ Fails faults 6

/-- **`do_open` hands out a handle only when all that was asked for is done if and only if no fault
hits the truncation, the file is not one of a multiple of 4 GiB, and no handle is looked at that
`ext2fs_file_open` has not made.** For every outcome of `check_perms`, and so for `do_open`. -/
theorem open_whole_iff (debug : Bool) (checkPerms : Nat → Prog δ Errcode) (ino : Nat)
    (flags : OpenFlags) (state : Fs δ × List (Option Fault)) :
    (∀ perms,
      let ours : Prog δ OpenResult := doOpenTraced debug (Ext2Fuse.checkPerms perms ino) ino flags
      (doOpen perms ino flags).run (faultyLib env) state =
        ((ours.run (faultyLib env) state).1.seen, (ours.run (faultyLib env) state).2)) ∧
    let checked :=
      (checkPerms (if flags.forTrunc.wronly || flags.forTrunc.rdwr then W_OK else R_OK)).run
      (faultyLib env) state
    (Leads (faultyLib env) (doOpenTraced debug checkPerms ino flags)
        (fun result next => OpensWholly ino flags result next.1) state ↔
      (checked.1 = 0 → OpenGoesWell debug ino flags checked.2.1 checked.2.2)) := by
  refine ⟨fun perms => run_doOpen_traced debug state, ?_⟩
  dsimp only
  have sameTrunc : flags.forTrunc.trunc = flags.trunc := by
    rw [OpenFlags.forTrunc]
    split <;> rfl
  rw [doOpenTraced, leads_bind, Leads]
  dsimp only
  generalize (checkPerms (if flags.forTrunc.wronly || flags.forTrunc.rdwr then W_OK else R_OK)).run
    (faultyLib env) state = checked
  obtain ⟨rc, fs, faults⟩ := checked
  dsimp only
  by_cases denied : rc ≠ 0
  · rw [if_pos denied, leads_pure]
    refine iff_of_true ⟨fun _ => ⟨rfl, denied, rfl⟩, fun _ => rfl, by rintro _ ⟨⟩⟩
      fun passed => absurd passed denied
  rw [if_neg denied, leads_bind, leads_lift, imp_iff_right (not_not.mp denied)]
  by_cases opens : ¬ Fails faults 0 ∧ fs.validIno ino = true
  swap
  · have failing : Fails faults 0 ∨ ¬ fs.validIno ino = true := by tauto
    obtain ⟨rc, failed, refused⟩ := @exec_fileOpen_failed _ env fs faults ino failing
      (flags.forTrunc.rdwr || flags.forTrunc.wronly)
    rw [refused, leads_pure]
    constructor
    · rintro ⟨unread, -, -⟩
      obtain ⟨-, -, stray⟩ := unread rfl
      refine ⟨fun _ => Bool.or_eq_false_iff.mp stray, fun ok valid => absurd ⟨ok, valid⟩ opens⟩
    · rintro ⟨unread, -⟩
      exact ⟨fun _ => ⟨rfl, failed, Bool.or_eq_false_iff.mpr (unread failing)⟩,
        fun _ => rfl, by rintro _ ⟨⟩⟩
  rw [exec_fileOpen_ok opens.1 opens.2]
  have granted : ¬ (flags.forTrunc.rdwr &&
    !(flags.forTrunc.rdwr || flags.forTrunc.wronly)) = true := by
    cases flags.forTrunc.rdwr <;> simp
  dsimp only
  rw [if_neg granted, sameTrunc]
  have unread : Fails faults 0 ∨ ¬ fs.validIno ino = true → debug = false ∧
    flags.forTrunc.rdwr = false :=
    fun failing => absurd opens (by tauto)
  by_cases trunc : flags.trunc = true
  swap
  · rw [if_neg trunc, leads_pure]
    exact iff_of_true ⟨by rintro ⟨⟩, by rintro ⟨⟩, fun _ _ truncates => absurd truncates trunc⟩
      ⟨unread, fun _ _ truncates => absurd truncates trunc⟩
  have writable : (flags.forTrunc.rdwr || flags.forTrunc.wronly) = true := by
    rw [OpenFlags.forTrunc, trunc]
    cases wronly : flags.wronly <;> simp [wronly]
  rw [if_pos trunc, writable, leads_bind, Leads]
  obtain ⟨kept, unchanged, shortened⟩ :=
    @doFtruncate_zero _ env fs faults.tail ino (freshHandle fs ino) opens.2
  rw [freshHandle] at kept unchanged shortened
  generalize (doFtruncate { ino := ino, inode := fs.inodeTab ino, writable :=
    true } ino 0).run (faultyLib env)
    (fs, faults.tail) = outcome at kept unchanged shortened
  obtain ⟨⟨rc, efile⟩, next⟩ := outcome
  dsimp only at kept unchanged shortened ⊢
  rw [leads_pure]
  rw [fails_tail, fails_tail, fails_tail] at shortened
  by_cases empty : (fs.inodeTab ino).iSize = 0
  · obtain ⟨same, sameFs⟩ := unchanged empty
    obtain ⟨rfl, rfl⟩ := Prod.mk.inj same
    have size : (fs.inodeTab ino).ext2ISize = 0 ↔ (fs.inodeTab ino).iSizeHigh = 0 := by
      rw [Inode.ext2ISize, empty]
      omega
    constructor
    · rintro ⟨-, -, truncated⟩
      refine ⟨unread, fun _ _ _ => ?_⟩
      rw [if_pos empty]
      exact size.mp (truncated _ rfl trunc).2.1
    · rintro ⟨-, empties⟩
      have high := empties opens.1 opens.2 trunc
      rw [if_pos empty] at high
      refine ⟨fun failed => absurd failed (by simp), by rintro ⟨⟩, ?_⟩
      rintro _ ⟨⟩ -
      rw [sameFs]
      exact ⟨rfl, size.mpr high, size.mpr high⟩
  · obtain ⟨succeeds, emptied⟩ := shortened empty
    constructor
    · rintro ⟨failing, -, -⟩
      refine ⟨unread, fun _ _ _ => ?_⟩
      rw [if_neg empty]
      refine succeeds.mp (by_contra fun failed => ?_)
      obtain ⟨none, -⟩ := failing (by simpa using failed)
      cases none
    · rintro ⟨-, empties⟩
      have well := empties opens.1 opens.2 trunc
      rw [if_neg empty] at well
      have done := succeeds.mpr well
      refine ⟨fun failed => absurd done (by simpa using failed), by rintro ⟨⟩, ?_⟩
      rintro _ ⟨⟩ -
      exact ⟨kept, emptied done⟩

/-- `do_open` of the file with inode 11, in a build without messages, ends as it should. -/
def ElevenOpens (flags : OpenFlags) (fs : Fs (List Dirent)) (faults : List (Option Fault)) : Prop :=
  Leads (faultyLib listEnv) (doOpenTraced false (checkPerms (some ⟨0, 0⟩) 11) 11 flags)
    (fun result next => OpensWholly 11 flags result next.1) (fs, faults)

/-- The volume with the two files, where the first one is a hole of five bytes. -/
def fiveBytes : Fs (List Dirent) :=
  { twoFiles with
    inodeTab := Function.update twoFiles.inodeTab 11 { twoFiles.inodeTab 11 with iSize := 5 } }

/-- Truncated while it is opened, a file of 4 GiB keeps its size; a device that does not take the
new size leaves the handle with the caller; and one that does not give the inode has a handle read
that was never made. -/
theorem open_not_whole : ¬ ElevenOpens { wronly := true, trunc := true } fourGiB [] ∧
    ¬ ElevenOpens { wronly := true, trunc := true } fiveBytes [none, none, none, some ioFault] ∧
    ¬ ElevenOpens { rdwr := true } twoFiles [some ioFault] := by
  refine ⟨?_, ?_, ?_⟩
  · rintro ⟨-, -, truncated⟩
    obtain ⟨-, -, size⟩ := truncated _ rfl rfl
    exact absurd size (by decide +kernel)
  · rintro ⟨failing, -, -⟩
    obtain ⟨none, -⟩ := failing (by decide +kernel)
    cases none
  · rintro ⟨failing, -, -⟩
    obtain ⟨-, -, stray⟩ := failing (by decide +kernel)
    exact absurd stray (by decide +kernel)

end Ext2Fuse
