import Ext2Fuse.HandleCopy
import Ext2Fuse.Handlers

/-!
# Updates of an inode through handles and paths

A file may be open through any number of handles while it is changed by path. The
requests on one inode are served one after the other; each of them is meant to change
some fields of the inode on disk and no others.
-/

namespace Ext2Fuse

open Lib Program Fs

variable {δ : Type}

section Files

variable {env : Env δ} {fs fs' : Fs δ} {ino : Nat} {fh fh' : File}

/-- Storing a size through a handle in step extends the disk and leaves them in step. -/
theorem setFileSize_extends (valid : fs.validIno ino = true) (inStep : fs.InStep ino fh)
    {desiredSize : Nat} {rc : Errcode} {inode : Inode}
    (outcome : (setFileSize ino fh.inode desiredSize).run (Fs.lib env) fs = ((rc, inode), fs')) :
    rc = 0 ∧ Extends true ino fs fs' ∧ fs'.InStep ino { fh with inode := inode } := by
  have validLater : fs.advance.validIno ino = true := valid
  have same := field_of_current inStep.current
  simp only [setFileSize, run_bind, run_lift, run_pure, Fs.lib, Fs.exec,
    ext2fsWriteInode, validLater, if_true] at outcome
  cases outcome
  refine ⟨rfl, ⟨rfl, fun _ marked => marked, ?_, ?_, ?_⟩, inStep.own, by simp, inStep.held⟩
  · intro field other fixed
    rw [← same field]
    cases field <;> first | exact (Bool.noConfusion other) | simp [Field.of] at fixed ⊢
  · intro slot _
    simpa [Field.of] using same (.block slot)
  · intro _ field isBlock
    rw [← same field]
    cases field <;> first | exact (Bool.noConfusion isBlock) | simp [Field.of]

/-- So does a successful do_lengthen. -/
theorem doLengthen_extends (firstData : fs.super.sFirstDataBlock ≤ 1)
    (valid : fs.validIno ino = true) (inStep : fs.InStep ino fh) {length : Nat}
    (outcome : (doLengthen fh ino length).run (Fs.lib env) fs = ((0, fh'), fs')) :
    Extends true ino fs fs' ∧ fs'.InStep ino fh' := by
  simp only [doLengthen, run_bind, run_ite, run_pure, run_lift] at outcome
  split at outcome
  · cases outcome
    exact ⟨.refl _ _ _, inStep⟩
  · split at outcome
    · cases outcome
    · rcases wrote : fs.ext2fsFileWrite { fh with pos := fh.inode.ext2ISize }
        (List.replicate ((length - fh.inode.iSize) % 2 ^ 32) 0) with ⟨rc, written, file, fs₁⟩
      simp only [lib_fileWrite wrote, run_ite, run_pure, run_bind] at outcome
      split at outcome
      · rename_i failed
        cases outcome
        exact absurd rfl failed
      · rename_i succeeded
        rw [not_not] at succeeded
        subst succeeded
        split at outcome
        · cases outcome
        · obtain ⟨step, after⟩ := ext2fsFileWrite_extends firstData (inStep.seek _) wrote
          rcases sized : (setFileSize ino file.inode length).run
            (Fs.lib env) fs₁ with ⟨⟨rc, inode⟩, fs₂⟩
          obtain ⟨-, last, final⟩ := setFileSize_extends (by rw [step.validIno]; exact valid)
            (after.seek fh.pos) sized
          rw [sized] at outcome
          cases outcome
          exact ⟨step.resize.trans last, final⟩

/-- The data is written from a current copy; the size changes only when the data ends
behind it. -/
theorem writeData_extends (firstData : fs.super.sFirstDataBlock ≤ 1)
    (valid : fs.validIno ino = true) (inStep : fs.InStep ino fh) {data : List UInt8}
    {off bytes : Nat}
    (outcome : (writeData fh ino data off).run (Fs.lib env) fs = ((0, bytes, fh'), fs')) :
    Extends (decide ((fs.inodeTab ino).iSize < off + data.length)) ino fs fs' ∧
      fs'.InStep ino fh' := by
  rcases wrote : fs.ext2fsFileWrite { fh with pos := off } (data.take (data.length % 2 ^ 32)) with
    ⟨rc, written, file, fs₁⟩
  simp only [writeData, run_bind, run_ite, run_pure, run_lift, lib_fileWrite wrote] at outcome
  split at outcome
  · cases outcome
  · rename_i succeeded
    rw [not_not] at succeeded
    subst succeeded
    obtain ⟨step, after⟩ := ext2fsFileWrite_extends firstData (inStep.seek _) wrote
    have size : file.inode.iSize = (fs.inodeTab ino).iSize :=
      (field_of_current after.current .size).trans (step.kept .size rfl fun _ => rfl)
    split at outcome
    · cases outcome
    · split at outcome
      · cases outcome
        exact ⟨step.resize, after⟩
      · rename_i behind
        split at outcome
        · cases outcome
        · rcases sized : (setFileSize ino file.inode (off + data.length)).run (Fs.lib env) fs₁ with
            ⟨⟨rc, inode⟩, fs₂⟩
          obtain ⟨-, last, final⟩ :=
            setFileSize_extends (by rw [step.validIno]; exact valid) after sized
          rw [sized] at outcome
          cases outcome
          rw [size] at behind
          rw [decide_eq_true (by omega)]
          exact ⟨step.resize.trans last, final⟩

/-- So does a successful do_write, which changes the size only when it must lengthen. -/
theorem doWrite_extends (firstData : fs.super.sFirstDataBlock ≤ 1)
    (valid : fs.validIno ino = true) (inStep : fs.InStep ino fh) {data : List UInt8}
    {off bytes : Nat}
    (outcome : (doWrite fh ino data off).run (Fs.lib env) fs = ((0, bytes, fh'), fs')) :
    Extends (decide ((fs.inodeTab ino).iSize < off + data.length)) ino fs fs' ∧
      fs'.InStep ino fh' := by
  simp only [doWrite, run_ite] at outcome
  split at outcome
  · rename_i gap
    rcases filled : (doFtruncate fh ino off).run (Fs.lib env) fs with ⟨⟨rc, file⟩, fs₁⟩
    simp only [run_bind, filled, run_ite, run_pure] at outcome
    split at outcome
    · rename_i failed
      cases outcome
      exact absurd rfl failed
    · rename_i succeeded
      rw [not_not] at succeeded
      subst succeeded
      simp only [doFtruncate, if_pos gap] at filled
      obtain ⟨step, after⟩ := doLengthen_extends firstData valid inStep filled
      obtain ⟨last, final⟩ := writeData_extends (by rw [step.super]; exact firstData)
        (by rw [step.validIno]; exact valid) after outcome
      have size : fh.inode.iSize = (fs.inodeTab ino).iSize := field_of_current inStep.current .size
      rw [decide_eq_true (by omega)]
      exact ⟨step.trans (last.weaken fun _ => rfl), final⟩
  · exact writeData_extends firstData valid inStep outcome

/-- Of the inode on disk, the size and the blocks have changed at most. -/
structure Resizes (ino : Nat) (fs fs' : Fs δ) : Prop where
  super : fs'.super = fs.super
  kept : ∀ field : Field, field.isBlock = false → field ≠ .size →
    field.of (fs'.inodeTab ino) = field.of (fs.inodeTab ino)

/-- Two resizing steps in a row resize. -/
theorem Resizes.trans {fs'' : Fs δ} (first : Resizes ino fs fs') (second : Resizes ino fs' fs'') :
    Resizes ino fs fs'' :=
  ⟨second.super.trans first.super, fun field other fixed =>
    (second.kept field other fixed).trans (first.kept field other fixed)⟩

/-- A step that extends is one that resizes. -/
theorem Fs.Extends.resizes {resized : Bool} (step : Extends resized ino fs fs') :
    Resizes ino fs fs' :=
  ⟨step.super, fun field other fixed => step.kept field other fun isSize => absurd isSize fixed⟩

/-- What is neither a block nor the size is read off the unsized inode. -/
theorem field_unsized {inode inode' : Inode} (same : inode'.unsized = inode.unsized) {field : Field}
    (other : field.isBlock = false) (fixed : field ≠ .size) : field.of inode' = field.of inode := by
  have unsized : ∀ inode : Inode, field.of inode.unsized = field.of inode := by
    intro inode
    cases field <;> first | exact (Bool.noConfusion other) | exact absurd rfl fixed | rfl
  rw [← unsized inode', same, unsized]

/-- A step that keeps the unsized inode resizes at most. -/
theorem Resizes.of_unsized (super : fs'.super = fs.super)
    (same : (fs'.inodeTab ino).unsized = (fs.inodeTab ino).unsized) : Resizes ino fs fs' :=
  ⟨super, fun _ other fixed => field_unsized same other fixed⟩

/-- `do_shorten` leaves a handle that has written nothing as clean as it was. -/
theorem doShorten_resizes (valid : fs.validIno ino = true) (inStep : fs.InStep ino fh)
    {length : Nat} {rc : Errcode}
    (outcome : (doShorten fh ino length).run (Fs.lib env) fs = ((rc, fh'), fs')) :
    Resizes ino fs fs' ∧ fh'.ino = ino ∧ fh'.bufDirty = fh.bufDirty ∧
      fh'.bufValid = fh.bufValid := by
  have same : Resizes ino fs fs := (Extends.refl false ino fs).resizes
  simp only [doShorten, run_bind, run_ite, run_pure, run_lift, lib_super] at outcome
  split at outcome
  · cases outcome
    exact ⟨same, inStep.own, rfl, rfl⟩
  · split at outcome
    · cases outcome
      exact ⟨same, inStep.own, rfl, rfl⟩
    · rcases sized : (setFileSize ino fh.inode length).run (Fs.lib env) fs with ⟨⟨rc₁, inode⟩, fs₁⟩
      obtain ⟨rfl, step, own, current, held⟩ := setFileSize_extends valid inStep sized
      rw [sized] at outcome
      simp only [ne_eq, not_true_eq_false, if_false] at outcome
      obtain ⟨vol, iBlock, super, iterated⟩ := lib_blockIterateTruncate_frame env fs₁ ino
        { lastBlockToKeep := if length = 0 then -1 else ((length - 1) / fs.super.blocksize : Nat)
          numInIndirectBlock := fs.super.addrPerBlock }
      generalize (lib env).exec (.blockIterateTruncate ino _) fs₁ = truncated at iterated outcome
      have truncates : Resizes ino fs₁ truncated.2 := by
        rw [iterated]
        exact .of_unsized super (by simp [Inode.unsized])
      have validLater : truncated.2.validIno ino = true := by
        rw [validIno_congr truncates.super, step.validIno]
        exact valid
      simp only [lib_readInode, ext2fsReadInode, validLater, if_true, run_bind, run_lift,
        lib_writeInode, run_pure, ext2fsWriteInode] at outcome
      cases outcome
      refine ⟨(step.resizes.trans truncates).trans (.of_unsized rfl ?_), own, rfl, rfl⟩
      simp [Inode.unsized]

/-- check_perms changes nothing and passes, as the switch is off. -/
theorem run_checkPerms (perms : Perms) (requested : Nat) :
    (checkPerms perms ino requested).run (Fs.lib env) fs = (0, fs) := rfl

/-- What `ext2fs_file_open` returns is in step. -/
theorem inStep_fresh (fs : Fs δ) (ino : Nat) (writable : Bool) :
    fs.InStep ino { ino := ino, inode := fs.inodeTab ino, writable := writable } :=
  ⟨rfl, rfl, nofun⟩

/-- `do_open` without `O_TRUNC`: a fresh handle. -/
theorem run_doOpen (valid : fs.validIno ino = true) (perms : Perms) {flags : OpenFlags}
    (kept : flags.trunc = false) :
    (doOpen perms ino flags).run (Fs.lib env) fs =
      (.ok { ino := ino, inode := fs.inodeTab ino, writable := flags.rdwr || flags.wronly },
        fs) := by
  simp [doOpen, run_checkPerms, ext2fsFileOpen, ext2fsReadInode, valid, kept]

/-- `do_open` with `O_TRUNC`: the fresh handle is truncated. -/
theorem run_doOpen_trunc (valid : fs.validIno ino = true) (perms : Perms) {flags : OpenFlags}
    (truncates : flags.trunc = true) : (doOpen perms ino flags).run (Fs.lib env) fs =
      (.ok ((doShorten { ino := ino, inode := fs.inodeTab ino, writable := true } ino 0).run
        (Fs.lib env) fs).1.2,
      ((doShorten { ino := ino, inode := fs.inodeTab ino, writable := true } ino 0).run
        (Fs.lib env) fs).2) := by
  cases writes : flags.wronly <;>
    simp [doOpen, run_checkPerms, ext2fsFileOpen, ext2fsReadInode, valid, truncates, writes,
      doFtruncate]

/-- A successful do_open changes nothing but for O_TRUNC, which resizes. -/
theorem doOpen_resizes (valid : fs.validIno ino = true) {perms : Perms} {flags : OpenFlags}
    (outcome : (doOpen perms ino flags).run (Fs.lib env) fs = (.ok fh, fs')) :
    Resizes ino fs fs' ∧ fh.ino = ino ∧ fh.bufDirty = false ∧ (flags.trunc = false → fs' = fs) := by
  cases trunc : flags.trunc with
  | false =>
      rw [run_doOpen valid perms trunc] at outcome
      cases outcome
      exact ⟨(Extends.refl false ino fs).resizes, rfl, rfl, fun _ => rfl⟩
  | true =>
      rw [run_doOpen_trunc valid perms trunc] at outcome
      cases outcome
      have shortened : (doShorten { ino := ino, inode := fs.inodeTab ino, writable := true } ino
          0).run (Fs.lib env) fs = ((_, _), _) := rfl
      obtain ⟨step, own, dirty, -⟩ := doShorten_resizes valid (inStep_fresh fs ino true) shortened
      exact ⟨step, own, dirty, nofun⟩

/-- A successful do_truncate resizes. -/
theorem doTruncate_resizes (firstData : fs.super.sFirstDataBlock ≤ 1)
    (valid : fs.validIno ino = true) {perms : Perms} {length : Nat}
    (outcome : (doTruncate perms ino length).run (Fs.lib env) fs = (0, fs')) :
    Resizes ino fs fs' := by
  have opened : (doOpen perms ino { creat := true, wronly := true }).run (Fs.lib env) fs = _ :=
    run_doOpen valid perms rfl
  generalize fileEq : ({ ino := ino, inode := fs.inodeTab ino, writable :=
    _ } : File) = file at opened
  have inStep : fs.InStep ino file := by
    rw [← fileEq]
    exact inStep_fresh fs ino _
  have clean : file.bufDirty = false := by rw [← fileEq]
  rcases resized : (doFtruncate file ino length).run (Fs.lib env) fs with ⟨⟨rc, file'⟩, fs₁⟩
  rcases flushed : fs₁.ext2fsFileFlush file' with ⟨closeRc, file'', fs₂⟩
  simp only [doTruncate, run_bind, opened, resized, doFileClose, run_lift, lib_fileFlush flushed,
    run_pure] at outcome
  split at outcome
  · rename_i failed
    cases outcome
    exact absurd rfl failed
  · rename_i succeeded
    rw [not_not] at succeeded
    subst succeeded
    cases outcome
    simp only [doFtruncate] at resized
    split at resized
    · obtain ⟨step, after⟩ := doLengthen_extends firstData valid inStep resized
      obtain ⟨last, -⟩ := ext2fsFileFlush_extends
        (by rw [step.super]; exact firstData) after flushed
      exact step.resizes.trans last.resizes
    · obtain ⟨step, -, dirty, -⟩ := doShorten_resizes valid inStep resized
      simp only [ext2fsFileFlush, dirty, clean, Bool.not_false, Bool.or_true, if_true] at flushed
      cases flushed
      exact step

end Files

section Paths

variable {env : Env δ} {fs fs' : Fs δ} {ino : Nat}

/-- read_inode of a number in range gives the table's inode. -/
theorem run_readInode (valid : fs.validIno ino = true) :
    (readInode ino : Prog δ _).run (Fs.lib env) fs = (.ok (fs.inodeTab ino), fs) := by
  simp [readInode, ext2fsReadInode, valid]

/-- write_inode of a number in range updates the table. -/
theorem run_writeInode (valid : fs.validIno ino = true) (inode : Inode) :
    (writeInode ino inode).run (Fs.lib env) fs =
      (0, { fs with inodeTab := Function.update fs.inodeTab ino inode }) := by
  simp [writeInode, ext2fsWriteInode, valid]

/-- The fields an `op_setattr` request selects, of those that are no block pointers. -/
def SetAttr.selects (attr : SetAttr) : Field → Bool
  | .mode => attr.mode.isSome
  | .uid => attr.uid.isSome
  | .gid => attr.gid.isSome
  | .size | .blocks | .block _ => attr.size.isSome
  | .links => false

/-- A field keeps its value if nothing is selected, or another field. -/
theorem setSelected_kept {α : Type} {ctx : FuseCtx} {selected : Option α} {set : Inode → α → Inode}
    {field : Field} (inode : Inode)
    (kept : selected = none ∨ ∀ inode value, field.of (set inode value) = field.of inode) :
    field.of (setSelected ctx selected set inode) = field.of inode := by
  obtain rfl | other := kept
  · rfl
  · simp only [setSelected]
    split
    · split
      · exact other _ _
      · rfl
    · rfl

/-- A field that is not selected keeps its value. -/
theorem applyAttr_kept (ctx : FuseCtx) (attr : SetAttr) (now : Nat) (inode : Inode) (field : Field)
    (unselected : attr.selects field = false) :
    field.of (applyAttr ctx attr now inode) = field.of inode := by
  have times : ∀ (inode : Inode) (value : Int),
      field.of { inode with iAtime := (value % 2 ^ 32).toNat } = field.of inode ∧
        field.of { inode with iMtime := (value % 2 ^ 32).toNat } = field.of inode := by
    intro inode value
    cases field <;> exact ⟨rfl, rfl⟩
  simp only [applyAttr]
  rw [setSelected_kept _ (.inr fun inode value => (times inode value).2),
    setSelected_kept _ (.inr fun inode value => (times inode value).1),
    setSelected_kept, setSelected_kept, setSelected_kept]
  all_goals
    cases field <;> first
      | exact .inr fun _ _ => rfl
      | exact .inl (by simpa [SetAttr.selects] using unselected)

/-- A successful op_setattr changes the selected fields, and blocks and size with a new size. -/
theorem opSetattr_kept (firstData : fs.super.sFirstDataBlock ≤ 1) (valid : fs.validIno ino = true)
    (inoEq : EXT2FS_INO ino = ino) {ctx : FuseCtx} {attr : SetAttr} {replies : List Reply}
    (outcome : (opSetattr ctx ino attr).run (Fs.lib env) fs = (replies, fs'))
    (succeeds : replies.all Reply.ok = true) :
    fs'.super = fs.super ∧ ∀ field : Field, attr.selects field = false →
      field.of (fs'.inodeTab ino) = field.of (fs.inodeTab ino) := by
  have rest : ∀ (fs₁ : Fs δ) replies, fs₁.validIno ino = true →
      (setAttrRest ctx ino attr).run (Fs.lib env) fs₁ = (replies, fs') → fs'.super = fs₁.super ∧
        ∀ field : Field, attr.selects field = false →
          field.of (fs'.inodeTab ino) = field.of (fs₁.inodeTab ino) := by
    intro fs₁ replies valid outcome
    have validLater : fs₁.advance.validIno ino = true := valid
    simp only [setAttrRest, inoEq, run_bind, run_readInode valid, run_lift, lib_time,
      run_writeInode validLater, ne_eq, not_true_eq_false, if_false, lib_super, run_pure] at outcome
    cases outcome
    refine ⟨rfl, fun field unselected => ?_⟩
    simpa using applyAttr_kept ctx attr _ (fs₁.inodeTab ino) field unselected
  cases resized : attr.size with
  | none =>
      simp only [opSetattr, resized] at outcome
      exact rest fs replies valid outcome
  | some size =>
      rcases truncated : (doTruncate (some ctx) ino size).run (Fs.lib env) fs with ⟨rc, fs₁⟩
      simp only [opSetattr, resized, inoEq, run_bind, truncated, run_ite, run_pure] at outcome
      split at outcome
      · rename_i failed
        cases outcome
        simp [Reply.ok, failed] at succeeds
      · rename_i succeeded
        rw [not_not] at succeeded
        subst succeeded
        have step := doTruncate_resizes firstData valid truncated
        obtain ⟨super, kept⟩ := rest fs₁ replies
          (by rw [validIno_congr step.super]; exact valid) outcome
        refine ⟨super.trans step.super, fun field unselected => ?_⟩
        rw [kept field unselected]
        refine step.kept field ?_ ?_
        · cases field <;> first | rfl | simp [SetAttr.selects, resized] at unselected
        · rintro rfl
          simp [SetAttr.selects, resized] at unselected

/-- A link into `dir` is seen in its own inode at most, and there in the size and the
blocks. -/
structure Enters (dir ino : Nat) (fs fs' : Fs δ) : Prop where
  resizes : Resizes ino fs fs'
  apart : ino ≠ dir → fs'.inodeTab ino = fs.inodeTab ino

/-- Two steps that enter names enter names. -/
theorem Enters.trans {dir : Nat} {fs'' : Fs δ} (first : Enters dir ino fs fs')
    (second : Enters dir ino fs' fs'') : Enters dir ino fs fs'' :=
  ⟨first.resizes.trans second.resizes, fun different =>
    (second.apart different).trans (first.apart different)⟩

/-- ext2fs_link touches the directory's inode only, for its index flag. -/
theorem ext2fsLink_enters (fs : Fs δ) (dir : Nat) (name : Name) (target flags ino : Nat) :
    Enters dir ino fs (fs.ext2fsLink env dir name target flags).2 := by
  have same : ∀ dirs, Enters dir ino fs { fs with dirs := dirs } :=
    fun _ => ⟨⟨rfl, fun _ _ _ => rfl⟩, fun _ => rfl⟩
  simp only [ext2fsLink]
  generalize (if fs.super.filetype then flags % 8 else 0) = fileType
  split
  · split
    · exact same _
    · split
      · simp only [ext2fsWriteInode]
        split
        · refine ⟨⟨rfl, fun field other fixed => ?_⟩,
            fun different => Function.update_of_ne different _ _⟩
          by_cases here : ino = dir
          · subst here
            cases field <;> simp [Field.of]
          · simp [here]
        · exact same _
      · exact same _
  · exact same fs.dirs

/-- ext2fs_expand_dir touches the directory's inode only, for its size and blocks. -/
theorem ext2fsExpandDir_enters (fs : Fs δ) (dir ino : Nat) :
    Enters dir ino fs (fs.ext2fsExpandDir env dir).2 := by
  obtain ⟨super, apart, unsized⟩ := ext2fsExpandDir_frame env fs dir ino
  exact ⟨.of_unsized super unsized, apart⟩

/-- So does do_link, with its second try. -/
theorem doLink_enters (env : Env δ) (fs : Fs δ) (dir : Nat) (name : Name)
    (target filetype ino : Nat) :
    Enters dir ino fs ((doLink dir name target filetype).run (Fs.lib env) fs).2 := by
  have linked : ∀ fs : Fs δ, Enters dir ino fs
      ((Fs.lib env).exec (.link dir name target filetype) fs).2 := fun fs =>
    ext2fsLink_enters fs dir name target filetype ino
  have expanded : ∀ fs : Fs δ, Enters dir ino fs ((Fs.lib env).exec (.expandDir dir) fs).2 :=
    fun fs => ext2fsExpandDir_enters fs dir ino
  rw [doLink, run_bind, run_lift, run_ite]
  split
  · rw [run_bind, run_lift, run_ite]
    split
    · exact (linked fs).trans (expanded _)
    · exact ((linked fs).trans (expanded _)).trans (linked _)
  · exact linked fs

/-- `op_link` changes the count of the inode, and of the new parent the size and the
blocks at most. -/
theorem opLink_kept (valid : fs.validIno ino = true) (inoEq : EXT2FS_INO ino = ino)
    {ctx : FuseCtx} {newparent : Nat} {newname : Name} {replies : List Reply}
    (outcome : (opLink ctx ino newparent newname).run (Fs.lib env) fs = (replies, fs'))
    (succeeds : replies.all Reply.ok = true) :
    fs'.super = fs.super ∧ ∀ field : Field, field ≠ .links →
      (ino = EXT2FS_INO newparent → field.isBlock = false ∧ field ≠ .size) →
      field.of (fs'.inodeTab ino) = field.of (fs.inodeTab ino) := by
  simp only [opLink, inoEq, run_bind, run_checkPerms, run_readInode valid,
    run_writeInode valid, ne_eq, not_true_eq_false, if_false, run_ite, run_pure] at outcome
  have raised : ∀ field : Field, field ≠ .links →
      field.of (fs.inodeTab ino).raiseLinks = field.of (fs.inodeTab ino) := by
    intro field fixed
    cases field <;> first | rfl | exact absurd rfl fixed
  generalize writtenEq : ({ fs with
    inodeTab := Function.update fs.inodeTab ino (fs.inodeTab ino).raiseLinks } : Fs δ) =
      written at outcome
  have sameSuper : written.super = fs.super := by rw [← writtenEq]; rfl
  have record : written.inodeTab ino = (fs.inodeTab ino).raiseLinks := by simp [← writtenEq]
  have entered := doLink_enters env written (EXT2FS_INO newparent) newname ino
    (ext2FileType (fs.inodeTab ino).raiseLinks.iMode) ino
  split at outcome
  · have validLater := (validIno_congr (entered.resizes.super.trans sameSuper) ino).trans valid
    simp only [run_writeInode validLater, not_true_eq_false, if_false] at outcome
    cases outcome
    simp [Reply.ok, ENOENT] at succeeds
  · simp only [run_lift, lib_super] at outcome
    cases outcome
    refine ⟨entered.resizes.super.trans sameSuper, fun field fixed unsized => ?_⟩
    rw [← raised field fixed]
    by_cases here : ino = EXT2FS_INO newparent
    · obtain ⟨other, notSize⟩ := unsized here
      rw [entered.resizes.kept field other notSize, record]
    · rw [entered.apart here, record]

/-- `kill_file_by_inode` writes the inode it is given, with no links. -/
theorem killFileByInode_kept (valid : fs.validIno ino = true) (inode : Inode) :
    ((killFileByInode ino inode).run (Fs.lib env) fs).2.super = fs.super ∧
      ∀ field : Field, field ≠ .links →
        field.of (((killFileByInode ino inode).run (Fs.lib env) fs).2.inodeTab ino) =
          field.of inode := by
  have validLater : fs.advance.validIno ino = true := valid
  have unlinked : ∀ field : Field, field ≠ .links → ∀ now,
      field.of { inode with iLinksCount := 0, iDtime := now } = field.of inode := by
    intro field fixed now
    cases field <;> first | rfl | exact absurd rfl fixed
  rw [killFileByInode, run_bind, run_lift, lib_time]
  dsimp only
  rw [run_bind, run_writeInode validLater]
  dsimp only
  rw [if_neg (by simp), run_ite]
  split
  · refine ⟨rfl, fun field fixed => ?_⟩
    simpa using unlinked field fixed _
  · obtain ⟨super, inodes⟩ := lib_blockIterateRelease_frame env
      { fs.advance with
        inodeTab := Function.update fs.advance.inodeTab ino
          { inode with iLinksCount := 0, iDtime := env.time fs.vol.tick } } ino
    refine ⟨super, fun field fixed => ?_⟩
    change field.of (((Fs.lib env).exec (.blockIterateRelease ino) _).2.inodeTab ino) = _
    rw [inodes]
    simpa using unlinked field fixed _

/-- do_unlink_on_ino lowers the count of the inode and keeps its other fields. -/
theorem doUnlinkOnIno_kept (valid : fs.validIno ino = true) {parent : Nat} {name : Name}
    {links : Int} {rc : Errcode}
    (outcome : (doUnlinkOnIno parent name ino links).run (Fs.lib env) fs = (rc, fs')) :
    fs'.super = fs.super ∧ ∀ field : Field, field ≠ .links →
      field.of (fs'.inodeTab ino) = field.of (fs.inodeTab ino) := by
  have removed : ((Fs.lib env).exec (.unlink parent name ino) fs).2.super = fs.super := by
    change (fs.ext2fsUnlink env parent name ino).2.super = _
    simp only [ext2fsUnlink]
    split <;> rfl
  simp only [doUnlinkOnIno, run_bind, run_readInode valid, run_ite, run_pure, run_lift] at outcome
  split at outcome
  · cases outcome
    exact ⟨rfl, fun _ _ => rfl⟩
  · generalize inodeEq : (if (fs.inodeTab ino).iLinksCount > 0 then
      { fs.inodeTab ino with
        iLinksCount := (((fs.inodeTab ino).iLinksCount + links) % 2 ^ 16).toNat }
      else fs.inodeTab ino) = inode at outcome
    have lowered : ∀ field : Field, field ≠ .links →
      field.of inode = field.of (fs.inodeTab ino) := by
      intro field fixed
      rw [← inodeEq]
      split
      · cases field <;> first | rfl | exact absurd rfl fixed
      · rfl
    have validLater := (validIno_congr removed ino).trans valid
    split at outcome
    · obtain ⟨super, kept⟩ := killFileByInode_kept validLater inode
      rw [← (Prod.mk.inj outcome).2]
      exact ⟨super.trans removed, fun field fixed => (kept field fixed).trans (lowered field fixed)⟩
    · rw [run_writeInode validLater] at outcome
      rw [← (Prod.mk.inj outcome).2]
      refine ⟨removed, fun field fixed => ?_⟩
      simpa using lowered field fixed

end Paths

/-- The filesystem and the open handles. -/
structure Session (δ : Type) where
  fs : Fs δ
  handles : Nat → Option File

/-- The requests on one inode: through a handle, given by its number, and by path. -/
inductive FileOp where
  | open (handle : Nat) (perms : Perms) (flags : OpenFlags)
  | read (handle size off : Nat)
  | write (handle : Nat) (data : List UInt8) (off : Nat)
  | flush (handle : Nat)
  | close (handle : Nat)
  | setattr (ctx : FuseCtx) (attr : SetAttr)
  | link (ctx : FuseCtx) (newparent : Nat) (newname : Name)
  | unlink (parent : Nat) (name : Name)

namespace FileOp

/-- Serve a request on the inode `ino`; there is a next session only if it succeeds. -/
def serve (env : Env δ) (ino : Nat) : FileOp → Session δ → Option (Session δ)
  | .open handle perms flags, session =>
      match session.handles handle, (doOpen perms ino flags).run (Fs.lib env) session.fs with
      | none, (.ok fh, fs) => some ⟨fs, Function.update session.handles handle (some fh)⟩
      | _, _ => none
  | .read handle size off, session =>
      match session.handles handle with
      | none => none
      | some fh =>
          match (doRead fh ino size off).run (Fs.lib env) session.fs with
          | ((0, _, fh), fs) => some ⟨fs, Function.update session.handles handle (some fh)⟩
          | _ => none
  | .write handle data off, session =>
      match session.handles handle with
      | none => none
      | some fh =>
          match (doWrite fh ino data off).run (Fs.lib env) session.fs with
          | ((0, _, fh), fs) => some ⟨fs, Function.update session.handles handle (some fh)⟩
          | _ => none
  | .flush handle, session =>
      match session.handles handle with
      | none => none
      | some fh =>
          match (doFileFlush fh).run (Fs.lib env) session.fs with
          | ((0, fh), fs) => some ⟨fs, Function.update session.handles handle (some fh)⟩
          | _ => none
  | .close handle, session =>
      match session.handles handle with
      | none => none
      | some fh =>
          match (doFileClose fh).run (Fs.lib env) session.fs with
          | (0, fs) => some ⟨fs, Function.update session.handles handle none⟩
          | _ => none
  | .setattr ctx attr, session =>
      match (opSetattr ctx ino attr).run (Fs.lib env) session.fs with
      | (replies, fs) => if replies.all Reply.ok then some { session with fs := fs } else none
  | .link ctx newparent newname, session =>
      match (opLink ctx ino newparent newname).run (Fs.lib env) session.fs with
      | (replies, fs) => if replies.all Reply.ok then some { session with fs := fs } else none
  | .unlink parent name, session =>
      match (doUnlinkOnIno parent name ino (-1)).run (Fs.lib env) session.fs with
      | (0, fs) => some { session with fs := fs }
      | _ => none

/-- The request has allocated blocks. -/
def Allocates (before after : Session δ) : Prop := after.fs.vol.blockMap ≠ before.fs.vol.blockMap

/-- Writing out what a handle holds is meant to change the number of blocks and pointers
that were 0, and only if it allocates. -/
def MeantByFlush (ino : Nat) (before after : Session δ) : Field → Prop
  | .blocks => Allocates before after
  | .block slot => (before.fs.inodeTab ino).iBlock slot = 0 ∧ Allocates before after
  | _ => False

/-- Is a request, served between two sessions, meant to change a field? -/
def Meant (ino : Nat) (before after : Session δ) : FileOp → Field → Prop
  | .open _ _ flags, field => flags.trunc = true ∧ (field.isBlock = true ∨ field = .size)
  | .read _ _ _, _ => False
  | .write _ data off, field => MeantByFlush ino before after field ∨
      field = .size ∧ (before.fs.inodeTab ino).iSize < off + data.length
  | .flush _, field | .close _, field => MeantByFlush ino before after field
  | .setattr _ attr, field => attr.selects field = true
  | .link _ newparent _, field => field = .links ∨
      ino = EXT2FS_INO newparent ∧ (field.isBlock = true ∨ field = .size)
  | .unlink _ _, field => field = .links

/-- The copy of the inode a handle holds is the one on disk, the access time apart. -/
def Current (ino : Nat) (session : Session δ) (fh : File) : Prop :=
  fh.inode.settled = (session.fs.inodeTab ino).settled

/-- The request is not served from a stale copy: a handle that writes its copy to disk
finds it current. And a read that finds an unsaved block in the buffer, one the volume
has no block for yet, stays in this block. -/
def InStep (ino : Nat) (session : Session δ) : FileOp → Prop
  | .read handle size off => ∀ fh, session.handles handle = some fh →
      Current ino session fh ∧ (fh.bufDirty = true → fh.physblock = 0 → ∀ pos, off ≤ pos →
        pos < off + size % 2 ^ 32 → pos < fh.inode.ext2ISize →
          pos / session.fs.blocksize = fh.blockno)
  | .write handle _ _ => ∀ fh, session.handles handle = some fh → Current ino session fh
  | .flush handle | .close handle => ∀ fh, session.handles handle = some fh →
      fh.bufDirty = true → fh.physblock = 0 → Current ino session fh
  | _ => True

end FileOp

/-- The handles are open on `ino`, and none claims to have changed a buffer that holds
nothing. -/
def Session.OpenOn (ino : Nat) (session : Session δ) : Prop :=
  ∀ handle fh, session.handles handle = some fh →
    fh.ino = ino ∧ (fh.bufDirty = true → fh.bufValid = true)

/-- Requests served one after the other, each of them one that is allowed in its session.
`left` is the value each field was given by the last request meant to change it. -/
inductive Served (env : Env δ) (ino : Nat) (allowed : Session δ → FileOp → Prop)
    (start : Session δ) : Session δ → (Field → Nat) → Prop where
  | start : Served env ino allowed start start fun field => field.of (start.fs.inodeTab ino)
  | step {before after : Session δ} {left left' : Field → Nat} {op : FileOp}
      (served : Served env ino allowed start before left) (allows : allowed before op)
      (succeeds : op.serve env ino before = some after)
      (set : ∀ field, op.Meant ino before after field →
        left' field = field.of (after.fs.inodeTab ino))
      (kept : ∀ field, ¬ op.Meant ino before after field → left' field = left field) :
      Served env ino allowed start after left'

section Served

variable {env : Env δ} {ino : Nat} {before after start session : Session δ}

/-- Storing a handle of the inode keeps all open handles handles of it. -/
theorem Session.OpenOn.put (openOn : before.OpenOn ino) {fs : Fs δ} {handle : Nat}
    {slot : Option File}
    (fresh : ∀ fh, slot = some fh → fh.ino = ino ∧ (fh.bufDirty = true → fh.bufValid = true)) :
    Session.OpenOn ino ⟨fs, Function.update before.handles handle slot⟩ := by
  intro other fh found
  by_cases same : other = handle
  · subst same
    exact fresh fh (by simpa using found)
  · exact openOn other fh (by simpa [same] using found)

/-- Where no block has been allocated, or another field is looked at, an allocation is not
seen. -/
theorem unmeant_of_extends (before after : Session δ) {resized : Bool}
    (step : Extends resized ino before.fs after.fs) {field : Field}
    (unmeant : ¬ FileOp.MeantByFlush ino before after field)
    (fixed : field = .size → resized = false) :
    field.of (after.fs.inodeTab ino) = field.of (before.fs.inodeTab ino) := by
  cases isBlock : field.isBlock with
  | false => exact step.kept field isBlock fixed
  | true =>
      by_cases same : after.fs.vol.blockMap = before.fs.vol.blockMap
      · exact step.none same field isBlock
      · cases field with
        | blocks => exact absurd same unmeant
        | block slot =>
            by_cases empty : (before.fs.inodeTab ino).iBlock slot = 0
            · exact absurd ⟨empty, same⟩ unmeant
            · exact step.keeps slot empty
        | _ => cases isBlock

/-- Writing a handle's buffer out from a current copy, or to a block it has. -/
theorem ext2fsFileFlush_step {fs' : Fs δ} {fh fh' : File}
    (firstData : before.fs.super.sFirstDataBlock ≤ 1)
    (own : fh.ino = ino) (held : fh.bufDirty = true → fh.bufValid = true)
    (current : fh.bufDirty = true → fh.physblock = 0 → FileOp.Current ino before fh)
    (flushed : before.fs.ext2fsFileFlush fh = (0, fh', fs')) :
    Extends false ino before.fs fs' ∧ fh'.ino = ino ∧
      (fh'.bufDirty = true → fh'.bufValid = true) := by
  by_cases unsaved : fh.bufDirty = true ∧ fh.physblock = 0
  · obtain ⟨step, after, -⟩ := ext2fsFileFlush_extends firstData
      ⟨own, current unsaved.1 unsaved.2, held⟩ flushed
    exact ⟨step, after.own, after.held⟩
  · simp only [ext2fsFileFlush] at flushed
    split at flushed
    · cases flushed
      exact ⟨.refl _ _ _, own, held⟩
    · rename_i dirty
      have hasBlock : fh.physblock ≠ 0 := by
        intro missing
        simp only [Bool.or_eq_true, Bool.not_eq_true', not_or, Bool.not_eq_false] at dirty
        exact unsaved ⟨dirty.2, missing⟩
      rw [if_neg hasBlock] at flushed
      cases flushed
      exact ⟨.of_same rfl rfl rfl, own, by rintro ⟨⟩⟩

/-- `do_read` in step with the disk sets the access time, and that is all. -/
theorem doRead_still {fs fs' : Fs δ} {fh fh' : File} {size off : Nat} {got : List UInt8}
    (valid : fs.validIno ino = true) (inStep : fs.InStep ino fh)
    (stays : fh.bufDirty = true → fh.physblock = 0 → ∀ pos, off ≤ pos → pos < off + size % 2 ^ 32 →
      pos < fh.inode.ext2ISize → pos / fs.blocksize = fh.blockno)
    (outcome : (doRead fh ino size off).run (Fs.lib env) fs = ((0, got, fh'), fs')) :
    (∃ now, fs'.inodeTab =
      Function.update fs.inodeTab ino { fs.inodeTab ino with iAtime := now }) ∧
      fs'.vol.blockMap = fs.vol.blockMap ∧ fs'.super = fs.super ∧ fs'.InStep ino fh' := by
  rcases readEq : fs.ext2fsFileRead { fh with pos := off } (size % 2 ^ 32) with ⟨rc, got', fh₁, fs₁⟩
  simp only [doRead, run_bind, run_lift, lib_fileRead readEq, run_ite, run_pure, lib_time,
    lib_writeInode] at outcome
  split at outcome
  · rename_i failed
    cases outcome
    exact absurd rfl failed
  · rename_i succeeded
    rw [not_not] at succeeded
    subst succeeded
    obtain ⟨inodes, marks, super, own, current, held⟩ :=
      fileReadLoop_still (inStep.seek off) stays readEq
    have validLater : fs₁.advance.validIno ino = true := by
      rw [validIno_congr (by exact super)]
      exact valid
    simp only [ext2fsWriteInode, validLater, if_true] at outcome
    cases outcome
    have written : ({ fh₁.inode with iAtime := env.time fs₁.vol.tick } : Inode) =
        { fs.inodeTab ino with iAtime := env.time fs₁.vol.tick } := by
      rw [inodes] at current
      exact congrArg (fun inode : Inode => { inode with iAtime := env.time fs₁.vol.tick }) current
    refine ⟨⟨env.time fs₁.vol.tick, ?_⟩, marks, super, own, ?_, held⟩
    · rw [← written, ← inodes]
      rfl
    · simp [Inode.settled]

/-- A session in which the handles are open on `ino`, of a volume that has this inode. -/
structure Session.Sound (ino : Nat) (session : Session δ) : Prop where
  firstData : session.fs.super.sFirstDataBlock ≤ 1
  valid : session.fs.validIno ino = true
  openOn : session.OpenOn ino

/-- A step that keeps superblock and handles right keeps the session sound. -/
theorem Session.Sound.next {fs : Fs δ} {handles : Nat → Option File} (sound : before.Sound ino)
    (super : fs.super = before.fs.super) (openOn : Session.OpenOn ino ⟨fs, handles⟩) :
    Session.Sound ino ⟨fs, handles⟩ :=
  ⟨by rw [super]; exact sound.firstData, by rw [validIno_congr super]; exact sound.valid, openOn⟩

/-- A request keeps the session sound and every field that it is not meant to change. -/
def FileOp.Keeps (ino : Nat) (op : FileOp) (before after : Session δ) : Prop :=
  after.Sound ino ∧ ∀ field, ¬ op.Meant ino before after field →
    field.of (after.fs.inodeTab ino) = field.of (before.fs.inodeTab ino)

section Served

variable (sound : before.Sound ino)

include sound

/-- Opening keeps all fields, but for `O_TRUNC` the blocks and the size. -/
theorem FileOp.open_keeps {handle : Nat} {perms : Perms} {flags : OpenFlags}
    (served : (FileOp.open handle perms flags).serve env ino before = some after) :
    (FileOp.open handle perms flags).Keeps ino before after := by
  simp only [FileOp.serve] at served
  split at served
  · rename_i fh fs unused opened
    cases served
    obtain ⟨step, own, clean, untouched⟩ := doOpen_resizes sound.valid opened
    refine ⟨sound.next step.super (sound.openOn.put ?_), fun field unmeant => ?_⟩
    · rintro fh' ⟨⟩
      exact ⟨own, fun dirty => by rw [clean] at dirty; cases dirty⟩
    · cases trunc : flags.trunc with
      | false => rw [untouched trunc]
      | true =>
          simp only [FileOp.Meant, trunc, true_and, not_or, Bool.not_eq_true] at unmeant
          exact step.kept field unmeant.1 unmeant.2
  · cases served

/-- Reading keeps all fields. -/
theorem FileOp.read_keeps {handle size off : Nat}
    (inStep : (FileOp.read handle size off).InStep ino before)
    (served : (FileOp.read handle size off).serve env ino before = some after) :
    (FileOp.read handle size off).Keeps ino before after := by
  simp only [FileOp.serve] at served
  split at served
  · cases served
  · rename_i fh found
    split at served
    · rename_i got fh' fs' outcome
      cases served
      obtain ⟨own, held⟩ := sound.openOn handle fh found
      obtain ⟨current, stays⟩ := inStep fh found
      obtain ⟨⟨now, inodes⟩, marks, super, own', -, held'⟩ :=
        doRead_still sound.valid ⟨own, current, held⟩ stays outcome
      refine ⟨sound.next super (sound.openOn.put ?_), fun field _ => ?_⟩
      · rintro fh'' ⟨⟩
        exact ⟨own', held'⟩
      · simp only [inodes, Function.update_self]
        cases field <;> rfl
    · cases served

/-- Writing keeps all fields but the blocks that it takes and a size that it passes. -/
theorem FileOp.write_keeps {handle off : Nat} {data : List UInt8}
    (inStep : (FileOp.write handle data off).InStep ino before)
    (served : (FileOp.write handle data off).serve env ino before = some after) :
    (FileOp.write handle data off).Keeps ino before after := by
  simp only [FileOp.serve] at served
  split at served
  · cases served
  · rename_i fh found
    split at served
    · rename_i bytes fh' fs' outcome
      cases served
      obtain ⟨own, held⟩ := sound.openOn handle fh found
      obtain ⟨step, own', -, held'⟩ :=
        doWrite_extends sound.firstData sound.valid ⟨own, inStep fh found, held⟩ outcome
      refine ⟨sound.next step.super (sound.openOn.put ?_), fun field unmeant => ?_⟩
      · rintro fh'' ⟨⟩
        exact ⟨own', held'⟩
      · simp only [FileOp.Meant, not_or] at unmeant
        refine unmeant_of_extends before ⟨fs', _⟩ step unmeant.1 fun isSize => ?_
        simpa [isSize] using unmeant.2
    · cases served

/-- Flushing keeps all fields but the blocks that it takes. -/
theorem FileOp.flush_keeps {handle : Nat} (inStep : (FileOp.flush handle).InStep ino before)
    (served : (FileOp.flush handle).serve env ino before = some after) :
    (FileOp.flush handle).Keeps ino before after := by
  simp only [FileOp.serve] at served
  split at served
  · cases served
  · rename_i fh found
    split at served
    · rename_i fh' fs' outcome
      cases served
      obtain ⟨own, held⟩ := sound.openOn handle fh found
      rcases flushed : before.fs.ext2fsFileFlush fh with ⟨rc, fh'', fs''⟩
      simp only [doFileFlush, run_lift, lib_fileFlush flushed] at outcome
      cases outcome
      obtain ⟨step, own', held'⟩ :=
        ext2fsFileFlush_step sound.firstData own held (inStep fh found) flushed
      refine ⟨sound.next step.super (sound.openOn.put ?_), fun field unmeant => ?_⟩
      · rintro _ ⟨⟩
        exact ⟨own', held'⟩
      · exact unmeant_of_extends before ⟨_, _⟩ step unmeant fun _ => rfl
    · cases served

/-- So does closing, which flushes. -/
theorem FileOp.close_keeps {handle : Nat} (inStep : (FileOp.close handle).InStep ino before)
    (served : (FileOp.close handle).serve env ino before = some after) :
    (FileOp.close handle).Keeps ino before after := by
  simp only [FileOp.serve] at served
  split at served
  · cases served
  · rename_i fh found
    split at served
    · rename_i fs' outcome
      cases served
      obtain ⟨own, held⟩ := sound.openOn handle fh found
      rcases flushed : before.fs.ext2fsFileFlush fh with ⟨rc, fh'', fs''⟩
      simp only [doFileClose, run_bind, run_lift, lib_fileFlush flushed, run_pure] at outcome
      cases outcome
      obtain ⟨step, -⟩ := ext2fsFileFlush_step sound.firstData own held (inStep fh found) flushed
      refine ⟨sound.next step.super (sound.openOn.put nofun), fun field unmeant => ?_⟩
      exact unmeant_of_extends before ⟨_, _⟩ step unmeant fun _ => rfl
    · cases served

end Served

/-- A request served in step changes the fields it is meant to change, and no others. -/
theorem FileOp.serve_kept (large : EXT2_ROOT_INO ≤ ino) (sound : before.Sound ino) {op : FileOp}
    (inStep : op.InStep ino before) (served : op.serve env ino before = some after) :
    after.Sound ino ∧ ∀ field, ¬ op.Meant ino before after field →
      field.of (after.fs.inodeTab ino) = field.of (before.fs.inodeTab ino) := by
  have inoEq : EXT2FS_INO ino = ino := if_neg (Nat.not_lt.mpr large)
  cases op with
  | «open» handle perms flags => exact FileOp.open_keeps sound served
  | read handle size off => exact FileOp.read_keeps sound inStep served
  | write handle data off => exact FileOp.write_keeps sound inStep served
  | flush handle => exact FileOp.flush_keeps sound inStep served
  | close handle => exact FileOp.close_keeps sound inStep served
  | setattr ctx attr =>
      simp only [FileOp.serve] at served
      split at served
      · rename_i succeeds
        cases served
        obtain ⟨super, kept⟩ :=
          opSetattr_kept sound.firstData sound.valid inoEq (Prod.eta _).symm succeeds
        refine ⟨sound.next super sound.openOn, fun field unmeant => ?_⟩
        exact kept field (by simpa [FileOp.Meant] using unmeant)
      · cases served
  | link ctx newparent newname =>
      simp only [FileOp.serve] at served
      split at served
      · rename_i succeeds
        cases served
        obtain ⟨super, kept⟩ := opLink_kept sound.valid inoEq (Prod.eta _).symm succeeds
        refine ⟨sound.next super sound.openOn, fun field unmeant => ?_⟩
        simp only [FileOp.Meant, not_or, not_and, Bool.not_eq_true] at unmeant
        exact kept field unmeant.1 unmeant.2
      · cases served
  | unlink parent name =>
      simp only [FileOp.serve] at served
      split at served
      · rename_i fs' outcome
        cases served
        obtain ⟨super, kept⟩ := doUnlinkOnIno_kept sound.valid outcome
        exact ⟨sound.next super sound.openOn, kept⟩
      · cases served

/-- The session stays sound, and every field has the value it was left with. -/
theorem served_left (large : EXT2_ROOT_INO ≤ ino) (sound : start.Sound ino) {left : Field → Nat}
    (served : Served env ino (fun session op => op.InStep ino session) start session left) :
    session.Sound ino ∧ ∀ field, field.of (session.fs.inodeTab ino) = left field := by
  induction served with
  | start => exact ⟨sound, fun _ => rfl⟩
  | step _ inStep succeeds set kept inductionHypothesis =>
      rename_i before after _ _ op _
      obtain ⟨soundBefore, same⟩ := inductionHypothesis
      obtain ⟨soundAfter, unmeant⟩ := op.serve_kept large soundBefore inStep succeeds
      refine ⟨soundAfter, fun field => ?_⟩
      by_cases meant : op.Meant ino before after field
      · exact (set field meant).symm
      · rw [unmeant field meant, same field, kept field meant]

/-- No lost update: in every run of requests on one inode that are served in step, each
field of the inode on disk has the value left by the last request meant to change it, and
a read that is served in step then changes the access time, and no other bit of any inode
and no bit of the block bitmap. -/
theorem updates_kept (large : EXT2_ROOT_INO ≤ ino) (sound : start.Sound ino) {left : Field → Nat}
    (served : Served env ino (fun session op => op.InStep ino session) start session left) :
    (∀ field, field.of (session.fs.inodeTab ino) = left field) ∧
      ∀ handle size off after, (FileOp.read handle size off).InStep ino session →
        (FileOp.read handle size off).serve env ino session = some after →
        after.fs.vol.blockMap = session.fs.vol.blockMap ∧ ∃ now, after.fs.inodeTab =
          Function.update session.fs.inodeTab ino
            { session.fs.inodeTab ino with iAtime := now } := by
  obtain ⟨⟨-, valid, openOn⟩, same⟩ := served_left large sound served
  refine ⟨same, fun handle size off after inStep succeeds => ?_⟩
  simp only [FileOp.serve] at succeeds
  split at succeeds
  · cases succeeds
  · rename_i fh found
    split at succeeds
    · rename_i outcome
      cases succeeds
      obtain ⟨own, held⟩ := openOn handle fh found
      obtain ⟨current, stays⟩ := inStep fh found
      obtain ⟨accessed, marks, -⟩ := doRead_still valid ⟨own, current, held⟩ stays outcome
      exact ⟨marks, accessed⟩
    · cases succeeds

end Served

section Example

/-- No handle is open. -/
def idle : Session (List Dirent) := ⟨twoFiles, fun _ => none⟩

/-- A session with no open handle is sound. -/
theorem idle_sound : idle.Sound 11 := ⟨by decide, by decide, nofun⟩

/-- The session after a request on inode 11 that succeeds. -/
def FileOp.served (op : FileOp) (session : Session (List Dirent)) : Session (List Dirent) :=
  (op.serve listEnv 11 session).getD session

/-- A request that succeeds serves what its pure counterpart says. -/
theorem serve_eq_served {op : FileOp} {session : Session (List Dirent)}
    (succeeds : (op.serve listEnv 11 session).isSome = true) :
    op.serve listEnv 11 session = some (op.served session) := by
  obtain ⟨next, found⟩ := Option.isSome_iff_exists.mp succeeds
  rw [FileOp.served, found]
  rfl

/-- One handle on inode 11, open for reading and writing. -/
def openedOnce : Session (List Dirent) := (FileOp.open 0 none { rdwr := true }).served idle

/-- The example's first request opens the file. -/
theorem served_openedOnce {allowed : Session (List Dirent) → FileOp → Prop}
    (allows : allowed idle (.open 0 none { rdwr := true })) :
    Served listEnv 11 allowed idle openedOnce
      fun field => field.of (idle.fs.inodeTab 11) := by
  have opens : (FileOp.open 0 none { rdwr := true }).serve listEnv 11 idle = some openedOnce :=
    serve_eq_served (by decide +kernel)
  refine .step .start allows opens ?_ fun _ _ => rfl
  rintro _ ⟨truncates, -⟩
  cases truncates

/-- The values left on inode 11 by a change of its mode. -/
def leftByChmod : Field → Nat
  | .mode => 0o100600
  | field => field.of (idle.fs.inodeTab 11)

/-- A change of the mode by path, in a session that has left the fields as they were. -/
theorem Served.chmod {allowed : Session (List Dirent) → FileOp → Prop}
    {session : Session (List Dirent)}
    (served : Served listEnv 11 allowed idle session fun field => field.of (idle.fs.inodeTab 11))
    (allows : allowed session (.setattr ⟨0, 0⟩ { mode := some 0o100600 }))
    (succeeds : ((FileOp.setattr ⟨0, 0⟩ { mode := some 0o100600 }).serve listEnv 11
      session).isSome =
      true)
    (changed : (((FileOp.setattr ⟨0, 0⟩ { mode := some 0o100600 }).served session).fs.inodeTab
      11).iMode = 0o100600) :
    Served listEnv 11 allowed idle
      ((FileOp.setattr ⟨0, 0⟩ { mode := some 0o100600 }).served session) leftByChmod := by
  refine .step served allows (serve_eq_served succeeds) ?_ ?_
  · intro field meant
    cases field with
    | mode => exact changed.symm
    | _ => cases meant
  · intro field unmeant
    cases field with
    | mode => exact absurd rfl unmeant
    | _ => rfl

/-- A file is opened and read, and its mode is changed then. -/
theorem updates_kept_chmod :
    let read := (FileOp.read 0 1 0).served openedOnce
    let changed := (FileOp.setattr ⟨0, 0⟩ { mode := some 0o100600 }).served read
    ∀ field : Field, field.of (changed.fs.inodeTab 11) = leftByChmod field := by
  have reads : (FileOp.read 0 1 0).serve listEnv 11 openedOnce =
      some ((FileOp.read 0 1 0).served openedOnce) := serve_eq_served (by decide +kernel)
  have read : Served listEnv 11 (fun session op => op.InStep 11 session) idle
      ((FileOp.read 0 1 0).served openedOnce) fun field => field.of (idle.fs.inodeTab 11) := by
    refine .step (served_openedOnce trivial) ?_ reads nofun fun _ _ => rfl
    rintro fh found
    cases found
    exact ⟨rfl, nofun⟩
  exact (updates_kept (by decide) idle_sound
    (read.chmod trivial (by decide +kernel) (by decide +kernel))).1

/-- A handle is opened, the mode is changed by path, and a read through the handle puts
the old mode back. -/
theorem update_lost_by_read :
    idle.Sound 11 ∧ ¬ ∀ session left, Served listEnv 11 (fun _ _ => True) idle session left →
      ∀ field : Field, field.of (session.fs.inodeTab 11) = left field := by
  refine ⟨idle_sound, fun kept => ?_⟩
  have opened : Served listEnv 11 (fun _ _ => True) idle openedOnce _ := served_openedOnce trivial
  have chmod := opened.chmod trivial (by decide +kernel) (by decide +kernel)
  have reads : (FileOp.read 0 1 0).serve listEnv 11
      ((FileOp.setattr ⟨0, 0⟩ { mode := some 0o100600 }).served openedOnce) = some _ :=
    serve_eq_served (by decide +kernel)
  have mode := kept _ _ (.step chmod trivial reads nofun fun _ _ => rfl) .mode
  revert mode
  decide +kernel

end Example

end Ext2Fuse
