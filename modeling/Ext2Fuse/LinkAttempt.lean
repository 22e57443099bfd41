import Ext2Fuse.Faults
import Ext2Fuse.Namespace
import Ext2Fuse.Ops

/-!
# Entering a name

`do_link` tries `ext2fs_link` once, expands the directory if there is no space and tries
again. Whether the name goes in is decided by the contents of the directory, by the room
to expand it and by the schedule of faults, all of which are there before the first call.
-/

namespace Ext2Fuse

open Lib Program Fs Volume

/-- What `do_link` depends on: what `ext2fs_check_directory` says, the contents of the directory,
the entry, whether the directory can be expanded, and the schedule of faults from the first call
on. -/
structure LinkAttempt (δ : Type) where
  dir : DirLib δ
  checked : Errcode
  contents : δ
  name : Name
  ino : Nat
  fileType : Nat
  expands : Prop
  faults : List (Option Fault)

namespace LinkAttempt

variable {δ : Type} (attempt : LinkAttempt δ)

/-- What an `ext2fs_link` that is let through returns, and the contents it leaves. -/
def tries (contents : δ) : Errcode × δ :=
  if attempt.checked = 0 then attempt.dir.link contents attempt.name attempt.ino attempt.fileType
  else (attempt.checked, contents)

/-- The same of an `ext2fs_link` that is the call with this number. -/
def link (contents : δ) (index : Nat) : Errcode × δ :=
  match attempt.faults[index]?.join with
  | none => attempt.tries contents
  | some fault => (fault.code, if fault.half then (attempt.tries contents).2 else contents)

/-- The first `ext2fs_link`. -/
def first : Errcode × δ := attempt.link attempt.contents 0

/-- The one after the expansion. -/
def second : Errcode × δ := attempt.link (attempt.dir.expand attempt.first.2) 2

/-- There is no space at first, and the directory is expanded. -/
def Grows : Prop :=
  attempt.first.1 = EXT2_ET_DIR_NO_SPACE ∧ ¬ Fails attempt.faults 1 ∧ attempt.expands

/-- The name goes in, at the first attempt or at the second. -/
def GoesIn : Prop := attempt.first.1 = 0 ∨ (attempt.Grows ∧ attempt.second.1 = 0)

/-- There is space for the name, and the call fails when it is in. -/
def HalfAt (contents : δ) (index : Nat) : Prop :=
  (∃ fault, attempt.faults[index]? = some (some fault) ∧ fault.half = true) ∧
    (attempt.tries contents).1 = 0

/-- The name is in, but `do_link` reports an error. -/
def HalfIn : Prop :=
  attempt.HalfAt attempt.contents 0 ∨
    (attempt.Grows ∧ attempt.HalfAt (attempt.dir.expand attempt.first.2) 2)

/-- The name does not go in, with or without an error. -/
def StaysOut : Prop := ¬ attempt.GoesIn ∧ ¬ attempt.HalfIn

/-- The contents of the directory when the name has gone in. -/
def entered : δ := if attempt.first.1 = 0 then attempt.first.2 else attempt.second.2

/-- The schedule when the name has gone in. -/
def later : List (Option Fault) := attempt.faults.drop (if attempt.first.1 = 0 then 1 else 3)

/-- The call after `do_link` fails. -/
def NextFails : Prop :=
  (attempt.first.1 ≠ EXT2_ET_DIR_NO_SPACE ∧ Fails attempt.faults 1) ∨
    (attempt.first.1 = EXT2_ET_DIR_NO_SPACE ∧ ¬ attempt.Grows ∧ Fails attempt.faults 2) ∨
    (attempt.Grows ∧ Fails attempt.faults 3)

/-- There is one entry more. -/
def Inserts (before after : δ) : Prop :=
  ∃ front back fileType, attempt.dir.entries before = front ++ back ∧
    attempt.dir.entries after = front ++ ⟨attempt.name, attempt.ino, fileType⟩ :: back

/-- What an attempt to link makes of the contents: the entry is in, with or without an error, or
there are the same entries and an error. -/
def Answers (contents : δ) (index : Nat) : Prop :=
  ((attempt.link contents index).1 = 0 ∧ attempt.Inserts contents (attempt.link contents index).2) ∨
  ((attempt.link contents index).1 ≠ 0 ∧ attempt.HalfAt contents index ∧
    (attempt.link contents index).1 ≠ EXT2_ET_DIR_NO_SPACE ∧
    attempt.Inserts contents (attempt.link contents index).2) ∨
  ((attempt.link contents index).1 ≠ 0 ∧ ¬ attempt.HalfAt contents index ∧
    attempt.dir.entries (attempt.link contents index).2 = attempt.dir.entries contents)

variable {attempt}

theorem link_ok {contents : δ} {index : Nat} (ok : attempt.faults[index]?.join = none) :
    attempt.link contents index = attempt.tries contents := by
  rw [link, ok]

theorem link_fault {contents : δ} {index : Nat} {fault : Fault}
    (failing : attempt.faults[index]?.join = some fault) : attempt.link contents index =
      (fault.code, if fault.half then (attempt.tries contents).2 else contents) := by
  rw [link, failing]

/-- A call that goes through does not fail half way. -/
theorem not_halfAt_of_ok {contents : δ} {index : Nat} (ok : attempt.faults[index]?.join = none) :
    ¬ attempt.HalfAt contents index := by
  rintro ⟨⟨fault, found, -⟩, -⟩
  rw [found] at ok
  cases ok

/-- The entry is in, or there are the same entries and an error. -/
theorem tries_cases (lawful : attempt.dir.Lawful) (contents : δ) :
    ((attempt.tries contents).1 = 0 ∧ attempt.Inserts contents (attempt.tries contents).2) ∨
      ((attempt.tries contents).1 ≠ 0 ∧
        attempt.dir.entries (attempt.tries contents).2 = attempt.dir.entries contents) := by
  rw [tries]
  split
  · obtain ⟨done, front, back, split, inserted⟩ | ⟨full, same⟩ :=
      lawful.link_spec contents attempt.name attempt.ino attempt.fileType
    · exact .inl ⟨done, front, back, _, split, inserted⟩
    · exact .inr ⟨by rw [full]; decide, same⟩
  · rename_i failed
    exact .inr ⟨failed, rfl⟩

/-- The same of a call in the schedule, which can also fail when the entry is in. -/
theorem answers (lawful : attempt.dir.Lawful) (contents : δ) (index : Nat) :
    attempt.Answers contents index := by
  cases scheduled : attempt.faults[index]?.join with
  | none =>
      rw [Answers, link_ok scheduled]
      obtain done | ⟨failed, same⟩ := tries_cases lawful contents
      · exact .inl done
      · exact .inr (.inr ⟨failed, not_halfAt_of_ok scheduled, same⟩)
  | some fault =>
      have found : attempt.faults[index]? = some (some fault) :=
        Option.join_eq_some_iff.mp scheduled
      rw [Answers, link_fault scheduled]
      by_cases half : fault.half = true
      · rw [if_pos half]
        have other : fault.code ≠ EXT2_ET_DIR_NO_SPACE := by
          rw [Fault.half, Bool.and_eq_true] at half
          simpa using half.2
        obtain ⟨done, inserted⟩ | ⟨failed, same⟩ := tries_cases lawful contents
        · exact .inr (.inl ⟨fault.nonzero, ⟨⟨fault, found, half⟩, done⟩, other, inserted⟩)
        · exact .inr (.inr ⟨fault.nonzero, fun both => failed both.2, same⟩)
      · rw [if_neg half]
        refine .inr (.inr ⟨fault.nonzero, ?_, rfl⟩)
        rintro ⟨⟨other, isOther, isHalf⟩, -⟩
        rw [found, Option.some_inj, Option.some_inj] at isOther
        rw [← isOther] at isHalf
        exact half isHalf

/-- A name that goes in does so without an error. -/
theorem HalfIn.not_goesIn (lawful : attempt.dir.Lawful) (half : attempt.HalfIn) :
    ¬ attempt.GoesIn := by
  have first := attempt.answers lawful attempt.contents 0
  have second := attempt.answers lawful (attempt.dir.expand attempt.first.2) 2
  rintro (done | ⟨⟨full, -⟩, done⟩)
  · obtain halfAt | ⟨⟨full, -⟩, -⟩ := half
    · obtain ⟨-, -⟩ | ⟨failed, -⟩ | ⟨failed, -⟩ := first
      · obtain ⟨⟨fault, found, -⟩, -⟩ := halfAt
        have failed : attempt.first.1 = fault.code := by simp [LinkAttempt.first, link, found]
        exact fault.nonzero (failed.symm.trans done)
      · exact failed done
      · exact failed done
    · rw [full] at done
      cases done
  · obtain halfAt | ⟨-, halfAt⟩ := half
    · obtain ⟨none, -⟩ | ⟨-, -, other, -⟩ | ⟨-, notHalf, -⟩ := first
      · have zero : attempt.first.1 = 0 := none
        rw [full] at zero
        cases zero
      · exact other full
      · exact notHalf halfAt
    · obtain ⟨⟨fault, found, -⟩, -⟩ := halfAt
      have failed : attempt.second.1 = fault.code := by simp [LinkAttempt.second, link, found]
      exact fault.nonzero (failed.symm.trans done)

end LinkAttempt

section Refills

variable {δ : Type} {env : Env δ} {fs fs' fs'' : Fs δ} {dir : Nat} {contents contents' : δ}

/-- There are other contents in one directory, whose inode may have other blocks and flags. -/
structure Fs.Refilled (fs fs' : Fs δ) (dir : Nat) (contents : δ) : Prop where
  super : fs'.super = fs.super
  inodeMap : fs'.inodeMap = fs.inodeMap
  dirs : fs'.dirs = Function.update fs.dirs dir contents
  apart : ∀ other, other ≠ dir → fs'.inodeTab other = fs.inodeTab other
  mode : (fs'.inodeTab dir).iMode = (fs.inodeTab dir).iMode
  links : (fs'.inodeTab dir).iLinksCount = (fs.inodeTab dir).iLinksCount

theorem Fs.Refilled.trans (first : fs.Refilled fs' dir contents)
    (second : fs'.Refilled fs'' dir contents') : fs.Refilled fs'' dir contents' where
  super := second.super.trans first.super
  inodeMap := second.inodeMap.trans first.inodeMap
  dirs := by rw [second.dirs, first.dirs, Function.update_idem]
  apart other different := (second.apart other different).trans (first.apart other different)
  mode := second.mode.trans first.mode
  links := second.links.trans first.links

theorem Fs.Refilled.checkDirectory (refilled : fs.Refilled fs' dir contents) :
    fs'.ext2fsCheckDirectory dir = fs.ext2fsCheckDirectory dir := by
  simp only [ext2fsCheckDirectory, ext2fsReadInode, validIno_congr refilled.super]
  cases fs.validIno dir
  · rfl
  · simp [refilled.mode]

/-- In the name space only the entries of the directory are others. -/
theorem Fs.Refilled.ns (refilled : fs.Refilled fs' dir contents) :
    fs'.ns env = (fs.ns env).setEnts dir (env.dir.entries contents) := by
  ext other
  · exact congrArg Super.sInodesCount refilled.super
  · by_cases own : other = dir
    · subst own
      exact refilled.mode
    · exact congrArg Inode.iMode (refilled.apart other own)
  · by_cases own : other = dir
    · subst own
      exact refilled.links
    · exact congrArg Inode.iLinksCount (refilled.apart other own)
  · exact congrFun refilled.inodeMap other
  · simp only [Fs.ns, refilled.dirs, Ns.setEnts]
    by_cases own : other = dir
    · subst own
      simp
    · simp [own]

theorem refilled_dirs (contents : δ) :
    fs.Refilled { fs with dirs := Function.update fs.dirs dir contents } dir contents :=
  ⟨rfl, rfl, rfl, fun _ _ => rfl, rfl, rfl⟩

/-- Without other entries the name space is the same. -/
theorem Fs.Refilled.ns_same (refilled : fs.Refilled fs' dir contents)
    (same : env.dir.entries contents = env.dir.entries (fs.dirs dir)) : fs'.ns env = fs.ns env := by
  rw [refilled.ns, same]
  exact Ns.ext rfl rfl rfl rfl (Function.update_eq_self dir _)

/-- With one entry more there is one in the name space. -/
theorem Fs.Refilled.ns_inserts {attempt : LinkAttempt δ} (refilled : fs.Refilled fs' dir contents)
    (library : attempt.dir = env.dir) (inserts : attempt.Inserts (fs.dirs dir) contents) :
    ∃ front back fileType, (fs.ns env).ents dir = front ++ back ∧ fs'.ns env =
      (fs.ns env).setEnts dir (front ++ ⟨attempt.name, attempt.ino, fileType⟩ :: back) := by
  obtain ⟨front, back, fileType, split, inserted⟩ := inserts
  rw [library] at split inserted
  exact ⟨front, back, fileType, split, by rw [refilled.ns, inserted]⟩

/-- Whatever else the directory holds. -/
theorem Fs.Refilled.refill (refilled : fs.Refilled fs' dir contents) (contents' : δ) :
    fs.Refilled { fs' with dirs := Function.update fs.dirs dir contents' } dir contents' :=
  ⟨refilled.super, refilled.inodeMap, rfl, refilled.apart, refilled.mode, refilled.links⟩

theorem refilled_self : fs.Refilled fs dir (fs.dirs dir) :=
  ⟨rfl, rfl, (Function.update_eq_self _ _).symm, fun _ _ => rfl, rfl, rfl⟩

/-- ext2fs_link rewrites the directory and its inode's index flag only. -/
theorem ext2fsLink_refills (checked : fs.ext2fsCheckDirectory dir = 0) (name : Name)
    (ino flags : Nat) :
    fs.Refilled (fs.ext2fsLink env dir name ino flags).2 dir
      (env.dir.link (fs.dirs dir) name ino (fs.recordedType flags)).2 := by
  have kept : (fs.inodeTab dir).unindexed.iMode = (fs.inodeTab dir).iMode ∧
      (fs.inodeTab dir).unindexed.iLinksCount = (fs.inodeTab dir).iLinksCount := by
    rw [Inode.unindexed]
    split
    · exact ⟨rfl, rfl⟩
    · exact ⟨rfl, rfl⟩
  rw [ext2fsLink_eq checked]
  change fs.Refilled { fs with
    dirs := Function.update fs.dirs dir
      (env.dir.link (fs.dirs dir) name ino (fs.recordedType flags)).2
    inodeTab := if (env.dir.link (fs.dirs dir) name ino (fs.recordedType flags)).1 = 0 then
      Function.update fs.inodeTab dir (fs.inodeTab dir).unindexed else fs.inodeTab } dir _
  by_cases done : (env.dir.link (fs.dirs dir) name ino (fs.recordedType flags)).1 = 0
  · rw [if_pos done]
    refine ⟨rfl, rfl, rfl, fun other different => Function.update_of_ne different _ _, ?_, ?_⟩
    · dsimp only
      rw [Function.update_self]
      exact kept.1
    · dsimp only
      rw [Function.update_self]
      exact kept.2
  · rw [if_neg done]
    exact refilled_dirs _

/-- An expansion that fails leaves the contents as they were. -/
theorem ext2fsExpandDir_refills (env : Env δ) (fs : Fs δ) (dir : Nat) :
    fs.Refilled (fs.ext2fsExpandDir env dir).2 dir
      (if (fs.ext2fsExpandDir env dir).1 = 0 then env.dir.expand (fs.dirs dir)
      else fs.dirs dir) := by
  by_cases checked : fs.ext2fsCheckDirectory dir = 0
  swap
  · have refused : fs.ext2fsExpandDir env dir = (fs.ext2fsCheckDirectory dir, fs) := if_neg checked
    rw [refused, if_neg checked]
    exact refilled_self
  obtain ⟨super, apart, -⟩ := ext2fsExpandDir_frame env fs dir dir
  have unsized := (ext2fsExpandDir_frame env fs dir dir).2.2
  have others : ∀ other, other ≠ dir →
      (fs.ext2fsExpandDir env dir).2.inodeTab other = fs.inodeTab other :=
    fun other => (ext2fsExpandDir_frame env fs dir other).2.1
  have kept : (fs.ext2fsExpandDir env dir).2.inodeMap = fs.inodeMap ∧
      (fs.ext2fsExpandDir env dir).2.dirs = Function.update fs.dirs dir
        (if (fs.ext2fsExpandDir env dir).1 = 0 then env.dir.expand (fs.dirs dir)
          else fs.dirs dir) := by
    obtain ⟨vol, iBlock, sameSuper, iterated⟩ :=
      ext2fsBlockIterate2_frame expandDirProc_super fs dir
      false { append := true } {}
    have valid : ∀ dirs,
      ({ (fs.ext2fsBlockIterate2 dir false { append := true } expandDirProc {}).2.2
        with dirs := dirs } : Fs δ).validIno dir = true := by
      intro dirs
      rw [iterated]
      exact (validIno_congr (by exact sameSuper) dir).trans (ext2fsCheckDirectory_ok checked).1
    have dirs : (fs.ext2fsBlockIterate2 dir false { append := true } expandDirProc {}).2.2.dirs =
        fs.dirs := by rw [iterated]
    have map : (fs.ext2fsBlockIterate2 dir false { append := true } expandDirProc {}).2.2.inodeMap =
        fs.inodeMap := by rw [iterated]
    rw [ext2fsExpandDir, if_pos checked]
    generalize fs.ext2fsBlockIterate2 dir false { append := true } expandDirProc {} = outcome at *
    dsimp only
    split
    · rw [Function.update_eq_self]
      exact ⟨map, dirs⟩
    split
    · rw [if_neg (show EXT2_ET_EXPAND_DIR_ERR ≠ 0 by decide), Function.update_eq_self]
      exact ⟨map, dirs⟩
    · rw [ext2fsWriteInode, if_pos (valid _)]
      dsimp only
      rw [if_pos rfl]
      exact ⟨map, by rw [dirs]⟩
  exact ⟨super, kept.1, kept.2, others, (congrArg Inode.iMode unsized :),
    (congrArg Inode.iLinksCount unsized :)⟩

/-- What `ext2fs_expand_dir` returns is decided by the blocks of the directory and of the volume. -/
theorem ext2fsExpandDir_code (fs : Fs δ) (dir : Nat) : (fs.ext2fsExpandDir env dir).1 =
    if fs.ext2fsCheckDirectory dir = 0 then
      let es :=
        (fs.vol.iterateBlocks { append := true } expandDirProc (fs.inodeTab dir).iBlock {}).ctx.priv
      if es.err ≠ 0 then es.err else if !es.done then EXT2_ET_EXPAND_DIR_ERR else 0
    else fs.ext2fsCheckDirectory dir := by
  rw [ext2fsExpandDir]
  by_cases checked : fs.ext2fsCheckDirectory dir = 0
  swap
  · rw [if_neg checked, if_neg checked]
  have valid := (ext2fsCheckDirectory_ok checked).1
  obtain ⟨vol, iBlock, super, iterated⟩ := ext2fsBlockIterate2_frame expandDirProc_super fs dir
    false { append := true } {}
  have found : (fs.ext2fsBlockIterate2 dir false { append := true } expandDirProc {}).2.1 =
      (fs.vol.iterateBlocks { append := true } expandDirProc (fs.inodeTab dir).iBlock
        {}).ctx.priv := by
    rw [ext2fsBlockIterate2, ext2fsReadInode, if_pos valid]
    dsimp only
    rw [Bool.false_and, Bool.false_and, if_neg Bool.false_ne_true]
    split
    · rfl
    · rfl
  rw [if_pos checked, if_pos checked, ← found]
  generalize fs.ext2fsBlockIterate2 dir false { append := true } expandDirProc {} = outcome
    at iterated ⊢
  have validLater : outcome.2.2.validIno dir = true := by
    rw [iterated, ← valid]
    exact @validIno_congr δ fs { fs with vol := vol } super dir
  dsimp only
  split
  · rfl
  split
  · rfl
  · rw [ext2fsWriteInode]
    exact congrArg Prod.fst (if_pos validLater)

/-- The same of a state with these blocks. -/
theorem ext2fsExpandDir_rc_congr (vol : fs'.vol = fs.vol)
    (blocks : (fs'.inodeTab dir).iBlock = (fs.inodeTab dir).iBlock)
    (mode : (fs'.inodeTab dir).iMode = (fs.inodeTab dir).iMode) :
    (fs'.ext2fsExpandDir env dir).1 = (fs.ext2fsExpandDir env dir).1 := by
  have valid : fs'.validIno dir = fs.validIno dir := validIno_congr (congrArg Volume.super vol) dir
  have check : fs'.ext2fsCheckDirectory dir = fs.ext2fsCheckDirectory dir := by
    simp only [ext2fsCheckDirectory, ext2fsReadInode, valid]
    cases fs.validIno dir
    · rfl
    · simp only [if_true, mode]
  rw [ext2fsExpandDir_code, ext2fsExpandDir_code, check, vol, blocks]

end Refills

section Library

variable {δ : Type} {env : Env δ} {interp : Interp (LibCall δ) (Fs δ × List (Option Fault))}
  {expands : Fs δ → Nat → Prop}

/-- The attempt to enter a name in a directory. -/
def Fs.linkAttempt (env : Env δ) (expands : Fs δ → Nat → Prop) (fs : Fs δ) (dir : Nat) (name : Name)
    (ino flags : Nat) (faults : List (Option Fault)) : LinkAttempt δ where
  dir := env.dir
  checked := fs.ext2fsCheckDirectory dir
  contents := fs.dirs dir
  name := name
  ino := ino
  fileType := fs.recordedType flags
  expands := expands fs dir
  faults := faults

/-- `ext2fs_link` does what the attempt says. -/
theorem ext2fsLink_tries (fs : Fs δ) (dir : Nat) (name : Name) (ino flags : Nat)
    (faults : List (Option Fault)) :
    let tried := (fs.linkAttempt env expands dir name ino flags faults).tries (fs.dirs dir)
    (fs.ext2fsLink env dir name ino flags).1 = tried.1 ∧
      fs.Refilled (fs.ext2fsLink env dir name ino flags).2 dir tried.2 ∧
      fs.Refilled (fs.ext2fsLinkHalf env dir name ino flags) dir tried.2 := by
  intro tried
  by_cases checked : fs.ext2fsCheckDirectory dir = 0
  · have linked : tried = env.dir.link (fs.dirs dir) name ino
      (fs.recordedType flags) := if_pos checked
    rw [linked]
    refine ⟨?_, ext2fsLink_refills checked name ino flags, ?_⟩
    · rw [ext2fsLink_eq checked]
      rfl
    · rw [ext2fsLinkHalf, if_pos checked]
      exact refilled_dirs _
  · have refused : tried = (fs.ext2fsCheckDirectory dir, fs.dirs dir) := if_neg checked
    rw [refused, ext2fsLink, ext2fsLinkHalf, if_neg checked, if_neg checked]
    exact ⟨rfl, refilled_self, refilled_self⟩

/-- The library decides by the schedule, and by nothing else but the directory and the room to
expand it, what becomes of the two calls of `do_link`. -/
structure Entering (env : Env δ) (interp : Interp (LibCall δ) (Fs δ × List (Option Fault)))
    (expands : Fs δ → Nat → Prop) : Prop where
  link : ∀ fs dir name ino flags faults,
    Leads interp (lift (.link dir name ino flags)) (fun rc next =>
    rc = (fs.linkAttempt env expands dir name ino flags faults).first.1 ∧
    fs.Refilled next.1 dir (fs.linkAttempt env expands dir name ino flags faults).first.2 ∧
    next.2 = faults.tail ∧ (rc = EXT2_ET_DIR_NO_SPACE → (expands next.1 dir ↔ expands fs dir)))
    (fs, faults)
  expandDir : ∀ fs dir faults, Leads interp (lift (.expandDir dir)) (fun rc next =>
    (rc = 0 ↔ ¬ Fails faults 0 ∧ expands fs dir) ∧
    fs.Refilled next.1 dir (if rc = 0 then env.dir.expand (fs.dirs dir) else fs.dirs dir) ∧
    next.2 = faults.tail) (fs, faults)

/-- How `do_link` ends: the name is in, or it is in and an error is reported all the same, or there
are the same entries. -/
def LinkAttempt.Ended (attempt : LinkAttempt δ) (fs : Fs δ) (dir : Nat) (rc : Errcode)
    (next : Fs δ × List (Option Fault)) : Prop :=
  (Fails next.2 0 ↔ attempt.NextFails) ∧
  ((attempt.GoesIn ∧ rc = 0 ∧ fs.Refilled next.1 dir attempt.entered ∧ next.2 = attempt.later ∧
      attempt.Inserts (fs.dirs dir) attempt.entered) ∨
    (attempt.HalfIn ∧ rc = EIO ∧
      ∃ contents, fs.Refilled next.1 dir contents ∧ attempt.Inserts (fs.dirs dir) contents) ∨
    (attempt.StaysOut ∧ rc = EIO ∧ ∃ contents, fs.Refilled next.1 dir contents ∧
      attempt.dir.entries contents = attempt.dir.entries (fs.dirs dir)))

section Ended

variable {attempt : LinkAttempt δ} {fs fs' : Fs δ} {dir : Nat}

/-- An attempt that reports no space has entered nothing. -/
theorem LinkAttempt.full_not_halfAt (lawful : attempt.dir.Lawful) {contents : δ} {index : Nat}
    (full : (attempt.link contents index).1 = EXT2_ET_DIR_NO_SPACE) :
    ¬ attempt.HalfAt contents index ∧
      attempt.dir.entries (attempt.link contents index).2 = attempt.dir.entries contents := by
  obtain ⟨done, -⟩ | ⟨-, -, other, -⟩ | ⟨-, notHalf, same⟩ := attempt.answers lawful contents index
  · rw [full] at done
    cases done
  · exact absurd full other
  · exact ⟨notHalf, same⟩

/-- The first `ext2fs_link` is the only call. -/
theorem LinkAttempt.ended_first (lawful : attempt.dir.Lawful)
    (same : attempt.contents = fs.dirs dir)
    (other : attempt.first.1 ≠ EXT2_ET_DIR_NO_SPACE)
    (refilled : fs.Refilled fs' dir attempt.first.2) :
    attempt.Ended fs dir (if attempt.first.1 ≠ 0 then EIO else 0) (fs', attempt.faults.tail) := by
  have notGrown : ¬ attempt.Grows := fun grown => other grown.1
  refine ⟨?_, ?_⟩
  · rw [fails_tail]
    simp [NextFails, other, notGrown]
  have half : attempt.HalfIn ↔ attempt.HalfAt attempt.contents 0 := by simp [HalfIn, notGrown]
  have goesIn : attempt.GoesIn ↔ attempt.first.1 = 0 := by simp [GoesIn, notGrown]
  rw [StaysOut, half, goesIn, ← same]
  obtain ⟨done, inserted⟩ | ⟨failed, halfAt, -, inserted⟩ | ⟨failed, notHalf, entries⟩ :=
    attempt.answers lawful attempt.contents 0
  · have zero : attempt.first.1 = 0 := done
    refine .inl ⟨zero, if_neg (not_not.mpr zero), ?_, ?_, ?_⟩
    · rw [entered, if_pos zero]
      exact refilled
    · rw [later, if_pos zero, List.drop_one]
    · rw [entered, if_pos zero]
      exact inserted
  · exact .inr (.inl ⟨halfAt, if_pos failed, _, refilled, inserted⟩)
  · exact .inr (.inr ⟨⟨failed, notHalf⟩, if_pos failed, _, refilled, entries⟩)

/-- There is no space, and the directory is not expanded. -/
theorem LinkAttempt.ended_stuck (lawful : attempt.dir.Lawful)
    (same : attempt.contents = fs.dirs dir)
    (full : attempt.first.1 = EXT2_ET_DIR_NO_SPACE) (stuck : ¬ attempt.Grows)
    (refilled : fs.Refilled fs' dir attempt.first.2) :
    attempt.Ended fs dir EIO (fs', attempt.faults.tail.tail) := by
  obtain ⟨notHalf, entries⟩ := full_not_halfAt lawful full
  have failed : attempt.first.1 ≠ 0 := by rw [full]; decide
  refine ⟨?_, .inr (.inr ⟨⟨?_, ?_⟩, rfl, _, refilled, ?_⟩)⟩
  · rw [fails_tail, fails_tail]
    simp [NextFails, full, stuck]
  · simp [GoesIn, failed, stuck]
  · simp [HalfIn, notHalf, stuck]
  · rw [← same]
    exact entries

/-- The directory has been expanded, and `ext2fs_link` is called again. -/
theorem LinkAttempt.ended_grown (lawful : attempt.dir.Lawful)
    (same : attempt.contents = fs.dirs dir)
    (grown : attempt.Grows) (refilled : fs.Refilled fs' dir attempt.second.2) :
    attempt.Ended fs dir (if attempt.second.1 ≠ 0 then EIO else 0)
      (fs', attempt.faults.tail.tail.tail) := by
  have full := grown.1
  obtain ⟨notHalf, entries⟩ := full_not_halfAt lawful full
  have failed : attempt.first.1 ≠ 0 := by rw [full]; decide
  have expanded : attempt.dir.entries (attempt.dir.expand attempt.first.2) =
      attempt.dir.entries attempt.contents := (lawful.expand_entries _).trans entries
  have inserts : ∀ contents, attempt.Inserts (attempt.dir.expand attempt.first.2) contents →
      attempt.Inserts attempt.contents contents := by
    rintro contents ⟨front, back, fileType, split, inserted⟩
    exact ⟨front, back, fileType, expanded.symm.trans split, inserted⟩
  refine ⟨?_, ?_⟩
  · rw [fails_tail, fails_tail, fails_tail]
    simp [NextFails, full, grown]
  have half : attempt.HalfIn ↔ attempt.HalfAt (attempt.dir.expand attempt.first.2) 2 := by
    simp [HalfIn, grown, notHalf]
  have goesIn : attempt.GoesIn ↔ attempt.second.1 = 0 := by simp [GoesIn, grown, failed]
  rw [StaysOut, half, goesIn, ← same]
  obtain ⟨done, inserted⟩ | ⟨refused, halfAt, -, inserted⟩ | ⟨refused, notHalf, kept⟩ :=
    attempt.answers lawful (attempt.dir.expand attempt.first.2) 2
  · have zero : attempt.second.1 = 0 := done
    refine .inl ⟨zero, if_neg (not_not.mpr zero), ?_, ?_, ?_⟩
    · rw [entered, if_neg failed]
      exact refilled
    · simp only [later, if_neg failed, ← List.drop_one, List.drop_drop]
    · rw [entered, if_neg failed]
      exact inserts _ inserted
  · exact .inr (.inl ⟨halfAt, if_pos refused, _, refilled, inserts _ inserted⟩)
  · exact .inr (.inr ⟨⟨refused, notHalf⟩, if_pos refused, _, refilled, kept.trans expanded⟩)

end Ended

/-- How `do_link` ends is decided before its first call. -/
theorem Entering.leads_doLink (entering : Entering env interp expands) (lawful : env.dir.Lawful)
    (fs : Fs δ) (dir : Nat) (name : Name) (ino flags : Nat) (faults : List (Option Fault)) :
    Leads interp (doLink dir name ino flags)
      ((fs.linkAttempt env expands dir name ino flags faults).Ended fs dir) (fs, faults) := by
  set attempt := fs.linkAttempt env expands dir name ino flags faults with isAttempt
  have same : attempt.contents = fs.dirs dir := rfl
  rw [doLink]
  refine leads_bind_of ?_
  rintro rc ⟨linked, rest⟩ outcome
  obtain ⟨rfl, refilled, rfl, sameRoom⟩ :=
    (entering.link fs dir name ino flags faults).outcome outcome
  rw [← isAttempt] at refilled sameRoom ⊢
  split
  swap
  · rename_i other
    exact LinkAttempt.ended_first lawful same other refilled
  rename_i full
  refine leads_bind_of ?_
  rintro rc ⟨expanded, rest⟩ outcome
  obtain ⟨grows, refilled', rfl, -⟩ := (entering.expandDir linked dir faults.tail).outcome outcome
  have grown : rc = 0 ↔ attempt.Grows := by
    rw [grows, fails_tail, sameRoom full, LinkAttempt.Grows, and_iff_right full]
    rfl
  split
  · rename_i failed
    rw [if_neg failed, refilled.dirs, Function.update_self] at refilled'
    exact LinkAttempt.ended_stuck lawful same full (mt grown.mpr failed) (refilled.trans refilled')
  rename_i done
  rw [not_not] at done
  rw [if_pos done, refilled.dirs, Function.update_self] at refilled'
  have later := refilled.trans refilled'
  refine leads_bind_of ?_
  rintro rc ⟨next, rest⟩ outcome
  obtain ⟨rfl, refilled'', rfl, -⟩ :=
    (entering.link expanded dir name ino flags faults.tail.tail).outcome outcome
  have second : (expanded.linkAttempt env expands dir name ino flags faults.tail.tail).first =
      attempt.second := by
    rw [linkAttempt, later.checkDirectory, later.dirs, Function.update_self,
      recordedType, later.super]
    simp only [LinkAttempt.first, LinkAttempt.second, LinkAttempt.link, List.getElem?_tail]
    rfl
  rw [second] at refilled'' ⊢
  exact LinkAttempt.ended_grown lawful same (grown.mp done) (later.trans refilled'')

/-- Without space nothing but the directory is written. -/
theorem ext2fsLink_noSpace {fs : Fs δ} {dir : Nat} {name : Name} {ino flags : Nat}
    (full : (fs.ext2fsLink env dir name ino flags).1 = EXT2_ET_DIR_NO_SPACE) :
    (fs.ext2fsLink env dir name ino flags).2 =
      { fs with dirs := (fs.ext2fsLink env dir name ino flags).2.dirs } := by
  by_cases checked : fs.ext2fsCheckDirectory dir = 0
  · rw [ext2fsLink_eq checked] at full ⊢
    have failed : (env.dir.link (fs.dirs dir) name ino
        (if fs.super.filetype then flags % 8 else 0)).1 ≠ 0 := by
      intro done
      cases done.symm.trans full
    dsimp only
    rw [if_neg failed]
  · rw [ext2fsLink, if_neg checked]

/-- Does a name get its link in a directory? There is space for it, or the directory can be expanded
and there is space then. -/
def linkRoom (env : Env δ) (fs : Fs δ) (dir : Nat) (name : Name) (ino flags : Nat) : Bool :=
  let tried := env.dir.link (fs.dirs dir) name ino (fs.recordedType flags)
  tried.1 == 0 || (tried.1 == EXT2_ET_DIR_NO_SPACE && (fs.ext2fsExpandDir env dir).1 == 0 &&
    (env.dir.link (env.dir.expand tried.2) name ino (fs.recordedType flags)).1 == 0)

/-- That is what `do_link` comes to. -/
theorem run_doLink_rc (checked : fs.ext2fsCheckDirectory dir = 0) (name : Name) (ino flags : Nat) :
    ((doLink dir name ino flags).run (lib env) fs).1 = 0 ↔
    linkRoom env fs dir name ino flags = true := by
  have eio : EIO ≠ 0 := by decide
  have noSpace : EXT2_ET_DIR_NO_SPACE ≠ 0 := by decide
  obtain ⟨linked, isLinked⟩ : ∃ linked, fs.ext2fsLink env dir name ino flags = linked := ⟨_, rfl⟩
  have code : linked.1 = (env.dir.link (fs.dirs dir) name ino (fs.recordedType flags)).1 := by
    rw [← isLinked, ext2fsLink_eq checked]
    rfl
  have refilled := @ext2fsLink_refills δ env fs dir checked name ino flags
  have unwritten := @ext2fsLink_noSpace δ env fs dir name ino flags
  rw [isLinked] at refilled unwritten
  simp only [linkRoom, Bool.or_eq_true, Bool.and_eq_true, beq_iff_eq]
  rw [← code, doLink, run_bind, run_lift]
  change (run (lib env) _ (fs.ext2fsLink env dir name ino flags).2).1 = 0 ↔ _
  rw [isLinked]
  change (run (lib env) (if (fs.ext2fsLink env dir name ino flags).1 =
    EXT2_ET_DIR_NO_SPACE then _ else _) _).1 = 0 ↔ _
  rw [isLinked]
  by_cases full : linked.1 = EXT2_ET_DIR_NO_SPACE
  swap
  · rw [if_neg full]
    refine Iff.trans ?_ (or_iff_left fun both => full both.1.1).symm
    change (if (fs.ext2fsLink env dir name ino flags).1 ≠ 0 then EIO else 0) = 0 ↔ _
    rw [isLinked]
    split
    · rename_i failed
      exact iff_of_false eio failed
    · rename_i done
      exact iff_of_true rfl (not_not.mp done)
  rw [if_pos full, full, run_bind, run_lift]
  rw [unwritten full] at refilled ⊢
  set tried : Fs δ := { fs with dirs := linked.2.dirs } with isTried
  obtain ⟨expanded, isExpanded⟩ : ∃ expanded, tried.ext2fsExpandDir env dir = expanded := ⟨_, rfl⟩
  have room : expanded.1 = (fs.ext2fsExpandDir env dir).1 := by
    rw [← isExpanded]
    exact ext2fsExpandDir_rc_congr rfl rfl rfl
  have expands := ext2fsExpandDir_refills env tried dir
  rw [isExpanded] at expands
  rw [← room]
  change (run (lib env) (if (tried.ext2fsExpandDir env dir).1 ≠ 0 then _ else _)
    (tried.ext2fsExpandDir env dir).2).1 = 0 ↔ _
  rw [isExpanded]
  by_cases stuck : expanded.1 = 0
  swap
  · rw [if_pos stuck]
    exact iff_of_false eio (by simp [stuck, noSpace])
  rw [if_neg (not_not.mpr stuck), run_bind, run_lift]
  rw [if_pos stuck, refilled.dirs, Function.update_self] at expands
  have later := refilled.trans expands
  have again : (expanded.2.ext2fsLink env dir name ino flags).1 =
      (env.dir.link (env.dir.expand (env.dir.link (fs.dirs dir) name ino (fs.recordedType flags)).2)
        name ino (fs.recordedType flags)).1 := by
    rw [ext2fsLink_eq (later.checkDirectory.trans checked), later.dirs,
      Function.update_self, later.super]
    rfl
  change (if (expanded.2.ext2fsLink env dir name ino flags).1 ≠ 0 then EIO else 0) = 0 ↔ _
  rw [again]
  split
  · rename_i failed
    exact iff_of_false eio (by simp [failed, noSpace])
  · rename_i done
    exact iff_of_true rfl (.inr ⟨⟨rfl, stuck⟩, not_not.mp done⟩)

/-- What an entry of the schedule makes of `ext2fs_link`: it does what it is asked to, fails, or
fails when the entry is in. -/
def Fs.linkGiven (env : Env δ) (fs : Fs δ) (dir : Nat) (name : Name) (ino flags : Nat) :
    Option Fault → Errcode × Fs δ
  | none => fs.ext2fsLink env dir name ino flags
  | some fault =>
      (fault.code, if fault.half then fs.ext2fsLinkHalf env dir name ino flags else fs)

/-- That is what the attempt says, and without space nothing but the directory is written. -/
theorem linkGiven_first (fs : Fs δ) (dir : Nat) (name : Name) (ino flags : Nat)
    (faults : List (Option Fault)) :
    let attempt := fs.linkAttempt env expands dir name ino flags faults
    let given := fs.linkGiven env dir name ino flags faults[0]?.join
    given.1 = attempt.first.1 ∧ fs.Refilled given.2 dir attempt.first.2 ∧
      (given.1 = EXT2_ET_DIR_NO_SPACE → given.2 = { fs with dirs := given.2.dirs }) := by
  intro attempt
  obtain ⟨code, refilled, half⟩ := @ext2fsLink_tries δ env expands fs dir name ino flags faults
  cases head : attempt.faults[0]?.join with
  | none =>
      rw [LinkAttempt.first, LinkAttempt.link_ok head, show faults[0]?.join =
        none from head, linkGiven]
      exact ⟨code, refilled, ext2fsLink_noSpace⟩
  | some fault =>
      rw [LinkAttempt.first, LinkAttempt.link_fault head, show faults[0]?.join =
        some fault from head, linkGiven]
      by_cases late : fault.half = true
      · rw [if_pos late, if_pos late]
        refine ⟨rfl, half, fun _ => ?_⟩
        dsimp only
        rw [ext2fsLinkHalf_eq]
      · rw [if_neg late, if_neg late]
        exact ⟨rfl, refilled_self, fun _ => rfl⟩

theorem exec_link_faulty (fs : Fs δ) (dir : Nat) (name : Name) (ino flags : Nat)
    (faults : List (Option Fault)) :
    let given := fs.linkGiven env dir name ino flags faults[0]?.join
    (faultyLib env).exec (.link dir name ino flags) (fs, faults) =
    (given.1, (given.2, faults.tail)) := by
  intro given
  cases head : faults[0]?.join with
  | none =>
      have ok : ¬ Fails faults 0 := by
        rintro ⟨fault, found⟩
        rw [found] at head
        cases head
      have isGiven : given = fs.ext2fsLink env dir name ino flags := by
        rw [show given = fs.linkGiven env dir name ino flags faults[0]?.join from rfl,
          head, linkGiven]
      rw [faultyLib_ok ok, isGiven]
      rfl
  | some fault =>
      have found : faults[0]? = some (some fault) := Option.join_eq_some_iff.mp head
      have isGiven : given = fs.linkGiven env dir name ino flags (some fault) := by
        rw [show given = fs.linkGiven env dir name ino flags faults[0]?.join from rfl, head]
      rw [faultyLib_left found fun _ => rfl, isGiven]
      rfl

/-- In the library over a schedule of faults a directory is expanded if there is room. -/
theorem entering_faulty (env : Env δ) :
    Entering env (faultyLib env) fun fs dir => (fs.ext2fsExpandDir env dir).1 = 0 where
  link fs dir name ino flags faults := by
    obtain ⟨code, refilled, unwritten⟩ := @linkGiven_first δ env
      (fun fs dir => (fs.ext2fsExpandDir env dir).1 = 0) fs dir name ino flags faults
    rw [leads_lift, exec_link_faulty]
    refine ⟨code, refilled, rfl, fun full => ?_⟩
    dsimp only
    rw [unwritten full]
    exact Eq.congr_left (ext2fsExpandDir_rc_congr rfl rfl rfl)
  expandDir fs dir faults := by
    rw [leads_lift]
    by_cases failing : Fails faults 0
    · obtain ⟨fault, outcome⟩ := @faultyLib_failed δ _ env fs faults (.expandDir dir) failing
        (fun fault => fault.code) (fun _ => rfl) (fun _ => rfl)
      rw [outcome, if_neg fault.nonzero]
      exact ⟨iff_of_false fault.nonzero (fun both => both.1 failing), refilled_self, rfl⟩
    · rw [faultyLib_ok failing]
      exact ⟨(and_iff_right failing).symm, ext2fsExpandDir_refills env fs dir, rfl⟩

end Library

end Ext2Fuse
