import Ext2Fuse.Library

/-!
# Library calls that fail

The library over a schedule of faults: before each call the schedule says whether the
call fails, and with which code. A call that fails leaves the filesystem as it is, but for
`ext2fs_link`, which can fail when the entry is in. An inode that could not be written is the
old one on the volume; that `fs->icache` has the new one already is left out, as no routine
goes on to read an inode that it failed to write.
-/

namespace Ext2Fuse

open Lib Program

/-- What a call responds that fails with the code of the fault; the other calls have no way to
report a failure. -/
def LibCall.failed {δ : Type} : {β : Type} → LibCall δ β → Fault → Option β
  | _, .readInode _, fault => some (.error fault.code)
  | _, .writeInode _ _, fault => some fault.code
  | _, .writeNewInode _ _, fault => some fault.code
  | _, .newInode _, fault => some (.error fault.code)
  | _, .newBlock _, fault => some (.error fault.code)
  | _, .newDirBlock _ _, fault => some (.error fault.code)
  | _, .writeDirBlock _ _ _, fault => some fault.code
  | _, .lookup _ _, fault => some (.error fault.code)
  | _, .namei _ _, fault => some (.error fault.code)
  | _, .dirIterate _, fault => some (fault.code, [])
  | _, .link _ _ _ _, fault => some fault.code
  | _, .unlink _ _ _, fault => some fault.code
  | _, .expandDir _, fault => some fault.code
  | _, .blockIterateRelease _, fault => some fault.code
  | _, .blockIterateTruncate _ info, fault => some (fault.code, info)
  | _, .fileOpen _ _, fault => some (.error fault.code)
  | _, .fileRead file _, fault => some (fault.code, [], file)
  | _, .fileWrite file _, fault => some (fault.code, 0, file)
  | _, .fileFlush file, fault => some (fault.code, file)
  | _, .flush, fault => some fault.code
  | _, .malloc _, _ => some false
  | _, .realloc _, _ => some false
  | _, _, _ => none

/-- `ext2fs_link` fails when the entry is in: it reads the inode of the directory then, and writes
it to drop the hash-index flag, and neither says that there is no space. -/
def Lib.Fault.half (fault : Fault) : Bool := fault.late && fault.code != EXT2_ET_DIR_NO_SPACE

/-- The entry is in if there was space for it, and the inode of the directory has not been looked
at. -/
def Fs.ext2fsLinkHalf {δ : Type} (env : Env δ) (fs : Fs δ) (dir : Nat) (name : Name)
    (ino flags : Nat) : Fs δ :=
  if fs.ext2fsCheckDirectory dir = 0 then
    let (_, contents) := env.dir.link (fs.dirs dir) name ino (fs.recordedType flags)
    { fs with dirs := Function.update fs.dirs dir contents }
  else fs

/-- What a failing call leaves. -/
def LibCall.leaves {δ : Type} (env : Env δ) : {β : Type} → LibCall δ β → Fault → Fs δ → Fs δ
  | _, .link dir name ino flags, fault, fs =>
      if fault.half then fs.ext2fsLinkHalf env dir name ino flags else fs
  | _, _, _, fs => fs

/-- The library over a schedule of faults. -/
def Fs.faultyLib {δ : Type} (env : Env δ) : Interp (LibCall δ) (Fs δ × List (Option Fault)) :=
  (Fs.lib env).faulty LibCall.failed (LibCall.leaves env)

/-- The schedule has a fault for the call with this number. -/
def Fails (faults : List (Option Fault)) (index : Nat) : Prop :=
  ∃ fault, faults[index]? = some (some fault)

section Rules

variable {δ α : Type} {env : Env δ} {fs : Fs δ} {faults : List (Option Fault)}
  {operation : LibCall δ α}

/-- A half-made link has written what a link writes to the directory, and nothing else. -/
theorem ext2fsLinkHalf_eq (env : Env δ) (fs : Fs δ) (dir : Nat) (name : Name) (ino flags : Nat) :
    fs.ext2fsLinkHalf env dir name ino flags =
      { fs with dirs := (fs.ext2fsLink env dir name ino flags).2.dirs } := by
  rw [Fs.ext2fsLinkHalf]
  split
  · rename_i checked
    rw [Fs.ext2fsLink_eq checked]
    rfl
  · rename_i failed
    rw [Fs.ext2fsLink, if_neg failed]

/-- A failing call leaves everything, or it has written to the directories what it writes when it
does not fail. -/
theorem leaves_cases (env : Env δ) (operation : LibCall δ α) (fault : Fault) (fs : Fs δ) :
    operation.leaves env fault fs = fs ∨ operation.leaves env fault fs =
      { fs with dirs := ((Fs.lib env).exec operation fs).2.dirs } := by
  cases operation with
  | link dir name ino flags =>
      rw [LibCall.leaves]
      split
      · exact .inr (ext2fsLinkHalf_eq env fs dir name ino flags)
      · exact .inl rfl
  | _ => exact .inl rfl

/-- A call that does not fail. -/
theorem faultyLib_ok (ok : ¬ Fails faults 0) :
    (Fs.faultyLib env).exec operation (fs, faults) = (((Fs.lib env).exec operation fs).1,
      (((Fs.lib env).exec operation fs).2, faults.tail)) := by
  have none : faults.head?.join = none := by
    rcases faults with _ | ⟨_ | fault, rest⟩
    · rfl
    · rfl
    · exact absurd ⟨fault, rfl⟩ ok
  simp only [Fs.faultyLib, Interp.faulty, none]
  rfl

/-- A call that cannot fail. -/
theorem faultyLib_never (never : ∀ fault, operation.failed fault = none) :
    (Fs.faultyLib env).exec operation (fs, faults) = (((Fs.lib env).exec operation fs).1,
      (((Fs.lib env).exec operation fs).2, faults.tail)) :=
  exec_faulty_never never fs faults

/-- A call that fails. -/
theorem faultyLib_left {fault : Fault} (found : faults[0]? = some (some fault))
    {response : Fault → α} (failed : ∀ fault, operation.failed fault = some (response fault)) :
    (Fs.faultyLib env).exec operation (fs, faults) =
      (response fault, (operation.leaves env fault fs, faults.tail)) := by
  have head : faults.head?.join = some fault := by
    rw [List.head?_eq_getElem?, found]
    rfl
  simp only [Fs.faultyLib, Interp.faulty, head, Option.bind_some, failed, Option.map_some]

/-- A call that fails and is no link leaves the filesystem alone. -/
theorem faultyLib_fault {fault : Fault} (found : faults[0]? = some (some fault))
    {response : Fault → α} (failed : ∀ fault, operation.failed fault = some (response fault))
    (aside : ∀ fault, operation.leaves env fault fs = fs) :
    (Fs.faultyLib env).exec operation (fs, faults) = (response fault, (fs, faults.tail)) := by
  rw [faultyLib_left found failed, aside]

/-- A failing call answers with its failure, and changes nothing when the failure does not. -/
theorem faultyLib_failed (failing : Fails faults 0) {response : Fault → α}
    (failed : ∀ fault, operation.failed fault = some (response fault))
    (aside : ∀ fault, operation.leaves env fault fs = fs) :
    ∃ fault : Fault, (Fs.faultyLib env).exec operation (fs, faults) =
      (response fault, (fs, faults.tail)) := by
  obtain ⟨fault, found⟩ := failing
  exact ⟨fault, faultyLib_fault found failed aside⟩

theorem fails_tail (index : Nat) : Fails faults.tail index ↔ Fails faults (index + 1) := by
  simp only [Fails, List.getElem?_tail]

/-- Whether the call fails or not. -/
theorem leads_faulty {post : α → Fs δ × List (Option Fault) → Prop}
    (ok : post ((Fs.lib env).exec operation fs).1 (((Fs.lib env).exec operation fs).2, faults.tail))
    (failed : ∀ fault response, operation.failed fault = some response →
      post response (operation.leaves env fault fs, faults.tail)) :
    Leads (Fs.faultyLib env) (lift operation) post (fs, faults) :=
  leads_lift_faulty ok failed

/-- What a call keeps that is no link, it keeps also when it fails. -/
theorem keeps_faulty {inv : Fs δ → Prop}
    (aside : ∀ fault fs, operation.leaves env fault fs = fs)
    (keeps : ∀ fs, inv fs → inv ((Fs.lib env).exec operation fs).2) :
    Keeps (Fs.faultyLib env) (fun state => inv state.1) (lift operation) := by
  rintro ⟨fs, faults⟩ kept
  refine leads_faulty (keeps fs kept) fun fault _ _ => ?_
  rw [aside]
  exact kept

/-- And so does any call, if it is no matter what is written to the directories. -/
theorem keeps_faulty_dirs {inv : Fs δ → Prop}
    (keeps : ∀ fs, inv fs → inv ((Fs.lib env).exec operation fs).2)
    (dirs : ∀ fs, inv fs → inv { fs with dirs := ((Fs.lib env).exec operation fs).2.dirs }) :
    Keeps (Fs.faultyLib env) (fun state => inv state.1) (lift operation) := by
  rintro ⟨fs, faults⟩ kept
  refine leads_faulty (keeps fs kept) fun fault _ _ => ?_
  obtain same | written := leaves_cases env operation fault fs
  · rw [same]
    exact kept
  · rw [written]
    exact dirs fs kept

end Rules

end Ext2Fuse
