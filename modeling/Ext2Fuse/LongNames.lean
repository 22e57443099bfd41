import Ext2Fuse.DirExpand
import Ext2Fuse.EntryRuns

/-!
# Names that are too long

Nothing between FUSE and `link_proc` looks at the length of a name, and of the length only the low
byte is the length of the name in the record. As long as no name of more than 255 bytes comes to
`ext2fs_link`, every live record carries the name that the request gave which made it.
-/

namespace Ext2Fuse

open Lib Program Fs DirBlock

section Calls

variable {δ : Type}

/-- The calls of requests on names that leave all directories alone. -/
def LibCall.quiet {β : Type} : LibCall δ β → Bool
  | .link _ _ _ _ | .unlink _ _ _ | .expandDir _ | .writeDirBlock _ _ _ | .fileRead _ _ => false
  | _ => true

end Calls

/-- All directories are well formed, and their live entries have names that were given to them. -/
structure NamesFrom (super : Super) (given : Nat → Name → Prop) (fs : Fs (List Block)) : Prop where
  super_eq : fs.super = super
  few : super.sInodesCount < 2 ^ 32
  wellFormed : ∀ dir, WellFormed super.blocksize (fs.dirs dir)
  named : ∀ dir, ∀ entry ∈ liveEntries super.blocksize (fs.dirs dir), given dir entry.name

namespace NamesFrom

variable {super : Super} {given : Nat → Name → Prop} {env : Env (List Block)}
  {fs next : Fs (List Block)} {dir ino : Nat} {name : Name}

/-- Where the directories stay so do their names. -/
theorem of_dirs (names : NamesFrom super given fs) (sameSuper : next.super = fs.super)
    (dirs : next.dirs = fs.dirs) : NamesFrom super given next where
  super_eq := sameSuper.trans names.super_eq
  few := names.few
  wellFormed := by
    rw [dirs]
    exact names.wellFormed
  named := by
    rw [dirs]
    exact names.named

/-- One directory gets other contents. -/
theorem setDir (names : NamesFrom super given fs) (sameSuper : next.super = fs.super)
    {contents : List Block}
    (dirs : next.dirs = Function.update fs.dirs dir contents)
    (wellFormed : WellFormed super.blocksize contents)
    (named : ∀ entry ∈ liveEntries super.blocksize contents, given dir entry.name) :
    NamesFrom super given next where
  super_eq := sameSuper.trans names.super_eq
  few := names.few
  wellFormed other := by
    rw [dirs]
    exact wellFormed_update names.wellFormed wellFormed other
  named other entry member := by
    rw [dirs] at member
    by_cases here : other = dir
    · subst here
      rw [Function.update_self] at member
      exact named entry member
    · rw [Function.update_of_ne here] at member
      exact names.named other entry member

variable (envDir : env.dir = dirLib super.blocksize) (bounded : super.blocksize < 65536)

include envDir bounded

/-- A name of at most 255 bytes is entered as it is. -/
theorem link (names : NamesFrom super given fs) (flags : Nat) (short : name.length ≤ 255)
    (numbered : Numbered super ino) (isGiven : given dir name) :
    NamesFrom super given (fs.ext2fsLink env dir name ino flags).2 := by
  obtain ⟨contents, fileType, wellFormed, confined, -, live⟩ :=
    link_cases envDir bounded (names.wellFormed dir) names.few flags short numbered
  refine names.setDir confined.super confined.dirs wellFormed fun entry member => ?_
  obtain ⟨-, before, after, split, inserted⟩ | ⟨-, same⟩ := live
  · have old : entry ∈ before ++ after → given dir entry.name := fun inOld =>
      names.named dir entry (split ▸ inOld)
    rw [inserted, List.mem_append, List.mem_cons] at member
    obtain early | rfl | late := member
    · exact old (List.mem_append_left _ early)
    · exact isGiven
    · exact old (List.mem_append_right _ late)
  · exact names.named dir entry (same ▸ member)

/-- Removing a name records none. -/
theorem unlink (names : NamesFrom super given fs)
    (careful : ¬ StartsBlock super.blocksize (fs.dirs dir) name ino) :
    NamesFrom super given (fs.ext2fsUnlink env dir name ino).2 := by
  obtain ⟨large, -⟩ := blocksize_bounds super
  rw [ext2fsUnlink, envDir]
  split
  · obtain ⟨wellFormed, erased⟩ :=
      WellFormed.unlink_erases bounded (by omega) (names.wellFormed dir) careful
    refine names.setDir rfl rfl wellFormed fun entry member => ?_
    rw [erased] at member
    exact names.named dir entry (List.mem_of_mem_eraseP member)
  · exact names

/-- A new block records no name. -/
theorem expandDir (names : NamesFrom super given fs) (dir : Nat) :
    NamesFrom super given (fs.ext2fsExpandDir env dir).2 := by
  obtain ⟨large, aligned⟩ := blocksize_bounds super
  have sameSuper := (ext2fsExpandDir_frame env fs dir dir).1
  have dirs : (fs.ext2fsExpandDir env dir).2.dirs = fs.dirs ∨
      (fs.ext2fsExpandDir env dir).2.dirs =
        Function.update fs.dirs dir ((dirLib super.blocksize).expand (fs.dirs dir)) := by
    obtain ⟨vol, iBlock, -, iterated⟩ := ext2fsBlockIterate2_frame expandDirProc_super fs dir
      false { append := true } {}
    simp only [ext2fsExpandDir, envDir]
    generalize fs.ext2fsBlockIterate2 dir false { append := true } expandDirProc {} = outcome
      at iterated ⊢
    have contents : outcome.2.2.dirs = fs.dirs := by rw [iterated]
    split
    · split
      · exact .inl contents
      · split
        · exact .inl contents
        · refine .inr ?_
          rw [(confined_writeInode _ dir _).dirs, ← contents]
    · exact .inl rfl
  obtain same | grown := dirs
  · exact names.of_dirs sameSuper same
  · obtain ⟨wellFormed, live⟩ := (names.wellFormed dir).expand bounded aligned (by omega)
    exact names.setDir sameSuper grown wellFormed
      fun entry member => names.named dir entry (live ▸ member)

end NamesFrom

section Routines

variable {super : Super} {given : Nat → Name → Prop} {env : Env (List Block)} {dir ino : Nat}
  {name : Name}

section Files

end Files

variable (envDir : env.dir = dirLib super.blocksize) (bounded : super.blocksize < 65536)

include envDir bounded

section Dots

variable (dots : ∀ dir, given dir dotName ∧ given dir dotDotName)

include dots

section Rename

variable {newDir : Nat} {newName : Name}

end Rename

end Dots

end Routines

section Runs

variable {super : Super} {env : Env (List Block)} {start final : Fs (List Block)}
    {turns : List Turn}

/-- A live record of the directory carries the name. -/
def Lists (super : Super) (fs : Fs (List Block)) (dir : Nat) (name : Name) : Prop :=
  ∃ entry ∈ liveEntries super.blocksize (fs.dirs dir), entry.name = name

/-- Every live record carries one of the names of its directory, and its 8-bit length is the length
of this name. -/
def RecordsNames (super : Super) (given : Nat → Name → Prop) (fs : Fs (List Block)) : Prop :=
  ∀ dir, ∀ block ∈ fs.dirs dir, ∀ offset ∈ recordOffsets super.blocksize block super.blocksize 0,
    inodeAt block offset ≠ 0 →
      ∃ name, given dir name ∧ nameAt block offset = name ∧ nameLen8At block offset = name.length

/-- What names from the requests are is what the recorded names are. -/
theorem NamesFrom.records {given : Nat → Name → Prop} {fs : Fs (List Block)}
    (names : NamesFrom super given fs) : RecordsNames super given fs := by
  intro dir block inDir offset isOffset live
  refine ⟨nameAt block offset, ?_, rfl, (length_nameAt block offset).symm⟩
  have member : direntAt block offset ∈ liveEntries super.blocksize (fs.dirs dir) := by
    refine List.mem_flatMap.mpr ⟨block, inDir, List.mem_map.mpr ⟨offset, ?_, rfl⟩⟩
    exact List.mem_filter.mpr ⟨isOffset, by simpa using live⟩
  exact names.named dir _ member

end Runs

end Ext2Fuse
