import Ext2Fuse.BlockForest
import Ext2Fuse.Truncate

/-!
# The handle's copy of the inode

A handle writes its whole copy of the inode to disk, when a block is allocated and
when a size or an access time is set. As long as the copy is what is on disk, the
access time apart, a call on the handle that succeeds changes no more of the inode than
the blocks it allocates make necessary, and leaves the copy in step again.
-/

namespace Ext2Fuse

open Lib Program

namespace Volume

/-- So many blocks have been taken, and none given back. -/
structure Takes (allocated : Nat) (vol vol' : Volume) : Prop where
  super : vol'.super = vol.super
  marks : ∀ blk, vol.blockMap blk = true → vol'.blockMap blk = true
  some : allocated ≠ 0 → ∃ blk, vol.blockMap blk = false ∧ vol'.blockMap blk = true

section Takes

variable {first second allocated goal blk : Nat} {vol vol' vol'' : Volume}

/-- Nothing taken is a growth by nothing. -/
theorem Takes.refl (vol : Volume) : Takes 0 vol vol :=
  ⟨rfl, fun _ marked => marked, fun taken => absurd rfl taken⟩

/-- Blocks taken one after the other are taken together. -/
theorem Takes.trans (before : Takes first vol vol') (after : Takes second vol' vol'') :
    Takes (first + second) vol vol'' where
  super := after.super.trans before.super
  marks blk marked := after.marks blk (before.marks blk marked)
  some taken := by
    by_cases early : first = 0
    · obtain ⟨blk, free, marked⟩ := after.some (by omega)
      refine ⟨blk, ?_, marked⟩
      by_contra used
      rw [before.marks blk (by simpa using used)] at free
      cases free
    · obtain ⟨blk, free, marked⟩ := before.some early
      exact ⟨blk, free, after.marks blk marked⟩

/-- The allocator takes the block it hands out. -/
theorem takes_of_alloc (firstData : vol.super.sFirstDataBlock ≤ 1)
    (outcome : vol.ext2fsAllocBlock goal = (.ok blk, vol')) : Takes 1 vol vol' := by
  simp only [ext2fsAllocBlock] at outcome
  split at outcome
  · cases outcome
  · rename_i found
    cases outcome
    obtain ⟨free, inRange⟩ := ext2fsNewBlock_ok firstData found
    have marked : ((vol.writeBlk blk fun _ => 0).ext2fsBlockAllocStats blk true).blockMap =
        Function.update vol.blockMap blk true := by
      rw [ext2fsBlockAllocStats_blockMap, if_pos (by exact inRange), writeBlk_blockMap]
    refine ⟨rfl, ?_, fun _ => ⟨blk, free, ?_⟩⟩
    · intro other used
      rw [marked, Function.update_apply]
      split
      · rfl
      · exact used
    · rw [marked, Function.update_self]

/-- A walk takes the blocks it says it has allocated. -/
def WalkTakes (walk : Volume → Bool → Nat → Nat → BmapStep) : Prop :=
  ∀ (vol : Volume) (alloc : Bool) (root nr blk allocated : Nat) (vol' : Volume),
    vol.super.sFirstDataBlock ≤ 1 → walk vol alloc root nr = (.ok (blk, allocated), vol') →
      Takes allocated vol vol'

/-- Mapping through an indirect block takes the blocks it counts. -/
theorem blockIndBmap_takes : WalkTakes blockIndBmap := by
  intro vol alloc ind nr blk allocated vol' firstData outcome
  simp only [blockIndBmap] at outcome
  split at outcome
  · cases outcome
    exact .refl vol
  · split at outcome
    · split at outcome
      · cases outcome
      · rename_i taken
        cases outcome
        have takes := takes_of_alloc firstData taken
        exact ⟨takes.super, takes.marks, takes.some⟩
    · cases outcome
      exact .refl vol

/-- One more level of indirection takes those below and its own. -/
theorem throughInd_takes {outer : Volume → Bool → Nat → Nat → BmapStep}
    (outerTakes : WalkTakes outer) : WalkTakes (throughInd outer) := by
  intro vol alloc root nr blk allocated vol' firstData outcome
  simp only [throughInd] at outcome
  split at outcome
  · cases outcome
  · rename_i ind first reached outerOutcome
    have before := outerTakes _ _ _ _ _ _ _ firstData outerOutcome
    split at outcome
    · cases outcome
    · rename_i second final innerOutcome
      cases outcome
      exact before.trans
        (blockIndBmap_takes _ _ _ _ _ _ _ (by rw [before.super]; exact firstData) innerOutcome)

variable {iBlock iBlock' : Nat → Nat} {alloc : Bool}

/-- What `ext2fs_bmap` does to the pointers of the copy: it sets a pointer that was 0, and
then it has taken blocks. -/
structure Points (allocated : Nat) (iBlock iBlock' : Nat → Nat) : Prop where
  keeps : ∀ slot, iBlock slot ≠ 0 → iBlock' slot = iBlock slot
  none : allocated = 0 → iBlock' = iBlock

/-- With nothing allocated the pointers may stay as they are. -/
theorem Points.refl (allocated : Nat) (iBlock : Nat → Nat) : Points allocated iBlock iBlock :=
  ⟨fun _ _ => rfl, fun _ => rfl⟩

/-- Filling an empty slot is what an allocation may do to the pointers. -/
theorem points_update {slot : Nat} (empty : iBlock slot = 0) (taken : allocated ≠ 0) (blk : Nat) :
    Points allocated iBlock (Function.update iBlock slot blk) := by
  refine ⟨fun other present => ?_, fun nothing => absurd nothing taken⟩
  rw [Function.update_of_ne]
  rintro rfl
  exact present empty

/-- Mapping from a slot takes the blocks it counts and fills the slot when it was empty. -/
theorem bmapFromSlot_takes {walk : Volume → Bool → Nat → Nat → BmapStep}
    (walkTakes : WalkTakes walk) (firstData : vol.super.sFirstDataBlock ≤ 1) {slot nr : Nat}
    (outcome : bmapFromSlot walk vol iBlock alloc slot nr = (.ok (blk, allocated), iBlock', vol')) :
    Takes allocated vol vol' ∧ Points allocated iBlock iBlock' := by
  simp only [bmapFromSlot] at outcome
  split at outcome
  · rename_i empty
    split at outcome
    · split at outcome
      · cases outcome
      · rename_i ind reached taken
        have takes := takes_of_alloc firstData taken
        split at outcome
        · cases outcome
        · rename_i more final walked
          cases outcome
          have rest := walkTakes _ _ _ _ _ _ _ (by rw [takes.super]; exact firstData) walked
          rw [Nat.add_comm]
          exact ⟨takes.trans rest, points_update empty (by omega) _⟩
    · cases outcome
      exact ⟨.refl vol, .refl _ _⟩
  · split at outcome
    · cases outcome
    · rename_i walked
      cases outcome
      exact ⟨walkTakes _ _ _ _ _ _ _ firstData walked, .refl _ _⟩

/-- ext2fs_bmap's switch takes the blocks it counts. -/
theorem bmapBlocks_takes (firstData : vol.super.sFirstDataBlock ≤ 1) {block : Nat}
    (outcome : vol.bmapBlocks iBlock alloc block = (.ok (blk, allocated), iBlock', vol')) :
    Takes allocated vol vol' ∧ Points allocated iBlock iBlock' := by
  simp only [bmapBlocks] at outcome
  split at outcome
  · simp only [bmapDirect] at outcome
    split at outcome
    · rename_i missing
      split at outcome
      · cases outcome
      · rename_i taken
        cases outcome
        simp only [Bool.and_eq_true, decide_eq_true_eq] at missing
        exact ⟨takes_of_alloc firstData taken, points_update missing.1 Nat.one_ne_zero _⟩
    · cases outcome
      exact ⟨.refl vol, .refl _ _⟩
  · split at outcome
    · exact bmapFromSlot_takes blockIndBmap_takes firstData outcome
    · split at outcome
      · exact bmapFromSlot_takes (throughInd_takes blockIndBmap_takes) firstData outcome
      · exact bmapFromSlot_takes (throughInd_takes (throughInd_takes blockIndBmap_takes)) firstData
          outcome

end Takes

end Volume

/-- The inode without its access time. -/
def Inode.settled (inode : Inode) : Inode := { inode with iAtime := 0 }

/-- The fields of an inode that requests on a file set. -/
inductive Field where
  | mode | uid | gid | size | links | blocks
  | block (slot : Nat)

/-- The value of a field. -/
def Field.of : Field → Inode → Nat
  | mode, inode => inode.iMode
  | uid, inode => inode.iUid
  | gid, inode => inode.iGid
  | size, inode => inode.iSize
  | links, inode => inode.iLinksCount
  | blocks, inode => inode.iBlocks
  | block slot, inode => inode.iBlock slot

/-- The fields an allocation sets. -/
def Field.isBlock : Field → Bool
  | blocks | block _ => true
  | _ => false

/-- A field other than those that settle is the same after settling. -/
theorem Field.of_settled (field : Field) (inode : Inode) :
    field.of inode.settled = field.of inode := by
  cases field <;> rfl

namespace Fs

variable {δ : Type}

/-- Blocks have been allocated to the file `ino`, and its inode has changed no more than
that takes: a pointer that was 0 is set, and the number of blocks is raised. The size
may be another one if the file has been resized. -/
structure Extends (resized : Bool) (ino : Nat) (fs fs' : Fs δ) : Prop where
  super : fs'.super = fs.super
  marks : ∀ blk, fs.vol.blockMap blk = true → fs'.vol.blockMap blk = true
  kept : ∀ field : Field, field.isBlock = false → (field = .size → resized = false) →
    field.of (fs'.inodeTab ino) = field.of (fs.inodeTab ino)
  keeps : ∀ slot, (fs.inodeTab ino).iBlock slot ≠ 0 →
    (fs'.inodeTab ino).iBlock slot = (fs.inodeTab ino).iBlock slot
  none : fs'.vol.blockMap = fs.vol.blockMap → ∀ field : Field, field.isBlock = true →
    field.of (fs'.inodeTab ino) = field.of (fs.inodeTab ino)

/-- A handle in step with the disk: it is a handle of `ino`, its copy is the inode on
disk, the access time apart, and a dirty buffer holds something. -/
structure InStep (fs : Fs δ) (ino : Nat) (file : File) : Prop where
  own : file.ino = ino
  current : file.inode.settled = (fs.inodeTab ino).settled
  held : file.bufDirty = true → file.bufValid = true

variable {fs fs' fs'' : Fs δ} {ino : Nat} {file file' : File}

variable {resized : Bool}

/-- A state extends itself. -/
theorem Extends.refl (resized : Bool) (ino : Nat) (fs : Fs δ) : Extends resized ino fs fs :=
  ⟨rfl, fun _ marked => marked, fun _ _ _ => rfl, fun _ _ => rfl, fun _ _ _ => rfl⟩

/-- Two extending steps in a row extend. -/
theorem Extends.trans (first : Extends resized ino fs fs') (second : Extends resized ino fs' fs'') :
    Extends resized ino fs fs'' where
  super := second.super.trans first.super
  marks blk marked := second.marks blk (first.marks blk marked)
  kept field other fixed := (second.kept field other fixed).trans (first.kept field other fixed)
  keeps slot present := by
    have kept := first.keeps slot present
    rw [second.keeps slot (by rwa [kept]), kept]
  none same := by
    have between : fs'.vol.blockMap = fs.vol.blockMap := by
      funext blk
      rw [Bool.eq_iff_iff]
      refine ⟨fun marked => ?_, first.marks blk⟩
      rw [← same]
      exact second.marks blk marked
    intro field isBlock
    rw [second.none (by rw [same, between]) field isBlock, first.none between field isBlock]

/-- A step that leaves the size is one that may change it. -/
theorem Extends.weaken {stricter : Bool} (step : Extends stricter ino fs fs')
    (weaker : stricter = true → resized = true) : Extends resized ino fs fs' where
  super := step.super
  marks := step.marks
  kept field other fixed := step.kept field other fun isSize => by
    cases strict : stricter
    · rfl
    · rw [weaker strict] at fixed
      cases fixed isSize
  keeps := step.keeps
  none := step.none

/-- The same with the stricter step written out. -/
theorem Extends.resize (step : Extends false ino fs fs') : Extends resized ino fs fs' :=
  step.weaken nofun

/-- The inodes are the same, and no block has been taken or given back. -/
theorem Extends.of_same (super : fs'.super = fs.super) (inodes : fs'.inodeTab = fs.inodeTab)
    (marks : fs'.vol.blockMap = fs.vol.blockMap) : Extends resized ino fs fs' := by
  refine ⟨super, fun blk marked => by rw [marks]; exact marked, ?_, ?_, ?_⟩
  · intro field _ _
    rw [inodes]
  · intro slot _
    rw [inodes]
  · intro _ field _
    rw [inodes]

/-- Seeking is not seen on disk. -/
theorem InStep.seek (inStep : fs.InStep ino file) (pos : Nat) :
    fs.InStep ino { file with pos := pos } := ⟨inStep.own, inStep.current, inStep.held⟩

/-- The range of inode numbers stays. -/
theorem Extends.validIno (step : Extends resized ino fs fs') (other : Nat) :
    fs'.validIno other = fs.validIno other := validIno_congr step.super other

/-- A handle's copy that is current has the fields of the disk's inode. -/
theorem field_of_current {inode : Inode} (current : inode.settled = (fs.inodeTab ino).settled)
    (field : Field) : field.of inode = field.of (fs.inodeTab ino) := by
  rw [← field.of_settled, current, field.of_settled]

/-- What `ext2fs_bmap` does to an inode it has a current copy of. -/
theorem ext2fsBmap_extends {inode inode' : Inode} {alloc : Bool} {block blk : Nat}
    (firstData : fs.super.sFirstDataBlock ≤ 1)
    (current : inode.settled = (fs.inodeTab ino).settled)
    (outcome : fs.ext2fsBmap ino inode alloc block = (.ok blk, inode', fs')) :
    Extends false ino fs fs' ∧ inode'.settled = (fs'.inodeTab ino).settled := by
  have same := field_of_current current
  simp only [ext2fsBmap] at outcome
  split at outcome
  · cases outcome
  · rename_i blk' allocated iBlock vol mapping
    obtain ⟨takes, points⟩ := Volume.bmapBlocks_takes firstData mapping
    split at outcome
    · rename_i nothing
      cases outcome
      obtain rfl := points.none nothing
      exact ⟨⟨takes.super, takes.marks, fun _ _ _ => rfl, fun _ _ => rfl,
        fun _ _ _ => rfl⟩, current⟩
    · rename_i taken
      obtain ⟨blk', free, marked⟩ := takes.some taken
      simp only [ext2fsWriteInode] at outcome
      split at outcome
      · rename_i written
        split at written
        · cases written
          cases outcome
          refine ⟨⟨takes.super, takes.marks, ?_, ?_, ?_⟩, ?_⟩
          · intro field other _
            rw [← same field]
            cases field <;> first | exact (Bool.noConfusion other) | simp [Field.of]
          · intro slot present
            have sameSlot : inode.iBlock slot = (fs.inodeTab ino).iBlock slot := same (.block slot)
            rw [← sameSlot] at present ⊢
            simpa using points.keeps slot present
          · intro unmarked
            change vol.blockMap = _ at unmarked
            rw [unmarked, free] at marked
            cases marked
          · simp
        · cases written
      · cases outcome

/-- Looking a block up changes nothing and does not fail. -/
theorem ext2fsBmap_lookup (fs : Fs δ) (ino : Nat) (inode : Inode) (block : Nat) :
    fs.ext2fsBmap ino inode false block = (.ok (fs.vol.mapped inode.iBlock block), inode, fs) := by
  simp only [ext2fsBmap, Volume.bmapBlocks_lookup, if_true]

/-- The handle after `load_buffer`. -/
def loaded (fs : Fs δ) (file : File) (dontfill : Bool) : File :=
  if file.bufValid then file
  else
    let blk := fs.vol.mapped file.inode.iBlock file.blockno
    { file with
      physblock := blk
      buf := if dontfill then file.buf else if blk = 0 then fun _ => 0 else fs.vol.io blk
      bufValid := true }

/-- Loading the buffer changes the handle alone and does not fail. -/
theorem loadBuffer_eq (fs : Fs δ) (file : File) (dontfill : Bool) :
    fs.loadBuffer file dontfill = (0, fs.loaded file dontfill, fs) := by
  simp only [loadBuffer, loaded, ext2fsBmap_lookup]
  split <;> rfl

section Loaded

variable (fs : Fs δ) (file : File) (dontfill : Bool)

@[simp] theorem loaded_ino : (fs.loaded file dontfill).ino = file.ino := by
  simp only [loaded]
  split <;> rfl

@[simp] theorem loaded_inode : (fs.loaded file dontfill).inode = file.inode := by
  simp only [loaded]
  split <;> rfl

@[simp] theorem loaded_pos : (fs.loaded file dontfill).pos = file.pos := by
  simp only [loaded]
  split <;> rfl

@[simp] theorem loaded_blockno : (fs.loaded file dontfill).blockno = file.blockno := by
  simp only [loaded]
  split <;> rfl

@[simp] theorem loaded_bufDirty : (fs.loaded file dontfill).bufDirty = file.bufDirty := by
  simp only [loaded]
  split <;> rfl

@[simp] theorem loaded_bufValid : (fs.loaded file dontfill).bufValid = true := by
  simp only [loaded]
  split
  · assumption
  · rfl

end Loaded

section Calls

variable (firstData : fs.super.sFirstDataBlock ≤ 1) (inStep : fs.InStep ino file)

include firstData inStep

/-- A successful flush leaves handle and disk in step and the buffer clean. -/
theorem ext2fsFileFlush_extends (outcome : fs.ext2fsFileFlush file = (0, file', fs')) :
    Extends false ino fs fs' ∧ fs'.InStep ino file' ∧ file'.bufDirty = false ∧
      file'.bufValid = file.bufValid ∧ file'.pos = file.pos := by
  obtain ⟨rfl, current, held⟩ := inStep
  simp only [ext2fsFileFlush] at outcome
  split at outcome
  · rename_i clean
    cases outcome
    have notDirty : file.bufDirty = false := by
      cases dirty : file.bufDirty
      · rfl
      · simp [dirty, held dirty] at clean
    exact ⟨.refl _ _ _, ⟨rfl, current, held⟩, notDirty, rfl, rfl⟩
  · split at outcome
    · split at outcome
      · rename_i failed
        cases outcome
        exact absurd rfl (ext2fsBmap_error failed)
      · rename_i mapping
        cases outcome
        obtain ⟨step, after⟩ := ext2fsBmap_extends firstData current mapping
        refine ⟨step.trans (.of_same rfl rfl rfl), ⟨rfl, after, fun dirty => ?_⟩, rfl, rfl, rfl⟩
        cases dirty
    · cases outcome
      refine ⟨.of_same rfl rfl rfl, ⟨rfl, current, fun dirty => ?_⟩, rfl, rfl, rfl⟩
      cases dirty

/-- A successful move of the buffer leaves handle and disk in step. -/
theorem syncBufferPosition_extends (outcome : fs.syncBufferPosition file = (0, file', fs')) :
    Extends false ino fs fs' ∧ fs'.InStep ino file' := by
  simp only [syncBufferPosition] at outcome
  split at outcome
  · split at outcome
    · rename_i flushed
      cases outcome
      obtain ⟨step, ⟨own, current, -⟩, clean, -⟩ := ext2fsFileFlush_extends firstData inStep flushed
      refine ⟨step, ⟨own, current, fun dirty => ?_⟩⟩
      rw [clean] at dirty
      cases dirty
    · rename_i failed _
      cases outcome
      exact absurd rfl failed
  · cases outcome
    exact ⟨.refl _ _ _, inStep⟩

/-- So does the loop of ext2fs_file_write, by induction on its bound. -/
theorem fileWriteLoop_extends {bound count written : Nat} {data : List UInt8}
    (outcome : fs.fileWriteLoop bound file data count = (0, written, file', fs')) :
    Extends false ino fs fs' ∧ fs'.InStep ino file' := by
  induction bound generalizing fs file data count with
  | zero =>
      cases outcome
      exact ⟨.refl _ _ _, inStep⟩
  | succ bound inductionHypothesis =>
      simp only [fileWriteLoop] at outcome
      split at outcome
      · cases outcome
        exact ⟨.refl _ _ _, inStep⟩
      · split at outcome
        · rename_i file₁ fs₁ synced
          obtain ⟨step, own, current, held⟩ := syncBufferPosition_extends firstData inStep synced
          simp only [loadBuffer_eq] at outcome
          obtain ⟨rest, after⟩ := inductionHypothesis (by rw [step.super]; exact firstData)
            ⟨by simpa using own, by simpa using current, fun _ => by simp⟩ outcome
          exact ⟨step.trans rest, after⟩
        · rename_i failed _
          cases outcome
          exact absurd rfl failed

/-- So does a successful ext2fs_file_write. -/
theorem ext2fsFileWrite_extends {written : Nat} {data : List UInt8}
    (outcome : fs.ext2fsFileWrite file data = (0, written, file', fs')) :
    Extends false ino fs fs' ∧ fs'.InStep ino file' := by
  simp only [ext2fsFileWrite] at outcome
  split at outcome
  · exact fileWriteLoop_extends firstData inStep outcome
  · cases outcome

omit firstData

/-- A dirty buffer is written to its block, if it has one, and nothing else happens. -/
theorem syncBufferPosition_still
    (stays : file.bufDirty = true → file.physblock = 0 → file.pos / fs.blocksize = file.blockno)
    (outcome : fs.syncBufferPosition file = (0, file', fs')) :
    fs'.inodeTab = fs.inodeTab ∧ fs'.vol.blockMap = fs.vol.blockMap ∧ fs'.super = fs.super ∧
      fs'.InStep ino file' ∧ file'.pos = file.pos ∧ file'.inode = file.inode ∧
      (file'.bufDirty = true → file' = file) := by
  simp only [syncBufferPosition] at outcome
  split at outcome
  · rename_i leaves
    obtain ⟨own, current, held⟩ := inStep
    simp only [ext2fsFileFlush] at outcome
    cases dirty : file.bufDirty with
    | false =>
        simp only [dirty, Bool.not_false, Bool.or_true, if_true] at outcome
        cases outcome
        exact ⟨rfl, rfl, rfl, ⟨own, current, nofun⟩, rfl,
          rfl, nofun⟩
    | true =>
        have hasBlock : file.physblock ≠ 0 := fun missing => leaves (stays dirty missing)
        simp only [dirty, held dirty, Bool.not_true, Bool.or_self, Bool.false_eq_true, if_false,
          hasBlock] at outcome
        cases outcome
        exact ⟨rfl, rfl, rfl, ⟨own, current, nofun⟩, rfl, rfl, nofun⟩
  · cases outcome
    exact ⟨rfl, rfl, rfl, inStep, rfl, rfl, fun _ => rfl⟩

/-- A read through a handle whose dirty buffer has a block, or that stays in the block the
buffer is for, changes no inode and takes no block. -/
theorem fileReadLoop_still {bound wanted : Nat} {got bytes : List UInt8}
    (stays : file.bufDirty = true → file.physblock = 0 → ∀ pos, file.pos ≤ pos →
      pos < file.pos + wanted → pos < file.inode.ext2ISize → pos / fs.blocksize = file.blockno)
    (outcome : fs.fileReadLoop bound file wanted got = (0, bytes, file', fs')) :
    fs'.inodeTab = fs.inodeTab ∧ fs'.vol.blockMap = fs.vol.blockMap ∧ fs'.super = fs.super ∧
      fs'.InStep ino file' := by
  induction bound generalizing fs file wanted got with
  | zero =>
      cases outcome
      exact ⟨rfl, rfl, rfl, inStep⟩
  | succ bound inductionHypothesis =>
      simp only [fileReadLoop] at outcome
      split at outcome
      · rename_i more
        split at outcome
        · rename_i file₁ fs₁ synced
          obtain ⟨inodes, marks, super, ⟨own, current, held⟩, pos, inode, unchanged⟩ :=
            syncBufferPosition_still inStep
              (fun dirty missing => stays dirty missing _ (Nat.le_refl _) (by omega) more.1) synced
          simp only [loadBuffer_eq] at outcome
          have loadedInStep : fs₁.InStep ino (fs₁.loaded file₁ false) :=
            ⟨by simpa using own, by simpa using current, fun _ => by simp⟩
          have rest := inductionHypothesis (loadedInStep.seek _) ?_ outcome
          · exact ⟨rest.1.trans inodes, rest.2.1.trans marks, rest.2.2.1.trans super, rest.2.2.2⟩
          -- a buffer that is still dirty has not been exchanged
          intro dirty missing later after before within
          change (fs₁.loaded file₁ false).bufDirty = true at dirty
          rw [loaded_bufDirty] at dirty
          obtain rfl := unchanged dirty
          simp only [loaded, held dirty, if_true] at missing
          simp only [loaded_inode, loaded_pos, loaded_blockno] at after before within ⊢
          rw [show fs₁.blocksize = fs.blocksize by simp [Fs.blocksize, super]]
          exact stays dirty missing later (by omega) (by omega) within
        · rename_i failed _
          cases outcome
          exact absurd rfl failed
      · cases outcome
        exact ⟨rfl, rfl, rfl, inStep⟩

end Calls

section Carried

/-- A handle of `ino` whose copy and whose inode on disk agree in what `part` reads of them. -/
structure Carries {ν : Type} (fs : Fs δ) (ino : Nat) (part : Inode → ν) (value : ν)
    (file : File) : Prop where
  valid : fs.validIno ino = true
  own : file.ino = ino
  copy : part file.inode = value
  disk : part (fs.inodeTab ino) = value

/-- `part` does not look at the blocks of the inode. -/
def Blockless {ν : Type} (part : Inode → ν) : Prop :=
  ∀ inode iBlock iBlocks, part { inode with iBlock := iBlock, iBlocks := iBlocks } = part inode

variable {ν : Type} {part : Inode → ν} {value : ν} {rc : Errcode}

/-- Only the position and the buffer of the handle are other ones. -/
theorem Carries.handle (carries : Carries fs ino part value file) (own : file'.ino = file.ino)
    (inode : file'.inode = file.inode) : Carries fs ino part value file' :=
  ⟨carries.valid, own.trans carries.own, by rw [inode]; exact carries.copy, carries.disk⟩

/-- Mapping a block carries along every part of the inode but its blocks. -/
theorem ext2fsBmap_carries (blockless : Blockless part) (carries : Carries fs ino part value file)
    (alloc : Bool) (block : Nat) :
    Carries (fs.ext2fsBmap ino file.inode alloc block).2.2 ino part value
      { file with inode := (fs.ext2fsBmap ino file.inode alloc block).2.1 } := by
  obtain ⟨valid, own, copy, disk⟩ := carries
  have super := fs.vol.bmapBlocks_super alloc file.inode.iBlock block
  simp only [ext2fsBmap]
  split
  · rename_i mapped
    rw [mapped] at super
    exact ⟨(validIno_congr (by exact super) ino).trans valid, own,
      (blockless _ _ _).trans copy, disk⟩
  · rename_i blk allocated iBlock vol mapped
    rw [mapped] at super
    have validLater : ({ fs with vol := vol } : Fs δ).validIno ino = true :=
      (validIno_congr (by exact super) ino).trans valid
    split
    · exact ⟨validLater, own, (blockless _ _ _).trans copy, disk⟩
    · simp only [ext2fsWriteInode, validLater, if_true]
      refine ⟨validLater, own, (blockless _ _ _).trans copy, ?_⟩
      simpa using (blockless _ _ _).trans copy

/-- So does a flush, whether it succeeds or not. -/
theorem ext2fsFileFlush_carries (blockless : Blockless part)
    (carries : Carries fs ino part value file) :
    Carries (fs.ext2fsFileFlush file).2.2 ino part value (fs.ext2fsFileFlush file).2.1 := by
  simp only [ext2fsFileFlush]
  split
  · exact carries
  · split
    · have mapped := ext2fsBmap_carries blockless carries (file.ino != 0) file.blockno
      rw [carries.own] at mapped ⊢
      split
      all_goals
        rename_i outcome
        rw [outcome] at mapped
        exact ⟨mapped.valid, rfl, mapped.copy, mapped.disk⟩
    · exact ⟨carries.valid, carries.own, carries.copy, carries.disk⟩

/-- So does moving the buffer. -/
theorem syncBufferPosition_carries (blockless : Blockless part)
    (carries : Carries fs ino part value file) :
    Carries (fs.syncBufferPosition file).2.2 ino part value (fs.syncBufferPosition file).2.1 := by
  have flushed := ext2fsFileFlush_carries blockless carries
  simp only [syncBufferPosition]
  split
  · split
    all_goals
      rename_i outcome
      rw [outcome] at flushed
    · exact flushed.handle rfl rfl
    · exact flushed
  · exact carries

/-- The loop of `ext2fs_file_write` leaves alone what is not about blocks, and counts no more
bytes than there are. -/
theorem fileWriteLoop_carries (blockless : Blockless part)
    (carries : Carries fs ino part value file) (bound : Nat) (data : List UInt8) (count : Nat) :
    Carries (fs.fileWriteLoop bound file data count).2.2.2 ino part value
        (fs.fileWriteLoop bound file data count).2.2.1 ∧
      (fs.fileWriteLoop bound file data count).2.1 ≤ count + data.length := by
  induction bound generalizing fs file data count with
  | zero => exact ⟨carries, Nat.le_add_right _ _⟩
  | succ bound inductionHypothesis =>
      simp only [fileWriteLoop]
      split
      · exact ⟨carries, Nat.le_add_right _ _⟩
      · have synced := syncBufferPosition_carries blockless carries
        split
        · rename_i file₁ fs₁ outcome
          rw [outcome] at synced
          simp only [loadBuffer_eq]
          have shorter := Nat.min_le_right (fs₁.blocksize - file₁.pos % fs₁.blocksize) data.length
          generalize min (fs₁.blocksize - file₁.pos % fs₁.blocksize) data.length = c at shorter
          refine And.imp_right (fun counted => le_trans counted ?_) (inductionHypothesis
            (synced.handle (by simp) (by simp)) _ _)
          rw [List.length_drop]
          omega
        · rename_i outcome
          rw [outcome] at synced
          exact ⟨synced, Nat.le_add_right _ _⟩

/-- So does ext2fs_file_write, which reports no more bytes than it was given. -/
theorem ext2fsFileWrite_carries (blockless : Blockless part)
    (carries : Carries fs ino part value file) {data : List UInt8} {written : Nat}
    (outcome : fs.ext2fsFileWrite file data = (rc, written, file', fs')) :
    Carries fs' ino part value file' ∧ written ≤ data.length := by
  rw [ext2fsFileWrite] at outcome
  split at outcome
  · have wrote := fileWriteLoop_carries blockless carries data.length data 0
    rw [outcome] at wrote
    exact ⟨wrote.1, by simpa using wrote.2⟩
  · cases outcome
    exact ⟨carries, Nat.zero_le _⟩

end Carried

end Fs

end Ext2Fuse
