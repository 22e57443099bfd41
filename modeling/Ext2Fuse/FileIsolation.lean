import Ext2Fuse.FileSessions

/-!
# Open files do not reach each other

Several files are open at once, each through one handle. The blocks a handle's copy of the inode
leads to belong to its file, and are in use, as long as `do_open` releases nothing: with `O_TRUNC`
it releases the blocks of the inode on disk and leaves the copy of the new handle as it was read.
What is written through one handle is then not seen through another, also when the volume is full.
-/

namespace Ext2Fuse

open Lib Program Volume

/-- The inode of the same file: it may have other links, owners and times. -/
structure Inode.SameFile (inode inode' : Inode) : Prop where
  iMode : inode'.iMode = inode.iMode
  iSize : inode'.iSize = inode.iSize
  iSizeHigh : inode'.iSizeHigh = inode.iSizeHigh
  iBlocks : inode'.iBlocks = inode.iBlocks
  iBlock : inode'.iBlock = inode.iBlock
  iFileAcl : inode'.iFileAcl = inode.iFileAcl

namespace Inode.SameFile

variable {inode inode' : Inode}

/-- An inode describes the same file as itself. -/
theorem refl (inode : Inode) : inode.SameFile inode := ⟨rfl, rfl, rfl, rfl, rfl, rfl⟩

/-- Describing the same file is symmetric. -/
theorem symm (same : inode.SameFile inode') : inode'.SameFile inode :=
  ⟨same.iMode.symm, same.iSize.symm, same.iSizeHigh.symm, same.iBlocks.symm, same.iBlock.symm,
    same.iFileAcl.symm⟩

/-- Describing the same file is transitive. -/
theorem trans {inode'' : Inode} (first : inode.SameFile inode') (second : inode'.SameFile inode'') :
    inode.SameFile inode'' :=
  ⟨second.iMode.trans first.iMode, second.iSize.trans first.iSize,
    second.iSizeHigh.trans first.iSizeHigh,
    second.iBlocks.trans first.iBlocks, second.iBlock.trans first.iBlock,
      second.iFileAcl.trans first.iFileAcl⟩

/-- The same file has the same size. -/
theorem ext2ISize (same : inode.SameFile inode') : inode'.ext2ISize = inode.ext2ISize := by
  rw [Inode.ext2ISize, Inode.ext2ISize, same.iSize, same.iSizeHigh]

/-- The same file has blocks or has none. -/
theorem hasValidBlocks (same : inode.SameFile inode') :
    ext2fsInodeHasValidBlocks inode' = ext2fsInodeHasValidBlocks inode := by
  simp only [ext2fsInodeHasValidBlocks, same.iMode, same.iSize, same.iBlocks,
    same.iBlock, same.iFileAcl]

end Inode.SameFile

namespace Fs

variable {δ : Type}

/-- As many bytes as the pointers of an inode lead to. -/
def reach (fs : Fs δ) : Nat := capacity fs.super.addrPerBlock * fs.blocksize

/-- The handle of a file, where `pointers` are those of all files: it is in good order, the inode on
disk has no pointer the copy does not have, and both sizes are within reach. -/
structure Kept (fs : Fs δ) (pointers : Nat → Nat → Nat) (ino : Nat) (fh : File) : Prop where
  own : fh.ino = ino
  tended : Tended fs pointers (capacity fs.super.addrPerBlock) fh
  behind : ∀ slot : Fin EXT2_N_BLOCKS, (fs.inodeTab ino).iBlock slot ≠ 0 →
    fh.inode.iBlock slot = (fs.inodeTab ino).iBlock slot
  disk : RegularFile fs ino
  copy : LINUX_S_ISREG fh.inode.iMode = true
  sizes : fh.inode.ext2ISize ≤ fs.reach ∧ (fs.inodeTab ino).ext2ISize ≤ fs.reach

/-- What a routine on a handle has come to: the handle is kept, and all other files are left
alone. -/
structure Turns (ino : Nat) (pointers : Nat → Nat → Nat) (fs fs' : Fs δ)
    (fh fh' : File) : Prop where
  kept : Kept fs' (Function.update pointers ino fh'.inode.iBlock) ino fh'
  beside : Beside ino fs fs' pointers (Function.update pointers ino fh'.inode.iBlock)

section Handles

variable {env : Env δ} {fs fs' fs'' : Fs δ} {pointers pointers' : Nat → Nat → Nat} {ino : Nat}
  {fh fh' fh'' : File}

/-- How far a file may reach is read off the superblock. -/
theorem reach_congr (same : fs'.super = fs.super) : fs'.reach = fs.reach := by
  rw [reach, reach, blocksize_congr same, same]

/-- A kept handle has the pointers that its file is listed with. -/
theorem Kept.pointers_eq (kept : Kept fs pointers ino fh) :
    Function.update pointers ino fh.inode.iBlock = pointers := by
  have copy := kept.tended.copy
  rw [kept.own] at copy
  rw [← copy, Function.update_eq_self]

/-- A kept handle has turned into itself. -/
theorem Kept.refl (kept : Kept fs pointers ino fh) : Turns ino pointers fs fs fh fh := by
  refine ⟨?_, ?_⟩
  · rw [kept.pointers_eq]
    exact kept
  · rw [kept.pointers_eq]
    exact .refl kept.tended.forest ino

/-- Two turns of a handle in a row are one. -/
theorem Turns.trans (first : Turns ino pointers fs fs' fh fh')
    (second : Turns ino (Function.update pointers ino fh'.inode.iBlock) fs' fs'' fh' fh'') :
    Turns ino pointers fs fs'' fh fh'' := by
  obtain ⟨kept, beside⟩ := second
  rw [Function.update_idem] at kept beside
  exact ⟨kept, first.beside.trans beside⟩

/-- Seeking. -/
theorem Kept.seek (kept : Kept fs pointers ino fh) (pos : Nat) :
    Kept fs pointers ino { fh with pos := pos } :=
  ⟨kept.own, kept.tended.seek pos, kept.behind, kept.disk, kept.copy, kept.sizes⟩

/-- It makes no difference to a turn where the handle stood before. -/
theorem Turns.sought {pos : Nat} (turns : Turns ino pointers fs fs' { fh with pos := pos } fh') :
    Turns ino pointers fs fs' fh fh' := ⟨turns.kept, turns.beside⟩

/-- Moving the position of a handle is no turn of its own. -/
theorem Turns.seek (turns : Turns ino pointers fs fs' fh fh') (pos : Nat) :
    Turns ino pointers fs fs' fh { fh' with pos := pos } :=
  ⟨turns.kept.seek pos, turns.beside⟩

/-- A call of the library on the handle, whether it succeeds or not. -/
theorem Kept.moves (kept : Kept fs pointers ino fh)
    (moves : Moves pointers (capacity fs.super.addrPerBlock) fs fs' fh fh') :
    Turns ino pointers fs fs' fh fh' := by
  obtain ⟨rfl, tended, behind, disk, copy, sizes⟩ := kept
  have confined := moves.confined
  have sameReach := reach_congr confined.super
  obtain ⟨iBlock, iBlocks, inode⟩ := moves.inode
  have slots : ∀ slot : Fin EXT2_N_BLOCKS, fh.inode.iBlock slot ≠ 0 →
      fh'.inode.iBlock slot = fh.inode.iBlock slot := by
    intro slot present
    have kept := moves.touches.slots slot
    rw [Function.update_self, tended.copy] at kept
    exact kept present
  have mode : fh'.inode.iMode = fh.inode.iMode := by rw [inode]
  have size : fh'.inode.ext2ISize = fh.inode.ext2ISize := by
    rw [inode]
    rfl
  -- the inode on disk is the old one, or an earlier copy
  have written : (∀ slot : Fin EXT2_N_BLOCKS, (fs'.inodeTab fh.ino).iBlock slot ≠ 0 →
      fh'.inode.iBlock slot = (fs'.inodeTab fh.ino).iBlock slot) ∧
      LINUX_S_ISREG (fs'.inodeTab fh.ino).iMode = true ∧
        (fs'.inodeTab fh.ino).ext2ISize ≤ fs.reach := by
    obtain unwritten | ⟨iBlock, iBlocks, written, older⟩ := moves.disk
    · rw [unwritten]
      refine ⟨fun slot present => ?_, disk.regular, sizes.2⟩
      have before := behind slot present
      rw [slots slot (by rw [before]; exact present), before]
    · rw [written]
      exact ⟨older, copy, sizes.1⟩
  refine ⟨⟨moves.ino, ?_, written.1, disk.of_confined confined written.2.1, ?_, ?_, ?_⟩, confined,
    moves.touches.toSpares⟩
  · rw [confined.super]
    exact moves.tended
  · rw [mode]
    exact copy
  · rw [size, sameReach]
    exact sizes.1
  · rw [sameReach]
    exact written.2.2

/-- The handle's copy, with other times or another size, goes to disk. -/
theorem Kept.save (kept : Kept fs pointers ino fh) {inode : Inode}
    (blocks : inode.iBlock = fh.inode.iBlock)
    (mode : inode.iMode = fh.inode.iMode) (size : inode.ext2ISize ≤ fs.reach) :
    Turns ino pointers fs { fs.advance with inodeTab := Function.update fs.inodeTab ino inode } fh
      { fh with inode := inode } := by
  have same : Function.update pointers ino inode.iBlock = pointers := by
    rw [blocks]
    exact kept.pointers_eq
  obtain ⟨own, tended, -, disk, regular, -⟩ := kept
  obtain ⟨saved, spares, -⟩ := tended.save blocks ino
  have confined : Confined ino fs
    { fs.advance with inodeTab := Function.update fs.inodeTab ino inode } :=
    ⟨rfl, rfl, rfl, fun other apart => Function.update_of_ne apart _ _⟩
  have written : Function.update fs.inodeTab ino inode ino = inode := Function.update_self ..
  rw [← same] at saved
  refine ⟨⟨own, saved, fun slot _ => ?_, disk.of_confined confined ?_,
    by rw [mode]; exact regular, size, ?_⟩, confined, ?_⟩
  · dsimp only
    rw [written]
  · dsimp only
    rw [written, mode]
    exact regular
  · dsimp only
    rw [written]
    exact size
  · rw [same]
    exact spares

/-- A kept handle's inode number is in range, also at a later time. -/
theorem Kept.advance (kept : Kept fs pointers ino fh) :
    fs.advance.validIno ino = true := kept.disk.valid

/-- `set_file_size`. -/
theorem setFileSize_turns (kept : Kept fs pointers ino fh) {length : Nat}
    (fits : length ≤ fs.reach) :
    Leads (lib env) (setFileSize ino fh.inode length) (fun result fs' =>
      Turns ino pointers fs fs' fh { fh with inode := result.2 }) fs := by
  rw [Leads, setFileSize]
  simp only [run_bind, run_lift, lib_time, lib_writeInode, ext2fsWriteInode, kept.advance,
    if_true, run_pure]
  refine @Kept.save _ fs pointers ino fh kept _ rfl rfl ?_
  have small := Nat.mod_le length (2 ^ 32)
  rw [Inode.ext2ISize]
  dsimp only
  omega

/-- `do_lengthen`: where the gap ends is where the writing has come to. -/
theorem doLengthen_turns (kept : Kept fs pointers ino fh) {length : Nat} (fits : length ≤ fs.reach)
    (gap : fh.inode.ext2ISize + (length - fh.inode.iSize) % 2 ^ 32 ≤ fs.reach) :
    Leads (lib env) (doLengthen fh ino length) (fun result fs' =>
      Turns ino pointers fs fs' fh result.2) fs := by
  rw [doLengthen]
  split
  · exact kept.refl
  split
  · exact kept.refl
  refine leads_lift_bind fun result later outcome => ?_
  rcases wrote : fs.ext2fsFileWrite { fh with pos := fh.inode.ext2ISize }
    (List.replicate ((length - fh.inode.iSize) % 2 ^ 32) 0) with ⟨rc, written, file, fs₁⟩
  rw [lib_fileWrite wrote] at outcome
  cases outcome
  have sought := kept.seek fh.inode.ext2ISize
  have moves :=
    (ext2fsFileWrite_moves sought.tended (by rw [List.length_replicate]; exact gap) wrote).1
  have turns := ((sought.moves moves).seek fh.pos).sought
  dsimp only
  split
  · exact turns
  split
  · exact turns
  · rw [leads_bind]
    refine (setFileSize_turns turns.kept ?_).mono fun result next resized => turns.trans resized
    rw [reach_congr turns.beside.confined.super]
    exact fits

/-- The part of `do_write` behind the gap. -/
theorem writeData_turns (kept : Kept fs pointers ino fh) {data : List UInt8} {off : Nat}
    (fits : off + data.length ≤ fs.reach) :
    Leads (lib env) (writeData fh ino data off) (fun result fs' =>
      Turns ino pointers fs fs' fh result.2.2) fs := by
  rw [writeData]
  refine leads_lift_bind fun result later outcome => ?_
  rcases wrote : fs.ext2fsFileWrite { fh with pos := off } (data.take (data.length % 2 ^ 32)) with
    ⟨rc, written, file, fs₁⟩
  rw [lib_fileWrite wrote] at outcome
  cases outcome
  have sought := kept.seek off
  have moves := (ext2fsFileWrite_moves sought.tended (by
    rw [List.length_take]
    change off + _ ≤ fs.reach
    omega) wrote).1
  have turns := (sought.moves moves).sought
  dsimp only
  split
  · exact turns
  split
  · exact turns
  split
  · exact turns
  split
  · exact turns
  · rw [leads_bind]
    refine (setFileSize_turns turns.kept ?_).mono fun result next resized => turns.trans resized
    rw [reach_congr turns.beside.confined.super]
    exact fits

/-- The bytes a write puts somewhere, those of the gap before it included, are within reach. -/
def WithinReach (fs : Fs δ) (inode : Inode) (data : List UInt8) (off : Nat) : Prop :=
  off + data.length ≤ fs.reach ∧ inode.ext2ISize + (off - inode.iSize) % 2 ^ 32 ≤ fs.reach

instance (fs : Fs δ) (inode : Inode) (data : List UInt8) (off : Nat) :
    Decidable (fs.WithinReach inode data off) :=
  inferInstanceAs (Decidable (_ ∧ _))

/-- `do_write`, whether it succeeds or not. -/
theorem doWrite_turns (kept : Kept fs pointers ino fh) {data : List UInt8} {off : Nat}
    (fits : fs.WithinReach fh.inode data off) :
    Leads (lib env) (doWrite fh ino data off) (fun result fs' =>
      Turns ino pointers fs fs' fh result.2.2) fs := by
  obtain ⟨ends, gap⟩ := fits
  rw [doWrite]
  split
  · rename_i beyond
    rw [doFtruncate, if_pos beyond]
    refine leads_bind_of fun result later outcome => ?_
    have turns := (doLengthen_turns kept (by omega) gap).outcome outcome
    obtain ⟨rc, file⟩ := result
    dsimp only at turns ⊢
    split
    · exact turns
    · refine (writeData_turns turns.kept ?_).mono fun result next wrote => turns.trans wrote
      rw [reach_congr turns.beside.confined.super]
      exact ends
  · exact writeData_turns kept ends

/-- `do_read`: a read that succeeds returns what the handle sees. -/
theorem doRead_turns (kept : Kept fs pointers ino fh) (size off : Nat) :
    Leads (lib env) (doRead fh ino size off)
      (fun result fs' => Turns ino pointers fs fs' fh result.2.2 ∧
      (result.1 = 0 → result.2.1 =
        (fs.seen fh).read off (min (size % 2 ^ 32) (fh.inode.ext2ISize - off)))) fs := by
  rw [doRead]
  refine leads_lift_bind fun result later outcome => ?_
  have sought := kept.seek off
  rcases read : fs.ext2fsFileRead { fh with pos := off } (size % 2 ^ 32) with ⟨rc, got, file, fs₁⟩
  rw [lib_fileRead read] at outcome
  cases outcome
  obtain ⟨moves, -, complete⟩ := ext2fsFileRead_moves sought.tended sought.sizes.1 read
  have turns := (sought.moves moves).sought
  have sizes := turns.kept.sizes.1
  dsimp only
  split
  · rename_i failed
    exact ⟨turns, fun zero => absurd zero failed⟩
  · rename_i succeeded
    refine leads_lift_bind fun now next ticked => ?_
    cases ticked
    rw [leads_bind, leads_lift, lib_writeInode, ext2fsWriteInode, if_pos turns.kept.advance]
    refine ⟨turns.trans (turns.kept.save rfl rfl ?_), fun _ => complete (not_not.mp succeeded)⟩
    exact sizes

/-- The file has no data block. -/
def Unmapped (fs : Fs δ) (ino : Nat) : Prop :=
  ∀ block < capacity fs.super.addrPerBlock, fs.vol.mapped (fs.inodeTab ino).iBlock block = 0

/-- `ext2fs_file_open`: a fresh handle. -/
theorem fresh_kept (forest : Forest fs.vol (places pointers)) (file : fs.RegularFile ino)
    (own : pointers ino = fs.pointers ino) (fits : (fs.inodeTab ino).ext2ISize ≤ fs.reach)
    (writable : Bool) :
    Kept fs pointers ino { ino := ino, inode := fs.inodeTab ino, writable := writable } :=
  ⟨rfl, ⟨file.valid, le_rfl, forest, own.trans file.pointers_eq, nofun, nofun, nofun, nofun⟩,
    fun _ _ => rfl, file, file.regular, fits, fits⟩

/-- What is the same in two handles, or in a handle and its later self. -/
structure SameHandle (fh fh' : File) : Prop where
  ino : fh'.ino = fh.ino
  bufValid : fh'.bufValid = fh.bufValid
  bufDirty : fh'.bufDirty = fh.bufDirty
  iBlock : fh'.inode.iBlock = fh.inode.iBlock
  iMode : fh'.inode.iMode = fh.inode.iMode

/-- The handle `do_shorten` returns has the pointers of the one it was given. -/
theorem doShorten_handle (fh : File) (ino length : Nat) :
    Ends (fun result => SameHandle fh result.2)
      (doShorten fh ino length : Prog δ (Errcode × File)) := by
  have same : SameHandle fh fh := ⟨rfl, rfl, rfl, rfl, rfl⟩
  have sized : Ends (fun result => SameHandle fh { fh with inode := result.2 })
      (setFileSize ino fh.inode length : Prog δ (Errcode × Inode)) :=
    fun _ _ => ⟨rfl, rfl, rfl, rfl, rfl⟩
  rw [doShorten]
  split
  · exact same
  split
  · exact same
  refine (ends_bind ..).mpr fun super => (ends_bind ..).mpr (sized.mono fun result kept => ?_)
  obtain ⟨rc, inode⟩ := result
  dsimp only at kept ⊢
  by_cases failed : rc ≠ 0
  · rw [if_pos failed]
    exact kept
  rw [if_neg failed]
  refine (ends_bind ..).mpr fun iterated => (ends_bind ..).mpr fun read => ?_
  cases read with
  | error rc => exact kept
  | ok inode => exact (ends_bind ..).mpr fun rc => kept

/-- In a tree without data blocks nothing is released. -/
theorem unmapped_shortened {vol vol' : Volume} {iBlock iBlock' : Nat → Nat} {length : Nat}
    {released : List Nat}
    (tree : BlockTree vol iBlock)
    (unmapped : ∀ block < capacity vol.super.addrPerBlock, vol.mapped iBlock block = 0)
    (shortened : Shortened vol vol' iBlock iBlock'
      (lastBlock vol.super.blocksize length) released) :
    released = [] := by
  have noData : ∀ visit ∈ vol.inodeVisits iBlock, visit.level ≠ 0 := by
    rintro ⟨blk, level, first⟩ member rfl
    obtain ⟨small, present, found⟩ := mem_inodeVisits_data.mp member
    exact present (found.symm.trans (unmapped first small))
  refine List.eq_nil_iff_forall_not_mem.mpr fun blk gone => ?_
  have inTree := gone
  rw [shortened.record] at inTree
  obtain ⟨visit, member, rfl⟩ := List.mem_map.mp (lost_subset _ _ _ inTree)
  have goes := (shortened.mem_released tree member).mp gone
  rw [Goes, if_neg (noData visit member)] at goes
  obtain ⟨other, otherMember, isData, -⟩ := goes
  exact noData other otherMember isData

/-- `do_shorten` of a file that has nothing to release, through a fresh handle. -/
theorem doShorten_unmapped (kept : Kept fs pointers ino fh) (fresh : fh.bufValid = false)
    (read : fh.inode = fs.inodeTab ino) (own : pointers ino = fs.pointers ino)
    (careful : (fs.inodeTab ino).iSize = 0 ∨ fs.Unmapped ino) {rc : Errcode}
    (outcome : (doShorten fh ino 0).run (lib env) fs = ((rc, fh'), fs')) :
    Kept fs' pointers ino fh' ∧ SameHandle fh fh' ∧ Beside ino fs fs' pointers pointers := by
  have handle := (doShorten_handle fh ino 0).outcome outcome
  by_cases empty : (fs.inodeTab ino).iSize = 0
  · rw [doShorten, read, if_pos empty.symm] at outcome
    cases outcome
    exact ⟨kept, ⟨rfl, rfl, rfl, rfl, rfl⟩, .refl kept.tended.forest ino⟩
  have unmapped := careful.resolve_left empty
  obtain ⟨ownIno, tended, -, disk, -, -⟩ := kept
  have copied : pointers ino = fh.inode.iBlock := by rw [own, disk.pointers_eq, read]
  have shorter : 0 < fh.inode.iSize := by
    rw [read]
    omega
  have tree : BlockTree fs.vol (pointers ino) :=
    tended.forest.blockTree fun block small present => by
    rw [copied, read] at present
    exact absurd (unmapped block small) present
  have carries : Carries fs ino sizeWords (fh.inode.iSize, fh.inode.iSizeHigh) fh :=
    ⟨disk.valid, ownIno, rfl, by rw [read, sizeWords]⟩
  obtain ⟨rfl, sized⟩ := (doShorten_part sizeWords_sized carries shorter).outcome outcome
  have confined : Confined ino fs fs' :=
    (confined_doShorten env fs fh ino 0 fs (.refl ino fs)).outcome outcome
  have inStep : fs.InStep ino fh := ⟨ownIno, by rw [read], tended.held⟩
  obtain ⟨resizes, -⟩ := doShorten_resizes disk.valid inStep outcome
  obtain ⟨shortened, -⟩ := doShorten_shortens shorter (by rw [← copied]; exact tree) outcome
  rw [← copied] at shortened
  have nothing := unmapped_shortened tree (fun block small => by
    rw [copied, read]
    exact unmapped block small) shortened
  rw [nothing] at shortened
  have slots : ∀ slot : Fin EXT2_N_BLOCKS, (fs'.inodeTab ino).iBlock slot = pointers ino slot := by
    intro slot
    rw [shortened.blocks slot slot.isLt, if_neg List.not_mem_nil]
  have spares : Spares ino fs.vol fs'.vol pointers pointers := by
    have among := shortened.spares tended.forest
    have same : places (Function.update pointers ino (fs'.inodeTab ino).iBlock) =
      places pointers := by
      funext place
      obtain ⟨owner, slot⟩ := place
      rw [places, places, Function.update_apply]
      split
      · rename_i here
        rw [here]
        exact slots slot
      · rfl
    refine ⟨among.super, same ▸ among.forest, fun _ _ => rfl, fun other block apart small => ?_,
      fun other block apart small => ?_, among.tidy⟩
    · have kept := among.mapped other block apart small
      rwa [Function.update_of_ne apart] at kept
    · have kept := among.contents other block apart small
      rwa [Function.update_of_ne apart] at kept
  have noSize : ∀ inode : Inode, sizeWords inode = (0 % 2 ^ 32, 0) →
    inode.ext2ISize ≤ fs'.reach := by
    intro inode words
    obtain ⟨low, high⟩ := Prod.mk.inj words
    rw [Inode.ext2ISize, low, high]
    exact Nat.zero_le _
  have mode : (fs'.inodeTab ino).iMode = (fs.inodeTab ino).iMode :=
    resizes.kept .mode rfl (by rintro ⟨⟩)
  have clean : fh'.bufDirty = false := by
    rw [handle.bufDirty]
    by_contra dirty
    rw [tended.held (by simpa using dirty)] at fresh
    cases fresh
  have unread : ∀ {other : Prop}, fh'.bufValid = true → other := by
    intro other filled
    rw [handle.bufValid, fresh] at filled
    cases filled
  have valid : fs'.validIno ino = true := (validIno_congr confined.super ino).trans disk.valid
  refine ⟨⟨handle.ino.trans ownIno, ⟨?_, ?_, spares.forest, ?_, unread, unread, unread,
    fun dirty => ?_⟩,
    fun slot _ => ?_, disk.of_confined confined ?_, ?_, noSize _ sized.copy,
      noSize _ sized.disk⟩, handle,
    confined, spares⟩
  · rw [handle.ino, ownIno]
    exact valid
  · exact le_rfl
  · rw [handle.ino, ownIno, handle.iBlock, copied]
  · rw [clean] at dirty
    cases dirty
  · rw [slots slot, handle.iBlock, copied]
  · rw [mode]
    exact disk.regular
  · rw [handle.iMode, read]
    exact disk.regular

/-- `do_open` of a file that has nothing to release. -/
theorem doOpen_turns (forest : Forest fs.vol (places pointers)) (file : fs.RegularFile ino)
    (own : pointers ino = fs.pointers ino)
    (fits : (fs.inodeTab ino).ext2ISize ≤ fs.reach) (perms : Perms)
    {flags : OpenFlags}
    (careful : flags.trunc = true → (fs.inodeTab ino).iSize = 0 ∨ fs.Unmapped ino)
    (outcome : (doOpen perms ino flags).run (lib env) fs = (.ok fh', fs')) :
    Kept fs' pointers ino fh' ∧ fh'.inode.iBlock = pointers ino ∧ fh'.bufValid = false ∧
      Beside ino fs fs' pointers pointers := by
  have fresh := fun writable => fresh_kept forest file own fits writable
  have copied : (fs.inodeTab ino).iBlock = pointers ino := (own.trans file.pointers_eq).symm
  cases trunc : flags.trunc with
  | false =>
      rw [run_doOpen file.valid perms trunc] at outcome
      cases outcome
      exact ⟨fresh _, copied, rfl, .refl forest ino⟩
  | true =>
      rw [run_doOpen_trunc file.valid perms trunc] at outcome
      obtain ⟨opened, rfl⟩ := Prod.mk.inj outcome
      obtain rfl := Except.ok.inj opened
      obtain ⟨kept, handle, beside⟩ :=
        doShorten_unmapped (fresh true) rfl rfl own (careful trunc) rfl
      exact ⟨kept, handle.iBlock.trans copied, handle.bufValid, beside⟩

/-- `do_file_close`: the pointers of the file are those on disk again. -/
theorem doFileClose_turns (kept : Kept fs pointers ino fh) :
    Leads (lib env) (doFileClose fh) (fun _ fs' =>
      Forest fs'.vol (places (Function.update pointers ino (fs'.pointers ino))) ∧
        fs'.RegularFile ino ∧
      (fs'.inodeTab ino).ext2ISize ≤ fs'.reach ∧
      Beside ino fs fs' pointers (Function.update pointers ino (fs'.pointers ino))) fs := by
  rw [doFileClose]
  refine leads_lift_bind fun result later outcome => ?_
  rcases flushed : fs.ext2fsFileFlush fh with ⟨rc, file, fs₁⟩
  rw [lib_fileFlush flushed] at outcome
  cases outcome
  have turns := kept.moves (ext2fsFileFlush_moves kept.tended flushed).1
  obtain ⟨⟨-, tended, behind, disk, -, sizes⟩, confined, spares⟩ := turns
  -- no block is gone, and a pointer on disk is one of the copy's or none
  have left : ∀ place path, (treeShape Nat later.vol.super.addrPerBlock).Addr place path →
      follow later.vol.ptrs (places (Function.update pointers ino (later.pointers ino))
        place) path = 0 ∨
        follow later.vol.ptrs (places
          (Function.update pointers ino (later.pointers ino)) place) path =
            follow later.vol.ptrs (places
              (Function.update pointers ino file.inode.iBlock) place) path ∧
          ¬ follow later.vol.ptrs (places
            (Function.update pointers ino file.inode.iBlock) place) path ∈
            ([] : List Nat) := by
    intro place path addr
    refine Planted.follow_pruned ?_ (fun _ _ _ _ _ _ _ _ => .inr ⟨rfl, List.not_mem_nil⟩) addr
    rintro ⟨owner, slot⟩
    rw [places, places, Function.update_apply, Function.update_apply]
    split
    · rw [disk.pointers_eq]
      by_cases absent : (later.inodeTab ino).iBlock slot = 0
      · exact .inl absent
      · exact .inr ⟨(behind slot absent).symm, List.not_mem_nil⟩
    · exact .inr ⟨rfl, List.not_mem_nil⟩
  have forest : Forest later.vol (places (Function.update pointers ino (later.pointers ino))) :=
    ⟨tended.forest.sound, tended.forest.planted.pruned left fun _ inUse _ => inUse⟩
  refine ⟨forest, disk, sizes.2, confined, spares.super, forest, fun other apart => ?_,
    fun other block apart small => ?_, fun other block apart small => ?_, spares.tidy⟩
  · exact Function.update_of_ne apart _ _
  · have kept := spares.mapped other block apart small
    rwa [Function.update_of_ne apart] at kept ⊢
  · have kept := spares.contents other block apart small
    rwa [Function.update_of_ne apart] at kept ⊢

end Handles

end Fs

/-- The filesystem and the open handles; a file has one at most. -/
structure OpenFiles (δ : Type) where
  fs : Fs δ
  handles : Nat → Option File

/-- What is done to a file. Reading, writing and closing take an open one. -/
inductive HandleOp where
  | opens (ino : Nat) (perms : Perms) (flags : OpenFlags)
  | read (ino size off : Nat)
  | write (ino : Nat) (data : List UInt8) (off : Nat)
  | close (ino : Nat)

namespace OpenFiles

variable {δ : Type}

/-- The block pointers of a file: those of the copy its handle has, or those on disk. -/
def pointersBy (fs : Fs δ) (ino : Nat) : Option File → Nat → Nat
  | some fh => fh.inode.iBlock
  | none => fs.pointers ino

def pointers (files : OpenFiles δ) (ino : Nat) : Nat → Nat :=
  pointersBy files.fs ino (files.handles ino)

/-- The bytes of a file: those its handle sees, or those on disk. -/
def view (files : OpenFiles δ) (ino : Nat) : Bytes :=
  match files.handles ino with
  | some fh => files.fs.seen fh
  | none => files.fs.byteAt (files.fs.inodeTab ino).iBlock

/-- A handle takes the place of the one before. -/
def setHandle (files : OpenFiles δ) (fs : Fs δ) (ino : Nat) (handle : Option File) :
    OpenFiles δ where
  fs := fs
  handles := Function.update files.handles ino handle

section SetHandle

variable (files : OpenFiles δ) (fs : Fs δ) (ino : Nat) (handle : Option File)

@[simp] theorem setHandle_fs : (files.setHandle fs ino handle).fs = fs := rfl

@[simp] theorem setHandle_same : (files.setHandle fs ino handle).handles ino = handle :=
  Function.update_self ..

/-- Storing one handle leaves the others. -/
theorem setHandle_other {other : Nat} (apart : other ≠ ino) :
    (files.setHandle fs ino handle).handles other = files.handles other :=
  Function.update_of_ne apart ..

end SetHandle

end OpenFiles

namespace HandleOp

variable {δ : Type}

/-- The file. -/
def ino : HandleOp → Nat
  | opens ino _ _ | read ino _ _ | write ino _ _ | close ino => ino

/-- What an operation comes to. -/
def run (env : Env δ) (files : OpenFiles δ) : HandleOp → OpenFiles δ
  | opens ino perms flags =>
      match (doOpen perms ino flags).run (Fs.lib env) files.fs with
      | (.ok fh, fs) => files.setHandle fs ino (some fh)
      | (.error _, fs) => { files with fs := fs }
  | read ino size off =>
      match files.handles ino with
      | none => files
      | some fh =>
          let (result, fs) := (doRead fh ino size off).run (Fs.lib env) files.fs
          files.setHandle fs ino (some result.2.2)
  | write ino data off =>
      match files.handles ino with
      | none => files
      | some fh =>
          let (result, fs) := (doWrite fh ino data off).run (Fs.lib env) files.fs
          files.setHandle fs ino (some result.2.2)
  | close ino =>
      match files.handles ino with
      | none => files
      | some fh => files.setHandle ((doFileClose fh).run (Fs.lib env) files.fs).2 ino none

/-- A file that is opened is a regular one and has no handle yet. -/
def Allowed : HandleOp → OpenFiles δ → Prop
  | opens ino _ _, files => files.handles ino = none ∧ files.fs.RegularFile ino
  | _, _ => True

/-- Nothing is released by an open with `O_TRUNC`, and nothing is written where no inode has
pointers to. -/
def Careful : HandleOp → OpenFiles δ → Prop
  | opens ino _ flags, files =>
      flags.trunc = true → (files.fs.inodeTab ino).iSize = 0 ∨ files.fs.Unmapped ino
  | write ino data off, files =>
      ∀ fh ∈ files.handles ino, files.fs.WithinReach fh.inode data off
  | _, _ => True

/-- Each of the operations is allowed, and meets the condition, in the state it is done in. -/
def Follows (env : Env δ) (condition : HandleOp → OpenFiles δ → Prop) :
    List HandleOp → OpenFiles δ → Prop
  | [], _ => True
  | op :: rest, files =>
      (op.Allowed files ∧ condition op files) ∧ Follows env condition rest (op.run env files)

/-- One after the other. -/
def runs (env : Env δ) (files : OpenFiles δ) (ops : List HandleOp) :
    OpenFiles δ := ops.foldl (run env) files

end HandleOp


section Isolation

open Fs

variable {δ : Type} {env : Env δ} {files files' : OpenFiles δ} {ino : Nat}
    {fh fh' : File} {fs' : Fs δ}

/-- The blocks of all files do not overlap, the handles are kept, and the sizes of the other files
are within reach. -/
structure OpenFiles.WellKept (files : OpenFiles δ) : Prop where
  apart : Forest files.fs.vol (places files.pointers)
  handles : ∀ ino fh, files.handles ino = some fh → Kept files.fs files.pointers ino fh
  sizes : ∀ ino, files.handles ino = none → files.fs.RegularFile ino →
    (files.fs.inodeTab ino).ext2ISize ≤ files.fs.reach

/-- What a file is, and what its blocks hold, is as it was. -/
structure Fs.Unmoved (ino : Nat) (fs fs' : Fs δ) (pointers pointers' : Nat → Nat → Nat) : Prop where
  super : fs'.super = fs.super
  forest : Forest fs'.vol (places pointers')
  inUse : fs'.inodeMap ino = fs.inodeMap ino
  inode : (fs.inodeTab ino).SameFile (fs'.inodeTab ino)
  own : pointers' ino = pointers ino
  mapped : ∀ block < capacity fs.super.addrPerBlock,
    fs'.vol.mapped (pointers' ino) block = fs.vol.mapped (pointers ino) block
  contents : ∀ block < capacity fs.super.addrPerBlock,
    fs'.vol.blockOf (pointers' ino) block = fs.vol.blockOf (pointers ino) block

/-- Its handle is kept. -/
theorem Fs.Kept.unmoved {pointers pointers' : Nat → Nat → Nat} {fs : Fs δ}
    (kept : Kept fs pointers ino fh) (unmoved : Unmoved ino fs fs' pointers pointers') :
    Kept fs' pointers' ino fh := by
  obtain ⟨rfl, ⟨valid, bounded, forest, copy, within, block, clean, held⟩, behind, disk,
    regular, sizes⟩ := kept
  obtain ⟨super, planted, inUse, same, own, mapped, contents⟩ := unmoved
  have sameReach := reach_congr super
  have disk' : fs'.RegularFile fh.ino := by
    refine ⟨(validIno_congr super _).trans disk.valid, inUse.trans disk.inUse, ?_⟩
    rw [same.iMode]
    exact disk.regular
  rw [own, copy] at mapped contents
  refine ⟨rfl, ⟨disk'.valid, le_rfl, planted, own.trans copy, fun filled => ?_,
    fun filled present => ?_, fun filled quiet offset inside => ?_, held⟩,
      fun slot present => ?_, disk', regular,
    ?_⟩
  · rw [super]
    exact within filled
  · rw [mapped _ (within filled)]
    exact block filled present
  · rw [contents _ (within filled)]
    exact clean filled quiet offset (by rwa [blocksize_congr super] at inside)
  · rw [same.iBlock] at present ⊢
    exact behind slot present
  · rw [sameReach, same.ext2ISize]
    exact sizes

/-- A handle of another file is kept. -/
theorem Fs.Kept.beside {pointers pointers' : Nat → Nat → Nat} {fs : Fs δ}
    (kept : Kept fs pointers ino fh)
    {owner : Nat} (apart : ino ≠ owner) (beside : Beside owner fs fs' pointers pointers') :
    Kept fs' pointers' ino fh := by
  obtain ⟨confined, spares⟩ := beside
  refine kept.unmoved ⟨confined.super, spares.forest, congrFun confined.inodeMap ino, ?_,
    spares.others ino apart,
    fun block small => spares.mapped ino block apart small,
      fun block small => spares.contents ino block apart small⟩
  rw [confined.others ino apart]
  exact .refl _

/-- The pointers of all files when one file has other ones. -/
theorem setHandle_pointers (confined : Confined ino files.fs fs') (handle : Option File) :
    (files.setHandle fs' ino handle).pointers =
      Function.update files.pointers ino (OpenFiles.pointersBy fs' ino handle) := by
  funext other
  rw [OpenFiles.pointers, OpenFiles.setHandle_fs]
  by_cases own : other = ino
  · subst own
    rw [Function.update_self, OpenFiles.setHandle_same]
  · rw [Function.update_of_ne own, OpenFiles.setHandle_other _ _ _ _ own, OpenFiles.pointers]
    cases files.handles other with
    | some fh => rfl
    | none => exact pointers_of_ne confined own

/-- What one file's handle has come to, in the state of all files. -/
theorem OpenFiles.WellKept.turn (wellKept : files.WellKept) (handle : Option File)
    (beside : Beside ino files.fs fs' files.pointers
      (Function.update files.pointers ino (OpenFiles.pointersBy fs' ino handle)))
    (opened : ∀ fh, handle = some fh →
      Kept fs' (Function.update files.pointers ino fh.inode.iBlock) ino fh)
    (closed : handle = none → fs'.RegularFile ino → (fs'.inodeTab ino).ext2ISize ≤ fs'.reach) :
    (files.setHandle fs' ino handle).WellKept ∧
      Beside ino files.fs fs' files.pointers (files.setHandle fs' ino handle).pointers := by
  rw [← setHandle_pointers beside.confined] at beside
  refine ⟨⟨beside.spares.forest, fun other fh held => ?_, fun other unheld regular => ?_⟩, beside⟩
  · by_cases own : other = ino
    · subst own
      obtain rfl : handle = some fh := by rwa [OpenFiles.setHandle_same] at held
      rw [setHandle_pointers beside.confined]
      exact opened fh rfl
    · rw [OpenFiles.setHandle_other _ _ _ _ own] at held
      exact (wellKept.handles other fh held).beside own beside
  · rw [OpenFiles.setHandle_fs] at regular ⊢
    by_cases own : other = ino
    · subst own
      rw [OpenFiles.setHandle_same] at unheld
      exact closed unheld regular
    · have sameInode := beside.confined.others other own
      rw [OpenFiles.setHandle_other _ _ _ _ own] at unheld
      rw [sameInode, reach_congr beside.confined.super]
      refine wellKept.sizes other unheld ⟨?_, ?_, ?_⟩
      · exact (validIno_congr beside.confined.super other).symm.trans regular.valid
      · exact (congrFun beside.confined.inodeMap other).symm.trans regular.inUse
      · rw [← sameInode]
        exact regular.regular

/-- A turned handle put back keeps the open files well kept, the other files aside. -/
theorem OpenFiles.WellKept.turned (wellKept : files.WellKept)
    (turns : Turns ino files.pointers files.fs fs' fh fh') :
    (files.setHandle fs' ino (some fh')).WellKept ∧
      Beside ino files.fs fs' files.pointers (files.setHandle fs' ino (some fh')).pointers :=
  wellKept.turn (some fh') turns.beside (fun _ same => Option.some.inj same ▸ turns.kept) nofun

/-- One operation. -/
theorem OpenFiles.WellKept.step (wellKept : files.WellKept) {op : HandleOp}
    (allowed : op.Allowed files) (careful : op.Careful files) :
    (op.run env files).WellKept ∧
      Beside op.ino files.fs (op.run env files).fs files.pointers (op.run env files).pointers ∧
      ∀ other, other ≠ op.ino → (op.run env files).handles other = files.handles other := by
  have same : Beside op.ino files.fs files.fs files.pointers files.pointers :=
    .refl wellKept.apart op.ino
  cases op with
  | opens ino perms flags =>
      obtain ⟨unheld, regular⟩ := allowed
      have own : files.pointers ino = files.fs.pointers ino := by
        rw [OpenFiles.pointers, unheld]; rfl
      rw [HandleOp.run]
      rcases outcome : (doOpen perms ino flags).run (lib env) files.fs with ⟨_ | fh, fs'⟩
      · cases trunc : flags.trunc with
        | false =>
            rw [run_doOpen regular.valid perms trunc] at outcome
            cases outcome
        | true =>
            rw [run_doOpen_trunc regular.valid perms trunc] at outcome
            cases outcome
      · obtain ⟨kept, copied, -, beside⟩ :=
          doOpen_turns wellKept.apart regular own (wellKept.sizes ino unheld regular)
          perms careful outcome
        have still : Function.update files.pointers ino fh.inode.iBlock = files.pointers := by
          rw [copied, Function.update_eq_self]
        obtain ⟨after, besideToo⟩ := wellKept.turned
          (show Turns ino files.pointers files.fs fs' fh fh from ⟨still.symm ▸ kept,
            still.symm ▸ beside⟩)
        exact ⟨after, besideToo, fun other apart => OpenFiles.setHandle_other _ _ _ _ apart⟩
  | read ino size off =>
      rw [HandleOp.run]
      cases held : files.handles ino with
      | none => exact ⟨wellKept, same, fun _ _ => rfl⟩
      | some fh =>
          obtain ⟨after, beside⟩ :=
            wellKept.turned (doRead_turns (wellKept.handles ino fh held) size off).1
          exact ⟨after, beside, fun other apart => OpenFiles.setHandle_other _ _ _ _ apart⟩
  | write ino data off =>
      rw [HandleOp.run]
      cases held : files.handles ino with
      | none => exact ⟨wellKept, same, fun _ _ => rfl⟩
      | some fh =>
          obtain ⟨after, beside⟩ :=
            wellKept.turned (doWrite_turns (wellKept.handles ino fh held) (careful fh held))
          exact ⟨after, beside, fun other apart => OpenFiles.setHandle_other _ _ _ _ apart⟩
  | close ino =>
      rw [HandleOp.run]
      cases held : files.handles ino with
      | none => exact ⟨wellKept, same, fun _ _ => rfl⟩
      | some fh =>
          obtain ⟨-, -, sizes, beside⟩ :=
            @doFileClose_turns _ env _ _ _ _ (wellKept.handles ino fh held)
          obtain ⟨after, besideToo⟩ := wellKept.turn none beside nofun fun _ _ => sizes
          exact ⟨after, besideToo, fun other apart => OpenFiles.setHandle_other _ _ _ _ apart⟩

/-- What another file reads. -/
theorem OpenFiles.view_eq
    (beside : Beside ino files.fs files'.fs files.pointers files'.pointers) {other : Nat}
    (apart : other ≠ ino)
    (handle : files'.handles other = files.handles other)
    (owns : files.fs.ownsBlocks other = true) {offset : Nat}
    (small : files.fs.Addressable offset) : files'.view other offset = files.view other offset := by
  have same := beside.byteAt apart small
  rw [OpenFiles.view, OpenFiles.view, handle]
  cases held : files.handles other with
  | some fh =>
      have copy : files.pointers other = fh.inode.iBlock := by rw [OpenFiles.pointers, held]; rfl
      rw [copy] at same
      simp only [seen, same, blocksize_congr beside.confined.super]
  | none =>
      have disk : files.pointers other = (files.fs.inodeTab other).iBlock := by
        rw [OpenFiles.pointers, held]
        exact if_pos owns
      dsimp only
      rw [beside.confined.others other apart, ← disk]
      exact same

/-- Any number of operations, as they are seen by a file they are not about. -/
theorem OpenFiles.WellKept.runs (wellKept : files.WellKept) {ops : List HandleOp}
    (follows : HandleOp.Follows env HandleOp.Careful ops files) :
    (HandleOp.runs env files ops).WellKept ∧ ∀ other, (∀ op ∈ ops, op.ino ≠ other) →
      files.fs.ownsBlocks other = true →
        (HandleOp.runs env files ops).handles other = files.handles other ∧
        (HandleOp.runs env files ops).fs.inodeTab other = files.fs.inodeTab other ∧
        ∀ offset, files.fs.Addressable offset →
          (HandleOp.runs env files ops).view other offset = files.view other offset := by
  induction ops generalizing files with
  | nil => exact ⟨wellKept, fun other _ _ => ⟨rfl, rfl, fun _ _ => rfl⟩⟩
  | cons op rest inductionHypothesis =>
      obtain ⟨⟨allowed, careful⟩, follows⟩ := follows
      obtain ⟨after, beside, handles⟩ := wellKept.step allowed careful
      obtain ⟨final, others⟩ := inductionHypothesis after follows
      refine ⟨final, fun other apart owns => ?_⟩
      have different : other ≠ op.ino := (apart op List.mem_cons_self).symm
      have sameInode := beside.confined.others other different
      have owned : (op.run env files).fs.ownsBlocks other = true := by
        rw [ownsBlocks] at owns ⊢
        rw [sameInode, validIno_congr beside.confined.super, beside.confined.inodeMap]
        exact owns
      obtain ⟨handle, inode, view⟩ :=
        others other (fun op member => apart op (List.mem_cons_of_mem _ member)) owned
      refine ⟨handle.trans (handles other different), inode.trans sameInode, fun offset small => ?_⟩
      rw [← OpenFiles.view_eq beside different (handles other different) owns small]
      exact view offset ((addressable_congr beside.confined.super offset).mpr small)

/-- What the open files have a right to: the blocks a handle's copy leads to are in use and belong
to no other file, neither to its handle nor on disk; a write through one handle changes nothing of
what another file is or reads; and what is read through a handle is what it sees. -/
structure Isolated (env : Env δ) (files : OpenFiles δ) : Prop where
  inUse : ∀ ino fh, files.handles ino = some fh →
    ∀ visit ∈ files.fs.vol.inodeVisits fh.inode.iBlock, files.fs.vol.InUse visit.block
  own : ∀ ino fh, files.handles ino = some fh → ∀ visit ∈ files.fs.vol.inodeVisits fh.inode.iBlock,
    ∀ other, other ≠ ino → ∀ visit' ∈ files.fs.vol.inodeVisits (files.pointers other) ++
      files.fs.vol.inodeVisits (files.fs.pointers other), visit'.block ≠ visit.block
  writes : ∀ ino data off, (HandleOp.write ino data off).Careful files →
    let files' := (HandleOp.write ino data off).run env files
    ∀ other, other ≠ ino → files.fs.ownsBlocks other = true →
      files'.handles other = files.handles other ∧
        files'.fs.inodeTab other = files.fs.inodeTab other ∧
        ∀ offset, files.fs.Addressable offset → files'.view other offset = files.view other offset
  reads : ∀ ino fh size off bytes fh' fs', files.handles ino = some fh →
    (doRead fh ino size off).run (lib env) files.fs = ((0, bytes, fh'), fs') →
      bytes = (files.view ino).read off (min (size % 2 ^ 32) (fh.inode.ext2ISize - off))

/-- Well-kept open files are isolated, whichever handle operation comes. -/
theorem OpenFiles.WellKept.isolated (wellKept : files.WellKept) : Isolated env files := by
  have copies : ∀ ino fh, files.handles ino = some fh → fh.inode.iBlock = files.pointers ino := by
    intro ino fh held
    rw [OpenFiles.pointers, held]
    rfl
  refine ⟨fun ino fh held visit member => ?_,
    fun ino fh held visit member other apart visit' member' => ?_,
    fun ino data off careful => ?_, fun ino fh size off bytes fh' fs' held outcome => ?_⟩
  · rw [copies ino fh held] at member
    exact wellKept.apart.visit_inUse member
  · rw [copies ino fh held] at member
    refine wellKept.apart.visits_apart member apart ((List.mem_append.mp member').elim id
      fun onDisk => ?_)
    cases held' : files.handles other with
    | none =>
        rw [OpenFiles.pointers, held']
        exact onDisk
    | some fh' =>
        have kept := wellKept.handles other fh' held'
        rw [kept.disk.pointers_eq] at onDisk
        rw [← copies other fh' held']
        exact inodeVisits_subset kept.behind onDisk
  · intro files' other apart owns
    obtain ⟨-, beside, handles⟩ :=
      @OpenFiles.WellKept.step _ env _ wellKept (.write ino data off) trivial careful
    exact ⟨handles other apart, beside.confined.others other apart, fun offset small =>
      OpenFiles.view_eq beside apart (handles other apart) owns small⟩
  · obtain ⟨-, complete⟩ := (doRead_turns (wellKept.handles ino fh held) size off).outcome outcome
    refine (complete rfl).trans ?_
    rw [OpenFiles.view, held]

/-- **Open files are isolated.** From a volume whose blocks are used once and whose files have sizes
within reach, over any run of opens, reads, writes and closes, also with calls that fail, in which
no open with `O_TRUNC` has anything to release and no write goes beyond the pointers of an inode:
whatever state is reached is isolated; and what is read of a file after any more operations on
others is what was there before. -/
theorem files_isolated {fs : Fs δ} {ops : List HandleOp} (apart : fs.FilesApart)
    (sizes : ∀ ino, fs.RegularFile ino → (fs.inodeTab ino).ext2ISize ≤ fs.reach)
    (follows : HandleOp.Follows env HandleOp.Careful ops ⟨fs, fun _ => none⟩) :
    let files := HandleOp.runs env ⟨fs, fun _ => none⟩ ops
    Isolated env files ∧ ∀ more other, HandleOp.Follows env HandleOp.Careful more files →
      (∀ op ∈ more, op.ino ≠ other) → files.fs.ownsBlocks other = true →
        let files' := HandleOp.runs env files more
        files'.handles other = files.handles other ∧
          files'.fs.inodeTab other = files.fs.inodeTab other ∧
          ∀ offset, files.fs.Addressable offset →
            files'.view other offset = files.view other offset := by
  intro files
  have start : OpenFiles.WellKept ⟨fs, fun _ => none⟩ := ⟨apart, nofun, fun ino _ => sizes ino⟩
  obtain ⟨wellKept, -⟩ := start.runs follows
  exact ⟨wellKept.isolated, fun more other followsToo => (wellKept.runs followsToo).2 other⟩

end Isolation

/-- In the example no file is larger than the pointers reach. -/
theorem twoFiles_sizes (ino : Nat) : (twoFiles.inodeTab ino).ext2ISize ≤ twoFiles.reach := by
  have most : (twoFiles.inodeTab ino).ext2ISize ≤ 1024 := by
    simp only [twoFiles]
    split
    · exact le_rfl
    · split <;> exact Nat.zero_le _
  exact most.trans (by decide)

/-- Both files are opened, 11 with `O_TRUNC`, and both are written. -/
theorem files_isolated_two :
    let files := HandleOp.runs listEnv ⟨twoFiles, fun _ => none⟩
      [.opens 11 none { rdwr := true, trunc := true },
      .opens 12 none { rdwr := true }, .write 12 [0x41] 0, .write 11 [0x42] 5, .close 12]
    Isolated listEnv files := by
  refine (files_isolated twoFiles_apart (fun ino _ => twoFiles_sizes ino) ?_).1
  refine ⟨⟨⟨rfl, by decide, by decide, by decide⟩, fun _ => .inl rfl⟩,
    ⟨⟨rfl, by decide, by decide, by decide⟩, nofun⟩, ⟨trivial, ?_⟩, ⟨trivial, ?_⟩,
      ⟨trivial, trivial⟩, trivial⟩
  · exact (show ∀ fh ∈ OpenFiles.handles _ 12, Fs.WithinReach _ fh.inode _ _ by decide +kernel)
  · exact (show ∀ fh ∈ OpenFiles.handles _ 11, Fs.WithinReach _ fh.inode _ _ by decide +kernel)

/-- The pointers of the volume where 11 has two data blocks. -/
theorem twoDataBlocks_pointers (ino slot : Nat) : twoDataBlocks.pointers ino slot =
    if ino = 2 ∧ slot = 0 then 19 else if ino = 11 ∧ slot < 2 then 20 + slot else 0 := by
  by_cases own : ino = 11
  · subst own
    rw [Fs.pointers, if_pos (by decide), if_neg (by omega)]
    simp only [true_and]
    rfl
  · have same : twoDataBlocks.pointers ino = twoFiles.pointers ino := by
      simp only [Fs.pointers, Fs.ownsBlocks, twoDataBlocks, Function.update_of_ne own]
      rfl
    rw [same, twoFiles_pointers]
    simp only [own, false_and, if_false]

/-- In the example no two files share a block. -/
theorem twoDataBlocks_apart : twoDataBlocks.FilesApart := by
  refine forest_of_direct ⟨by decide, by decide, by decide⟩ (fun ino slot beyond => ?_)
    (fun ino slot present => ?_) (fun ino slot ino' slot' present same => ?_)
  all_goals
    simp only [twoDataBlocks_pointers, EXT2_NDIR_BLOCKS] at *
  · rw [if_neg (by omega), if_neg (by omega)]
  · split
    · exact ⟨by decide, by decide⟩
    · rename_i notRoot
      rw [if_neg notRoot] at present
      split
      · rename_i inFile
        obtain rfl | rfl : slot = 0 ∨ slot = 1 := by omega
        · exact ⟨by decide, by decide⟩
        · exact ⟨by decide, by decide⟩
      · rename_i outside
        rw [if_neg outside] at present
        exact absurd rfl present
  · grind

/-- In the example no file is larger than the pointers reach. -/
theorem twoDataBlocks_sizes (ino : Nat) :
    (twoDataBlocks.inodeTab ino).ext2ISize ≤ twoDataBlocks.reach := by
  by_cases own : ino = 11
  · subst own
    decide
  · have same : twoDataBlocks.inodeTab ino = twoFiles.inodeTab ino := Function.update_of_ne own _ _
    rw [same]
    exact twoFiles_sizes ino

/-- A file of two blocks is opened with `O_TRUNC`: the handle leads to its two blocks, which are
free now. One of them goes to the file 12, and what is written through the handle is read there. -/
theorem truncated_open_overwrites :
    twoDataBlocks.FilesApart ∧ (∀ ino, twoDataBlocks.RegularFile ino →
      (twoDataBlocks.inodeTab ino).ext2ISize ≤ twoDataBlocks.reach) ∧
    (let ops := [HandleOp.opens 11 none { rdwr := true, trunc := true }]
    let files := HandleOp.runs listEnv ⟨twoDataBlocks, fun _ => none⟩ ops
    HandleOp.Follows listEnv (fun _ _ => True) ops ⟨twoDataBlocks, fun _ => none⟩ ∧
      ¬ Isolated listEnv files) ∧
    let ops :=
      [HandleOp.opens 11 none { rdwr := true, trunc := true }, .opens 12 none { rdwr := true },
      .write 12 [0x41] 0, .close 12, .write 11 [0x42] 0, .close 11, .opens 12 none {}]
    let files := HandleOp.runs listEnv ⟨twoDataBlocks, fun _ => none⟩ ops
    HandleOp.Follows listEnv (fun _ _ => True) ops ⟨twoDataBlocks, fun _ => none⟩ ∧
      (files.handles 12).map (fun fh => ((doRead fh 12 1 0).run (Fs.lib listEnv) files.fs).1.2.1) =
        some [0x42] := by
  refine ⟨twoDataBlocks_apart,
    fun ino _ => twoDataBlocks_sizes ino, ⟨?_, fun isolated => ?_⟩, ?_, by decide +kernel⟩
  · exact ⟨⟨⟨rfl, by decide, by decide, by decide⟩, trivial⟩, trivial⟩
  · have inUse := isolated.inUse 11 _ rfl ⟨20, 0, 0⟩ (by decide +kernel)
    exact absurd inUse.2 (by decide +kernel)
  · refine ⟨⟨⟨rfl, by decide, by decide, by decide⟩, trivial⟩, ⟨⟨?_, ?_⟩, trivial⟩,
      ⟨trivial, trivial⟩,
      ⟨trivial, trivial⟩, ⟨trivial, trivial⟩, ⟨trivial, trivial⟩, ⟨⟨?_, ?_⟩, trivial⟩, trivial⟩
    · rfl
    · exact ⟨by decide +kernel, by decide +kernel, by decide +kernel⟩
    · rfl
    · exact ⟨by decide +kernel, by decide +kernel, by decide +kernel⟩

end Ext2Fuse
