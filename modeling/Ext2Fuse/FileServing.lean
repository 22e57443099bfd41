import Ext2Fuse.Lib.Contents
import Ext2Fuse.FileSizes
import Ext2Fuse.FileShrinking

/-!
# A handle that serves the contents of its file

The contents of a file are a sequence of bytes as long as its size. A handle serves them when it
sees them and its copy of the inode is the one on disk. Each routine on files, as long as no library
call fails, serves what the same operation on the sequence gives, and leaves the other files as they
are.
-/

namespace Ext2Fuse

open Lib Program Volume Contents

/-- The response of a call says that it has done what it was asked for. -/
def LibCall.Succeeds {δ : Type} : {β : Type} → LibCall δ β → β → Prop
  | _, .readInode _, response => response.isOk = true
  | _, .writeInode _ _, rc => rc = 0
  | _, .writeNewInode _ _, rc => rc = 0
  | _, .newInode _, response => response.isOk = true
  | _, .newBlock _, response => response.isOk = true
  | _, .writeDirBlock _ _ _, rc => rc = 0
  | _, .lookup _ _, response => response.isOk = true
  | _, .namei _ _, response => response.isOk = true
  | _, .dirIterate _, response => response.1 = 0
  | _, .link _ _ _ _, rc => rc = 0
  | _, .unlink _ _ _, rc => rc = 0
  | _, .expandDir _, rc => rc = 0
  | _, .blockIterateRelease _, rc => rc = 0
  | _, .blockIterateTruncate _ _, response => response.1 = 0
  | _, .fileOpen _ _, response => response.isOk = true
  | _, .fileRead _ _, response => response.1 = 0
  | _, .fileWrite _ _, response => response.1 = 0
  | _, .fileFlush _, response => response.1 = 0
  | _, .flush, rc => rc = 0
  | _, .malloc _, enough => enough = true
  | _, _, _ => True

namespace Fs

variable {δ : Type}

/-- The calls of a run that succeed. -/
def SucceedingCall (env : Env δ) (β : Type) (operation : LibCall δ β) (fs : Fs δ) : Prop :=
  operation.Succeeds ((lib env).exec operation fs).1

/-- An inode that is in use and whose pointers are block numbers. -/
def ownsBlocks (fs : Fs δ) (ino : Nat) : Bool :=
  fs.validIno ino && fs.inodeMap ino && ext2fsInodeHasValidBlocks (fs.inodeTab ino)

/-- The block pointers of all inodes. -/
def pointers (fs : Fs δ) (ino : Nat) : Nat → Nat :=
  if fs.ownsBlocks ino then (fs.inodeTab ino).iBlock else fun _ => 0

/-- The blocks of all inodes are in use, and no block is used twice. -/
def FilesApart (fs : Fs δ) : Prop := Forest fs.vol (places fs.pointers)

/-- A regular file in use. -/
structure RegularFile (fs : Fs δ) (ino : Nat) : Prop where
  valid : fs.validIno ino = true
  inUse : fs.inodeMap ino = true
  regular : LINUX_S_ISREG (fs.inodeTab ino).iMode = true

/-- One the numbers of whose blocks fit an `int`. -/
structure IsFile (fs : Fs δ) (ino : Nat) : Prop extends RegularFile fs ino where
  numbered : ∀ block < capacity fs.super.addrPerBlock,
    fs.vol.mapped (fs.inodeTab ino).iBlock block ≠ 0 → block < 2 ^ 31

/-- All but the file `ino` is as it was: the other inodes, the bitmap, the directories, and what the
blocks of the other files hold, where all have these pointers. -/
structure Beside (ino : Nat) (fs fs' : Fs δ) (pointers pointers' : Nat → Nat → Nat) : Prop where
  confined : Confined ino fs fs'
  spares : Spares ino fs.vol fs'.vol pointers pointers'

/-- The same for the pointers on disk. -/
abbrev Aside (ino : Nat) (fs fs' : Fs δ) : Prop := Beside ino fs fs' fs.pointers fs'.pointers

/-- So many of the smallest blocks make 4 GiB. -/
abbrev smallBlocks : Nat := 2 ^ 22

/-- A handle of a regular file, in good order, whose copy of the inode is the one on disk. -/
structure Attended (fs : Fs δ) (ino : Nat) (fh : File) : Prop where
  isFile : fs.IsFile ino
  inStep : fs.InStep ino fh
  tended : Tended fs fs.pointers smallBlocks fh

/-- The handle sees the contents of its file, and has its size. -/
structure Serving (fs : Fs δ) (ino : Nat) (fh : File) (bytes : List UInt8) : Prop
    extends Attended fs ino fh where
  small : bytes.length < 2 ^ 32
  size : fh.inode.iSize = bytes.length
  high : fh.inode.iSizeHigh = 0
  shows : Shows (fs.seen fh) bytes

section Serving

variable {env : Env δ} {fs fs' fs'' : Fs δ} {ino : Nat} {fh fh' : File}

/-- The inode of a regular file has block pointers. -/
theorem regular_hasBlocks {inode : Inode} (regular : LINUX_S_ISREG inode.iMode = true) :
    ext2fsInodeHasValidBlocks inode = true := by
  have notLink : LINUX_S_ISLNK inode.iMode = false := by
    simp only [LINUX_S_ISREG, LINUX_S_ISLNK, hasType, beq_iff_eq, beq_eq_false_iff_ne] at regular ⊢
    rw [regular]
    decide
  simp [ext2fsInodeHasValidBlocks, regular, notLink]

/-- A regular file's pointers are its inode's. -/
theorem RegularFile.pointers_eq (file : fs.RegularFile ino) : fs.pointers ino =
    (fs.inodeTab ino).iBlock := by
  rw [pointers, ownsBlocks, file.valid, file.inUse, regular_hasBlocks file.regular]
  rfl

/-- A file stays regular over a step that leaves its mode. -/
theorem RegularFile.of_confined (file : fs.RegularFile ino) (confined : Confined ino fs fs')
    (regular : LINUX_S_ISREG (fs'.inodeTab ino).iMode = true) : fs'.RegularFile ino :=
  ⟨(validIno_congr confined.super ino).trans file.valid,
    by rw [confined.inodeMap]; exact file.inUse, regular⟩

/-- A step confined to one file leaves the pointers of the others. -/
theorem pointers_of_ne (confined : Confined ino fs fs') {other : Nat} (apart : other ≠ ino) :
    fs'.pointers other = fs.pointers other := by
  rw [pointers, pointers, ownsBlocks, ownsBlocks, validIno_congr confined.super, confined.inodeMap,
    confined.others other apart]

/-- It changes the table of pointers at that file. -/
theorem pointers_of_confined (confined : Confined ino fs fs') (file : fs'.RegularFile ino) :
    fs'.pointers = Function.update fs.pointers ino (fs'.inodeTab ino).iBlock := by
  funext other
  by_cases own : other = ino
  · subst own
    rw [file.pointers_eq, Function.update_self]
  · rw [Function.update_of_ne own, pointers_of_ne confined own]

section Beside

variable {pointers pointers' pointers'' : Nat → Nat → Nat}

/-- Nothing was done beside the file. -/
theorem Beside.refl (forest : Forest fs.vol (places pointers)) (ino : Nat) :
    Beside ino fs fs pointers pointers :=
  ⟨.refl ino fs, .refl forest ino⟩

/-- Two steps beside a file are one. -/
theorem Beside.trans (first : Beside ino fs fs' pointers pointers')
    (second : Beside ino fs' fs'' pointers' pointers'') : Beside ino fs fs'' pointers pointers'' :=
  ⟨first.confined.trans second.confined, first.spares.trans second.spares⟩

/-- What another file reads. -/
theorem Beside.byteAt (beside : Beside ino fs fs' pointers pointers') {other : Nat}
    (apart : other ≠ ino) {offset : Nat} (small : fs.Addressable offset) :
    fs'.byteAt (pointers other) offset = fs.byteAt (pointers other) offset := by
  have kept := beside.spares.contents other _ apart small
  rw [beside.spares.others other apart] at kept
  rw [byteAt_eq, byteAt_eq, blocksize_congr beside.confined.super, kept]

end Beside

/-- What another inode has, and what it reads. -/
theorem Aside.others (aside : Aside ino fs fs') {other : Nat} (apart : other ≠ ino)
    (owns : fs.ownsBlocks other = true) {offset : Nat} (small : fs.Addressable offset) :
    fs'.byteAt (fs'.inodeTab other).iBlock offset = fs.byteAt
      (fs.inodeTab other).iBlock offset := by
  have owned : fs.pointers other = (fs.inodeTab other).iBlock := if_pos owns
  rw [aside.confined.others other apart, ← owned]
  exact Beside.byteAt aside apart small

/-- An attended file shares no block with another. -/
theorem Attended.apart (attended : Attended fs ino fh) : fs.FilesApart := attended.tended.forest

/-- The first data block is 0 or 1. -/
theorem Attended.firstData (attended : Attended fs ino fh) : fs.super.sFirstDataBlock ≤ 1 :=
  attended.tended.forest.sound.firstData

/-- Disk and handle agree on the pointers. -/
theorem InStep.iBlock (inStep : fs.InStep ino fh) : (fs.inodeTab ino).iBlock = fh.inode.iBlock :=
  (congrArg Inode.iBlock inStep.current).symm

/-- Disk and handle agree on the mode. -/
theorem InStep.iMode (inStep : fs.InStep ino fh) : (fs.inodeTab ino).iMode = fh.inode.iMode :=
  (congrArg Inode.iMode inStep.current).symm

/-- The size of the file is the one its handle has. -/
theorem InStep.ext2ISize (inStep : fs.InStep ino fh) :
    (fs.inodeTab ino).ext2ISize = fh.inode.ext2ISize := by
  have low : fh.inode.iSize = (fs.inodeTab ino).iSize := (congrArg Inode.iSize inStep.current :)
  have high : fh.inode.iSizeHigh = (fs.inodeTab ino).iSizeHigh :=
    (congrArg Inode.iSizeHigh inStep.current :)
  rw [Inode.ext2ISize, Inode.ext2ISize, low, high]

/-- Every file of the sizes that fit a word is within the pointers' capacity. -/
theorem smallBlocks_le (fs : Fs δ) : smallBlocks ≤ capacity fs.super.addrPerBlock := by
  have entries : 256 ≤ fs.super.addrPerBlock := by
    rw [Super.addrPerBlock]
    have positive : 0 < 2 ^ fs.super.sLogBlockSize := Nat.two_pow_pos _
    omega
  have cube : 256 * 256 * 256 ≤
    fs.super.addrPerBlock * fs.super.addrPerBlock * fs.super.addrPerBlock :=
    Nat.mul_le_mul (Nat.mul_le_mul entries entries) entries
  rw [capacity, smallBlocks]
  omega

/-- What is below 4 GiB is within the small blocks. -/
theorem below_smallBlocks (fs : Fs δ) {offset : Nat} (small : offset ≤ 2 ^ 32) :
    offset ≤ smallBlocks * fs.blocksize := by
  have least : 2 ^ 10 ≤ fs.blocksize := by
    rw [blocksize, Super.blocksize]
    exact Nat.le_mul_of_pos_right _ (Nat.two_pow_pos _)
  have product := Nat.mul_le_mul_left smallBlocks least
  rw [smallBlocks] at *
  omega

/-- An offset that fits a word is addressable. -/
theorem addressable_below (fs : Fs δ) {offset : Nat} (small : offset < 2 ^ 32) :
    fs.Addressable offset := by
  rw [addressable_iff]
  have within := below_smallBlocks fs (show offset + 1 ≤ 2 ^ 32 from small)
  have most := Nat.mul_le_mul_right fs.blocksize (smallBlocks_le fs)
  omega

/-- A file stays one as long as its mode does and the blocks it gets are small ones. -/
theorem IsFile.of_confined (isFile : fs.IsFile ino) (confined : Confined ino fs fs')
    (mode : (fs'.inodeTab ino).iMode = (fs.inodeTab ino).iMode)
    (numbered : ∀ block < capacity fs.super.addrPerBlock,
      fs.vol.mapped (fs.inodeTab ino).iBlock block = 0 →
      fs'.vol.mapped (fs'.inodeTab ino).iBlock block ≠ 0 → block < 2 ^ 31) : fs'.IsFile ino where
  toRegularFile := isFile.toRegularFile.of_confined confined (by rw [mode]; exact isFile.regular)
  numbered block inside present := by
    rw [confined.super] at inside
    by_cases absent : fs.vol.mapped (fs.inodeTab ino).iBlock block = 0
    · exact numbered block inside absent present
    · exact isFile.numbered block inside absent

/-- A call on the handle that has left the copy in step. -/
theorem Attended.moves (attended : Attended fs ino fh)
    (moves : Moves fs.pointers smallBlocks fs fs' fh fh') (inStep : fs'.InStep ino fh') :
    Attended fs' ino fh' ∧ Aside ino fs fs' := by
  have own := attended.inStep.own
  obtain ⟨iBlock, iBlocks, inode⟩ := moves.inode
  have confined := moves.confined
  have touches := moves.touches
  have tended := moves.tended
  rw [own] at confined touches tended
  have isFile : fs'.IsFile ino := by
    refine attended.isFile.of_confined confined ?_ fun block inside absent present => ?_
    · rw [inStep.iMode, inode, attended.inStep.iMode]
    · rw [attended.inStep.iBlock] at absent
      rw [inStep.iBlock] at present
      have small := moves.maps block inside absent present
      rw [smallBlocks] at small
      omega
  have pointers : Function.update fs.pointers ino fh'.inode.iBlock = fs'.pointers := by
    rw [pointers_of_confined confined isFile.toRegularFile, inStep.iBlock]
  rw [pointers] at touches tended
  exact ⟨⟨isFile, inStep, tended⟩, confined, touches.toSpares⟩

/-- The handle's copy, in which only what is about times and sizes has changed, goes to disk. -/
theorem Attended.save (attended : Attended fs ino fh) {inode : Inode}
    (blocks : inode.iBlock = fh.inode.iBlock) (mode : inode.iMode = fh.inode.iMode) :
    let fs' := { fs.advance with inodeTab := Function.update fs.inodeTab ino inode }
    Attended fs' ino { fh with inode := inode } ∧ Aside ino fs fs' ∧
      ∀ offset, fs'.seen { fh with inode := inode } offset = fs.seen fh offset := by
  intro fs'
  have written : fs'.inodeTab ino = inode := Function.update_self ..
  have confined : Confined ino fs fs' :=
    ⟨rfl, rfl, rfl, fun other apart => Function.update_of_ne apart _ _⟩
  have isFile : fs'.IsFile ino := by
    refine attended.isFile.of_confined confined ?_ fun block _ absent present => ?_
    · rw [written, mode, attended.inStep.iMode]
    · rw [written, blocks, ← attended.inStep.iBlock] at present
      exact absurd absent present
  have pointers : fs'.pointers = fs.pointers := by
    rw [pointers_of_confined confined isFile.toRegularFile, written, blocks,
      ← attended.inStep.iBlock, ← attended.isFile.pointers_eq, Function.update_eq_self]
  obtain ⟨tended, spares, sees⟩ := attended.tended.save blocks ino
  rw [← pointers] at tended
  refine ⟨⟨isFile, ⟨attended.inStep.own, ?_, attended.inStep.held⟩, tended⟩, ⟨confined, ?_⟩, sees⟩
  · rw [written]
  · rw [pointers]
    exact spares

/-- A read that succeeds leaves the copy in step. -/
theorem fileReadLoop_extends (firstData : fs.super.sFirstDataBlock ≤ 1) (inStep : fs.InStep ino fh)
    {bound wanted : Nat} {got bytes : List UInt8}
    (outcome : fs.fileReadLoop bound fh wanted got = (0, bytes, fh', fs')) :
    fs'.InStep ino fh' := by
  induction bound generalizing fs fh wanted got with
  | zero =>
      cases outcome
      exact inStep
  | succ bound inductionHypothesis =>
      simp only [fileReadLoop] at outcome
      split at outcome
      · split at outcome
        · rename_i file₁ fs₁ synced
          obtain ⟨step, own, current, held⟩ := syncBufferPosition_extends firstData inStep synced
          simp only [loadBuffer_eq] at outcome
          exact inductionHypothesis (by rw [step.super]; exact firstData)
            ⟨by simpa using own, by simpa using current, fun _ => by simp⟩ outcome
        · rename_i failed _
          cases outcome
          exact absurd rfl failed
      · cases outcome
        exact inStep

/-- A handle whose size words are the same. -/
theorem Moves.sameSize {pointers : Nat → Nat → Nat} {limit : Nat}
    (moves : Moves pointers limit fs fs' fh fh') :
    fh'.inode.iSize = fh.inode.iSize ∧ fh'.inode.iSizeHigh = fh.inode.iSizeHigh := by
  obtain ⟨iBlock, iBlocks, inode⟩ := moves.inode
  rw [inode]
  exact ⟨rfl, rfl⟩

/-- Moving a handle's position changes nothing else about it. -/
theorem Attended.seek (attended : Attended fs ino fh) (pos : Nat) :
    Attended fs ino { fh with pos := pos } :=
  ⟨attended.isFile, attended.inStep.seek pos, attended.tended.seek pos⟩

/-- A handle at another position serves the same bytes. -/
theorem Serving.seek {bytes : List UInt8} (serving : Serving fs ino fh bytes) (pos : Nat) :
    Serving fs ino { fh with pos := pos } bytes :=
  ⟨serving.toAttended.seek pos, serving.small, serving.size, serving.high, serving.shows⟩

/-- `ext2fs_file_write` below 4 GiB. -/
theorem Attended.write (attended : Attended fs ino fh) {data : List UInt8} {written : Nat}
    (small : fh.pos + data.length ≤ 2 ^ 32)
    (outcome : fs.ext2fsFileWrite fh data = (0, written, fh', fs')) :
    Attended fs' ino fh' ∧ Aside ino fs fs' ∧ written = data.length ∧
      (∀ offset < 2 ^ 32, fs'.seen fh' offset = (fs.seen fh).write fh.pos data offset) ∧
      fh'.inode.iSize = fh.inode.iSize ∧ fh'.inode.iSizeHigh = fh.inode.iSizeHigh := by
  obtain ⟨moves, done⟩ := ext2fsFileWrite_moves attended.tended (below_smallBlocks fs small) outcome
  obtain ⟨counted, bytes⟩ := done rfl
  obtain ⟨-, inStep⟩ := ext2fsFileWrite_extends attended.firstData attended.inStep outcome
  obtain ⟨after, aside⟩ := attended.moves moves inStep
  exact ⟨after, aside, counted,
    fun offset below => bytes offset (addressable_below fs below), moves.sameSize⟩

/-- `set_file_size` with a size below 4 GiB. -/
theorem Attended.resize (attended : Attended fs ino fh) {length : Nat} (small : length < 2 ^ 32) :
    Leads (lib env) (setFileSize ino fh.inode length) (fun result fs' => result.1 = 0 ∧
      Attended fs' ino { fh with inode := result.2 } ∧ Aside ino fs fs' ∧
      (∀ offset, fs'.seen { fh with inode := result.2 } offset = fs.seen fh offset) ∧
      result.2.iSize = length ∧ result.2.iSizeHigh = 0) fs := by
  have valid : fs.advance.validIno ino = true := attended.isFile.valid
  rw [Leads, setFileSize]
  simp only [run_bind, run_lift, lib_time, lib_writeInode, ext2fsWriteInode, valid,
    if_true, run_pure]
  obtain ⟨saved, aside, sees⟩ := @Attended.save _ fs ino fh attended { fh.inode with
    iMtime := env.time fs.vol.tick, iSize := length % 2 ^ 32, iSizeHigh := 0 } rfl rfl
  exact ⟨trivial, saved, aside, sees, Nat.mod_eq_of_lt small, trivial⟩

variable {bytes : List UInt8}

/-- `do_lengthen`: the gap is filled with zeros. -/
theorem doLengthen_serving (serving : Serving fs ino fh bytes) {length : Nat}
    (longer : bytes.length < length) (small : length < 2 ^ 32) :
    Ensures (lib env) (SucceedingCall env) (doLengthen fh ino length)
      (fun result fs' => result.1 = 0 ∧
      Serving fs' ino result.2 (fillTo bytes length) ∧ Aside ino fs fs') fs := by
  rw [doLengthen, serving.size, if_neg (by omega), if_neg (by omega)]
  refine ensures_lift_bind fun result later outcome succeeds => ?_
  have start : fh.inode.ext2ISize = bytes.length := by
    rw [Inode.ext2ISize, serving.size, serving.high]
    omega
  rw [start] at outcome succeeds
  have whole : (length - bytes.length) % 2 ^ 32 = length - bytes.length :=
    Nat.mod_eq_of_lt (by omega)
  rw [whole] at outcome succeeds
  rcases wrote : fs.ext2fsFileWrite { fh with pos := bytes.length }
    (List.replicate (length - bytes.length) 0) with ⟨rc, written, file, fs₁⟩
  rw [SucceedingCall, lib_fileWrite wrote] at succeeds
  rw [lib_fileWrite wrote] at outcome
  cases outcome
  obtain rfl : rc = 0 := succeeds
  obtain ⟨attended, aside, counted, sees, size, high⟩ :=
    (serving.toAttended.seek bytes.length).write
    (by rw [List.length_replicate]; dsimp only; omega) wrote
  rw [List.length_replicate] at counted
  dsimp only
  rw [if_neg (not_not.mpr rfl), if_neg (not_not.mpr counted)]
  refine ensures_bind ((attended.seek fh.pos).resize small).ensures fun result later resized => ?_
  obtain ⟨success, after, asideToo, seesToo, newSize, newHigh⟩ := resized
  refine ensures_pure ⟨success, ⟨after, ?_, ?_, newHigh, ?_⟩, aside.trans asideToo⟩
  · rw [length_fillTo]
    omega
  · rw [length_fillTo, newSize]
    omega
  · refine serving.shows.fill.congr fun offset inside => ?_
    rw [length_fillTo] at inside
    exact (seesToo offset).trans (sees offset (by omega))

/-- The part of `do_write` behind the gap. -/
theorem writeData_serving (serving : Serving fs ino fh bytes) {data : List UInt8} {off : Nat}
    (noGap : off ≤ bytes.length) (small : off + data.length < 2 ^ 32) :
    Ensures (lib env) (SucceedingCall env) (writeData fh ino data off) (fun result fs' =>
      result.1 = 0 ∧ result.2.1 = data.length ∧
        Serving fs' ino result.2.2 (writeAt bytes off data) ∧ Aside ino fs fs') fs := by
  have whole : data.take (data.length % 2 ^ 32) = data := by
    rw [Nat.mod_eq_of_lt (by omega), List.take_length]
  rw [writeData, whole]
  refine ensures_lift_bind fun result later outcome succeeds => ?_
  rcases wrote : fs.ext2fsFileWrite { fh with pos := off } data with ⟨rc, written, file, fs₁⟩
  rw [SucceedingCall, lib_fileWrite wrote] at succeeds
  rw [lib_fileWrite wrote] at outcome
  cases outcome
  obtain rfl : rc = 0 := succeeds
  obtain ⟨attended, aside, rfl, sees, size, high⟩ := (serving.toAttended.seek off).write
    (by dsimp only; omega) wrote
  have size' : file.inode.iSize = bytes.length := size.trans serving.size
  have shows : Shows (later.seen file) (writeAt bytes off data) := by
    have shown : Shows ((fs.seen fh).write off data) (writeAt bytes off data) :=
      serving.shows.write noGap
    refine shown.congr fun offset inside => ?_
    rw [length_writeAt] at inside
    have short := serving.small
    exact sees offset (by omega)
  dsimp only
  rw [if_neg (not_not.mpr rfl), if_neg (not_not.mpr rfl), size']
  split
  · refine ensures_pure ⟨rfl, rfl, ⟨attended, ?_, ?_, high.trans serving.high, shows⟩, aside⟩
    · rw [length_writeAt]
      have short := serving.small
      omega
    · rw [length_writeAt, size']
      omega
  rw [if_neg (by omega)]
  refine ensures_bind (attended.resize small).ensures fun result later resized => ?_
  obtain ⟨success, after, asideToo, seesToo, newSize, newHigh⟩ := resized
  refine ensures_pure ⟨success, rfl, ⟨after, ?_, ?_, newHigh, ?_⟩, aside.trans asideToo⟩
  · rw [length_writeAt]
    omega
  · rw [length_writeAt, newSize]
    omega
  · exact shows.congr fun offset _ => seesToo offset

/-- `do_write`. -/
theorem doWrite_serving (serving : Serving fs ino fh bytes) {data : List UInt8} {off : Nat}
    (small : off + data.length < 2 ^ 32) :
    Ensures (lib env) (SucceedingCall env) (doWrite fh ino data off) (fun result fs' =>
      result.1 = 0 ∧ result.2.1 = data.length ∧
        Serving fs' ino result.2.2 (writeAt bytes off data) ∧ Aside ino fs fs') fs := by
  rw [doWrite, serving.size]
  split
  · rename_i beyond
    rw [doFtruncate, serving.size, if_pos beyond]
    refine ensures_bind (doLengthen_serving serving beyond (by omega))
      fun result later lengthened => ?_
    obtain ⟨success, filled, aside⟩ := lengthened
    obtain ⟨rc, file⟩ := result
    dsimp only at success filled ⊢
    rw [if_neg (not_not.mpr success)]
    refine (writeData_serving filled (by rw [length_fillTo]; omega) small).mono
      fun result later' wrote => ?_
    obtain ⟨done, counted, served, asideToo⟩ := wrote
    rw [writeAt_fillTo (by omega)] at served
    exact ⟨done, counted, served, aside.trans asideToo⟩
  · exact writeData_serving serving (by omega) small

/-- `do_read`: the count has 32 bits in the call of the library. -/
theorem doRead_serving (serving : Serving fs ino fh bytes) (size off : Nat) :
    Ensures (lib env) (SucceedingCall env) (doRead fh ino size off) (fun result fs' =>
      result.1 = 0 ∧ result.2.1 = readAt bytes off (size % 2 ^ 32) ∧
        Serving fs' ino result.2.2 bytes ∧ Aside ino fs fs') fs := by
  rw [doRead]
  refine ensures_lift_bind fun result later outcome succeeds => ?_
  have sought := serving.seek off
  have length : ({ fh with pos := off } : File).inode.ext2ISize = bytes.length := by
    rw [Inode.ext2ISize, sought.size, sought.high]
    omega
  rcases read : fs.ext2fsFileRead { fh with pos := off } (size % 2 ^ 32) with ⟨rc, got, file, fs₁⟩
  rw [SucceedingCall, lib_fileRead read] at succeeds
  rw [lib_fileRead read] at outcome
  cases outcome
  obtain rfl : rc = 0 := succeeds
  obtain ⟨moves, sees, complete⟩ := ext2fsFileRead_moves sought.tended
    (by rw [length]; exact below_smallBlocks fs serving.small.le) read
  have inStep : later.InStep ino file := fileReadLoop_extends sought.firstData sought.inStep read
  obtain ⟨attended, aside⟩ := sought.toAttended.moves moves inStep
  obtain ⟨sameSize, sameHigh⟩ := moves.sameSize
  have answer : got = readAt bytes off (size % 2 ^ 32) := by
    rw [complete rfl, length]
    exact serving.shows.read
  dsimp only
  rw [if_neg (not_not.mpr rfl)]
  refine ensures_lift_bind fun now next ticked _ => ?_
  cases ticked
  refine ensures_lift_bind fun rc next written success => ?_
  have valid : later.advance.validIno ino = true := attended.isFile.valid
  rw [SucceedingCall] at success
  rw [lib_writeInode, ext2fsWriteInode, if_pos valid] at written success
  cases written
  obtain ⟨saved, asideToo, seesToo⟩ := @Attended.save _ later ino file attended
    { file.inode with iAtime := env.time later.vol.tick } rfl rfl
  refine ensures_pure ⟨rfl, answer, ⟨saved, serving.small, ?_, ?_, ?_⟩, aside.trans asideToo⟩
  · exact sameSize.trans serving.size
  · exact sameHigh.trans serving.high
  · refine serving.shows.congr fun offset inside => ?_
    have short := serving.small
    exact (seesToo offset).trans (sees offset (addressable_below fs (by omega)))

/-- The bytes of a file on disk. -/
def contents (fs : Fs δ) (ino : Nat) : List UInt8 :=
  fs.fileBytes (fs.inodeTab ino).iBlock 0 (fs.inodeTab ino).ext2ISize

/-- A regular file of less than 4 GiB, on a volume where no block is used twice. -/
structure Stores (fs : Fs δ) (ino : Nat) : Prop where
  isFile : fs.IsFile ino
  apart : fs.FilesApart
  word : (fs.inodeTab ino).iSize < 2 ^ 32
  high : (fs.inodeTab ino).iSizeHigh = 0

/-- A file's contents are as long as its size. -/
theorem length_contents (fs : Fs δ) (ino : Nat) :
    (fs.contents ino).length = (fs.inodeTab ino).ext2ISize :=
  Bytes.length_read ..

/-- `ext2fs_file_open`: a fresh handle serves what is on disk. -/
theorem Stores.serving (stores : fs.Stores ino) (writable : Bool) :
    Serving fs ino { ino := ino, inode := fs.inodeTab ino, writable := writable }
      (fs.contents ino) := by
  have length : (fs.contents ino).length = (fs.inodeTab ino).iSize := by
    rw [length_contents, Inode.ext2ISize, stores.high]
    omega
  refine ⟨⟨stores.isFile, inStep_fresh fs ino writable,
    ⟨stores.isFile.valid, smallBlocks_le fs, stores.apart,
    stores.isFile.pointers_eq, by rintro ⟨⟩, by rintro ⟨⟩, by rintro ⟨⟩, by rintro ⟨⟩⟩⟩, ?_,
      length.symm, stores.high, ?_⟩
  · rw [length]
    exact stores.word
  · rw [contents, fileBytes]
    refine (shows_read _ _).congr fun offset _ => ?_
    rw [seen, if_neg (fun both => Bool.false_ne_true both.1)]

/-- What is shown by the bytes of the file on disk are its contents. -/
theorem contents_of_shows (shows : Shows (fs.byteAt (fs.inodeTab ino).iBlock) bytes)
    (size : (fs.inodeTab ino).ext2ISize = bytes.length) : fs.contents ino = bytes := by
  rw [contents, fileBytes, size]
  exact shows

/-- A handle with nothing to write can be dropped. -/
theorem Serving.dropped (serving : Serving fs ino fh bytes) (clean : fh.bufDirty = false) :
    fs.Stores ino ∧ fs.contents ino = bytes := by
  have attended := serving.toAttended
  have low : (fs.inodeTab ino).iSize = bytes.length :=
    (congrArg Inode.iSize attended.inStep.current :).symm.trans serving.size
  have high : (fs.inodeTab ino).iSizeHigh = 0 :=
    (congrArg Inode.iSizeHigh attended.inStep.current :).symm.trans serving.high
  refine ⟨⟨attended.isFile, attended.apart, by rw [low]; exact serving.small, high⟩, ?_⟩
  refine contents_of_shows (serving.shows.congr fun offset _ => ?_) ?_
  · rw [attended.tended.seen_clean clean, attended.inStep.iBlock]
  · rw [Inode.ext2ISize, low, high]
    omega

/-- `do_file_close`. -/
theorem doFileClose_serving (serving : Serving fs ino fh bytes) :
    Ensures (lib env) (SucceedingCall env) (doFileClose fh) (fun rc fs' => rc = 0 ∧ fs'.Stores ino ∧
      fs'.contents ino = bytes ∧ Aside ino fs fs') fs := by
  rw [doFileClose]
  refine ensures_lift_bind fun result later outcome succeeds => ?_
  rcases flushed : fs.ext2fsFileFlush fh with ⟨rc, file, fs₁⟩
  rw [SucceedingCall, lib_fileFlush flushed] at succeeds
  rw [lib_fileFlush flushed] at outcome
  cases outcome
  obtain rfl : rc = 0 := succeeds
  obtain ⟨moves, sees, clean, -⟩ := ext2fsFileFlush_moves serving.tended flushed
  obtain ⟨-, inStep, -⟩ := ext2fsFileFlush_extends serving.firstData serving.inStep flushed
  obtain ⟨attended, aside⟩ := serving.toAttended.moves moves inStep
  obtain ⟨sameSize, sameHigh⟩ := moves.sameSize
  have served : Serving later ino file bytes := by
    refine ⟨attended, serving.small, sameSize.trans serving.size, sameHigh.trans serving.high, ?_⟩
    refine serving.shows.congr fun offset inside => ?_
    have short := serving.small
    exact sees offset (addressable_below fs (by omega))
  obtain ⟨stores, stored⟩ := served.dropped (clean rfl)
  exact ensures_pure ⟨rfl, stores, stored, aside⟩

/-- `do_shorten` changes the volume and its inode alone. -/
theorem confined_doShorten (env : Env δ) (fs : Fs δ) (fh : File) (ino length : Nat) :
    Keeps (lib env) (Confined ino fs) (doShorten fh ino length) := by
  have look : ∀ fs', Confined ino fs fs' → Confined ino fs fs' := fun _ confined => confined
  have write : ∀ inode, Keeps (lib env) (Confined ino fs) (lift (.writeInode ino inode)) :=
    fun inode => keeps_lift fun fs' confined => confined.trans (confined_writeInode fs' ino inode)
  rw [doShorten]
  refine keeps_ite (keeps_pure _)
    (keeps_ite (keeps_pure _) (keeps_bind (keeps_lift look) fun super => ?_))
  refine keeps_bind ?_ fun sized => keeps_ite (keeps_pure _) (keeps_bind ?_ fun _ => ?_)
  · refine keeps_bind (keeps_lift fun fs' confined => ?_) fun _ => keeps_bind (write _)
      fun _ => keeps_pure _
    exact confined.trans (confined_vol rfl)
  · refine keeps_lift fun fs' confined => confined.trans ?_
    obtain ⟨vol, iBlock, sameSuper, truncated⟩ := lib_blockIterateTruncate_frame env fs' ino
      { lastBlockToKeep := if length = 0 then -1 else ((length - 1) / super.blocksize : Nat)
        numInIndirectBlock := super.addrPerBlock }
    rw [truncated]
    exact ⟨sameSuper, rfl, rfl, fun other apart => Function.update_of_ne apart _ _⟩
  · refine keeps_bind (keeps_lift look) fun read => ?_
    cases read with
    | error rc => exact keeps_pure _
    | ok inode => exact keeps_bind (write _) fun _ => keeps_pure _

/-- `do_shorten` through a fresh handle: the file loses its tail, and what the last block that is
kept holds behind it is not seen. -/
theorem doShorten_stores (serving : Serving fs ino fh bytes)
    (unread : fh.bufValid = false) {length : Nat} (shorter : length < bytes.length) :
    Leads (lib env) (doShorten fh ino length) (fun result fs' => result.1 = 0 ∧
      result.2.bufValid = false ∧ fs'.Stores ino ∧ fs'.contents ino = bytes.take length ∧
      Aside ino fs fs') fs := by
  have attended := serving.toAttended
  have valid := attended.isFile.valid
  have short := serving.small
  have clean : fh.bufDirty = false := by
    by_contra dirty
    rw [attended.tended.held (by simpa using dirty)] at unread
    cases unread
  have carries : Carries fs ino sizeWords (bytes.length, 0) fh := by
    refine ⟨valid, attended.inStep.own, ?_, ?_⟩
    · rw [sizeWords, serving.size, serving.high]
    · rw [sizeWords, show (fs.inodeTab ino).iSize = fh.inode.iSize from
          (congrArg Inode.iSize attended.inStep.current :).symm,
        show (fs.inodeTab ino).iSizeHigh = fh.inode.iSizeHigh from
          (congrArg Inode.iSizeHigh attended.inStep.current :).symm, serving.size, serving.high]
  have copied : fs.pointers ino = fh.inode.iBlock := by
    have copy := attended.tended.copy
    rwa [attended.inStep.own] at copy
  have tree : BlockTree fs.vol (fs.pointers ino) := by
    refine attended.apart.blockTree fun block inside present => ?_
    rw [attended.isFile.pointers_eq] at present
    exact attended.isFile.numbered block inside present
  rcases outcome : (doShorten fh ino length).run (lib env) fs with ⟨⟨rc, fh'⟩, fs'⟩
  obtain ⟨success, sized⟩ := (doShorten_part sizeWords_sized carries shorter).outcome outcome
  have confined : Confined ino fs fs' :=
    (confined_doShorten env fs fh ino length fs (.refl ino fs)).outcome outcome
  obtain ⟨resizes, -, -, buffer⟩ := doShorten_resizes valid attended.inStep outcome
  rw [Leads, outcome]
  dsimp only at success sized ⊢
  subst success
  obtain ⟨low, high⟩ := Prod.mk.inj sized.disk
  rw [Nat.mod_eq_of_lt (by omega)] at low
  obtain ⟨shortened, -⟩ := doShorten_shortens (by rw [serving.size]; exact shorter)
    (by rw [← copied]; exact tree) outcome
  rw [← copied] at shortened
  have isFile : fs'.IsFile ino := by
    refine attended.isFile.of_confined confined (resizes.kept .mode rfl (by rintro ⟨⟩))
      fun block inside absent present => ?_
    rw [shortened.mapped_eq tree inside, attended.isFile.pointers_eq, absent, ite_self] at present
    exact absurd rfl present
  have pointers := pointers_of_confined confined isFile.toRegularFile
  have spares := shortened.spares attended.apart
  rw [← pointers] at spares
  refine ⟨rfl, buffer.trans unread, ⟨isFile, spares.forest, by omega, high⟩, ?_, confined, spares⟩
  refine contents_of_shows ((serving.shows.take length).congr fun offset inside => ?_) ?_
  · rw [List.length_take] at inside
    have size : fs'.blocksize = fs.blocksize := blocksize_congr confined.super
    have first := Nat.div_mul_le_self offset fs.blocksize
    have kept := shortened.blockOf_eq tree (addressable_below fs (show offset < 2 ^ 32 by omega))
      (show offset / fs.blocksize * fs.vol.super.blocksize < length from by
        change offset / fs.blocksize * fs.blocksize < length
        omega)
    rw [attended.tended.seen_clean clean, byteAt_eq, byteAt_eq, size, kept, copied]
  · rw [Inode.ext2ISize, low, high, List.length_take]
    omega

/-- A handle without a buffer writes nothing when it is closed. -/
theorem doFileClose_unread (unread : fh.bufValid = false) :
    Leads (lib env) (doFileClose fh) (fun rc fs' => rc = 0 ∧ fs' = fs) fs := by
  have quiet : fs.ext2fsFileFlush fh = (0, fh, fs) := by
    rw [ext2fsFileFlush, unread]
    rfl
  rw [doFileClose, leads_bind, leads_lift, lib_fileFlush quiet]
  exact ⟨rfl, rfl⟩

/-- `do_ftruncate` through a fresh handle, which is closed next. -/
theorem doFtruncate_stores (serving : Serving fs ino fh bytes)
    (unread : fh.bufValid = false) {length : Nat} (small : length < 2 ^ 32) :
    Ensures (lib env) (SucceedingCall env) (doFtruncate fh ino length)
      (fun result fs' => result.1 = 0 ∧
      Ensures (lib env) (SucceedingCall env) (doFileClose result.2) (fun rc fs'' => rc = 0 ∧
        fs''.Stores ino ∧ fs''.contents ino = resize bytes length ∧ Aside ino fs fs'') fs') fs := by
  rw [doFtruncate, serving.size]
  rcases Nat.lt_trichotomy length bytes.length with shorter | same | longer
  · rw [if_neg (by omega), resize_of_le shorter.le]
    refine (doShorten_stores serving unread shorter).ensures.mono fun result later shortened => ?_
    obtain ⟨success, unreadToo, stores, cut, aside⟩ := shortened
    refine ⟨success, (doFileClose_unread unreadToo).ensures.mono fun rc next closed => ?_⟩
    obtain ⟨done, rfl⟩ := closed
    exact ⟨done, stores, cut, aside⟩
  · rw [if_neg (by omega), doShorten, serving.size, if_pos same, resize_of_le same.le, same,
      List.take_length]
    exact ensures_pure ⟨rfl, doFileClose_serving serving⟩
  · rw [if_pos longer, resize_of_ge longer.le]
    refine (doLengthen_serving serving longer small).mono fun result later lengthened => ?_
    obtain ⟨success, served, aside⟩ := lengthened
    refine ⟨success, (doFileClose_serving served).mono fun rc next closed => ?_⟩
    obtain ⟨done, stores, stored, asideToo⟩ := closed
    exact ⟨done, stores, stored, aside.trans asideToo⟩

/-- `do_truncate`: the file is cut, or gets zeros. -/
theorem doTruncate_stores (stores : fs.Stores ino) (perms : Perms) {length : Nat}
    (small : length < 2 ^ 32) :
    Ensures (lib env) (SucceedingCall env) (doTruncate perms ino length) (fun rc fs' => rc = 0 ∧
      fs'.Stores ino ∧ fs'.contents ino = resize
        (fs.contents ino) length ∧ Aside ino fs fs') fs := by
  have opens : Leads (lib env) (doOpen perms ino { creat := true, wronly := true })
    (fun result fs' =>
      result = .ok { ino := ino, inode := fs.inodeTab ino, writable := true } ∧ fs' = fs) fs := by
    rw [Leads, run_doOpen stores.isFile.valid perms rfl]
    exact ⟨rfl, rfl⟩
  rw [doTruncate]
  refine ensures_bind opens.ensures fun result later opened => ?_
  obtain ⟨rfl, rfl⟩ := opened
  refine ensures_bind (doFtruncate_stores (stores.serving true) rfl small)
    fun result later' resized => ?_
  obtain ⟨success, closes⟩ := resized
  refine ensures_bind closes fun rc next closed => ?_
  obtain ⟨rfl, kept, stored, aside⟩ := closed
  refine ensures_pure ⟨?_, kept, stored, aside⟩
  rw [success]
  rfl

end Serving

end Fs

end Ext2Fuse
