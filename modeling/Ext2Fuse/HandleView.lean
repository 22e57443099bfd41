import Ext2Fuse.FileTrees

/-!
# A file as a handle sees it

An open file reads as its blocks do, except for the block in the handle's buffer, which reads as
the buffer. Flushing, moving and loading the buffer do not change what the handle sees; a write
changes the bytes it is given, and what other files hold is left alone, also when a call fails on
the way.
-/

namespace Ext2Fuse

open Lib Volume

namespace Fs

variable {δ : Type}

/-- The bytes of a file as its handle sees them. -/
def seen (fs : Fs δ) (file : File) : Bytes := fun offset =>
  if file.bufValid = true ∧
    offset / fs.blocksize = file.blockno then file.buf (offset % fs.blocksize)
  else fs.byteAt file.inode.iBlock offset

/-- A handle in good order, where `pointers` are the block pointers of all files: the blocks of the
files do not overlap, the handle has those of its own, and a buffer that holds something is that of
one of the file's blocks before `limit`, with what is in it unless it is dirty. -/
structure Tended (fs : Fs δ) (pointers : Nat → Nat → Nat) (limit : Nat) (file : File) : Prop where
  valid : fs.validIno file.ino = true
  bounded : limit ≤ capacity fs.super.addrPerBlock
  forest : Forest fs.vol (places pointers)
  copy : pointers file.ino = file.inode.iBlock
  within : file.bufValid = true → file.blockno < limit
  block : file.bufValid = true → file.physblock ≠ 0 →
    file.physblock = fs.vol.mapped file.inode.iBlock file.blockno
  clean : file.bufValid = true → file.bufDirty = false → ∀ offset < fs.blocksize,
    file.buf offset = fs.vol.blockOf file.inode.iBlock file.blockno offset
  held : file.bufDirty = true → file.bufValid = true

/-- The inode with other blocks; a pointer that `iBlock` has is that of the copy `latest`. -/
def Older (inode latest : Inode) (iBlock : Nat → Nat) (iBlocks : Nat) (disk : Inode) : Prop :=
  disk = { inode with iBlock := iBlock, iBlocks := iBlocks } ∧
    ∀ slot : Fin EXT2_N_BLOCKS, iBlock slot ≠ 0 → latest.iBlock slot = iBlock slot

/-- What a call on a handle has come to: its file alone has been touched, and the handle is in good
order. Of the handle's copy of the inode only what is about blocks has changed, and the inode on
disk is the one that was there or a copy the handle had on the way. Logical blocks before `limit`
alone have got a block. -/
structure Moves (pointers : Nat → Nat → Nat) (limit : Nat) (fs fs' : Fs δ)
    (file file' : File) : Prop where
  ino : file'.ino = file.ino
  inode : ∃ iBlock iBlocks, file'.inode = { file.inode with iBlock := iBlock, iBlocks := iBlocks }
  disk : fs'.inodeTab file.ino = fs.inodeTab file.ino ∨
    ∃ iBlock iBlocks, Older file.inode file'.inode iBlock iBlocks (fs'.inodeTab file.ino)
  maps : ∀ block < capacity fs.super.addrPerBlock, fs.vol.mapped file.inode.iBlock block = 0 →
    fs'.vol.mapped file'.inode.iBlock block ≠ 0 → block < limit
  touches : Touches file.ino fs.vol fs'.vol pointers
    (Function.update pointers file.ino file'.inode.iBlock)
  confined : Confined file.ino fs fs'
  tended : Tended fs' (Function.update pointers file.ino file'.inode.iBlock) limit file'

section Handles

variable {fs fs' fs'' : Fs δ} {pointers : Nat → Nat → Nat} {limit : Nat} {file file' file'' : File}

theorem byteAt_eq (fs : Fs δ) (iBlock : Nat → Nat) (offset : Nat) :
    fs.byteAt iBlock offset = fs.vol.blockOf iBlock (offset / fs.blocksize)
      (offset % fs.blocksize) := by
  rw [byteAt, blockOf]
  split <;> rfl

/-- With a clean buffer the handle sees what is in the blocks. -/
theorem Tended.seen_clean (tended : Tended fs pointers limit file) (clean : file.bufDirty = false)
    (offset : Nat) :
    fs.seen file offset = fs.byteAt file.inode.iBlock offset := by
  rw [seen]
  split
  · rename_i inBuffer
    rw [byteAt_eq, inBuffer.2]
    exact tended.clean inBuffer.1 clean _ (Nat.mod_lt _ fs.blocksize_pos)
  · rfl

theorem Tended.refl (tended : Tended fs pointers limit file) :
    Moves pointers limit fs fs file file where
  ino := rfl
  inode := ⟨_, _, rfl⟩
  disk := .inl rfl
  maps _ _ absent present := absurd absent present
  touches := by
    rw [← tended.copy, Function.update_eq_self]
    exact .refl tended.forest _
  confined := .refl _ fs
  tended := by
    rw [← tended.copy, Function.update_eq_self]
    exact tended

/-- Two moves of a handle in a row are one. -/
theorem Moves.trans (first : Moves pointers limit fs fs' file file')
    (second : Moves (Function.update pointers file.ino file'.inode.iBlock) limit fs'
      fs'' file' file'') :
    Moves pointers limit fs fs'' file file'' := by
  obtain ⟨sameIno, ⟨iBlock, iBlocks, inode⟩, disk, maps, touches, confined, tended⟩ := second
  obtain ⟨iBlock', iBlocks', inode'⟩ := first.inode
  rw [first.ino] at touches confined tended sameIno disk
  rw [Function.update_idem] at touches tended
  refine ⟨sameIno, ⟨iBlock, iBlocks, by rw [inode, inode']⟩, ?_,
    fun block small absent present => ?_,
    first.touches.trans touches, first.confined.trans confined, tended⟩
  rotate_left
  · by_cases early : fs'.vol.mapped file'.inode.iBlock block = 0
    · exact maps block (by rw [first.confined.super]; exact small) early present
    · exact first.maps block small absent early
  obtain unwritten | ⟨written, sectors, copy, older⟩ := disk
  · rw [unwritten]
    refine first.disk.imp_right ?_
    rintro ⟨earlier, sectors, copy, kept⟩
    refine ⟨earlier, sectors, copy, fun slot present => ?_⟩
    have before := kept slot present
    have later := touches.slots slot (by rw [Function.update_self, before]; exact present)
    rw [Function.update_self, Function.update_self] at later
    rw [later, before]
  · exact .inr ⟨written, sectors, by rw [copy, inode'], older⟩

/-- The handle has another position, or another buffer, and the disk is as it was. -/
theorem Tended.still (tended : Tended fs pointers limit file)
    (tended' : Tended fs pointers limit file')
    (ino : file'.ino = file.ino) (inode : file'.inode = file.inode) :
    Moves pointers limit fs fs file file' := by
  have same : Function.update pointers file.ino file'.inode.iBlock = pointers := by
    rw [inode, ← tended.copy, Function.update_eq_self]
  refine ⟨ino, ⟨_, _, inode⟩, .inl rfl, fun _ _ absent present => ?_, ?_, .refl _ fs, ?_⟩
  · rw [inode] at present
    exact absurd absent present
  · rw [same]
    exact .refl tended.forest _
  · rw [same]
    exact tended'

/-- Seeking. -/
theorem Tended.seek (tended : Tended fs pointers limit file) (pos : Nat) :
    Tended fs pointers limit { file with pos := pos } :=
  ⟨tended.valid, tended.bounded, tended.forest, tended.copy, tended.within,
    tended.block, tended.clean, tended.held⟩

/-- The handle's copy, with other times or another size, goes to disk. -/
theorem Tended.save (tended : Tended fs pointers limit file) {inode : Inode}
    (blocks : inode.iBlock = file.inode.iBlock) (ino : Nat) :
    let fs' := { fs.advance with inodeTab := Function.update fs.inodeTab ino inode }
    Tended fs' pointers limit
      { file with inode := inode } ∧ Spares ino fs.vol fs'.vol pointers pointers ∧
      ∀ offset, fs'.seen { file with inode := inode } offset = fs.seen file offset := by
  intro fs'
  obtain ⟨valid, bounded, forest, copy, within, block, clean, held⟩ := tended
  have planted : Forest fs'.vol (places pointers) :=
    ⟨⟨forest.sound.1, forest.sound.2, forest.sound.3⟩, forest.planted⟩
  refine ⟨⟨valid, bounded, planted, copy.trans blocks.symm, within, fun filled present => ?_,
    fun filled quiet offset inside => ?_, held⟩,
    ⟨rfl, planted, fun _ _ => rfl, fun _ _ _ _ => rfl, fun _ _ _ _ => rfl,
      fun tidy => tidy.congr rfl rfl rfl⟩,
    fun offset => ?_⟩
  · exact (block filled present).trans (by rw [← blocks]; rfl)
  · exact (clean filled quiet offset inside).trans (by rw [← blocks]; rfl)
  · rw [seen, seen, blocks]
    rfl

theorem seen_seek (fs : Fs δ) (file : File) (pos : Nat) :
    fs.seen { file with pos := pos } = fs.seen file := rfl

/-- What `ext2fs_bmap` for the handle comes to. -/
theorem ext2fsBmap_moves {ino block : Nat} {inode : Inode} (valid : fs.validIno ino = true)
    (forest : Forest fs.vol (places pointers)) (copy : pointers ino = inode.iBlock)
    (small : block < capacity fs.super.addrPerBlock) (alloc : Bool) {result : Except Errcode Nat}
    {inode' : Inode} (outcome : fs.ext2fsBmap ino inode alloc block = (result, inode', fs')) :
    Touches ino fs.vol fs'.vol pointers (Function.update pointers ino inode'.iBlock) ∧
      (∀ other < capacity fs.super.addrPerBlock,
        fs'.vol.blockOf inode'.iBlock other = fs.vol.blockOf inode.iBlock other) ∧
      (∀ blk, result = .ok blk → fs'.vol.mapped inode'.iBlock block = blk ∧
        (alloc = true → blk ≠ 0)) ∧
      (∃ iBlock iBlocks, inode' = { inode with iBlock := iBlock, iBlocks := iBlocks }) ∧
      (fs'.inodeTab ino = fs.inodeTab ino ∨ fs'.inodeTab ino = inode') ∧
      ∀ other < capacity fs.super.addrPerBlock, fs.vol.mapped inode.iBlock other = 0 →
        fs'.vol.mapped inode'.iBlock other ≠ 0 → other = block := by
  have maps := bmapBlocks_maps forest ino alloc small
  have super := fs.vol.bmapBlocks_super alloc inode.iBlock block
  rw [copy] at maps
  simp only [ext2fsBmap] at outcome
  rcases walked : fs.vol.bmapBlocks inode.iBlock alloc
    block with ⟨_ | ⟨blk, allocated⟩, iBlock, vol⟩
  all_goals
    rw [walked] at maps outcome super
    have touches := maps.touches forest
    have contents : ∀ other < capacity fs.super.addrPerBlock,
        vol.blockOf iBlock other = fs.vol.blockOf inode.iBlock other := by
      intro other inside
      have same := @Grows.blockOf_eq fs.vol vol pointers
        (Function.update pointers ino iBlock) ino ino other
        maps.grows forest inside
      rwa [Function.update_self, copy] at same
    have fresh := maps.fresh
    rw [copy] at fresh
    dsimp only at outcome super touches fresh
  · cases outcome
    exact ⟨touches, contents, fun _ => by rintro ⟨⟩, ⟨_, _, rfl⟩, .inl rfl, fresh⟩
  · obtain ⟨found, present⟩ := maps.found blk allocated rfl
    dsimp only at found present
    have validLater : ({ fs with vol := vol } : Fs δ).validIno ino = true :=
      (validIno_congr (by exact super) ino).trans valid
    split at outcome
    · cases outcome
      refine ⟨touches, contents, fun blk' same => ?_, ⟨_, _, rfl⟩, .inl rfl, fresh⟩
      cases same
      exact ⟨found, present⟩
    · simp only [ext2fsWriteInode, validLater, if_true] at outcome
      cases outcome
      refine ⟨touches, contents,
        fun blk' same => ?_, ⟨_, _, rfl⟩, .inr (Function.update_self ..), fresh⟩
      cases same
      exact ⟨found, present⟩

/-- The block of an offset that is behind no limit. -/
def Addressable (fs : Fs δ) (offset : Nat) : Prop :=
  offset / fs.blocksize < capacity fs.super.addrPerBlock

/-- The handle sees the same bytes as before, wherever the file can have some. -/
def SeesSame (fs fs' : Fs δ) (file file' : File) : Prop :=
  ∀ offset, fs.Addressable offset → fs'.seen file' offset = fs.seen file offset

theorem blocksize_congr (same : fs'.super = fs.super) : fs'.blocksize = fs.blocksize :=
  congrArg Super.blocksize same

theorem addressable_congr (same : fs'.super = fs.super) (offset : Nat) :
    fs'.Addressable offset ↔ fs.Addressable offset := by
  rw [Addressable, Addressable, blocksize_congr same, same]

/-- Seeing the same is transitive. -/
theorem SeesSame.trans (super : fs'.super = fs.super) (first : SeesSame fs fs' file file')
    (second : SeesSame fs' fs'' file' file'') : SeesSame fs fs'' file file'' := by
  intro offset small
  rw [second offset ((addressable_congr super offset).mpr small), first offset small]

/-- The inode on disk is the one that was there, or the copy. -/
theorem older_of_copy {inode inode' disk disk' : Inode}
    (copy : ∃ iBlock iBlocks, inode' = { inode with iBlock := iBlock, iBlocks := iBlocks })
    (written : disk' = disk ∨ disk' = inode') :
    disk' = disk ∨ ∃ iBlock iBlocks, Older inode inode' iBlock iBlocks disk' := by
  refine written.imp_right ?_
  rintro rfl
  obtain ⟨iBlock, iBlocks, rfl⟩ := copy
  exact ⟨iBlock, iBlocks, rfl, fun _ _ => rfl⟩

/-- A dirty buffer has been written to the block it is for. -/
theorem Tended.stored (tended : Tended fs pointers limit file)
    (held : file.bufValid = true) (file' : File) (fs' : Fs δ) (own : file'.ino = file.ino)
    (touches : Touches file.ino fs.vol fs'.vol pointers
      (Function.update pointers file.ino file'.inode.iBlock))
    (contents : ∀ other < capacity fs.super.addrPerBlock,
      fs'.vol.blockOf file'.inode.iBlock other = fs.vol.blockOf file.inode.iBlock other)
    (inode : ∃ iBlock iBlocks, file'.inode =
      { file.inode with iBlock := iBlock, iBlocks := iBlocks })
    (disk : fs'.inodeTab file.ino = fs.inodeTab file.ino ∨ fs'.inodeTab file.ino = file'.inode)
    (maps : ∀ other < capacity fs.super.addrPerBlock, fs.vol.mapped file.inode.iBlock other = 0 →
      fs'.vol.mapped file'.inode.iBlock other ≠ 0 → other = file.blockno)
    (confined : Confined file.ino fs fs') {blk : Nat} (present : blk ≠ 0)
    (found : fs'.vol.mapped file'.inode.iBlock file.blockno = blk) {final : File}
    (handle : final = { file' with physblock := blk, bufDirty := false })
    (buffer : file'.bufValid = true ∧ file'.blockno = file.blockno ∧ file'.buf = file.buf) :
    let fs'' := { fs' with vol := fs'.vol.writeBlk blk file.buf }
    Moves pointers limit fs fs'' file final ∧ SeesSame fs fs'' file final := by
  intro fs''
  subst handle
  obtain ⟨filled, blockno, buf⟩ := buffer
  have early := tended.within held
  have small := early.trans_le tended.bounded
  have super : fs'.vol.super = fs.vol.super := touches.super
  have small' : file.blockno < capacity fs'.vol.super.addrPerBlock := by
    rw [super]
    exact small
  have own' : Function.update pointers file.ino file'.inode.iBlock file.ino = file'.inode.iBlock :=
    Function.update_self ..
  have mapped : fs'.vol.mapped
    (Function.update pointers file.ino file'.inode.iBlock file.ino) file.blockno =
      blk := by
    rw [own']
    exact found
  have written := touches.forest.touches_write small' (by rw [mapped]; exact present) file.buf
  obtain ⟨planted, reads⟩ := touches.forest.writeBlk small' (by rw [mapped]; exact present) file.buf
  rw [mapped] at written planted reads
  have ownReads : ∀ other < capacity fs.vol.super.addrPerBlock,
      fs''.vol.mapped file'.inode.iBlock other = fs'.vol.mapped file'.inode.iBlock other ∧
        fs''.vol.blockOf file'.inode.iBlock other =
          if other = file.blockno then file.buf else fs'.vol.blockOf file'.inode.iBlock other := by
    intro other inside
    have here := reads file.ino other (by rw [super]; exact inside)
    rw [own'] at here
    simpa using here
  refine ⟨⟨own, inode, older_of_copy inode disk,
    fun block inside absent mapped' => ?_, touches.trans written,
    confined.trans (confined_vol rfl), ?_⟩, ?_⟩
  · rw [(ownReads block inside).1] at mapped'
    exact maps block inside absent mapped' ▸ early
  · refine ⟨?_, ?_, planted, ?_, fun _ => ?_, fun _ _ => ?_, fun _ _ offset _ => ?_, nofun⟩
    · dsimp only
      rw [own]
      exact (validIno_congr (by exact super) _).trans tended.valid
    · exact tended.bounded.trans_eq (congrArg (fun super => capacity super.addrPerBlock) super.symm)
    · dsimp only
      rw [own, Function.update_self]
    · dsimp only
      rw [blockno]
      exact early
    · dsimp only
      rw [blockno, (ownReads _ small).1, found]
    · dsimp only
      rw [blockno, (ownReads _ small).2, if_pos rfl, buf]
  · intro offset inside
    have size : fs''.blocksize = fs.blocksize := congrArg Super.blocksize super
    rw [seen, seen, size]
    dsimp only
    rw [blockno, buf, filled]
    simp only [true_and, held]
    split
    · rfl
    · rename_i elsewhere
      rw [byteAt_eq, byteAt_eq, size, (ownReads _ inside).2, if_neg elsewhere, contents _ inside]

/-- `ext2fs_file_flush`: the handle sees what it saw, whether there is a block for the buffer or
not. -/
theorem ext2fsFileFlush_moves (tended : Tended fs pointers limit file) {rc : Errcode}
    (outcome : fs.ext2fsFileFlush file = (rc, file', fs')) :
    Moves pointers limit fs fs' file file' ∧ SeesSame fs fs' file file' ∧
      (rc = 0 → file'.bufDirty = false) ∧ file'.pos = file.pos := by
  simp only [ext2fsFileFlush] at outcome
  split at outcome
  · rename_i quiet
    cases outcome
    refine ⟨tended.refl, fun _ _ => rfl, fun _ => ?_, rfl⟩
    by_contra dirty
    rw [Bool.not_eq_false] at dirty
    simp [dirty, tended.held dirty] at quiet
  rename_i dirty
  have held : file.bufValid = true ∧ file.bufDirty = true := by simpa using dirty
  split at outcome
  · rename_i unmapped
    have allocates : (file.ino != 0) = true := by
      have valid := tended.valid
      simp only [validIno, Bool.and_eq_true, decide_eq_true_eq] at valid
      simpa using Nat.pos_iff_ne_zero.mp valid.1
    rw [allocates] at outcome
    rcases mapping : fs.ext2fsBmap file.ino file.inode true file.blockno with ⟨_ | blk, inode', fs₁⟩
    all_goals
      rw [mapping] at outcome
      have confined := confined_bmap fs file.ino file.inode true file.blockno
      rw [mapping] at confined
      obtain ⟨touches, contents, found, inode, disk, fresh⟩ :=
        ext2fsBmap_moves tended.valid tended.forest
        tended.copy ((tended.within held.1).trans_le tended.bounded) true mapping
    · cases outcome
      refine ⟨⟨rfl, inode, older_of_copy inode disk,
        fun block inside absent mapped => ?_, touches, confined, ?_⟩, ?_, fun zero => ?_, rfl⟩
      · exact fresh block inside absent mapped ▸ tended.within held.1
      · refine ⟨?_, ?_, touches.forest, Function.update_self .., fun _ => tended.within held.1,
          fun _ hasBlock => ?_, fun _ clean => ?_, fun _ => held.1⟩
        · exact (validIno_congr confined.super _).trans tended.valid
        · rw [confined.super]
          exact tended.bounded
        · exact absurd rfl hasBlock
        · exact absurd (held.2.symm.trans clean) (by simp)
      · intro offset inside
        rw [seen, seen, blocksize_congr confined.super]
        dsimp only
        split
        · rfl
        · rw [byteAt_eq, byteAt_eq, blocksize_congr confined.super, contents _ inside]
      · exact absurd zero (ext2fsBmap_error mapping)
    · cases outcome
      obtain ⟨mapped, present⟩ := found blk rfl
      obtain ⟨moves, sees⟩ := tended.stored held.1 { file with inode := inode' } fs₁ rfl
        touches contents
        inode disk fresh confined (present rfl) mapped rfl ⟨held.1, rfl, rfl⟩
      exact ⟨moves, sees, fun _ => rfl, rfl⟩
  · rename_i mapped
    cases outcome
    have same : Function.update pointers file.ino file.inode.iBlock = pointers := by
      rw [← tended.copy, Function.update_eq_self]
    obtain ⟨moves, sees⟩ := tended.stored held.1 file fs rfl
      (by rw [same]; exact .refl tended.forest _) (fun _ _ => rfl) ⟨_, _, rfl⟩ (.inl rfl)
      (fun _ _ absent present => absurd absent present) (.refl _ fs) mapped
      (tended.block held.1 mapped).symm rfl ⟨held.1, rfl, rfl⟩
    exact ⟨moves, sees, fun _ => rfl, rfl⟩

/-- `sync_buffer_position`: the buffer moves to the block of the position. -/
theorem syncBufferPosition_moves (tended : Tended fs pointers limit file) {rc : Errcode}
    (outcome : fs.syncBufferPosition file = (rc, file', fs')) :
    Moves pointers limit fs fs' file file' ∧ SeesSame fs fs' file file' ∧
      (rc = 0 → file'.blockno = file.pos / fs.blocksize) ∧ file'.pos = file.pos := by
  simp only [syncBufferPosition] at outcome
  by_cases here : file.pos / fs.blocksize = file.blockno
  · rw [if_neg (not_not.mpr here)] at outcome
    cases outcome
    exact ⟨tended.refl, fun _ _ => rfl, fun _ => here.symm, rfl⟩
  rw [if_pos here] at outcome
  rcases flushed : fs.ext2fsFileFlush file with ⟨flushRc, file₁, fs₁⟩
  obtain ⟨moves, sees, clean, pos⟩ := ext2fsFileFlush_moves tended flushed
  rw [flushed] at outcome
  by_cases failed : flushRc = 0
  · subst failed
    cases outcome
    have tended₁ := moves.tended
    have left : Tended fs' (Function.update pointers file.ino file₁.inode.iBlock) limit
        { file₁ with bufValid := false, blockno := file.pos / fs.blocksize } := by
      refine ⟨tended₁.valid, tended₁.bounded, tended₁.forest, tended₁.copy,
        by rintro ⟨⟩, by rintro ⟨⟩, by rintro ⟨⟩, fun dirty => ?_⟩
      rw [clean rfl] at dirty
      cases dirty
    refine ⟨moves.trans (tended₁.still left rfl rfl), ?_, fun _ => rfl, pos⟩
    refine sees.trans moves.touches.super fun offset _ => ?_
    rw [tended₁.seen_clean (clean rfl), seen]
    simp only [Bool.false_eq_true, false_and, if_false]
  · split at outcome
    · rename_i same
      exact absurd (congrArg Prod.fst same) failed
    · rename_i same
      cases outcome
      cases same
      exact ⟨moves, sees, fun zero => absurd zero failed, pos⟩

/-- What `load_buffer` fills the buffer with is what the handle sees of the block. -/
theorem loaded_buf (fs : Fs δ) (file : File) {offset : Nat} (inside : offset < fs.blocksize) :
    (fs.loaded file false).buf offset = fs.seen file (file.blockno * fs.blocksize + offset) := by
  have block : (file.blockno * fs.blocksize + offset) / fs.blocksize = file.blockno := by
    rw [Nat.mul_comm, Nat.mul_add_div fs.blocksize_pos, Nat.div_eq_of_lt inside, Nat.add_zero]
  have rest : (file.blockno * fs.blocksize + offset) % fs.blocksize = offset := by
    rw [Nat.mul_comm, Nat.mul_add_mod, Nat.mod_eq_of_lt inside]
  rw [loaded, seen]
  by_cases filled : file.bufValid = true
  · rw [if_pos filled, if_pos ⟨filled, block⟩, rest]
  · rw [if_neg filled, if_neg (fun held => filled held.1)]
    simp only [byteAt, block, rest, Bool.false_eq_true, if_false]
    split <;> rfl

/-- The handle stays in good order when its buffer is loaded, and sees what it saw. -/
theorem loaded_tended (tended : Tended fs pointers limit file)
    (small : file.blockno < limit) :
    Tended fs pointers limit (fs.loaded file false) ∧ ∀ offset,
      fs.seen (fs.loaded file false) offset = fs.seen file offset := by
  rw [loaded]
  by_cases filled : file.bufValid = true
  · rw [if_pos filled]
    exact ⟨tended, fun _ => rfl⟩
  rw [if_neg filled]
  have clean : file.bufDirty = false := by
    by_contra dirty
    exact filled (tended.held (by simpa using dirty))
  have loads : Tended fs pointers limit { file with
      physblock := fs.vol.mapped file.inode.iBlock file.blockno
      buf := if false = true then file.buf
        else if fs.vol.mapped file.inode.iBlock file.blockno = 0 then fun _ => 0
        else fs.vol.io (fs.vol.mapped file.inode.iBlock file.blockno)
      bufValid := true } := by
    refine ⟨tended.valid, tended.bounded, tended.forest, tended.copy,
      fun _ => small, fun _ _ => rfl, fun _ _ offset _ => ?_, fun _ => rfl⟩
    rw [blockOf]
    simp only [Bool.false_eq_true, if_false]
  refine ⟨loads, fun offset => ?_⟩
  rw [loads.seen_clean clean, tended.seen_clean clean]

/-- A piece of data goes into the buffer of the block it belongs to. -/
theorem Tended.fill (tended : Tended fs pointers limit file)
    (here : file.blockno = file.pos / fs.blocksize)
    (small : file.pos / fs.blocksize < limit) (dontfill : Bool) {part : List UInt8}
    (fits : file.pos % fs.blocksize + part.length ≤ fs.blocksize)
    (whole : dontfill = true → part.length = fs.blocksize) (pos : Nat) :
    let filled := { fs.loaded file dontfill with
      bufDirty := true
      buf := (fs.loaded file dontfill).buf.write (file.pos % fs.blocksize) part
      pos := pos }
    Tended fs pointers limit filled ∧ ∀ offset, fs.Addressable offset →
      fs.seen filled offset = (fs.seen file).write file.pos part offset := by
  intro filled
  have positive := fs.blocksize_pos
  have division := Nat.div_add_mod' file.pos fs.blocksize
  refine ⟨⟨?_, tended.bounded, tended.forest, ?_, fun _ => ?_, fun _ hasBlock => ?_, nofun,
    fun _ => loaded_bufValid ..⟩, ?_⟩
  · simpa [filled] using tended.valid
  · simpa [filled] using tended.copy
  · simp only [filled, loaded_blockno, here]
    exact small
  · change (fs.loaded file dontfill).physblock ≠ 0 at hasBlock
    change (fs.loaded file dontfill).physblock =
      fs.vol.mapped (fs.loaded file dontfill).inode.iBlock (fs.loaded file dontfill).blockno
    rw [loaded_inode, loaded_blockno]
    rw [loaded] at hasBlock ⊢
    split at hasBlock
    · rename_i held
      rw [if_pos held]
      exact tended.block held hasBlock
    · rename_i empty
      rw [if_neg empty]
  · intro offset _
    have remainder := Nat.div_add_mod' offset fs.blocksize
    have within := Nat.mod_lt offset positive
    have blockno : filled.blockno = file.pos / fs.blocksize := (loaded_blockno ..).trans here
    rw [seen, blockno]
    by_cases inBlock : offset / fs.blocksize = file.pos / fs.blocksize
    · rw [if_pos ⟨loaded_bufValid .., inBlock⟩]
      rw [inBlock] at remainder
      change Bytes.write (fs.loaded file dontfill).buf (file.pos % fs.blocksize) part
        (offset % fs.blocksize) = _
      by_cases inPart : file.pos ≤ offset ∧ offset < file.pos + part.length
      · rw [Bytes.write_apply_inside _ (by omega) (by omega),
          Bytes.write_apply_inside _ (by omega) (by omega)]
        congr 1
        omega
      · rw [Bytes.write_apply_outside _ (by omega), Bytes.write_apply_outside _ (by omega)]
        cases dontfill with
        | true =>
            have all := whole rfl
            omega
        | false => rw [loaded_buf fs file within, here, remainder]
    · rw [if_neg (fun both => inBlock both.2), Bytes.write_apply_outside]
      · simp only [filled, loaded_inode]
        rw [seen, here, if_neg (fun both => inBlock both.2)]
      · -- the piece ends with the block
        by_contra inPart
        refine inBlock (Nat.div_eq_of_lt_le (by omega) ?_)
        rw [Nat.succ_mul]
        omega

theorem addressable_iff (fs : Fs δ) (offset : Nat) :
    fs.Addressable offset ↔ offset < capacity fs.super.addrPerBlock * fs.blocksize :=
  Nat.div_lt_iff_lt_mul fs.blocksize_pos

/-- The loop of `ext2fs_file_write`: a write that succeeds changes the bytes it is given. -/
theorem fileWriteLoop_moves (tended : Tended fs pointers limit file) {bound count written : Nat}
    {data : List UInt8} {rc : Errcode} (enough : data.length ≤ bound)
    (inside : file.pos + data.length ≤ limit * fs.blocksize)
    (outcome : fs.fileWriteLoop bound file data count = (rc, written, file', fs')) :
    Moves pointers limit fs fs' file file' ∧ (rc = 0 → written = count + data.length ∧
      ∀ offset, fs.Addressable offset → fs'.seen file' offset =
        (fs.seen file).write file.pos data offset) := by
  induction bound generalizing fs file data count pointers with
  | zero =>
      obtain rfl : data = [] := List.eq_nil_of_length_eq_zero (by omega)
      cases outcome
      exact ⟨tended.refl, fun _ => ⟨rfl, fun offset _ => by rw [Bytes.write_nil]⟩⟩
  | succ bound inductionHypothesis =>
      rw [fileWriteLoop] at outcome
      by_cases done : data = []
      · rw [if_pos done] at outcome
        cases outcome
        subst done
        exact ⟨tended.refl, fun _ => ⟨rfl, fun offset _ => by rw [Bytes.write_nil]⟩⟩
      rw [if_neg done] at outcome
      have nonempty : 0 < data.length := List.length_pos_iff.mpr done
      rcases synced : fs.syncBufferPosition file with ⟨syncRc, file₁, fs₁⟩
      obtain ⟨moves, sees, blockno, pos⟩ := syncBufferPosition_moves tended synced
      rw [synced] at outcome
      by_cases failed : syncRc = 0
      swap
      · split at outcome
        · rename_i same
          exact absurd (congrArg Prod.fst same) failed
        · rename_i same
          cases same
          cases outcome
          exact ⟨moves, fun zero => absurd zero failed⟩
      subst failed
      have super : fs₁.super = fs.super := moves.confined.super
      have size := blocksize_congr super
      have start : file₁.pos % fs₁.blocksize < fs₁.blocksize := Nat.mod_lt _ fs₁.blocksize_pos
      simp only [loadBuffer_eq, loaded_pos] at outcome
      generalize partEq : min (fs₁.blocksize - file₁.pos % fs₁.blocksize)
        data.length = part at outcome
      have taken : (data.take part).length = part := by
        rw [List.length_take]
        omega
      have small : file₁.pos / fs₁.blocksize < limit := by
        rw [Nat.div_lt_iff_lt_mul fs₁.blocksize_pos, size, pos]
        omega
      obtain ⟨tended', filled⟩ := moves.tended.fill (by rw [blockno rfl, size, pos]) small
        (part == fs₁.blocksize) (show _ + (data.take part).length ≤ _ by omega)
        (fun all => by rw [taken]; simpa using all) (file₁.pos + part)
      obtain ⟨rest, finished⟩ := inductionHypothesis tended' (by rw [List.length_drop]; omega)
        (by
          rw [List.length_drop, size]
          dsimp only
          omega) outcome
      have stays := moves.tended.still tended' (loaded_ino ..) (loaded_inode ..)
      refine ⟨moves.trans (stays.trans ?_), fun ok => ?_⟩
      · rw [show Function.update
          (Function.update pointers file.ino file₁.inode.iBlock) file₁.ino _ =
          Function.update pointers file.ino file₁.inode.iBlock from ?_]
        · exact rest
        · rw [loaded_inode, moves.ino, Function.update_idem]
      · obtain ⟨counted, bytes⟩ := finished ok
        refine ⟨by rw [counted, List.length_drop]; omega, fun offset reachable => ?_⟩
        have reachable₁ : fs₁.Addressable offset := (addressable_congr super offset).mpr reachable
        rw [bytes offset reachable₁, Bytes.write_congr (filled offset reachable₁)]
        dsimp only
        rw [Bytes.write_congr (Bytes.write_congr (sees offset reachable) _ _), pos]
        have whole := Bytes.write_append (fs.seen file) file.pos (data.take part) (data.drop part)
        rw [List.take_append_drop, taken] at whole
        rw [whole]

/-- `ext2fs_file_write`. -/
theorem ext2fsFileWrite_moves (tended : Tended fs pointers limit file) {written : Nat}
    {data : List UInt8} {rc : Errcode} (inside : file.pos + data.length ≤ limit * fs.blocksize)
    (outcome : fs.ext2fsFileWrite file data = (rc, written, file', fs')) :
    Moves pointers limit fs fs' file file' ∧ (rc = 0 → written = data.length ∧
      ∀ offset, fs.Addressable offset → fs'.seen file' offset =
        (fs.seen file).write file.pos data offset) := by
  rw [ext2fsFileWrite] at outcome
  split at outcome
  · have wrote := fileWriteLoop_moves tended le_rfl inside outcome
    rwa [Nat.zero_add] at wrote
  · cases outcome
    exact ⟨tended.refl, fun zero => absurd zero (by decide)⟩

/-- The loop of `ext2fs_file_read`: what is returned is what the handle sees, as far as the file
goes, and the handle goes on seeing it. -/
theorem fileReadLoop_moves (tended : Tended fs pointers limit file) {bound wanted : Nat}
    {got bytes : List UInt8} {rc : Errcode} (enough : wanted ≤ bound)
    (inside : file.inode.ext2ISize ≤ limit * fs.blocksize)
    (outcome : fs.fileReadLoop bound file wanted got = (rc, bytes, file', fs')) :
    Moves pointers limit fs fs' file file' ∧ SeesSame fs fs' file file' ∧
      (rc = 0 → bytes =
        got ++ (fs.seen file).read file.pos (min wanted (file.inode.ext2ISize - file.pos))) := by
  induction bound generalizing fs file wanted got pointers with
  | zero =>
      obtain rfl : wanted = 0 := by omega
      cases outcome
      exact ⟨tended.refl, fun _ _ => rfl, fun _ => by simp [Bytes.read]⟩
  | succ bound inductionHypothesis =>
      rw [fileReadLoop] at outcome
      by_cases more : file.pos < file.inode.ext2ISize ∧ 0 < wanted
      swap
      · rw [if_neg more] at outcome
        have nothing : min wanted (file.inode.ext2ISize - file.pos) = 0 := by omega
        cases outcome
        refine ⟨tended.refl, fun _ _ => rfl, fun _ => ?_⟩
        rw [nothing]
        simp [Bytes.read]
      rw [if_pos more] at outcome
      rcases synced : fs.syncBufferPosition file with ⟨syncRc, file₁, fs₁⟩
      obtain ⟨moves, sees, blockno, pos⟩ := syncBufferPosition_moves tended synced
      rw [synced] at outcome
      by_cases failed : syncRc = 0
      swap
      · split at outcome
        · rename_i same
          exact absurd (congrArg Prod.fst same) failed
        · rename_i same
          cases same
          cases outcome
          exact ⟨moves, sees, fun zero => absurd zero failed⟩
      subst failed
      have super : fs₁.super = fs.super := moves.confined.super
      have size := blocksize_congr super
      have sizes : file₁.inode.ext2ISize = file.inode.ext2ISize := by
        obtain ⟨iBlock, iBlocks, inode⟩ := moves.inode
        rw [inode]
        rfl
      have small : file₁.pos / fs₁.blocksize < limit := by
        rw [Nat.div_lt_iff_lt_mul fs₁.blocksize_pos, size, pos]
        omega
      have here : file₁.blockno = file₁.pos / fs₁.blocksize := by rw [blockno rfl, size, pos]
      obtain ⟨loads, same⟩ := loaded_tended moves.tended (by rw [here]; exact small)
      simp only [loadBuffer_eq] at outcome
      have start : file₁.pos % fs₁.blocksize < fs₁.blocksize := Nat.mod_lt _ fs₁.blocksize_pos
      generalize partEq : min (min
        (fs₁.blocksize - (fs₁.loaded file₁ false).pos % fs₁.blocksize) wanted)
        ((fs₁.loaded file₁ false).inode.ext2ISize - (fs₁.loaded file₁ false).pos) = part at outcome
      rw [loaded_pos] at partEq outcome
      rw [loaded_inode] at partEq
      have piece : (fs₁.loaded file₁ false).buf.read (file₁.pos % fs₁.blocksize) part =
          (fs.seen file).read file.pos part := by
        apply List.ext_getElem
        · simp
        intro index bound _
        rw [Bytes.length_read] at bound
        rw [Bytes.getElem_read, Bytes.getElem_read, loaded_buf fs₁ file₁ (by omega), here, ← pos,
          ← sees _ ((addressable_congr super _).mp ?_)]
        · congr 1
          have division := Nat.div_add_mod' file₁.pos fs₁.blocksize
          omega
        · rw [addressable_iff, super, size]
          have below := Nat.mul_le_mul_right fs.blocksize tended.bounded
          omega
      obtain ⟨rest, stillSees, complete⟩ := inductionHypothesis (loads.seek (file₁.pos + part))
        (show wanted - part ≤ bound by omega) (by
          dsimp only
          rw [loaded_inode, sizes, size]
          exact inside) outcome
      have stays := moves.tended.still (loads.seek (file₁.pos + part)) (loaded_ino ..)
        (loaded_inode ..)
      refine ⟨moves.trans (stays.trans ?_), ?_, fun ok => ?_⟩
      · rw [show Function.update
          (Function.update pointers file.ino file₁.inode.iBlock) file₁.ino _ =
          Function.update pointers file.ino file₁.inode.iBlock from ?_]
        · exact rest
        · rw [loaded_inode, moves.ino, Function.update_idem]
      · refine sees.trans super fun offset reachable => ?_
        rw [stillSees offset reachable]
        exact same offset
      · rw [complete ok, piece, seen_seek fs₁ (fs₁.loaded file₁ false)]
        dsimp only
        rw [loaded_inode, sizes, List.append_assoc]
        congr 1
        rw [show min wanted (file.inode.ext2ISize - file.pos) =
          part + min (wanted - part) (file.inode.ext2ISize - (file₁.pos + part))
            by omega, Bytes.read_add, pos]
        congr 1
        refine Bytes.read_congr fun index low high => ?_
        rw [same, sees]
        rw [addressable_iff]
        have below := Nat.mul_le_mul_right fs.blocksize tended.bounded
        omega

/-- `ext2fs_file_read`. -/
theorem ext2fsFileRead_moves (tended : Tended fs pointers limit file) {wanted : Nat}
    {bytes : List UInt8} {rc : Errcode} (inside : file.inode.ext2ISize ≤ limit * fs.blocksize)
    (outcome : fs.ext2fsFileRead file wanted = (rc, bytes, file', fs')) :
    Moves pointers limit fs fs' file file' ∧ SeesSame fs fs' file file' ∧
      (rc = 0 → bytes = (fs.seen file).read file.pos
        (min wanted (file.inode.ext2ISize - file.pos))) := by
  have read := fileReadLoop_moves tended le_rfl inside outcome
  simpa only [List.nil_append] using read

end Handles

end Fs

end Ext2Fuse
