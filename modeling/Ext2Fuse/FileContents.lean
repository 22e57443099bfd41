import Ext2Fuse.HandleCopy

/-!
# The bytes of a file

The bytes `ext2fs_file_read` finds through the block pointers, and what a handle that
writes a new file from its beginning leaves in them. Such a file is filled block by block:
the blocks behind the position are on disk, the one at the position is in the buffer, and
there are none ahead of it.
-/

namespace Ext2Fuse

open Lib

variable {δ : Type}

namespace Fs

/-- The byte of a file at an offset, found through its block pointers; a hole reads as zeros. -/
def byteAt (fs : Fs δ) (iBlock : Nat → Nat) (offset : Nat) : UInt8 :=
  if fs.vol.mapped iBlock (offset / fs.blocksize) = 0 then 0
  else fs.vol.io (fs.vol.mapped iBlock (offset / fs.blocksize)) (offset % fs.blocksize)

/-- The `count` bytes of a file from `start` on. -/
def fileBytes (fs : Fs δ) (iBlock : Nat → Nat) (start count : Nat) : List UInt8 :=
  Bytes.read (fs.byteAt iBlock) start count

section Reading

variable {fs : Fs δ} {file : File}

/-- A handle that has written nothing and whose buffer, if it holds anything, holds its block. -/
structure Reads (fs : Fs δ) (file : File) : Prop where
  clean : file.bufDirty = false
  buffer : file.bufValid = true → ∀ offset < fs.blocksize,
    file.buf offset = fs.byteAt file.inode.iBlock (file.blockno * fs.blocksize + offset)

theorem blocksize_pos (fs : Fs δ) : 0 < fs.blocksize := Super.blocksize_pos _

/-- The position moves into another block: there is nothing to flush. -/
theorem syncBufferPosition_reads (reads : fs.Reads file) :
    ∃ file', fs.syncBufferPosition file = (0, file', fs) ∧ fs.Reads file' ∧
      file'.blockno = file.pos / fs.blocksize ∧ file'.inode = file.inode ∧ file'.pos = file.pos ∧
      file'.ino = file.ino := by
  have flushed : fs.ext2fsFileFlush file = (0, file, fs) := by
    simp [ext2fsFileFlush, reads.clean]
  simp only [syncBufferPosition, flushed]
  by_cases same : file.pos / fs.blocksize = file.blockno
  · exact ⟨file, by simp [same], reads, same.symm, rfl, rfl, rfl⟩
  · refine ⟨{ file with bufValid := false, blockno := file.pos / fs.blocksize }, by simp [same], ?_,
      rfl, rfl, rfl, rfl⟩
    exact ⟨reads.clean, by rintro ⟨⟩⟩

/-- The buffer is filled from the block. -/
theorem loaded_reads (reads : fs.Reads file) :
    fs.Reads (fs.loaded file false) ∧ (fs.loaded file false).bufValid = true := by
  simp only [loaded]
  by_cases filled : file.bufValid = true
  · rw [if_pos filled]
    exact ⟨reads, filled⟩
  · rw [if_neg filled]
    refine ⟨⟨reads.clean, fun _ offset bound => ?_⟩, rfl⟩
    have block : (file.blockno * fs.blocksize + offset) / fs.blocksize = file.blockno := by
      rw [Nat.mul_comm, Nat.mul_add_div fs.blocksize_pos, Nat.div_eq_of_lt bound, Nat.add_zero]
    have rest : (file.blockno * fs.blocksize + offset) % fs.blocksize = offset := by
      rw [Nat.mul_comm, Nat.mul_add_mod, Nat.mod_eq_of_lt bound]
    simp only [byteAt, block, rest, Bool.false_eq_true, if_false]
    split <;> rfl

/-- `ext2fs_file_read` returns the bytes of the file, as far as the file goes. -/
theorem fileReadLoop_bytes (reads : fs.Reads file) {bound wanted : Nat} (enough : wanted ≤ bound)
    (inside : file.pos + wanted ≤ file.inode.ext2ISize) (got : List UInt8) :
    ∃ file', fs.fileReadLoop bound file wanted got =
        (0, got ++ fs.fileBytes file.inode.iBlock file.pos wanted, file', fs) ∧
      file'.inode = file.inode ∧ file'.ino = file.ino ∧ file'.bufDirty = false := by
  induction bound generalizing file wanted got with
  | zero =>
      obtain rfl : wanted = 0 := by omega
      exact ⟨file, by simp [fileReadLoop, fileBytes, Bytes.read], rfl, rfl, reads.clean⟩
  | succ bound inductionHypothesis =>
      by_cases done : wanted = 0
      · subst done
        exact ⟨file, by simp [fileReadLoop, fileBytes, Bytes.read], rfl, rfl, reads.clean⟩
      obtain ⟨synced, sync, readsSynced, blockno, inode, pos, ino⟩ := syncBufferPosition_reads reads
      obtain ⟨readsLoaded, filled⟩ := loaded_reads readsSynced
      have more : file.pos < file.inode.ext2ISize ∧ 0 < wanted := by omega
      rw [fileReadLoop, if_pos more, sync]
      simp only [loadBuffer_eq]
      have sameInode := (loaded_inode fs synced false).trans inode
      have samePos := (loaded_pos fs synced false).trans pos
      have sameIno := (loaded_ino fs synced false).trans ino
      have here := (loaded_blockno fs synced false).trans blockno
      generalize fs.loaded synced false = ready at *
      have start : file.pos % fs.blocksize < fs.blocksize := Nat.mod_lt _ fs.blocksize_pos
      generalize partEq : min (min (fs.blocksize - ready.pos % fs.blocksize) wanted)
        (ready.inode.ext2ISize - ready.pos) = part
      rw [samePos, sameInode] at partEq
      have piece : ready.buf.read (ready.pos % fs.blocksize) part =
          fs.fileBytes file.inode.iBlock file.pos part := by
        apply List.ext_getElem
        · simp [fileBytes]
        intro index bound _
        rw [Bytes.length_read] at bound
        simp only [fileBytes, Bytes.getElem_read, samePos]
        rw [readsLoaded.buffer filled _ (by omega), sameInode, here]
        congr 1
        have whole := Nat.div_add_mod' file.pos fs.blocksize
        omega
      have whole : fs.fileBytes file.inode.iBlock file.pos wanted =
          fs.fileBytes file.inode.iBlock file.pos part ++
            fs.fileBytes file.inode.iBlock (file.pos + part) (wanted - part) := by
        rw [fileBytes, show wanted = part + (wanted - part) by omega, Bytes.read_add]
        simp [fileBytes]
      have next : fs.Reads { ready with pos := file.pos + part } :=
        ⟨readsLoaded.clean, fun _ => readsLoaded.buffer filled⟩
      obtain ⟨file', outcome, lastInode, lastIno, clean⟩ := inductionHypothesis next
        (show wanted - part ≤ bound by omega) (by rw [sameInode]; dsimp only; omega)
        (got ++ fs.fileBytes file.inode.iBlock file.pos part)
      refine ⟨file', ?_, lastInode.trans sameInode, lastIno.trans sameIno, clean⟩
      rw [piece, samePos, outcome, whole]
      simp [sameInode]

end Reading

section Writing

variable {fs : Fs δ} {ino : Nat} {file : File} {done : List UInt8}

/-- The handle has written `done` from the beginning of a file that was empty. -/
structure Writes (fs : Fs δ) (ino : Nat) (file : File) (done : List UInt8) : Prop where
  sound : fs.vol.Sound
  small : fs.blocksize ≤ 65536
  valid : fs.validIno ino = true
  own : file.ino = ino
  pos : file.pos = done.length
  low : file.blockno * fs.blocksize ≤ file.pos
  high : file.pos ≤ (file.blockno + 1) * fs.blocksize
  behind : ∀ block < file.blockno, file.inode.iBlock block ≠ 0 ∧
    fs.vol.blockMap (file.inode.iBlock block) = true ∧
    ∀ offset < fs.blocksize,
      fs.vol.io (file.inode.iBlock block) offset = done.getD (block * fs.blocksize + offset) 0
  ahead : ∀ block, file.blockno ≤ block → block < EXT2_NDIR_BLOCKS → file.inode.iBlock block = 0
  sectors : file.inode.iBlocks = file.blockno * (fs.blocksize / 512)
  buffer : file.bufValid = true → file.physblock = 0 ∧ file.bufDirty = true ∧
    ∀ offset, file.blockno * fs.blocksize + offset < done.length →
      file.buf offset = done.getD (file.blockno * fs.blocksize + offset) 0
  nothing : file.bufValid = false → file.pos = file.blockno * fs.blocksize

/-- What a flush of the block in the buffer leaves: a block that was free holds the buffer, and the
inode on disk is the handle's, which points to it. -/
structure Flushed (fs : Fs δ) (ino : Nat) (file : File) (blk : Nat) (file' : File)
    (fs' : Fs δ) : Prop where
  nonzero : blk ≠ 0
  free : fs.vol.blockMap blk = false
  handle : file' = { file with
    inode := { file.inode with
      iBlock := Function.update file.inode.iBlock file.blockno blk
      iBlocks := (file.inode.iBlocks + 1 * fs.blocksize / 512) % 2 ^ 32 }
    physblock := blk
    bufDirty := false }
  disk : fs'.inodeTab ino = file'.inode
  super : fs'.super = fs.super
  marked : fs'.vol.blockMap = Function.update fs.vol.blockMap blk true
  stored : fs'.vol.io = Function.update fs.vol.io blk file.buf

/-- A flush that succeeds puts the buffer into a new block. -/
theorem Writes.flush (writes : fs.Writes ino file done) (held : file.bufValid = true)
    (direct : file.blockno < EXT2_NDIR_BLOCKS) {file' : File} {fs' : Fs δ}
    (outcome : fs.ext2fsFileFlush file = (0, file', fs')) :
    ∃ blk, Flushed fs ino file blk file' fs' := by
  obtain ⟨unmapped, dirty, -⟩ := writes.buffer held
  have hole := writes.ahead file.blockno le_rfl direct
  have nonzero : (file.ino != 0) = true := by
    have valid := writes.valid
    rw [← writes.own] at valid
    simp only [validIno, Bool.and_eq_true, decide_eq_true_eq] at valid
    simpa using Nat.pos_iff_ne_zero.mp valid.1
  have mapped : fs.vol.bmapBlocks file.inode.iBlock true file.blockno =
      fs.vol.bmapDirect file.inode.iBlock true file.blockno := by
    simp only [Volume.bmapBlocks, direct, if_true]
  have notClean : ¬ (!file.bufValid || !file.bufDirty) = true := by simp [held, dirty]
  rw [ext2fsFileFlush, if_neg notClean, if_pos unmapped, nonzero] at outcome
  simp only [ext2fsBmap, mapped] at outcome
  obtain ⟨rc, failed⟩ | ⟨blk, vol, found, blkNonzero, -, free, -, super, io, marked⟩ :=
    Volume.ext2fsAllocBlock_cases
      (if file.blockno = 0 then 0 else file.inode.iBlock (file.blockno - 1)) writes.sound
  · have direct : fs.vol.bmapDirect file.inode.iBlock true file.blockno =
        (.error rc, file.inode.iBlock, fs.vol) := by
      simp [Volume.bmapDirect, hole, failed]
    rw [direct] at outcome
    obtain rfl := Volume.ext2fsAllocBlock_error failed
    cases outcome
  · have validLater : ({ fs with vol := vol } : Fs δ).validIno file.ino = true := by
      rw [writes.own, validIno_congr (by exact super) ino]
      exact writes.valid
    have size : ({ fs with vol := vol } : Fs δ).blocksize = fs.blocksize :=
      congrArg Super.blocksize super
    have direct : fs.vol.bmapDirect file.inode.iBlock true file.blockno =
        (.ok (blk, 1), Function.update file.inode.iBlock file.blockno blk, vol) := by
      simp [Volume.bmapDirect, hole, found]
    rw [direct] at outcome
    simp only [one_ne_zero, if_false, ext2fsWriteInode, validLater, if_true, size] at outcome
    cases outcome
    refine ⟨blk, ⟨blkNonzero, free, rfl, ?_, super, marked, ?_⟩⟩
    · simp [writes.own]
    · simp [io]

/-- After a flush every block up to the position is on disk. -/
theorem Flushed.behind {blk : Nat} {file' : File} {fs' : Fs δ}
    (flushed : Flushed fs ino file blk file' fs')
    (writes : fs.Writes ino file done) (held : file.bufValid = true) {block : Nat}
    (before : block < file.blockno + 1) :
    file'.inode.iBlock block ≠ 0 ∧ fs'.vol.blockMap (file'.inode.iBlock block) = true ∧
      ∀ offset < fs.blocksize, block * fs.blocksize + offset < done.length →
        fs'.vol.io (file'.inode.iBlock block) offset = done.getD
          (block * fs.blocksize + offset) 0 := by
  rw [flushed.handle, flushed.marked, flushed.stored]
  by_cases last : block = file.blockno
  · subst last
    simp only [Function.update_self]
    exact ⟨flushed.nonzero, trivial, fun offset _ => (writes.buffer held).2.2 offset⟩
  · obtain ⟨nonzero, used, stored⟩ := writes.behind block (by omega)
    have different : file.inode.iBlock block ≠ blk := by
      intro same
      rw [same, flushed.free] at used
      cases used
    simp only [Function.update_of_ne last, Function.update_of_ne different]
    exact ⟨nonzero, used, fun offset bound _ => stored offset bound⟩

theorem Flushed.sound {blk : Nat} {file' : File} {fs' : Fs δ}
    (flushed : Flushed fs ino file blk file' fs') (sound : fs.vol.Sound) : fs'.vol.Sound := by
  have super : fs'.vol.super = fs.vol.super := flushed.super
  refine ⟨super ▸ sound.firstData, super ▸ sound.count, fun first => ?_⟩
  rw [super] at first
  rw [flushed.marked, Function.update_apply]
  split
  · rfl
  · exact sound.reserved first

/-- The block count of the inode does not wrap. -/
theorem Writes.sectors_next (writes : fs.Writes ino file done)
    (direct : file.blockno < EXT2_NDIR_BLOCKS) :
    (file.inode.iBlocks + 1 * fs.blocksize / 512) % 2 ^ 32 =
    (file.blockno + 1) * (fs.blocksize / 512) := by
  have small : fs.blocksize / 512 ≤ 128 := Nat.div_le_div_right writes.small
  have product : (file.blockno + 1) * (fs.blocksize / 512) ≤ EXT2_NDIR_BLOCKS * 128 :=
    Nat.mul_le_mul direct small
  rw [writes.sectors, Nat.one_mul, ← Nat.succ_mul]
  exact Nat.mod_eq_of_lt (lt_of_le_of_lt product (by decide))

/-- After the flush of a full block the handle goes on with the next one. -/
theorem Flushed.next {blk : Nat} {file' : File} {fs' : Fs δ}
    (flushed : Flushed fs ino file blk file' fs')
    (writes : fs.Writes ino file done) (held : file.bufValid = true)
    (direct : file.blockno < EXT2_NDIR_BLOCKS)
    (full : file.pos = (file.blockno + 1) * fs.blocksize) :
    fs'.Writes ino { file' with bufValid := false, blockno := file.blockno + 1 } done := by
  have size : fs'.blocksize = fs.blocksize := congrArg Super.blocksize flushed.super
  have sectors := writes.sectors_next direct
  have behind :=
    fun block => @Flushed.behind δ fs ino file done blk file' fs' flushed writes held block
  have super := flushed.super
  have sound := flushed.sound writes.sound
  obtain rfl := flushed.handle
  refine ⟨sound, ?_, ?_, writes.own, writes.pos, ?_, ?_, ?_, ?_, ?_, nofun, ?_⟩
  · rw [size]
    exact writes.small
  · rw [validIno_congr super]
    exact writes.valid
  · rw [size]
    exact full.symm.le
  · rw [size]
    exact full.le.trans (Nat.mul_le_mul_right _ (Nat.le_succ _))
  · intro block before
    obtain ⟨nonzero, used, stored⟩ := behind block before
    rw [size]
    refine ⟨nonzero, used, fun offset bound => stored offset bound ?_⟩
    have whole : (block + 1) * fs.blocksize ≤ (file.blockno + 1) * fs.blocksize :=
      Nat.mul_le_mul_right _ before
    rw [← writes.pos, full]
    rw [Nat.succ_mul] at whole
    omega
  · intro block later small
    have different : block ≠ file.blockno := by
      dsimp only at later
      omega
    change Function.update _ _ _ block = 0
    rw [Function.update_of_ne different]
    exact writes.ahead block (by dsimp only at later; omega) small
  · rw [size]
    exact sectors
  · intro _
    rw [size]
    exact full

/-- The position moves on to the next block. -/
theorem Writes.sync (writes : fs.Writes ino file done)
    (direct : done.length < EXT2_NDIR_BLOCKS * fs.blocksize)
    {file' : File} {fs' : Fs δ} (outcome : fs.syncBufferPosition file = (0, file', fs')) :
    fs'.Writes ino file' done ∧ file'.blockno = done.length / fs.blocksize ∧
      fs'.super = fs.super := by
  have positive := fs.blocksize_pos
  have low := writes.low
  have high := writes.high
  have pos := writes.pos
  simp only [syncBufferPosition] at outcome
  by_cases here : file.pos / fs.blocksize = file.blockno
  · rw [if_neg (by simpa using here)] at outcome
    cases outcome
    exact ⟨writes, by rw [← here, pos], rfl⟩
  -- the block in the buffer is full
  have full : file.pos = (file.blockno + 1) * fs.blocksize := by
    refine le_antisymm high (Nat.le_of_not_lt fun inside => here ?_)
    exact Nat.div_eq_of_lt_le low inside
  have next : file.pos / fs.blocksize = file.blockno + 1 := by
    rw [full, Nat.mul_div_cancel _ positive]
  have held : file.bufValid = true := by
    by_contra nothing
    rw [Bool.not_eq_true] at nothing
    refine here ?_
    rw [writes.nothing nothing, Nat.mul_div_cancel _ positive]
  have before : file.blockno < EXT2_NDIR_BLOCKS := by
    refine Nat.lt_of_mul_lt_mul_right (a := fs.blocksize) ?_
    omega
  rw [if_pos here, next] at outcome
  split at outcome
  · rename_i file₁ fs₁ flush
    cases outcome
    obtain ⟨blk, flushed⟩ := writes.flush held before flush
    refine ⟨flushed.next writes held before full, ?_, flushed.super⟩
    rw [← pos, next]
  · rename_i notZero _
    cases outcome
    exact (notZero rfl).elim

theorem mapped_direct (vol : Volume) (iBlock : Nat → Nat) {block : Nat}
    (direct : block < EXT2_NDIR_BLOCKS) :
    vol.mapped iBlock block = iBlock block := by
  simp [Volume.mapped, Volume.blockPath, direct, follow]

theorem getD_append_left {first second : List UInt8} {index : Nat} (inside : index < first.length) :
    (first ++ second).getD index 0 = first.getD index 0 := by
  simp [List.getD, List.getElem?_append_left inside]

theorem getD_append_right {first second : List UInt8} {index : Nat}
    (beyond : first.length ≤ index) :
    (first ++ second).getD index 0 = second.getD (index - first.length) 0 := by
  simp [List.getD, List.getElem?_append_right beyond]

/-- The bytes taken are put into the buffer behind those that are there. -/
theorem Writes.fill (writes : fs.Writes ino file done)
    (here : file.blockno = done.length / fs.blocksize)
    (dontfill : Bool) {part : List UInt8}
    (fits : done.length % fs.blocksize + part.length ≤ fs.blocksize)
    (direct : file.blockno < EXT2_NDIR_BLOCKS) :
    fs.Writes ino { fs.loaded file dontfill with
      bufDirty := true
      buf := (fs.loaded file dontfill).buf.write (file.pos % fs.blocksize) part
      pos := file.pos + part.length } (done ++ part) := by
  have pos := writes.pos
  have whole : file.blockno * fs.blocksize + done.length % fs.blocksize = done.length := by
    rw [here]
    exact Nat.div_add_mod' _ _
  have unmapped : (fs.loaded file dontfill).physblock = 0 := by
    simp only [loaded]
    by_cases held : file.bufValid = true
    · rw [if_pos held]
      exact (writes.buffer held).1
    · rw [if_neg held]
      dsimp only
      rw [mapped_direct _ _ direct]
      exact writes.ahead _ le_rfl direct
  have kept : ∀ offset < done.length % fs.blocksize, (fs.loaded file dontfill).buf offset =
      done.getD (file.blockno * fs.blocksize + offset) 0 := by
    intro offset before
    by_cases held : file.bufValid = true
    · rw [loaded, if_pos held]
      exact (writes.buffer held).2.2 offset (by omega)
    · have nothing := writes.nothing (by simpa using held)
      omega
  refine ⟨writes.sound, writes.small, writes.valid, ?_, ?_, ?_, ?_, ?_, ?_, ?_, ?_, ?_⟩
  · simpa using writes.own
  · simp [pos]
  · simpa using writes.low.trans (Nat.le_add_right _ _)
  · rw [loaded_blockno, Nat.succ_mul, pos]
    dsimp only
    omega
  · intro block before
    rw [loaded_blockno] at before
    rw [loaded_inode]
    obtain ⟨nonzero, used, stored⟩ := writes.behind block before
    refine ⟨nonzero, used, fun offset bound => ?_⟩
    have next : (block + 1) * fs.blocksize ≤ file.blockno * fs.blocksize :=
      Nat.mul_le_mul_right _ before
    rw [Nat.succ_mul] at next
    rw [stored offset bound, getD_append_left (by omega)]
  · intro block later
    rw [loaded_blockno] at later
    rw [loaded_inode]
    exact writes.ahead block later
  · simpa using writes.sectors
  · intro _
    refine ⟨unmapped, rfl, fun offset inside => ?_⟩
    rw [loaded_blockno, List.length_append] at inside
    rw [loaded_blockno]
    dsimp only
    rw [pos]
    by_cases before : offset < done.length % fs.blocksize
    · rw [Bytes.write_apply_outside _ (.inl before), kept offset before,
        getD_append_left (by omega)]
    · rw [Bytes.write_apply_inside _ (by omega) (by omega), getD_append_right (by omega)]
      congr 1
      omega
  · intro nothing
    rw [loaded_bufValid] at nothing
    cases nothing

/-- `ext2fs_file_write` adds its data to what has been written. -/
theorem Writes.loop {bound : Nat} {data : List UInt8} {count written : Nat}
    {file' : File} {fs' : Fs δ} (writes : fs.Writes ino file done) (enough : data.length ≤ bound)
    (direct : done.length + data.length ≤ EXT2_NDIR_BLOCKS * fs.blocksize)
    (outcome : fs.fileWriteLoop bound file data count = (0, written, file', fs')) :
    fs'.Writes ino file' (done ++ data) ∧
      (data ≠ [] ∨ file.bufValid = true → file'.bufValid = true) := by
  induction bound generalizing fs file done data count with
  | zero =>
      obtain rfl : data = [] := List.eq_nil_of_length_eq_zero (by omega)
      cases outcome
      exact ⟨by simpa using writes, fun held => held.resolve_left fun some => some rfl⟩
  | succ bound inductionHypothesis =>
      simp only [fileWriteLoop] at outcome
      by_cases nothing : data = []
      · subst nothing
        rw [if_pos rfl] at outcome
        cases outcome
        exact ⟨by simpa using writes, fun held => held.resolve_left fun some => some rfl⟩
      rw [if_neg nothing] at outcome
      have some := List.length_pos_iff.mpr nothing
      split at outcome
      · rename_i synced fs₁ sync
        obtain ⟨syncedWrites, here, super⟩ := writes.sync (by omega) sync
        have size : fs₁.blocksize = fs.blocksize := congrArg Super.blocksize super
        rw [← size] at direct here
        have pos := syncedWrites.pos
        have inside : done.length % fs₁.blocksize < fs₁.blocksize := Nat.mod_lt _ fs₁.blocksize_pos
        have before : synced.blockno < EXT2_NDIR_BLOCKS := by
          rw [here]
          exact Nat.div_lt_of_lt_mul (by rw [Nat.mul_comm]; omega)
        simp only [loadBuffer_eq, loaded_pos] at outcome
        generalize partEq : min (fs₁.blocksize - synced.pos % fs₁.blocksize)
          data.length = part at outcome
        rw [pos] at partEq
        have taken : (data.take part).length = part := by
          rw [List.length_take]
          omega
        have filled := syncedWrites.fill here (part == fs₁.blocksize)
          (show done.length % fs₁.blocksize + (data.take part).length ≤ _ by omega) before
        rw [taken] at filled
        have rest := inductionHypothesis filled (by rw [List.length_drop]; omega)
          (by rw [List.length_append, taken, List.length_drop]; omega) outcome
        rw [List.append_assoc, List.take_append_drop] at rest
        exact ⟨rest.1, fun _ => rest.2 (.inr (loaded_bufValid ..))⟩
      · rename_i notZero _
        cases outcome
        exact (notZero rfl).elim

/-- After the last flush the file on disk holds what was written. -/
theorem Flushed.bytes {blk : Nat} {file' : File} {fs' : Fs δ}
    (flushed : Flushed fs ino file blk file' fs')
    (writes : fs.Writes ino file done) (held : file.bufValid = true)
    (direct : file.blockno < EXT2_NDIR_BLOCKS) :
    fs'.fileBytes (fs'.inodeTab ino).iBlock 0 done.length = done := by
  have size : fs'.blocksize = fs.blocksize := congrArg Super.blocksize flushed.super
  have positive := fs.blocksize_pos
  apply List.ext_getElem
  · simp [fileBytes]
  intro index _ inside
  have high := writes.high
  rw [writes.pos] at high
  have before : index / fs.blocksize < file.blockno + 1 :=
    Nat.div_lt_of_lt_mul (by rw [Nat.mul_comm]; omega)
  obtain ⟨nonzero, -, stored⟩ := flushed.behind writes held before
  have whole := Nat.div_add_mod' index fs.blocksize
  simp only [fileBytes, Bytes.getElem_read, byteAt, Nat.zero_add, size, flushed.disk]
  rw [mapped_direct _ _ (by omega), if_neg nonzero,
    stored _ (Nat.mod_lt _ positive) (by omega), whole]
  simp [inside]

end Writing

end Fs

end Ext2Fuse
