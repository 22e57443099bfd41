import Ext2Fuse.Filesystem
import Ext2Fuse.InodeTable

/-!
# The inode table is a map of inodes

`Fs.inodeTab` has an inode for every number. The calls of `inode.c`, with their buffer and their
cache over the blocks of the inode tables, answer as that map does in every run, as long as nothing
else writes to the inode tables.
-/

namespace Ext2Fuse

open Lib

namespace InodeGeometry

variable {geo : InodeGeometry} {ino other : Nat}

/-- The byte behind the inode table of a group. -/
def tableEnd (geo : InodeGeometry) (group : Nat) : Nat :=
  geo.bgInodeTable group * geo.super.blocksize + geo.super.sInodesPerGroup * geo.inodeSize

/-- The inode tables of a volume that is mounted for writing: there is one for every group with
inodes, and they do not overlap. Inodes are of the old size or have room for `i_extra_isize`. -/
structure Laid (geo : InodeGeometry) : Prop where
  rw : geo.rw = true
  size : geo.inodeSize = EXT2_GOOD_OLD_INODE_SIZE ∨ EXT2_GOOD_OLD_INODE_SIZE + 2 ≤ geo.inodeSize
  perGroup : 0 < geo.super.sInodesPerGroup
  tables : ∀ ino, geo.validIno ino = true → geo.bgInodeTable (geo.group ino) ≠ 0
  apart : ∀ ino other, geo.validIno ino = true → geo.validIno other = true →
    geo.group ino ≠ geo.group other →
    geo.tableEnd (geo.group ino) ≤ geo.bgInodeTable (geo.group other) * geo.super.blocksize ∨
      geo.tableEnd (geo.group other) ≤ geo.bgInodeTable (geo.group ino) * geo.super.blocksize

/-- A block with bytes of an inode. -/
def InTable (geo : InodeGeometry) (blk : Nat) : Prop :=
  ∃ ino, geo.validIno ino = true ∧ ∃ index, index < geo.inodeSize ∧
    (InodeStore.start geo ino + index) / geo.super.blocksize = blk

/-- An inode record has room for the old inode. -/
theorem Laid.old (laid : geo.Laid) : EXT2_GOOD_OLD_INODE_SIZE ≤ geo.inodeSize := by
  rcases laid.size with same | large <;> omega

/-- An inode is inside the table of its group. -/
theorem offset_bound (geo : InodeGeometry) (perGroup : 0 < geo.super.sInodesPerGroup) (ino : Nat) :
    geo.offset ino + geo.inodeSize ≤ geo.super.sInodesPerGroup * geo.inodeSize := by
  have bound := Nat.mod_lt (ino - 1) perGroup
  have rows : ((ino - 1) % geo.super.sInodesPerGroup + 1) * geo.inodeSize ≤
    geo.super.sInodesPerGroup * geo.inodeSize :=
    Nat.mul_le_mul_right _ bound
  rwa [Nat.succ_mul] at rows

/-- Different inodes share no byte. -/
theorem Laid.starts_apart (laid : geo.Laid) (valid : geo.validIno ino = true)
    (validToo : geo.validIno other = true) (different : ino ≠ other) :
    InodeStore.start geo ino + geo.inodeSize ≤ InodeStore.start geo other ∨
      InodeStore.start geo other + geo.inodeSize ≤ InodeStore.start geo ino := by
  have bound := geo.offset_bound laid.perGroup ino
  have boundToo := geo.offset_bound laid.perGroup other
  rw [InodeStore.start, InodeStore.start]
  by_cases same : geo.group ino = geo.group other
  · rw [same]
    have rows : (ino - 1) % geo.super.sInodesPerGroup ≠
      (other - 1) % geo.super.sInodesPerGroup := by
      intro sameRow
      have whole := Nat.div_add_mod (ino - 1) geo.super.sInodesPerGroup
      have wholeToo := Nat.div_add_mod (other - 1) geo.super.sInodesPerGroup
      rw [sameRow, show (ino - 1) / geo.super.sInodesPerGroup =
        (other - 1) / geo.super.sInodesPerGroup from same] at whole
      simp only [validIno, Bool.not_eq_true', Bool.or_eq_false_iff, beq_eq_false_iff_ne]
        at valid validToo
      omega
    rcases Nat.lt_or_gt_of_ne rows with below | above
    · left
      have step : ((ino - 1) % geo.super.sInodesPerGroup + 1) * geo.inodeSize ≤ geo.offset other :=
        Nat.mul_le_mul_right _ below
      rw [Nat.succ_mul] at step
      have row : geo.offset ino = (ino - 1) % geo.super.sInodesPerGroup * geo.inodeSize := rfl
      omega
    · right
      have step : ((other - 1) % geo.super.sInodesPerGroup + 1) * geo.inodeSize ≤ geo.offset ino :=
        Nat.mul_le_mul_right _ above
      rw [Nat.succ_mul] at step
      have row : geo.offset other = (other - 1) % geo.super.sInodesPerGroup * geo.inodeSize := rfl
      omega
  · have tables := laid.apart ino other valid validToo same
    simp only [tableEnd] at tables
    omega

/-- Where `inode.c` looks for an inode is where it starts. -/
theorem blockNr_start (geo : InodeGeometry) (ino : Nat) :
    geo.blockNr ino * geo.super.blocksize + geo.offset ino % geo.super.blocksize =
      InodeStore.start geo ino := by
  have whole := Nat.div_add_mod (geo.offset ino) geo.super.blocksize
  rw [blockNr, InodeStore.start, Nat.add_mul, Nat.mul_comm (_ / _)]
  omega

/-- No inode lies in block 0. -/
theorem Laid.blockNr_pos (laid : geo.Laid) (valid : geo.validIno ino = true) :
    geo.blockNr ino ≠ 0 := by
  exact fun zero => laid.tables ino valid (Nat.eq_zero_of_add_eq_zero_right zero)

end InodeGeometry

namespace InodeStore

variable {store : InodeStore} {ino other : Nat} {data : List UInt8}

/-- The cache has inodes as they are on disk, each once, and the buffer a block of the tables. -/
structure Sound (store : InodeStore) : Prop where
  buffered : store.Buffered store.geo.InTable
  held : ∀ slot, (store.icache.cache slot).ino ≠ 0 →
    store.geo.validIno (store.icache.cache slot).ino = true ∧
    (store.icache.cache slot).inode = store.stored (store.icache.cache slot).ino
  once : ∀ slot other, (store.icache.cache slot).ino ≠ 0 →
    (store.icache.cache slot).ino = (store.icache.cache other).ino → slot = other

/-- A slot that is found has the inode's number. -/
theorem cached_some {slot : Fin 4} (found : store.cached ino = some slot) :
    (store.icache.cache slot).ino = ino := by
  have here := List.find?_some found
  simpa using here

/-- When none is found no slot has it. -/
theorem cached_none (found : store.cached ino = none) (slot : Fin 4) :
    (store.icache.cache slot).ino ≠ ino := by
  have nowhere := List.find?_eq_none.mp found slot (List.mem_finRange slot)
  simpa using nowhere

/-- A number out of range is in no slot. -/
theorem Sound.cached_invalid (sound : store.Sound) (nonzero : ino ≠ 0)
    (invalid : store.geo.validIno ino = false) :
    store.cached ino = none := by
  rcases found : store.cached ino with _ | slot
  · rfl
  · have here := cached_some found
    have valid := (sound.held slot (by rw [here]; exact nonzero)).1
    rw [here, invalid] at valid
    cases valid

/-- An inode that was not in the cache is put there as it is on disk. -/
theorem Sound.insert (sound : store.Sound) (valid : store.geo.validIno ino = true)
    (absent : ∀ slot, (store.icache.cache slot).ino ≠ ino) (slot : Fin 4) (cacheLast : Int) :
    Sound { store with
      icache := { store.icache with
        cacheLast
        cache := Function.update store.icache.cache slot ⟨ino, store.stored ino⟩ } } where
  buffered := sound.buffered
  held one := by
    show (Function.update store.icache.cache slot _ one).ino ≠ 0 →
      store.geo.validIno (Function.update store.icache.cache slot _ one).ino = true ∧
        (Function.update store.icache.cache slot _ one).inode =
          store.stored (Function.update store.icache.cache slot _ one).ino
    by_cases same : one = slot
    · subst same
      rw [Function.update_self]
      exact fun _ => ⟨valid, rfl⟩
    · rw [Function.update_of_ne same]
      exact sound.held one
  once one two := by
    show (Function.update store.icache.cache slot _ one).ino ≠ 0 →
      (Function.update store.icache.cache slot _ one).ino =
        (Function.update store.icache.cache slot _ two).ino → _
    by_cases first : one = slot
    · by_cases second : two = slot
      · exact fun _ _ => first.trans second.symm
      · rw [first, Function.update_self, Function.update_of_ne second]
        exact fun _ same => absurd same.symm (absent two)
    · by_cases second : two = slot
      · rw [second, Function.update_self, Function.update_of_ne first]
        exact fun _ same => absurd same (absent one)
      · rw [Function.update_of_ne first, Function.update_of_ne second]
        exact sound.once one two

/-- `ext2fs_read_inode` answers with the inode on disk. -/
theorem Sound.read (sound : store.Sound) (laid : store.geo.Laid) (nonzero : ino ≠ 0) :
    (store.ext2fsReadInode ino).1 =
        (if store.geo.validIno ino then .ok (store.stored ino) else .error EXT2_ET_BAD_INODE_NUM) ∧
      (store.ext2fsReadInode ino).2.Sound ∧ (store.ext2fsReadInode ino).2.geo = store.geo ∧
      (store.ext2fsReadInode ino).2.bytes = store.bytes := by
  rw [ext2fsReadInode]
  rcases found : store.cached ino with _ | slot
  · by_cases valid : store.geo.validIno ino = true
    · have short : min EXT2_GOOD_OLD_INODE_SIZE store.geo.inodeSize = EXT2_GOOD_OLD_INODE_SIZE :=
        Nat.min_eq_left laid.old
      obtain ⟨read, buffered, buffer, bufferBlk, after⟩ := @readBytes_spec store.geo.InTable
        EXT2_GOOD_OLD_INODE_SIZE store (store.geo.blockNr ino)
          (store.geo.offset ino % store.geo.super.blocksize)
        EXT2_GOOD_OLD_INODE_SIZE (le_refl _)
          (Nat.mod_lt _ store.geo.super.blocksize_pos) sound.buffered
        (laid.blockNr_pos valid) (fun index bound => by
          rw [InodeGeometry.blockNr_start]
          exact ⟨ino, valid, index, bound.trans_le laid.old, rfl⟩)
      rw [InodeGeometry.blockNr_start] at read
      dsimp only
      rw [if_neg (by rw [valid]; simp), if_neg (laid.tables ino valid), if_pos valid,
        short, read, after]
      rw [after] at buffered
      have filled : Sound { store with icache := { store.icache with buffer, bufferBlk } } :=
        ⟨buffered, sound.held, sound.once⟩
      exact ⟨rfl, filled.insert valid (cached_none found) _ _, rfl, rfl⟩
    · dsimp only
      rw [if_pos (by rw [Bool.not_eq_true] at valid; rw [valid]; rfl), if_neg valid]
      exact ⟨rfl, sound, rfl, rfl⟩
  · have here := cached_some found
    obtain ⟨valid, held⟩ := sound.held slot (by rw [here]; exact nonzero)
    rw [here] at valid held
    refine ⟨?_, sound, rfl, rfl⟩
    rw [if_pos valid]
    exact congrArg Except.ok held

/-- What is stored of an inode depends on its bytes. -/
theorem stored_write_same {after : InodeStore} (geo : after.geo = store.geo)
    (bytes : after.bytes = Bytes.write store.bytes (start store.geo ino) data)
    (long : EXT2_GOOD_OLD_INODE_SIZE ≤ data.length) :
    after.stored ino = data.take EXT2_GOOD_OLD_INODE_SIZE := by
  rw [stored, geo, bytes]
  refine List.ext_getElem (by rw [Bytes.length_read, List.length_take, Nat.min_eq_left long])
    fun index bound _ => ?_
  rw [Bytes.length_read] at bound
  rw [Bytes.getElem_read, Bytes.write_apply_inside _ (by omega) (by omega), List.getElem_take,
    Nat.add_sub_cancel_left,
    List.getD, List.getElem?_eq_getElem (bound.trans_le long), Option.getD_some]

/-- Writing one inode's record leaves those of the others. -/
theorem stored_write_other (laid : store.geo.Laid) {after : InodeStore}
    (geo : after.geo = store.geo)
    (bytes : after.bytes = Bytes.write store.bytes (start store.geo ino) data)
    (short : data.length ≤ store.geo.inodeSize) (valid : store.geo.validIno ino = true)
    (validToo : store.geo.validIno other = true) (different : other ≠ ino) :
    after.stored other = store.stored other := by
  rw [stored, stored, geo, bytes]
  refine Bytes.read_congr fun position low high => Bytes.write_apply_outside _ ?_
  have old := laid.old
  rcases laid.starts_apart valid validToo different.symm with before | behind <;> omega

/-- The update of the cache before an inode is written. -/
theorem Sound.cache_update (sound : store.Sound) (nonzero : ino ≠ 0) (inode : List UInt8) :
    ∃ cache, store.updateCache ino inode =
      { store with icache := { store.icache with cache } } ∧ ∀ slot,
      (cache slot).ino = (store.icache.cache slot).ino ∧ (cache slot).inode =
        if (store.icache.cache slot).ino = ino then inode else (store.icache.cache slot).inode := by
  rw [updateCache]
  rcases found : store.cached ino with _ | slot
  · refine ⟨store.icache.cache, rfl, fun one => ⟨rfl, ?_⟩⟩
    rw [if_neg (cached_none found one)]
  · have here := cached_some found
    refine ⟨_, rfl, fun one => ?_⟩
    by_cases same : one = slot
    · subst same
      rw [Function.update_self, if_pos here]
      exact ⟨here.symm, rfl⟩
    · rw [Function.update_of_ne same, if_neg]
      · exact ⟨rfl, rfl⟩
      · exact fun again => same (sound.once one slot (by rw [again]; exact nonzero)
          (again.trans here.symm))

/-- `ext2fs_write_inode_full` changes the one inode. -/
theorem Sound.write (sound : store.Sound) (laid : store.geo.Laid) (nonzero : ino ≠ 0)
    (long : EXT2_GOOD_OLD_INODE_SIZE ≤ data.length) :
    (store.ext2fsWriteInodeFull ino data).1 =
    (if store.geo.validIno ino then 0 else EXT2_ET_BAD_INODE_NUM) ∧
      (store.ext2fsWriteInodeFull ino data).2.Sound ∧
      (store.ext2fsWriteInodeFull ino data).2.geo = store.geo ∧
      ∀ other, store.geo.validIno other = true →
        (store.ext2fsWriteInodeFull ino data).2.stored other =
        if other = ino then data.take EXT2_GOOD_OLD_INODE_SIZE else store.stored other := by
  rw [ext2fsWriteInodeFull]
  by_cases valid : store.geo.validIno ino = true
  · obtain ⟨cache, updated, entries⟩ :=
      sound.cache_update nonzero (data.take EXT2_GOOD_OLD_INODE_SIZE)
    have old := laid.old
    have length : (data.take store.geo.inodeSize).length ≤ store.geo.inodeSize := by
      rw [List.length_take]
      omega
    have longToo : EXT2_GOOD_OLD_INODE_SIZE ≤ (data.take store.geo.inodeSize).length := by
      rw [List.length_take]
      omega
    rw [updated]
    dsimp only
    rw [if_neg (by rw [laid.rw]; simp), if_neg (by rw [valid]; simp),
      if_neg (laid.tables ino valid), if_pos valid]
    obtain ⟨bytes, buffered, geo, sameCache⟩ :=
      @writeBytes_spec store.geo.InTable (data.take store.geo.inodeSize).length
      { store with icache := { store.icache with cache } } (store.geo.blockNr ino)
      (store.geo.offset ino % store.geo.super.blocksize) (data.take store.geo.inodeSize) (le_refl _)
      (Nat.mod_lt _ store.geo.super.blocksize_pos) sound.buffered (laid.blockNr_pos valid)
        (fun index bound => by
        rw [InodeGeometry.blockNr_start]
        exact ⟨ino, valid, index, bound.trans_le length, rfl⟩)
    rw [InodeGeometry.blockNr_start] at bytes
    generalize writeBytes _ _ _ _ _ = after at bytes buffered geo sameCache
    have here : after.stored ino = data.take EXT2_GOOD_OLD_INODE_SIZE := by
      rw [stored_write_same geo bytes longToo, List.take_take, Nat.min_eq_left old]
    have elsewhere : ∀ other, store.geo.validIno other = true → other ≠ ino →
      after.stored other = store.stored other :=
      fun other validToo different => stored_write_other laid geo bytes length valid
        validToo different
    refine ⟨rfl, ⟨by rw [geo]; exact buffered, fun slot => ?_, fun slot other => ?_⟩, geo,
      fun other validToo => ?_⟩
    · rw [sameCache, geo]
      show (cache slot).ino ≠ 0 → store.geo.validIno (cache slot).ino = true ∧
        (cache slot).inode = after.stored (cache slot).ino
      rw [(entries slot).1, (entries slot).2]
      intro some
      obtain ⟨validSlot, held⟩ := sound.held slot some
      refine ⟨validSlot, ?_⟩
      by_cases same : (store.icache.cache slot).ino = ino
      · rw [if_pos same, same, here]
      · rw [if_neg same, held, elsewhere _ validSlot same]
    · rw [sameCache]
      show (cache slot).ino ≠ 0 → (cache slot).ino = (cache other).ino → _
      rw [(entries slot).1, (entries other).1]
      exact sound.once slot other
    · by_cases same : other = ino
      · rw [if_pos same, same, here]
      · rw [if_neg same, elsewhere other validToo same]
  · rw [Bool.not_eq_true] at valid
    rw [updateCache, sound.cached_invalid nonzero valid]
    dsimp only
    rw [if_neg (by rw [laid.rw]; simp), if_pos (by rw [valid]; rfl), if_neg (by rw [valid]; simp)]
    refine ⟨rfl, sound, rfl, fun other validToo => ?_⟩
    rw [if_neg]
    rintro rfl
    rw [valid] at validToo
    cases validToo

/-- Forgetting the cache changes nothing on disk. -/
theorem sound_flush (store : InodeStore) : store.ext2fsFlushIcache.Sound where
  buffered := .inl rfl
  held _ some := absurd rfl some
  once _ _ some := absurd rfl some

/-- A block outside of the inode tables is written. -/
def writeBlk (store : InodeStore) (blk : Nat) (block : Block) : InodeStore :=
  { store with io := Function.update store.io blk block }

/-- Writing a block outside of the tables leaves all records. -/
theorem stored_writeBlk (laid : store.geo.Laid) {blk : Nat}
    (outside : ¬ store.geo.InTable blk) (block : Block)
    (valid : store.geo.validIno ino = true) :
    (store.writeBlk blk block).stored ino = store.stored ino := by
  refine Bytes.read_congr fun position low high => ?_
  have different : position / store.geo.super.blocksize ≠ blk := by
    intro same
    have old := laid.old
    have begins : start store.geo ino ≤ position := low
    have ends : position < start store.geo ino + EXT2_GOOD_OLD_INODE_SIZE := high
    refine outside ⟨ino, valid, position - start store.geo ino, by omega, ?_⟩
    rw [Nat.add_sub_cancel' begins]
    exact same
  show Function.update store.io blk block (position / store.geo.super.blocksize) _ = _
  rw [Function.update_of_ne different]
  rfl

/-- Writing a block outside of the tables keeps the cache sound. -/
theorem Sound.writeBlk (sound : store.Sound) (laid : store.geo.Laid) {blk : Nat}
    (outside : ¬ store.geo.InTable blk) (block : Block) : (store.writeBlk blk block).Sound where
  buffered := by
    rcases sound.buffered with none | ⟨table, held⟩
    · exact .inl none
    · refine .inr ⟨table, fun index bound => ?_⟩
      show _ = Function.update store.io blk block store.icache.bufferBlk index
      rw [Function.update_of_ne]
      · exact held index bound
      · rintro rfl
        exact outside table
  held slot some := by
    obtain ⟨valid, held⟩ := sound.held slot some
    exact ⟨valid, held.trans (stored_writeBlk laid outside block valid).symm⟩
  once := sound.once

end InodeStore

/-- The fields of `struct ext2_inode` in its bytes. -/
def Inode.ofBytes (data : List UInt8) : Inode :=
  let bytes : Bytes := fun index => data.getD index 0
  { iMode := bytes.getU16 0
    iUid := bytes.getU16 2
    iSize := bytes.getU32 4
    iAtime := bytes.getU32 8
    iCtime := bytes.getU32 12
    iMtime := bytes.getU32 16
    iDtime := bytes.getU32 20
    iGid := bytes.getU16 24
    iLinksCount := bytes.getU16 26
    iBlocks := bytes.getU32 28
    iFlags := bytes.getU32 32
    iBlock := fun index => if index < EXT2_N_BLOCKS then bytes.getU32 (40 + 4 * index) else 0
    iGeneration := bytes.getU32 100
    iFileAcl := bytes.getU32 104
    iSizeHigh := bytes.getU32 108 }

/-- The calls of `inode.c`, among writes of other blocks. -/
inductive InodeCall
  | read (ino : Nat)
  | write (ino : Nat) (inode : List UInt8)
  | writeNew (ino : Nat) (inode : List UInt8)
  | flushIcache
  | writeBlk (blk : Nat) (block : Block)

/-- Inodes have a number and a size; blocks of the inode tables are written by these calls only. -/
def InodeCall.Fits (geo : InodeGeometry) : InodeCall → Prop
  | .read ino => ino ≠ 0
  | .write ino inode => ino ≠ 0 ∧ inode.length = EXT2_GOOD_OLD_INODE_SIZE
  | .writeNew ino inode => ino ≠ 0 ∧ inode.length = EXT2_GOOD_OLD_INODE_SIZE
  | .flushIcache => True
  | .writeBlk blk _ => ¬ geo.InTable blk

/-- A return code as an answer without an inode. -/
def codeOnly {α : Type} (rc : Errcode) :
    Except Errcode (Option α) := if rc = 0 then .ok none else .error rc

namespace InodeStore

/-- One call over the inode tables, with what it answers. -/
def step (store : InodeStore) : InodeCall → Except Errcode (Option (List UInt8)) × InodeStore
  | .read ino => ((store.ext2fsReadInode ino).1.map some, (store.ext2fsReadInode ino).2)
  | .write ino inode =>
      (codeOnly (store.ext2fsWriteInode ino inode).1, (store.ext2fsWriteInode ino inode).2)
  | .writeNew ino inode =>
      (codeOnly (store.ext2fsWriteNewInode ino inode).1, (store.ext2fsWriteNewInode ino inode).2)
  | .flushIcache => (.ok none, store.ext2fsFlushIcache)
  | .writeBlk blk block => (.ok none, store.writeBlk blk block)

def run : InodeStore → List InodeCall → List (Except Errcode (Option (List UInt8))) × InodeStore
  | store, [] => ([], store)
  | store, call :: rest =>
      ((store.step call).1 :: (run (store.step call).2 rest).1, (run (store.step call).2 rest).2)

end InodeStore

namespace Fs

variable {δ : Type} {fs : Fs δ} {store : InodeStore}

/-- One call over the map of inodes. -/
def inodeStep (fs : Fs δ) : InodeCall → Except Errcode (Option Inode) × Fs δ
  | .read ino => ((fs.ext2fsReadInode ino).map some, fs)
  | .write ino inode =>
      (codeOnly (fs.ext2fsWriteInode ino (.ofBytes inode)).1,
        (fs.ext2fsWriteInode ino (.ofBytes inode)).2)
  | .writeNew ino inode =>
      (codeOnly (fs.ext2fsWriteInode ino (.ofBytes inode)).1,
        (fs.ext2fsWriteInode ino (.ofBytes inode)).2)
  | .flushIcache => (.ok none, fs)
  | .writeBlk blk block => (.ok none, { fs with vol := fs.vol.writeBlk blk block })

def inodeRun : Fs δ → List InodeCall → List (Except Errcode (Option Inode)) × Fs δ
  | fs, [] => ([], fs)
  | fs, call :: rest =>
      ((fs.inodeStep call).1 :: (inodeRun (fs.inodeStep call).2 rest).1,
        (inodeRun (fs.inodeStep call).2 rest).2)

/-- The map has the inodes that are on disk. -/
structure HasInodes (fs : Fs δ) (store : InodeStore) : Prop where
  super : fs.super = store.geo.super
  inodes : ∀ ino, store.geo.validIno ino = true → fs.inodeTab ino = .ofBytes (store.stored ino)

/-- Both levels have the same range of inode numbers. -/
theorem HasInodes.validIno (has : fs.HasInodes store) (ino : Nat) :
    fs.validIno ino = store.geo.validIno ino := by
  rw [Fs.validIno, InodeGeometry.validIno, has.super, Bool.eq_iff_iff]
  simp only [Bool.and_eq_true, decide_eq_true_eq, Bool.not_eq_true', Bool.or_eq_false_iff,
    beq_eq_false_iff_ne, decide_eq_false_iff_not]
  omega

/-- Writing an inode through the cache is writing it in the table. -/
theorem HasInodes.write (has : fs.HasInodes store) (sound : store.Sound)
    (laid : store.geo.Laid) {ino : Nat}
    (nonzero : ino ≠ 0) {inode data : List UInt8} (size : inode.length = EXT2_GOOD_OLD_INODE_SIZE)
    (begins : data.take EXT2_GOOD_OLD_INODE_SIZE = inode) :
    (store.ext2fsWriteInodeFull ino data).1 = (fs.ext2fsWriteInode ino (.ofBytes inode)).1 ∧
      (fs.ext2fsWriteInode ino (.ofBytes inode)).2.HasInodes
      (store.ext2fsWriteInodeFull ino data).2 := by
  have long : EXT2_GOOD_OLD_INODE_SIZE ≤ data.length := by
    have length := congrArg List.length begins
    rw [List.length_take, size] at length
    omega
  obtain ⟨code, -, geo, stored⟩ := sound.write laid nonzero long
  rw [code, Fs.ext2fsWriteInode, has.validIno]
  by_cases valid : store.geo.validIno ino = true
  · rw [if_pos valid, if_pos valid]
    refine ⟨rfl, has.super.trans (congrArg InodeGeometry.super geo.symm), fun other validToo => ?_⟩
    rw [geo] at validToo
    rw [stored other validToo, begins]
    show Function.update fs.inodeTab ino _ other = _
    by_cases same : other = ino
    · rw [same, Function.update_self, if_pos rfl]
    · rw [Function.update_of_ne same, if_neg same, has.inodes other validToo]
  · rw [if_neg valid, if_neg valid]
    refine ⟨rfl, has.super.trans (congrArg InodeGeometry.super geo.symm), fun other validToo => ?_⟩
    rw [geo] at validToo
    rw [stored other validToo, if_neg, has.inodes other validToo]
    rintro rfl
    exact valid validToo

/-- One call: the same answer, and the map still has what is on disk. -/
theorem HasInodes.step (has : fs.HasInodes store) (sound : store.Sound) (laid : store.geo.Laid)
    {call : InodeCall} (fits : call.Fits store.geo) :
    (store.step call).1.map (Option.map Inode.ofBytes) = (fs.inodeStep call).1 ∧
      (fs.inodeStep call).2.HasInodes (store.step call).2 ∧ (store.step call).2.Sound ∧
      (store.step call).2.geo = store.geo := by
  have codes : ∀ rc : Errcode,
    (codeOnly rc : Except Errcode (Option (List UInt8))).map (Option.map Inode.ofBytes) =
      codeOnly rc := by
    intro rc
    rw [codeOnly, codeOnly]
    split <;> rfl
  cases call with
  | read ino =>
      obtain ⟨answer, soundAfter, geo, bytes⟩ := sound.read laid fits
      refine ⟨?_, ⟨has.super.trans (congrArg InodeGeometry.super geo.symm), fun other valid => ?_⟩,
        soundAfter, geo⟩
      · show ((store.ext2fsReadInode ino).1.map some).map _ = (fs.ext2fsReadInode ino).map some
        rw [answer, Fs.ext2fsReadInode, has.validIno]
        by_cases valid : store.geo.validIno ino = true
        · rw [if_pos valid, if_pos valid, has.inodes ino valid]
          rfl
        · rw [if_neg valid, if_neg valid]
          rfl
      · show fs.inodeTab other =
          Inode.ofBytes (Bytes.read (store.ext2fsReadInode ino).2.bytes
          (InodeStore.start (store.ext2fsReadInode ino).2.geo other) _)
        have validToo : (store.ext2fsReadInode ino).2.geo.validIno other = true := valid
        rw [geo] at validToo ⊢
        rw [bytes, has.inodes other validToo]
        rfl
  | write ino inode =>
      have begins : inode.take EXT2_GOOD_OLD_INODE_SIZE = inode :=
        List.take_of_length_le (le_of_eq fits.2)
      obtain ⟨code, hasAfter⟩ := has.write sound laid fits.1 fits.2 begins
      obtain ⟨-, soundAfter, geo, -⟩ := sound.write laid fits.1 (le_of_eq fits.2.symm)
      refine ⟨?_, hasAfter, soundAfter, geo⟩
      show (codeOnly (store.ext2fsWriteInodeFull ino inode).1).map _ = _
      rw [codes, code]
      rfl
  | writeNew ino inode =>
      -- the inode as it is written, with the rest of a large one
      obtain ⟨data, begins, same⟩ : ∃ data : List UInt8,
        data.take EXT2_GOOD_OLD_INODE_SIZE = inode ∧
          store.ext2fsWriteNewInode ino inode = store.ext2fsWriteInodeFull ino data := by
        rw [InodeStore.ext2fsWriteNewInode]
        split
        · exact ⟨inode, List.take_of_length_le (le_of_eq fits.2), rfl⟩
        · refine ⟨_, ?_, rfl⟩
          rw [List.append_assoc]
          exact List.take_left' fits.2
      have long : EXT2_GOOD_OLD_INODE_SIZE ≤ data.length := by
        have length := congrArg List.length begins
        rw [List.length_take, fits.2] at length
        omega
      obtain ⟨code, hasAfter⟩ := has.write sound laid fits.1 fits.2 begins
      obtain ⟨-, soundAfter, geo, -⟩ := sound.write laid fits.1 long
      rw [InodeStore.step, same]
      refine ⟨?_, hasAfter, soundAfter, geo⟩
      show (codeOnly (store.ext2fsWriteInodeFull ino data).1).map _ = _
      rw [codes, code]
      rfl
  | flushIcache => exact ⟨rfl, ⟨has.super, has.inodes⟩, store.sound_flush, rfl⟩
  | writeBlk blk block =>
      refine ⟨rfl, ⟨has.super, fun ino valid => ?_⟩, sound.writeBlk laid fits block, rfl⟩
      exact (has.inodes ino valid).trans
        (congrArg Inode.ofBytes (InodeStore.stored_writeBlk laid fits block valid).symm)

/-- Over any run the calls on the store answer as the table does. -/
theorem HasInodes.run (calls : List InodeCall) (has : fs.HasInodes store) (sound : store.Sound)
    (laid : store.geo.Laid) (fits : ∀ call ∈ calls, call.Fits store.geo) :
    (store.run calls).1.map (fun answer => answer.map (Option.map Inode.ofBytes)) =
    (fs.inodeRun calls).1 ∧
      (fs.inodeRun calls).2.HasInodes (store.run calls).2 := by
  induction calls generalizing fs store with
  | nil => exact ⟨rfl, has⟩
  | cons call rest inductionHypothesis =>
      obtain ⟨answer, hasAfter, soundAfter, geo⟩ :=
        has.step sound laid (fits call List.mem_cons_self)
      obtain ⟨answers, last⟩ := inductionHypothesis hasAfter soundAfter (geo.symm ▸ laid)
        fun later member =>
        geo.symm ▸ fits later (List.mem_cons_of_mem _ member)
      exact ⟨List.cons_eq_cons.mpr ⟨answer, answers⟩, last⟩

end Fs

/-- In every run of reads and writes of inodes among writes of other blocks, with the cache empty at
first, the inode tables answer as a map of inodes that has what was on disk, and at the end what
is on disk is what the map has. -/
theorem inode_calls_refine {δ : Type} (fs : Fs δ) (geo : InodeGeometry)
    (io : Nat → Block) (heap : Block)
    (entries : Fin 4 → InodeCacheEnt) (calls : List InodeCall) (laid : geo.Laid)
    (fits : ∀ call ∈ calls, call.Fits geo) :
    let store : InodeStore := { geo, io, icache := InodeStore.createIcache heap entries }
    let map : Fs δ :=
      { fs with
        vol := { fs.vol with super := geo.super }
        inodeTab := fun ino => .ofBytes (store.stored ino) }
    (store.run calls).1.map (fun answer => answer.map (Option.map Inode.ofBytes)) =
    (map.inodeRun calls).1 ∧
      (map.inodeRun calls).2.HasInodes (store.run calls).2 := by
  intro store map
  have sound : store.Sound :=
    ⟨.inl rfl, fun _ some => absurd rfl some, fun _ _ some => absurd rfl some⟩
  have has : map.HasInodes store := ⟨rfl, fun _ _ => rfl⟩
  exact has.run calls sound laid fits

/-- Sixteen large inodes from block 5 on. -/
def oneTable : InodeGeometry where
  super := twoFiles.super
  inodeSize := 256
  bgInodeTable _ := 5
  rw := true

/-- The example's table is laid out well. -/
theorem oneTable_laid : oneTable.Laid where
  rw := rfl
  size := .inr (by decide)
  perGroup := by decide
  tables _ _ := Nat.succ_ne_zero 4
  apart ino other valid validToo different := by
    have group : ∀ ino, oneTable.validIno ino = true → oneTable.group ino = 0 := by
      intro ino valid
      have few : ino ≤ 16 := by
        simp only [InodeGeometry.validIno, Bool.not_eq_true', Bool.or_eq_false_iff,
          decide_eq_false_iff_not, Nat.not_lt] at valid
        exact valid.2
      show (ino - 1) / 16 = 0
      omega
    exact absurd ((group ino valid).trans (group other validToo).symm) different

/-- A new inode is written and read back, with a block of data written in between. -/
def someCalls : List InodeCall :=
  [.writeNew 13 (List.replicate 128 7), .writeBlk 30 fun _ => 1, .read 13, .read 11,
    .write 11 (List.replicate 128 9), .read 11]

/-- A run of several calls on the example's store. -/
theorem inode_calls_refine_some :
    (({ geo := oneTable, io := fun _ _ => 0
        icache := InodeStore.createIcache
          (fun _ => 0) fun _ => ⟨0, []⟩ } : InodeStore).run someCalls).1.map
      (fun answer => answer.map (Option.map Inode.ofBytes)) =
    [.ok none, .ok none, .ok (some (.ofBytes (List.replicate 128 7))),
      .ok (some (.ofBytes (List.replicate 128 0))), .ok none,
      .ok (some (.ofBytes (List.replicate 128 9)))] := by
  refine ((inode_calls_refine twoFiles oneTable (fun _ _ => 0) (fun _ => 0)
    (fun _ => ⟨0, []⟩) someCalls oneTable_laid ?_).1).trans ?_
  · have outside : ¬ oneTable.InTable 30 := by
      rintro ⟨ino, -, index, bound, same⟩
      have inside := oneTable.offset_bound (by decide) ino
      simp only [InodeStore.start, oneTable, twoFiles, Fs.super,
        Super.blocksize] at same inside bound
      omega
    intro call member
    simp only [someCalls, List.mem_cons, List.not_mem_nil, or_false] at member
    rcases member with rfl | rfl | rfl | rfl | rfl | rfl
    · exact ⟨by decide, by simp [EXT2_GOOD_OLD_INODE_SIZE]⟩
    · exact outside
    · exact (by decide : (13 : Nat) ≠ 0)
    · exact (by decide : (11 : Nat) ≠ 0)
    · exact ⟨by decide, by simp [EXT2_GOOD_OLD_INODE_SIZE]⟩
    · exact (by decide : (11 : Nat) ≠ 0)
  · rfl

end Ext2Fuse
