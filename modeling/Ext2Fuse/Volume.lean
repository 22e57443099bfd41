import Ext2Fuse.Format

/-!
# Blocks and their allocation

The part of the mounted filesystem that holds blocks: the superblock's geometry,
the block bitmap with its free counters, and the contents of the device as the I/O
channel shows them. `alloc.c` and `alloc_stats.c` are modelled over it, and
`wipe_block.c`, whose writes go to the device behind the channel's cache.
-/

namespace Ext2Fuse

open Lib

/-- The superblock fields the modelled functions read. -/
structure Super where
  sLogBlockSize : Nat
  sInodesCount : Nat
  sBlocksCount : Nat
  sFirstDataBlock : Nat
  sFirstIno : Nat
  sInodesPerGroup : Nat
  sBlocksPerGroup : Nat
  /-- `EXT2_FEATURE_INCOMPAT_FILETYPE` is set. -/
  filetype : Bool

/-- `EXT2_BLOCK_SIZE`, and `fs->blocksize`. -/
def Super.blocksize (super : Super) : Nat := 1024 * 2 ^ super.sLogBlockSize

/-- Block pointers in an indirect block: `fs->blocksize >> 2`. -/
def Super.addrPerBlock (super : Super) : Nat := 256 * 2 ^ super.sLogBlockSize

/-- Every block size is positive. -/
theorem Super.blocksize_pos (super : Super) : 0 < super.blocksize := by
  simp [Super.blocksize]

/-- Every block holds at least one pointer. -/
theorem Super.addrPerBlock_pos (super : Super) : 0 < super.addrPerBlock := by
  simp [Super.addrPerBlock]

/-- What is done to one block: written through the I/O channel, overwritten on the device behind it,
or handed to `ext2fs_block_alloc_stats`. -/
inductive BlockEvent where
  | write (blk : Nat) (block : Block)
  | wipe (blk : Nat)
  | alloc (blk : Nat)
  | release (blk : Nat)

/-- The block side of a mounted filesystem. `io` is what `io_channel_read_blk`
returns for each block; behind the end of the device, where the channel fails with
`EXT2_ET_SHORT_READ`, its bytes mean nothing. `tick` counts the events at which the
environment may answer differently. `history` is what has been done to blocks so far, in
order; no function looks at it. -/
structure Volume where
  super : Super
  blockMap : Nat → Bool
  sFreeBlocksCount : Nat
  bgFreeBlocksCount : Nat → Nat
  io : Nat → Block
  tick : Nat
  history : List BlockEvent := []

/-- Which blocks the I/O channel's cache holds, by tick. -/
abbrev Cached := Nat → Nat → Bool

namespace Volume

/-- `io_channel_write_blk` of one block. -/
def writeBlk (vol : Volume) (blk : Nat) (block : Block) : Volume :=
  { vol with
    io := Function.update vol.io blk block
    history := vol.history ++ [.write blk block] }

/-- The `index`-th pointer of an indirect block. -/
def ptr (block : Block) (index : Nat) : Nat := block.getU32 (4 * index)

/-- Store a pointer into an indirect block. -/
def setPtr (block : Block) (index : Nat) (value : Nat) : Block := block.setU32 (4 * index) value

/-- `ext2fs_group_of_blk`. -/
def ext2fsGroupOfBlk (vol : Volume) (blk : Nat) : Nat :=
  (blk - vol.super.sFirstDataBlock) / vol.super.sBlocksPerGroup

/-- Does the block bitmap cover `blk`? Marking and unmarking outside of it only warns. -/
def inRange (vol : Volume) (blk : Nat) : Bool :=
  decide (vol.super.sFirstDataBlock ≤ blk) && decide (blk < vol.super.sBlocksCount)

/-- `ext2fs_block_alloc_stats` with `inuse` +1 (`true`) or -1 (`false`). The code does not check the
group it indexes the descriptors with: for a number outside of the volume it may well crash where
this goes on. -/
def ext2fsBlockAllocStats (vol : Volume) (blk : Nat) (inuse : Bool) : Volume :=
  { vol with
    blockMap := if vol.inRange blk then Function.update vol.blockMap blk inuse else vol.blockMap
    bgFreeBlocksCount := Function.update vol.bgFreeBlocksCount (vol.ext2fsGroupOfBlk blk)
      ((vol.bgFreeBlocksCount (vol.ext2fsGroupOfBlk blk) + (if inuse then 2 ^ 16 - 1 else 1))
        % 2 ^ 16)
    sFreeBlocksCount := (vol.sFreeBlocksCount + (if inuse then 2 ^ 32 - 1 else 1)) % 2 ^ 32
    history := vol.history ++ [if inuse then .alloc blk else .release blk] }

/-- The order in which `ext2fs_new_block` looks at the blocks: from the goal to
the end of the volume, then from the first data block up to the goal. -/
def searchOrder (first count goal : Nat) : List Nat :=
  List.range' goal (count - goal) ++ List.range' first (goal - first)

/-- `ext2fs_new_block`: the first free block from `goal` on. -/
def ext2fsNewBlock (vol : Volume) (goal : Nat) : Except Errcode Nat :=
  let goal := if goal = 0 ∨ vol.super.sBlocksCount ≤ goal then vol.super.sFirstDataBlock else goal
  match (searchOrder vol.super.sFirstDataBlock vol.super.sBlocksCount goal).find?
      (fun blk => !vol.blockMap blk) with
  | some blk => .ok blk
  | none => .error EXT2_ET_BLOCK_ALLOC_FAIL

/-- `ext2fs_alloc_block`: find a block, zero it through the channel, mark it used. -/
def ext2fsAllocBlock (vol : Volume) (goal : Nat) : Except Errcode Nat × Volume :=
  match vol.ext2fsNewBlock goal with
  | .error rc => (.error rc, vol)
  | .ok blk => (.ok blk, (vol.writeBlk blk fun _ => 0).ext2fsBlockAllocStats blk true)

/-- `test_wipe_block`: overwrite the block with the letter t on the device. The
channel shows the new contents unless its cache holds the block. -/
def testWipeBlock (cached : Cached) (vol : Volume) (blk : Nat) : Volume :=
  { vol with
    io := if cached vol.tick blk then vol.io else Function.update vol.io blk fun _ => 0x74
    tick := vol.tick + 1
    history := vol.history ++ [.wipe blk] }

section Lemmas

variable (vol : Volume) (blk : Nat) (block : Block)

@[simp] theorem writeBlk_super : (vol.writeBlk blk block).super = vol.super := rfl
@[simp] theorem writeBlk_blockMap : (vol.writeBlk blk block).blockMap = vol.blockMap := rfl
@[simp] theorem writeBlk_io : (vol.writeBlk blk block).io = Function.update vol.io blk block := rfl

@[simp] theorem ext2fsBlockAllocStats_super (inuse : Bool) :
    (vol.ext2fsBlockAllocStats blk inuse).super = vol.super := rfl

@[simp] theorem ext2fsBlockAllocStats_io (inuse : Bool) :
    (vol.ext2fsBlockAllocStats blk inuse).io = vol.io := rfl

/-- The counting routine changes one bit of the bitmap, and none for a number out of range. -/
theorem ext2fsBlockAllocStats_blockMap (inuse : Bool) :
    (vol.ext2fsBlockAllocStats blk inuse).blockMap =
      if vol.inRange blk then Function.update vol.blockMap blk inuse else vol.blockMap := rfl

@[simp] theorem testWipeBlock_super (cached : Cached) :
    (testWipeBlock cached vol blk).super = vol.super := rfl

@[simp] theorem testWipeBlock_blockMap (cached : Cached) :
    (testWipeBlock cached vol blk).blockMap = vol.blockMap := rfl

/-- Wiping changes no block but the one wiped. -/
theorem testWipeBlock_io_of_ne (cached : Cached) {other : Nat} (different : other ≠ blk) :
    (testWipeBlock cached vol blk).io other = vol.io other := by
  simp only [testWipeBlock]
  split
  · rfl
  · exact Function.update_of_ne different _ _

@[simp] theorem ext2fsAllocBlock_super (goal : Nat) :
    (vol.ext2fsAllocBlock goal).2.super = vol.super := by
  simp only [ext2fsAllocBlock]
  split <;> simp

variable {vol blk block}

/-- A pointer that was stored is read back when it fits thirty-two bits. -/
theorem ptr_setPtr_same {index : Nat} {value : Nat} (bound : value < 2 ^ 32) :
    ptr (setPtr block index value) index = value := by
  simp only [ptr, setPtr, Bytes.getU32_setU32_same]
  exact Nat.mod_eq_of_lt bound

/-- Storing one pointer leaves the others of the block. -/
theorem ptr_setPtr_of_ne {index other : Nat} (value : Nat) (different : other ≠ index) :
    ptr (setPtr block index value) other = ptr block other :=
  Bytes.getU32_setU32_of_disjoint _ _ (by omega)

@[simp] theorem ptr_zero (index : Nat) : ptr (fun _ => 0) index = 0 := by
  simp [ptr, Bytes.getU32, Bytes.getU16]

/-- A block number is in range between the first data block and the block count. -/
theorem inRange_iff : vol.inRange blk = true ↔
    vol.super.sFirstDataBlock ≤ blk ∧ blk < vol.super.sBlocksCount := by
  simp [inRange]

/-- A block handed out by the allocator lies in the volume and was free. -/
theorem ext2fsNewBlock_ok {goal : Nat} (firstData : vol.super.sFirstDataBlock ≤ 1)
    (found : vol.ext2fsNewBlock goal = .ok blk) :
    vol.blockMap blk = false ∧ vol.inRange blk = true := by
  simp only [ext2fsNewBlock] at found
  split at found
  · rename_i candidate hit
    cases found
    have free := List.find?_some hit
    have member := List.mem_of_find?_eq_some hit
    refine ⟨by simpa using free, inRange_iff.mpr ?_⟩
    simp only [searchOrder, List.mem_append, List.mem_range'_1] at member
    split at member <;> omega
  · cases found

end Lemmas

end Volume

end Ext2Fuse
