import Mathlib.Data.UInt
import Ext2Fuse.Format

/-!
# The superblock and `do_statvfs`

The fields of the superblock have the widths of the format. A division by zero and an `int` that
overflows have no value: the process ends there.
-/

namespace Ext2Fuse

/-- The fields of `struct ext2_super_block` that are read here. -/
structure SuperBlock where
  sInodesCount : UInt32 := 0
  sBlocksCount : UInt32 := 0
  sRBlocksCount : UInt32 := 0
  sFreeBlocksCount : UInt32 := 0
  sFreeInodesCount : UInt32 := 0
  sFirstDataBlock : UInt32 := 0
  sLogBlockSize : UInt32 := 0
  sLogFragSize : UInt32 := 0
  sBlocksPerGroup : UInt32 := 0
  sInodesPerGroup : UInt32 := 0
  sMagic : UInt16 := 0
  sRevLevel : UInt32 := 0
  sInodeSize : UInt16 := 0
  sFeatureIncompat : UInt32 := 0
  sFeatureRoCompat : UInt32 := 0
  sReservedGdtBlocks : UInt16 := 0
  sFirstMetaBg : UInt32 := 0

/-- `a / b`, which has no value for `b = 0`. -/
def divide (a b : Nat) : Option Nat := if b = 0 then none else some (a / b)

/-- The loop of `test_root` in `ext2fs.c`: multiply until `a` is reached. Of 31 turns the last one
would leave the range of `int`. -/
def testRootLoop (a b : Nat) : Nat → Nat → Option Nat
  | 0, _ => none
  | fuel + 1, num =>
      if num < a then if num * b < 2 ^ 31 then testRootLoop a b fuel (num * b) else none
      else some num

/-- `test_root` in `ext2fs.c`. -/
def testRoot (a b : Nat) : Option Bool := (testRootLoop a b 31 b).map (· == a)

/-- `ext2_group_sparse`. -/
def ext2GroupSparse (group : Nat) : Option Bool :=
  if group ≤ 1 then some true
  else do
    if ← testRoot group 3 then return true
    if ← testRoot group 5 then return true
    testRoot group 7

def EXT2_FEATURE_RO_COMPAT_SPARSE_SUPER : UInt32 := 0x0001

namespace SuperBlock

variable (sb : SuperBlock)

/-- `EXT2_BLOCK_SIZE`, an `int`; the processor takes the count of a shift modulo 32. -/
def ext2BlockSize : Int := ((1024 : UInt32) <<< sb.sLogBlockSize).toInt32.toInt

/-- `EXT2_FRAG_SIZE`. -/
def ext2FragSize : Int := ((1024 : UInt32) <<< sb.sLogFragSize).toInt32.toInt

/-- `EXT2_INODE_SIZE`. -/
def ext2InodeSize : Nat := if sb.sRevLevel = 0 then 128 else sb.sInodeSize.toNat

/-- `EXT2_INODES_PER_BLOCK`. -/
def ext2InodesPerBlock : Option Int :=
  if sb.ext2InodeSize = 0 then none else some (sb.ext2BlockSize.tdiv sb.ext2InodeSize)

/-- `EXT2_DESC_PER_BLOCK`, a `size_t`. -/
def ext2DescPerBlock : Nat := (sb.ext2BlockSize % 2 ^ 64).toNat / 32

/-- The superblock is in some groups only. -/
def sparse : Bool := sb.sFeatureRoCompat &&& EXT2_FEATURE_RO_COMPAT_SPARSE_SUPER != 0

/-- `ext2_bg_has_super`. -/
def ext2BgHasSuper (group : Nat) : Option Bool :=
  if sb.sparse then ext2GroupSparse group else some true

end SuperBlock

/-- The first quantities of `do_statvfs`. -/
structure Layout where
  groupsCount : Nat
  dbCount : Nat
  itbPerGroup : Nat

/-- `struct statvfs`, with counts of 64 bits. -/
structure Statvfs where
  fBsize : Nat
  fFrsize : Nat
  fBlocks : Nat
  fBfree : Nat
  fBavail : Nat
  fFiles : Nat
  fFfree : Nat
  fFavail : Nat
  fFsid : Nat
  fFlag : Nat
  fNamemax : Nat

namespace SuperBlock

variable (sb : SuperBlock)

/-- How `do_statvfs` lays the volume out: the groups, the blocks of descriptors and the blocks of a
group's inode table. -/
def layout : Option Layout := do
  let groups ← divide (sb.sBlocksCount - sb.sFirstDataBlock - 1).toNat sb.sBlocksPerGroup.toNat
  let groupsCount := (groups + 1) % 2 ^ 32
  let dbCount ← divide ((groupsCount + sb.ext2DescPerBlock + (2 ^ 64 - 1)) % 2 ^ 64)
    sb.ext2DescPerBlock
  let inodesPerBlock ← sb.ext2InodesPerBlock
  let itbPerGroup ← divide sb.sInodesPerGroup.toNat (inodesPerBlock % 2 ^ 32).toNat
  return { groupsCount, dbCount, itbPerGroup }

/-- The loop of `do_statvfs` over the groups: a copy of the superblock and the descriptors is in
some. The index is an `int`. -/
def overheadLoop (dbCount : Nat) : Nat → Option Nat
  | 0 => some sb.sFirstDataBlock.toNat
  | group + 1 => do
      let overhead ← overheadLoop dbCount group
      let hasSuper ← sb.ext2BgHasSuper group
      if 2 ^ 31 ≤ group + 1 then none
      else return if hasSuper then (overhead + (1 + dbCount)) % 2 ^ 64 else overhead

/-- `do_statvfs`. -/
def doStatvfs : Option Statvfs := do
  let layout ← sb.layout
  let supers ← sb.overheadLoop layout.dbCount layout.groupsCount
  let overhead := (supers + layout.groupsCount * (2 + layout.itbPerGroup)) % 2 ^ 64
  let free := sb.sFreeBlocksCount.toNat
  return {
    fBsize := (sb.ext2BlockSize % 2 ^ 64).toNat
    fFrsize := (sb.ext2FragSize % 2 ^ 64).toNat
    fBlocks := (sb.sBlocksCount.toNat + (2 ^ 64 - overhead)) % 2 ^ 64
    fBfree := free
    fBavail := if free ≥ sb.sRBlocksCount.toNat then free - sb.sRBlocksCount.toNat else 0
    fFiles := sb.sInodesCount.toNat
    fFfree := sb.sFreeInodesCount.toNat
    fFavail := sb.sFreeInodesCount.toNat
    fFsid := 0
    fFlag := 0
    fNamemax := EXT2_NAME_LEN }

end SuperBlock

end Ext2Fuse
