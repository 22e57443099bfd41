import Ext2Fuse.Volume
import Mathlib.Data.List.FinRange

/-!
# The inode table

`inode.c`: inodes are read from and written to the inode tables of the block groups, through a
buffer for one block and a cache of four inodes. The device takes what is written to it; memory is
always there.
-/

namespace Ext2Fuse

open Lib

def EXT2_ET_RO_FILSYS : Errcode := 2133571349
def EXT2_ET_MISSING_INODE_TABLE : Errcode := 2133571387

/-- `sizeof(struct ext2_inode)`. -/
def EXT2_GOOD_OLD_INODE_SIZE : Nat := 128

/-- Where the filesystem keeps its inodes, and whether it may be written to. -/
structure InodeGeometry where
  super : Super
  /-- `EXT2_INODE_SIZE`. -/
  inodeSize : Nat
  bgInodeTable : Nat → Nat
  rw : Bool

/-- `struct ext2_inode_cache_ent`, with the inode as the bytes it has on disk. -/
structure InodeCacheEnt where
  ino : Nat
  inode : List UInt8

/-- `struct ext2_inode_cache`. -/
structure InodeCache where
  buffer : Block
  bufferBlk : Nat
  cacheLast : Int
  cache : Fin 4 → InodeCacheEnt

/-- What `inode.c` uses of `ext2_filsys`. -/
structure InodeStore where
  geo : InodeGeometry
  io : Nat → Block
  icache : InodeCache

namespace InodeGeometry

/-- The block group of an inode. -/
def group (geo : InodeGeometry) (ino : Nat) : Nat := (ino - 1) / geo.super.sInodesPerGroup

/-- The offset of an inode in the table of its group. -/
def offset (geo : InodeGeometry) (ino : Nat) : Nat :=
    (ino - 1) % geo.super.sInodesPerGroup * geo.inodeSize

/-- The block an inode starts in. -/
def blockNr (geo : InodeGeometry) (ino : Nat) : Nat :=
  geo.bgInodeTable (geo.group ino) + geo.offset ino / geo.super.blocksize

/-- Has the inode table an inode of this number? -/
def validIno (geo : InodeGeometry) (ino : Nat) : Bool :=
  !(ino == 0 || decide (geo.super.sInodesCount < ino))

end InodeGeometry

namespace InodeStore

/-- `create_icache`, with what the allocator leaves in the memory. -/
def createIcache (heap : Block) (entries : Fin 4 → InodeCacheEnt) : InodeCache where
  buffer := heap
  bufferBlk := 0
  cacheLast := -1
  cache slot := { entries slot with ino := 0 }

/-- `ext2fs_flush_icache`. -/
def ext2fsFlushIcache (store : InodeStore) : InodeStore :=
  { store with
    icache := { store.icache with
      bufferBlk := 0
      cache := fun slot => { store.icache.cache slot with ino := 0 } } }

/-- The first entry of the cache for an inode. -/
def cached (store : InodeStore) (ino : Nat) : Option (Fin 4) :=
  (List.finRange 4).find? fun slot => (store.icache.cache slot).ino == ino

/-- Get a block into the buffer, unless it is there. -/
def fill (store : InodeStore) (blk : Nat) : InodeStore :=
  if blk = store.icache.bufferBlk then store
  else { store with icache := { store.icache with buffer := store.io blk, bufferBlk := blk } }

/-- The bytes of a piece that are in its first block. -/
def pieceLength (store : InodeStore) (offset length : Nat) : Nat :=
  if store.geo.super.blocksize < offset + length then store.geo.super.blocksize - offset else length

/-- The loop of `ext2fs_read_inode_full` over `length` bytes; each turn takes one at least. -/
def readBytes : Nat → InodeStore → Nat → Nat → Nat → List UInt8 × InodeStore
  | 0, store, _, _, _ => ([], store)
  | turns + 1, store, blk, offset, length =>
      if length = 0 then ([], store)
      else
        let clen := store.pieceLength offset length
        let store := store.fill blk
        let piece := Bytes.read store.icache.buffer offset clen
        let (rest, store) := readBytes turns store (blk + 1) 0 (length - clen)
        (piece ++ rest, store)

/-- `ext2fs_read_inode`. -/
def ext2fsReadInode (store : InodeStore) (ino : Nat) : Except Errcode (List UInt8) × InodeStore :=
  match store.cached ino with
  | some slot => (.ok (store.icache.cache slot).inode, store)
  | none =>
      if !store.geo.validIno ino then (.error EXT2_ET_BAD_INODE_NUM, store)
      else if store.geo.bgInodeTable (store.geo.group ino) = 0 then
        (.error EXT2_ET_MISSING_INODE_TABLE, store)
      else
        let length := min EXT2_GOOD_OLD_INODE_SIZE store.geo.inodeSize
        let (inode, store) := readBytes length store (store.geo.blockNr ino)
          (store.geo.offset ino % store.geo.super.blocksize) length
        let cacheLast := (store.icache.cacheLast + 1) % 4
        (.ok inode, { store with
          icache := { store.icache with
            cacheLast
            cache := Function.update store.icache.cache (Fin.ofNat 4 cacheLast.toNat)
              ⟨ino, inode⟩ } })

/-- The loop of `ext2fs_write_inode_full` over the bytes of the inode. -/
def writeBytes : Nat → InodeStore → Nat → Nat → List UInt8 → InodeStore
  | 0, store, _, _, _ => store
  | turns + 1, store, blk, offset, data =>
      if data.length = 0 then store
      else
        let clen := store.pieceLength offset data.length
        let store := store.fill blk
        let buffer := Bytes.write store.icache.buffer offset (data.take clen)
        let store := { store with
          io := Function.update store.io blk buffer
          icache := { store.icache with buffer } }
        writeBytes turns store (blk + 1) 0 (data.drop clen)

/-- The update of the cache in `ext2fs_write_inode_full`: the first entry for the inode. -/
def updateCache (store : InodeStore) (ino : Nat) (inode : List UInt8) : InodeStore :=
  match store.cached ino with
  | some slot => { store with
      icache :=
        { store.icache with cache := Function.update store.icache.cache slot ⟨ino, inode⟩ } }
  | none => store

/-- `ext2fs_write_inode_full` with a buffer of `data.length` bytes. The cache has the inode as it
was passed, even when it is not written in the end. -/
def ext2fsWriteInodeFull (store : InodeStore) (ino : Nat) (data : List UInt8) :
    Errcode × InodeStore :=
  let store := store.updateCache ino (data.take EXT2_GOOD_OLD_INODE_SIZE)
  if !store.geo.rw then (EXT2_ET_RO_FILSYS, store)
  else if !store.geo.validIno ino then (EXT2_ET_BAD_INODE_NUM, store)
  else if store.geo.bgInodeTable (store.geo.group ino) = 0 then (EXT2_ET_MISSING_INODE_TABLE, store)
  else
    let data := data.take store.geo.inodeSize
    (0, writeBytes data.length store (store.geo.blockNr ino)
      (store.geo.offset ino % store.geo.super.blocksize) data)

/-- `ext2fs_write_inode`. -/
def ext2fsWriteInode (store : InodeStore) (ino : Nat) (inode : List UInt8) : Errcode × InodeStore :=
  store.ext2fsWriteInodeFull ino inode

/-- `ext2fs_write_new_inode`: a large inode also gets `i_extra_isize`, and zeros. -/
def ext2fsWriteNewInode (store : InodeStore) (ino : Nat) (inode : List UInt8) :
    Errcode × InodeStore :=
  if store.geo.inodeSize = EXT2_GOOD_OLD_INODE_SIZE then store.ext2fsWriteInodeFull ino inode
  else
    let large := inode ++ [24, 0] ++ List.replicate
      (store.geo.inodeSize - EXT2_GOOD_OLD_INODE_SIZE - 2) 0
    store.ext2fsWriteInodeFull ino large

/-- The bytes of the volume, one block behind the other. -/
def bytes (store : InodeStore) : Bytes := fun position =>
  store.io (position / store.geo.super.blocksize) (position % store.geo.super.blocksize)

/-- The first byte of an inode. -/
def start (geo : InodeGeometry) (ino : Nat) : Nat :=
  geo.bgInodeTable (geo.group ino) * geo.super.blocksize + geo.offset ino

/-- The inode as it is on disk. -/
def stored (store : InodeStore) (ino : Nat) : List UInt8 :=
  Bytes.read store.bytes (start store.geo ino) EXT2_GOOD_OLD_INODE_SIZE

section Pieces

variable {store : InodeStore} {blk offset length : Nat} {data : List UInt8} {inTable : Nat → Prop}

/-- The buffer has what is in its block, which is one of the inode table. -/
def Buffered (store : InodeStore) (inTable : Nat → Prop) : Prop :=
  store.icache.bufferBlk = 0 ∨ inTable store.icache.bufferBlk ∧
    ∀ index, index < store.geo.super.blocksize →
      store.icache.buffer index = store.io store.icache.bufferBlk index

theorem bytes_eq (store : InodeStore) (blk : Nat) {index : Nat}
    (inside : index < store.geo.super.blocksize) :
    store.bytes (blk * store.geo.super.blocksize + index) = store.io blk index := by
  have positive := store.geo.super.blocksize_pos
  rw [bytes, Nat.mul_comm, Nat.mul_add_div positive, Nat.div_eq_of_lt inside, Nat.add_zero,
    Nat.mul_add_mod, Nat.mod_eq_of_lt inside]

/-- After the block was got the buffer has it, and nothing else is different. -/
theorem fill_spec (buffered : store.Buffered inTable) (nonzero : blk ≠ 0) :
    (store.fill blk).icache.bufferBlk = blk ∧
      (∀ index, index < store.geo.super.blocksize →
        (store.fill blk).icache.buffer index = store.io blk index) ∧
      ∃ buffer bufferBlk, store.fill blk =
        { store with icache := { store.icache with buffer, bufferBlk } } := by
  rw [fill]
  split
  · rename_i same
    refine ⟨same.symm, fun index inside => ?_, store.icache.buffer, store.icache.bufferBlk, rfl⟩
    rcases buffered with none | ⟨-, held⟩
    · exact absurd (same.trans none) nonzero
    · rw [held index inside, same]
  · exact ⟨rfl, fun _ _ => rfl, store.io blk, blk, rfl⟩

/-- The first piece is not empty and does not leave its block. -/
theorem pieceLength_spec (store : InodeStore) (inside : offset < store.geo.super.blocksize)
    (some : length ≠ 0) :
    0 < store.pieceLength offset length ∧ store.pieceLength offset length ≤ length ∧
      offset + store.pieceLength offset length ≤ store.geo.super.blocksize ∧
      (store.pieceLength offset length < length → offset + store.pieceLength offset length =
        store.geo.super.blocksize) := by
  rw [pieceLength]
  split <;> omega

/-- The loop reads the bytes of the volume. Only the buffer changes. -/
theorem readBytes_spec (turns : Nat) : ∀ (store : InodeStore) (blk offset length : Nat),
    length ≤ turns →
    offset < store.geo.super.blocksize → store.Buffered inTable → blk ≠ 0 →
    (∀ index, index < length →
      inTable ((blk * store.geo.super.blocksize + offset + index) / store.geo.super.blocksize)) →
    (readBytes turns store blk offset length).1 =
        Bytes.read store.bytes (blk * store.geo.super.blocksize + offset) length ∧
      (readBytes turns store blk offset length).2.Buffered inTable ∧
      ∃ buffer bufferBlk, (readBytes turns store blk offset length).2 =
        { store with icache := { store.icache with buffer, bufferBlk } } := by
  induction turns with
  | zero =>
      intro store blk offset length enough _ buffered _ _
      obtain rfl : length = 0 := by omega
      exact ⟨rfl, buffered, store.icache.buffer, store.icache.bufferBlk, rfl⟩
  | succ turns inductionHypothesis =>
      intro store blk offset length enough inside buffered nonzero tables
      rw [readBytes]
      by_cases none : length = 0
      · subst none
        rw [if_pos rfl]
        exact ⟨rfl, buffered, store.icache.buffer, store.icache.bufferBlk, rfl⟩
      · rw [if_neg none]
        obtain ⟨some, short, within, full⟩ := store.pieceLength_spec inside none
        have positive := store.geo.super.blocksize_pos
        have isTable : inTable blk := by
          have first := tables 0 (by omega)
          rwa [Nat.add_zero, Nat.mul_comm, Nat.mul_add_div positive, Nat.div_eq_of_lt inside,
            Nat.add_zero] at first
        obtain ⟨here, held, buffer, bufferBlk, filled⟩ := fill_spec buffered nonzero
        generalize store.pieceLength offset length = clen at some short within full
        have bufferedToo : (store.fill blk).Buffered inTable := by
          refine .inr ⟨by rw [here]; exact isTable, fun index bound => ?_⟩
          rw [here]
          rw [filled] at bound ⊢
          rw [filled] at held
          exact held index bound
        have geo : (store.fill blk).geo = store.geo := by rw [filled]
        have bytes : (store.fill blk).bytes = store.bytes := by
          rw [filled]
          rfl
        have piece : Bytes.read (store.fill blk).icache.buffer offset clen =
            Bytes.read store.bytes (blk * store.geo.super.blocksize + offset) clen := by
          refine List.ext_getElem (by simp) fun index bound _ => ?_
          rw [Bytes.length_read] at bound
          rw [Bytes.getElem_read, Bytes.getElem_read, held _ (by omega), Nat.add_assoc,
            bytes_eq _ _ (by omega)]
        -- the rest starts with the next block, if there is a rest
        have next : ∀ index, index < length - clen →
          (blk + 1) * store.geo.super.blocksize + 0 + index =
            blk * store.geo.super.blocksize + offset + (clen + index) := by
          intro index bound
          rw [Nat.succ_mul]
          omega
        obtain ⟨rest, restBuffered, restBuffer, restBlk, restStore⟩ :=
          inductionHypothesis (store.fill blk) (blk + 1) 0
          (length - clen) (by omega) (by rw [geo]; exact positive) bufferedToo
            (Nat.succ_ne_zero blk) (fun index bound => by
            rw [geo, next index bound]
            exact tables (clen + index) (by omega))
        refine ⟨?_, restBuffered, restBuffer, restBlk, ?_⟩
        · show Bytes.read _ _ _ ++
            (readBytes turns (store.fill blk) (blk + 1) 0 (length - clen)).1 = _
          have split : length = clen + (length - clen) := by omega
          rw [piece, rest, bytes, geo]
          conv_rhs => rw [split, Bytes.read_add]
          congr 1
          refine List.ext_getElem (by simp) fun index bound _ => ?_
          rw [Bytes.length_read] at bound
          rw [Bytes.getElem_read, Bytes.getElem_read, next index bound, Nat.add_assoc _ clen index]
        · show (readBytes turns (store.fill blk) (blk + 1) 0 (length - clen)).2 = _
          rw [restStore, filled]

/-- A piece written to a block is written to the bytes of the volume. -/
theorem bytes_update (store : InodeStore) (blk offset : Nat) (block : Block) (piece : List UInt8)
    (within : offset + piece.length ≤ store.geo.super.blocksize)
    (held : ∀ index, index < store.geo.super.blocksize → block index = store.io blk index) :
    ({ store with io := Function.update store.io blk (Bytes.write block offset piece) } :
      InodeStore).bytes =
      Bytes.write store.bytes (blk * store.geo.super.blocksize + offset) piece := by
  have positive := store.geo.super.blocksize_pos
  funext position
  show Function.update store.io blk _ (position / store.geo.super.blocksize)
    (position % store.geo.super.blocksize) = _
  have whole := Nat.div_add_mod position store.geo.super.blocksize
  have small := Nat.mod_lt position positive
  by_cases here : position / store.geo.super.blocksize = blk
  · subst here
    rw [Function.update_self]
    have linear : position = position / store.geo.super.blocksize * store.geo.super.blocksize +
        position % store.geo.super.blocksize := by
      rw [Nat.mul_comm]
      exact whole.symm
    generalize position / store.geo.super.blocksize = blk at linear held
    generalize position % store.geo.super.blocksize = index at linear small
    subst linear
    by_cases inside : offset ≤ index ∧ index < offset + piece.length
    · rw [Bytes.write_apply_inside _ inside.1 inside.2,
        Bytes.write_apply_inside _ (by omega) (by omega)]
      congr 1
      omega
    · rw [Bytes.write_apply_outside _ (by omega), Bytes.write_apply_outside _ (by omega),
        held index small, bytes_eq _ _ small]
  · rw [Function.update_of_ne here, Bytes.write_apply_outside]
    · rfl
    · rcases Nat.lt_or_gt_of_ne here with below | above
      · left
        have bound : (position / store.geo.super.blocksize + 1) * store.geo.super.blocksize ≤
            blk * store.geo.super.blocksize := Nat.mul_le_mul_right _ below
        rw [Nat.succ_mul, Nat.mul_comm] at bound
        omega
      · right
        have bound : (blk + 1) * store.geo.super.blocksize ≤
            position / store.geo.super.blocksize * store.geo.super.blocksize :=
              Nat.mul_le_mul_right _ above
        rw [Nat.succ_mul, Nat.mul_comm (position / _)] at bound
        omega

/-- The loop writes the bytes of the volume. The cache of inodes does not change. -/
theorem writeBytes_spec
    (turns : Nat) : ∀ (store : InodeStore) (blk offset : Nat) (data : List UInt8),
    data.length ≤ turns → offset < store.geo.super.blocksize → store.Buffered inTable → blk ≠ 0 →
    (∀ index, index < data.length →
      inTable ((blk * store.geo.super.blocksize + offset + index) / store.geo.super.blocksize)) →
    (writeBytes turns store blk offset data).bytes =
        Bytes.write store.bytes (blk * store.geo.super.blocksize + offset) data ∧
      (writeBytes turns store blk offset data).Buffered inTable ∧
      (writeBytes turns store blk offset data).geo = store.geo ∧
      (writeBytes turns store blk offset data).icache.cache = store.icache.cache := by
  induction turns with
  | zero =>
      intro store blk offset data enough _ buffered _ _
      obtain rfl : data = [] := List.eq_nil_of_length_eq_zero (by omega)
      exact ⟨(Bytes.write_nil _ _).symm, buffered, rfl, rfl⟩
  | succ turns inductionHypothesis =>
      intro store blk offset data enough inside buffered nonzero tables
      rw [writeBytes]
      by_cases none : data.length = 0
      · rw [if_pos none]
        obtain rfl : data = [] := List.eq_nil_of_length_eq_zero none
        exact ⟨(Bytes.write_nil _ _).symm, buffered, rfl, rfl⟩
      · rw [if_neg none]
        obtain ⟨some, short, within, full⟩ := store.pieceLength_spec inside none
        have positive := store.geo.super.blocksize_pos
        have isTable : inTable blk := by
          have first := tables 0 (by omega)
          rwa [Nat.add_zero, Nat.mul_comm, Nat.mul_add_div positive, Nat.div_eq_of_lt inside,
            Nat.add_zero] at first
        obtain ⟨here, held, buffer, bufferBlk, filled⟩ := fill_spec buffered nonzero
        generalize store.pieceLength offset data.length = clen at some short within full
        have geo : (store.fill blk).geo = store.geo := by rw [filled]
        have sameIo : (store.fill blk).io = store.io := by rw [filled]
        have sameCache : (store.fill blk).icache.cache = store.icache.cache := by rw [filled]
        have length : (data.take clen).length = clen := by
          rw [List.length_take, Nat.min_eq_left short]
        -- the block with the piece in it, in the buffer and on the volume
        let written : InodeStore :=
          { store.fill blk with
            io := Function.update (store.fill blk).io blk
              (Bytes.write (store.fill blk).icache.buffer offset (data.take clen))
            icache := { (store.fill blk).icache with
              buffer := Bytes.write (store.fill blk).icache.buffer offset (data.take clen) } }
        have geoToo : written.geo = store.geo := geo
        have bytes : written.bytes =
            Bytes.write store.bytes (blk * store.geo.super.blocksize + offset)
              (data.take clen) := by
          have update := bytes_update store blk offset (store.fill blk).icache.buffer
            (data.take clen)
            (by rw [length]; exact within) held
          rw [← update]
          funext position
          show Function.update (store.fill blk).io _ _ _ _ = Function.update store.io _ _ _ _
          rw [sameIo, geo]
        have bufferedToo : written.Buffered inTable := by
          have table : inTable written.icache.bufferBlk := by
            rw [show written.icache.bufferBlk = blk from here]
            exact isTable
          refine .inr ⟨table, fun index _ => ?_⟩
          show _ = Function.update (store.fill blk).io blk _ (store.fill blk).icache.bufferBlk index
          rw [here, Function.update_self]
        have next : ∀ index, index < (data.drop clen).length →
          (blk + 1) * store.geo.super.blocksize + 0 + index =
            blk * store.geo.super.blocksize + offset + (clen + index) := by
          intro index bound
          rw [List.length_drop] at bound
          rw [Nat.succ_mul]
          omega
        obtain ⟨restBytes, restBuffered, restGeo, restCache⟩ :=
          inductionHypothesis written (blk + 1) 0 (data.drop clen)
          (by rw [List.length_drop]; omega) (by rw [geoToo]; exact positive) bufferedToo
            (Nat.succ_ne_zero blk)
          (fun index bound => by
            rw [geoToo, next index bound]
            rw [List.length_drop] at bound
            exact tables (clen + index) (by omega))
        refine ⟨?_, restBuffered, restGeo.trans geoToo, restCache.trans sameCache⟩
        refine restBytes.trans ?_
        rw [bytes, geoToo]
        by_cases all : (data.drop clen).length = 0
        · have nothing := List.eq_nil_of_length_eq_zero all
          rw [nothing, Bytes.write_nil]
          have whole : data.take clen = data := by
            conv_rhs => rw [← List.take_append_drop clen data, nothing, List.append_nil]
          rw [whole]
        · have place := next 0 (by omega)
          rw [Nat.add_zero] at place
          have pieces := Bytes.write_append store.bytes (blk * store.geo.super.blocksize + offset)
            (data.take clen)
            (data.drop clen)
          rw [List.take_append_drop, length] at pieces
          rw [place, Nat.add_zero, ← Nat.add_assoc]
          exact pieces

end Pieces

end InodeStore

end Ext2Fuse
