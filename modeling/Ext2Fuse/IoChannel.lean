import Ext2Fuse.Format
import Ext2Fuse.Lib.WriteBack

/-!
# The I/O channel and its cache

`unix_io.c`: block reads and writes of a device through a write-back cache of eight entries. The
device takes what is written to it; a failing read or write of the device is left out, and so is
the overflow of the counter the entries take their access times from.
-/

namespace Ext2Fuse

open Lib

/-- `CACHE_SIZE` entries. -/
abbrev Slot := Fin 8

/-- `WRITE_DIRECT_SIZE`: the most blocks that go through the cache at once. -/
def WRITE_DIRECT_SIZE : Int := 4

/-- `struct unix_cache`. -/
structure UnixCache where
  buf : Block
  block : Nat
  accessTime : Nat
  dirty : Bool
  inUse : Bool

/-- The channel with its `struct unix_private_data`, and the device it is open on. -/
structure Channel where
  blockSize : Nat
  /-- `CHANNEL_FLAGS_WRITETHROUGH` is set. -/
  writethrough : Bool
  accessTime : Nat
  offset : Nat
  cache : Slot → UnixCache
  dev : Bytes

/-- What `find_cached_block` comes back with: the entry of the block, or the one to reuse. -/
inductive Lookup
  | cached (slot : Slot)
  | eldest (slot : Slot)

namespace Channel

/-- The byte of the device a block starts at. -/
def location (chan : Channel) (block : Nat) : Nat := block * chan.blockSize + chan.offset

/-- The bytes a transfer moves: blocks, or a negative number of bytes. -/
def transferSize (chan : Channel) (count : Int) : Nat :=
  if count < 0 then (-count).toNat else count.toNat * chan.blockSize

/-- `raw_read_blk`. -/
def rawReadBlk (chan : Channel) (block : Nat) (count : Int) : List UInt8 :=
  Bytes.read chan.dev (chan.location block) (chan.transferSize count)

/-- `raw_write_blk`. -/
def rawWriteBlk (chan : Channel) (block : Nat) (count : Int) (buf : Bytes) : Channel :=
  let size := if count = 1 then chan.blockSize else chan.transferSize count
  { chan with dev := Bytes.write chan.dev (chan.location block) (Bytes.read buf 0 size) }

/-- The channel with one entry exchanged. -/
def setEntry (chan : Channel) (slot : Slot) (entry : UnixCache) : Channel :=
  { chan with cache := Function.update chan.cache slot entry }

/-- `alloc_cache`, with what the allocator leaves in the buffers. -/
def allocCache (chan : Channel) (heap : Slot → Block) : Channel :=
  { chan with
    accessTime := 0
    cache := fun slot =>
      { buf := heap slot, block := 0, accessTime := 0, dirty := false, inUse := false } }

/-- `!oldest_cache || (cache->access_time < oldest_cache->access_time)`. -/
def isOlder (chan : Channel) (slot : Slot) : Option Slot → Bool
  | none => true
  | some oldest => decide ((chan.cache slot).accessTime < (chan.cache oldest).accessTime)

/-- The scan of `find_cached_block`, with `unused_cache` and `oldest_cache` so far. At its end one
of the two is set. -/
def scanCache (chan : Channel) (block : Nat) : List Slot → Option Slot → Option Slot → Lookup
  | [], unused, oldest => .eldest ((unused <|> oldest).getD 0)
  | slot :: rest, unused, oldest =>
      if (chan.cache slot).inUse = false then scanCache chan block rest
        (unused <|> some slot) oldest
      else if (chan.cache slot).block = block then .cached slot
      else scanCache chan block rest unused (if chan.isOlder slot oldest then some slot else oldest)

/-- `cache->access_time = ++data->access_time`. -/
def touch (chan : Channel) (slot : Slot) : Channel :=
  { chan.setEntry slot { chan.cache slot with accessTime := chan.accessTime + 1 } with
    accessTime := chan.accessTime + 1 }

/-- `find_cached_block`. -/
def findCachedBlock (chan : Channel) (block : Nat) : Lookup × Channel :=
  match chan.scanCache block (List.finRange 8) none none with
  | .cached slot => (.cached slot, chan.touch slot)
  | .eldest slot => (.eldest slot, chan)

/-- `reuse_cache`. -/
def reuseCache (chan : Channel) (slot : Slot) (block : Nat) : Channel :=
  let entry := chan.cache slot
  let chan := if entry.dirty && entry.inUse then chan.rawWriteBlk entry.block 1 entry.buf else chan
  (chan.setEntry slot { entry with inUse := true, dirty := false, block }).touch slot

/-- `memcpy` of a block into an entry's buffer. -/
def copyIn (chan : Channel) (slot : Slot) (data : List UInt8) : Channel :=
  chan.setEntry slot { chan.cache slot with buf := Bytes.write (chan.cache slot).buf 0 data }

/-- One turn of `flush_cached_blocks`. -/
def flushEntry (invalidate : Bool) (chan : Channel) (slot : Slot) : Channel :=
  let entry := chan.cache slot
  if !entry.inUse then chan
  else
    let kept := { entry with inUse := !invalidate }
    if !entry.dirty then chan.setEntry slot kept
    else (chan.rawWriteBlk entry.block 1 entry.buf).setEntry slot { kept with dirty := false }

/-- `flush_cached_blocks`. -/
def flushCachedBlocks (chan : Channel) (invalidate : Bool) : Channel :=
  (List.finRange 8).foldl (flushEntry invalidate) chan

/-- The search for blocks to read along with the one before: the entries to reuse for them. It
stops in front of a block that is cached. -/
def uncachedRun : Nat → Channel → Nat → List Slot × Channel
  | 0, chan, _ => ([], chan)
  | more + 1, chan, block =>
      match chan.findCachedBlock block with
      | (.cached _, chan) => ([], chan)
      | (.eldest slot, chan) =>
          let (reuse, chan) := uncachedRun more chan (block + 1)
          (slot :: reuse, chan)

/-- Save blocks that were read in the cache. -/
def saveBlocks : Channel → Nat → List Slot → List UInt8 → Channel
  | chan, _, [], _ => chan
  | chan, block, slot :: reuse, data =>
      saveBlocks ((chan.reuseCache slot block).copyIn slot (data.take chan.blockSize))
        (block + 1) reuse
        (data.drop chan.blockSize)

/-- The loop of `unix_read_blk` over `count` blocks, of which each turn takes one at least. -/
def readLoop : Nat → Channel → Nat → Nat → List UInt8 × Channel
  | 0, chan, _, _ => ([], chan)
  | turns + 1, chan, block, count =>
      if count = 0 then ([], chan)
      else match chan.findCachedBlock block with
        | (.cached slot, chan) =>
            let (rest, after) := readLoop turns chan (block + 1) (count - 1)
            (Bytes.read (chan.cache slot).buf 0 chan.blockSize ++ rest, after)
        | (.eldest slot, chan) =>
            let (reuse, chan) := uncachedRun (count - 1) chan (block + 1)
            let data := chan.rawReadBlk block (reuse.length + 1)
            let (rest, after) := readLoop turns (chan.saveBlocks block (slot :: reuse) data)
              (block + (reuse.length + 1)) (count - (reuse.length + 1))
            (data ++ rest, after)

/-- `unix_read_blk`. -/
def unixReadBlk (chan : Channel) (block : Nat) (count : Int) : List UInt8 × Channel :=
  if count < 0 ∨ WRITE_DIRECT_SIZE < count then
    let chan := chan.flushCachedBlocks false
    (chan.rawReadBlk block count, chan)
  else readLoop count.toNat chan block count.toNat

/-- The loop of `unix_write_blk` over `count` blocks at `buf + cp`. -/
def writeLoop (buf : Bytes) : Nat → Channel → Nat → Nat → Channel
  | 0, chan, _, _ => chan
  | count + 1, chan, block, cp =>
      let (slot, chan) := match chan.findCachedBlock block with
        | (.cached slot, chan) => (slot, chan)
        | (.eldest slot, chan) => (slot, chan.reuseCache slot block)
      let chan := chan.copyIn slot (Bytes.read buf cp chan.blockSize)
      let chan := chan.setEntry slot { chan.cache slot with dirty := !chan.writethrough }
      writeLoop buf count chan (block + 1) (cp + chan.blockSize)

/-- `unix_write_blk`. -/
def unixWriteBlk (chan : Channel) (block : Nat) (count : Int) (buf : Bytes) : Channel :=
  if count < 0 ∨ WRITE_DIRECT_SIZE < count then
    (chan.flushCachedBlocks true).rawWriteBlk block count buf
  else
    let chan := if chan.writethrough then chan.rawWriteBlk block count buf else chan
    writeLoop buf count.toNat chan block 0

/-- `unix_write_byte`. -/
def unixWriteByte (chan : Channel) (offset size : Nat) (buf : Bytes) : Channel :=
  let chan := chan.flushCachedBlocks true
  { chan with dev := Bytes.write chan.dev (offset + chan.offset) (Bytes.read buf 0 size) }

/-- `unix_flush`. -/
def unixFlush (chan : Channel) : Channel := chan.flushCachedBlocks false

/-- `unix_set_blksize`, with what the allocator leaves in the new buffers. -/
def unixSetBlksize (chan : Channel) (blksize : Nat) (heap : Slot → Block) : Channel :=
  if chan.blockSize = blksize then chan
  else { chan.flushCachedBlocks false with blockSize := blksize }.allocCache heap

/-- `unix_open` on a device, with what the allocator leaves in the buffers; `offset` is what
`unix_set_option` sets before the first transfer. -/
def unixOpen (dev : Bytes) (offset : Nat) (heap : Slot → Block) : Channel :=
  Channel.allocCache
    { blockSize := 1024, writethrough := false, accessTime := 0, offset
      cache := fun slot =>
        { buf := heap slot, block := 0, accessTime := 0, dirty := false, inUse := false }
      dev } heap

/-- The write of `test_wipe_block` and `secure_wipe_block`: to the device, past the cache. -/
def wipeBlock (chan : Channel) (block : Nat) (buffer : Bytes) : Channel :=
  { chan with
    dev := Bytes.write chan.dev (chan.location block) (Bytes.read buffer 0 chan.blockSize) }

end Channel

end Ext2Fuse
