import Ext2Fuse.ChannelCoherence

/-!
# A channel is a disk

A disk has bytes, and remembers which of them were wiped and not written since. Whatever is done
with a channel, in whatever order, its answers are those of the disk, and once it is flushed the
device holds what the disk does. Where a wiped block is cached the two may differ: the wipe goes
past the cache.
-/

namespace Ext2Fuse

open Lib Set

/-- A transfer of bytes. -/
inductive Transfer
  | readBlk (block : Nat) (count : Int)
  | writeBlk (block : Nat) (count : Int) (buf : Bytes)
  | writeByte (offset size : Nat) (buf : Bytes)
  | flush

/-- What is done with an open channel. -/
inductive ChannelOp
  | transfer (transfer : Transfer)
  | setBlksize (blksize : Nat) (heap : Slot → Block)
  | wipe (block : Nat) (buffer : Bytes)

namespace Channel

variable {chan : Channel}

/-- The transfer, with the bytes it answers. -/
def transfer (chan : Channel) : Transfer → List UInt8 × Channel
  | .readBlk block count => chan.unixReadBlk block count
  | .writeBlk block count buf => ([], chan.unixWriteBlk block count buf)
  | .writeByte offset size buf => ([], chan.unixWriteByte offset size buf)
  | .flush => ([], chan.unixFlush)

/-- One operation, with the bytes it answers. -/
def step (chan : Channel) : ChannelOp → List UInt8 × Channel
  | .transfer transfer => chan.transfer transfer
  | .setBlksize blksize heap => ([], chan.unixSetBlksize blksize heap)
  | .wipe block buffer => ([], chan.wipeBlock block buffer)

/-- One operation after the other, with the answers. -/
def runs : Channel → List ChannelOp → List (List UInt8) × Channel
  | chan, [] => ([], chan)
  | chan, op :: rest =>
      ((chan.step op).1 :: (runs (chan.step op).2 rest).1, (runs (chan.step op).2 rest).2)

/-- The bytes a transfer writes. -/
def written (chan : Channel) : Transfer → Set Nat
  | .readBlk _ _ => ∅
  | .writeBlk block count _ =>
      Ico (chan.location block) (chan.location block + chan.transferSize count)
  | .writeByte offset size _ => Ico (offset + chan.offset) (offset + chan.offset + size)
  | .flush => ∅

/-- What the transfer does to plain memory. -/
def effect (chan : Channel) : Transfer → Bytes → Bytes
  | .readBlk _ _ => id
  | .writeBlk block count buf => writing (chan.location block) 0 (chan.transferSize count) buf
  | .writeByte offset size buf => writing (offset + chan.offset) 0 size buf
  | .flush => id

/-- Every transfer is what it is meant to be. -/
theorem acts_transfer (sound : chan.Sound) (transfer : Transfer) :
    Acts chan (chan.transfer transfer).2 (chan.written transfer) (chan.effect transfer) := by
  cases transfer with
  | readBlk block count => exact (unixReadBlk_acts sound block count).1
  | writeBlk block count buf => exact acts_unixWriteBlk sound block count buf
  | writeByte offset size buf => exact acts_unixWriteByte sound offset size buf
  | flush => exact idles_unixFlush sound

/-- Wiping a block keeps the cache sound. -/
theorem sound_wipeBlock (sound : chan.Sound) (block : Nat) (buffer : Bytes) :
    (chan.wipeBlock block buffer).Sound :=
  ⟨sound.distinct, sound.buffered⟩

/-- Every operation on a channel keeps its cache sound. -/
theorem sound_step (sound : chan.Sound) (op : ChannelOp) : (chan.step op).2.Sound := by
  cases op with
  | transfer transfer => exact (acts_transfer sound transfer).sound
  | setBlksize blksize heap => exact (quiet_unixSetBlksize sound blksize heap).1
  | wipe block buffer => exact sound_wipeBlock sound block buffer

/-- So does every run of operations. -/
theorem sound_runs (sound : chan.Sound) (ops : List ChannelOp) : (chan.runs ops).2.Sound := by
  induction ops generalizing chan with
  | nil => exact sound
  | cons op rest inductionHypothesis => exact inductionHypothesis (sound_step sound op)

end Channel

/-- A disk: its bytes, how it is divided into blocks, and the bytes that were wiped. -/
structure Disk where
  bytes : Bytes
  blockSize : Nat
  offset : Nat
  wiped : Set Nat

namespace Disk

/-- The byte a block starts at. -/
def start (disk : Disk) (block : Nat) : Nat := block * disk.blockSize + disk.offset

/-- Blocks, or a negative number of bytes. -/
def length (disk : Disk) (count : Int) : Nat :=
  if count < 0 then (-count).toNat else count.toNat * disk.blockSize

/-- Overwrite bytes, which are then no longer wiped. -/
def put (disk : Disk) (start size : Nat) (buf : Bytes) : Disk :=
  { disk with
    bytes := Bytes.write disk.bytes start (Bytes.read buf 0 size)
    wiped := disk.wiped \ Ico start (start + size) }

/-- What an operation does to the disk. -/
def step (disk : Disk) : ChannelOp → Disk
  | .transfer (.readBlk _ _) => disk
  | .transfer (.writeBlk block count buf) => disk.put (disk.start block) (disk.length count) buf
  | .transfer (.writeByte offset size buf) => disk.put (offset + disk.offset) size buf
  | .transfer .flush => disk
  | .setBlksize blksize _ => { disk with blockSize := blksize }
  | .wipe block _ =>
      { disk with wiped := disk.wiped ∪ Ico (disk.start block) (disk.start block + disk.blockSize) }

def runs : Disk → List ChannelOp → Disk
  | disk, [] => disk
  | disk, op :: rest => (disk.step op).runs rest

/-- The answers the disk gives. What it answers for wiped bytes is open. -/
def Gives (disk : Disk) : ChannelOp → List UInt8 → Prop
  | .transfer (.readBlk block count), answer =>
      answer.length = disk.length count ∧ ∀ index, index < disk.length count →
        disk.start block + index ∉ disk.wiped →
          answer[index]? = some (disk.bytes (disk.start block + index))
  | _, answer => answer = []

/-- The answers the disk gives in a run. -/
def GivesAll : Disk → List ChannelOp → List (List UInt8) → Prop
  | _, [], answers => answers = []
  | _, _ :: _, [] => False
  | disk, op :: rest, answer :: answers =>
      disk.Gives op answer ∧ (disk.step op).GivesAll rest answers

end Disk

namespace Channel

variable {chan : Channel} {disk : Disk}

/-- The channel stands for the disk. -/
structure StandsFor (chan : Channel) (disk : Disk) : Prop where
  sound : chan.Sound
  blockSize : chan.blockSize = disk.blockSize
  offset : chan.offset = disk.offset
  coherent : chan.state.Coherent disk.wiped disk.bytes

/-- Channel and disk agree where a block lies. -/
theorem StandsFor.start (stands : chan.StandsFor disk) : chan.location = disk.start := by
  funext block
  rw [location, Disk.start, stands.blockSize, stands.offset]

/-- Channel and disk agree how long a transfer is. -/
theorem StandsFor.length (stands : chan.StandsFor disk) : chan.transferSize = disk.length := by
  funext count
  rw [transferSize, Disk.length, stands.blockSize]

/-- An act of the channel is the same change of the disk it stands for. -/
theorem StandsFor.acts (stands : chan.StandsFor disk) {after : Channel} {written : Set Nat}
    {effect : Bytes → Bytes} (acts : Acts chan after written effect) :
    after.StandsFor { disk with bytes := effect disk.bytes, wiped := disk.wiped \ written } where
  sound := acts.sound
  blockSize := (blockSize_congr acts.shape).trans stands.blockSize
  offset := (congrArg (fun shape => shape.2.1) acts.shape).trans stands.offset
  coherent := acts.serves.coherent stands.coherent

/-- After an idle step the channel stands for the same disk. -/
theorem StandsFor.idles (stands : chan.StandsFor disk) {after : Channel}
    (idles : Idles chan after) :
    after.StandsFor disk := by
  have acts := stands.acts idles
  rw [sdiff_empty] at acts
  exact acts

/-- One operation: the channel answers as the disk does, and goes on standing for it. -/
theorem StandsFor.step (stands : chan.StandsFor disk) (op : ChannelOp) :
    disk.Gives op (chan.step op).1 ∧ (chan.step op).2.StandsFor (disk.step op) := by
  cases op with
  | transfer transfer =>
      cases transfer with
      | readBlk block count =>
          obtain ⟨idles, answered⟩ := unixReadBlk_acts stands.sound block count
          rw [stands.start, stands.length] at answered
          exact ⟨⟨answered.length, answered.bytes stands.coherent⟩, stands.idles idles⟩
      | writeBlk block count buf =>
          have acts := acts_unixWriteBlk stands.sound block count buf
          rw [stands.start, stands.length] at acts
          exact ⟨rfl, stands.acts acts⟩
      | writeByte offset size buf =>
          have acts := acts_unixWriteByte stands.sound offset size buf
          rw [stands.offset] at acts
          exact ⟨rfl, stands.acts acts⟩
      | flush => exact ⟨rfl, stands.idles (idles_unixFlush stands.sound)⟩
  | setBlksize blksize heap =>
      obtain ⟨sound, quiet⟩ := quiet_unixSetBlksize stands.sound blksize heap
      have coherent := quiet.coherent stands.coherent
      rw [sdiff_empty] at coherent
      refine ⟨rfl, sound, ?_, ?_, coherent⟩
      · show (chan.unixSetBlksize blksize heap).blockSize = blksize
        rw [unixSetBlksize]
        split
        · assumption
        · rfl
      · show (chan.unixSetBlksize blksize heap).offset = disk.offset
        rw [unixSetBlksize]
        split
        · exact stands.offset
        · exact (congrArg (fun shape => shape.2.1)
            (idles_unixFlush stands.sound).shape).trans stands.offset
  | wipe block buffer =>
      have coherent := coherent_wipeBlock stands.coherent block buffer
      rw [area, stands.start, stands.blockSize] at coherent
      exact ⟨rfl, sound_wipeBlock stands.sound block buffer, stands.blockSize,
        stands.offset, coherent⟩

/-- Over a whole run the channel answers what the disk gives, and stands for it at the end. -/
theorem StandsFor.runs (stands : chan.StandsFor disk) (ops : List ChannelOp) :
    disk.GivesAll ops (chan.runs ops).1 ∧ (chan.runs ops).2.StandsFor (disk.runs ops) := by
  induction ops generalizing chan disk with
  | nil => exact ⟨rfl, stands⟩
  | cons op rest inductionHypothesis =>
      obtain ⟨gives, after⟩ := stands.step op
      obtain ⟨givesAll, last⟩ := inductionHypothesis after
      exact ⟨⟨gives, givesAll⟩, last⟩

/-- A channel just opened stands for the device, with nothing wiped. -/
theorem standsFor_unixOpen (dev : Bytes) (offset : Nat) (heap : Slot → Block) :
    (unixOpen dev offset heap).StandsFor { bytes := dev, blockSize := 1024, offset, wiped := ∅ } :=
  ⟨sound_unixOpen dev offset heap, rfl, rfl, coherent_unixOpen dev offset heap⟩

/-- Once flushed, the device holds the bytes of the disk. -/
theorem StandsFor.flushed (stands : chan.StandsFor disk) :
    EqOn chan.unixFlush.dev disk.bytes disk.wipedᶜ :=
  (stands.idles (idles_unixFlush stands.sound)).coherent.settled fun slot dirty =>
    absurd dirty (unixFlush_clean stands.sound slot)

end Channel

section Crashes

variable {chan : Channel} {disk : Disk}

/-- A transfer adds nothing to what is wiped. -/
theorem Disk.step_transfer_wiped (disk : Disk) (transfer : Transfer) :
    (disk.step (.transfer transfer)).wiped ⊆ disk.wiped := by
  cases transfer with
  | readBlk block count => exact subset_rfl
  | writeBlk block count buf => exact sdiff_subset
  | writeByte offset size buf => exact sdiff_subset
  | flush => exact subset_rfl

/-- A transfer's effect on the bytes is that of the disk's step. -/
theorem Channel.StandsFor.effect (stands : chan.StandsFor disk) (transfer : Transfer) :
    chan.effect transfer disk.bytes = (disk.step (.transfer transfer)).bytes := by
  cases transfer with
  | readBlk block count => rfl
  | writeBlk block count buf =>
      rw [Channel.effect, stands.start, stands.length]
      rfl
  | writeByte offset size buf =>
      rw [Channel.effect, stands.offset]
      rfl
  | flush => rfl

/-- What the device holds after some transfers it held before them, or the disk held at some time
from then on. -/
theorem Channel.StandsFor.holds (stands : chan.StandsFor disk) (later : List Transfer)
    {position : Nat} (known : position ∉ disk.wiped) :
    (chan.runs (later.map .transfer)).2.dev position = chan.dev position ∨
      ∃ count, count ≤ later.length ∧ (chan.runs (later.map .transfer)).2.dev position =
        (disk.runs ((later.take count).map .transfer)).bytes position := by
  induction later generalizing chan disk with
  | nil => exact .inl rfl
  | cons first rest inductionHypothesis =>
      have step := (stands.step (.transfer first)).2
      have between := (Channel.acts_transfer stands.sound first).serves.between
        stands.coherent position known
      rw [stands.effect first] at between
      rcases inductionHypothesis step fun still => known (disk.step_transfer_wiped first still) with
        same | ⟨count, bound, held⟩
      · have unfolded : (chan.runs ((first :: rest).map .transfer)).2.dev position =
            (chan.transfer first).2.dev position := same
        rw [unfolded]
        rcases between with kept | told | new
        · exact .inl kept
        · exact .inr ⟨0, Nat.zero_le _, told⟩
        · exact .inr ⟨1, Nat.succ_le_succ (Nat.zero_le _), new⟩
      · exact .inr ⟨count + 1, Nat.succ_le_succ bound, held⟩

/-- A buffer of zeros. -/
def zeroes : Bytes := fun _ => 0

end Crashes

/-- Whatever is done with a channel on a device, it answers as a disk with the bytes of the device
does, and once it is flushed the device holds the bytes of the disk, the wiped ones apart. -/
theorem channel_refines_disk (dev : Bytes) (offset : Nat) (heap : Slot → Block)
    (ops : List ChannelOp) :
    let disk : Disk := { bytes := dev, blockSize := 1024, offset, wiped := ∅ }
    let ran := (Channel.unixOpen dev offset heap).runs ops
    disk.GivesAll ops ran.1 ∧ EqOn ran.2.unixFlush.dev (disk.runs ops).bytes
      (disk.runs ops).wipedᶜ := by
  have stands := (Channel.standsFor_unixOpen dev offset heap).runs ops
  exact ⟨stands.1, stands.2.flushed⟩

end Ext2Fuse
