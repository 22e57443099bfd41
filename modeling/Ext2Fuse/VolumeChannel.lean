import Ext2Fuse.Volume
import Ext2Fuse.Wiping

/-!
# The volume's blocks through the channel

`Volume.io` is what the channel answers, and what becomes of a wiped block depends there on
whether the cache of the channel holds it. Here the blocks of a volume and a channel go through
the same reads, writes and wipes: for one choice of what the cache holds when, all answers of the
channel are those of the volume. Open is only a block that was wiped while the cache had a copy
of it, until it is written again.
-/

namespace Ext2Fuse

open Lib Set

/-- What the filesystem does with a block. -/
inductive VolumeEvent
  | read (blk : Nat)
  | write (blk : Nat) (block : Block)
  | wipe (blk : Nat)

namespace VolumeEvent

/-- The event on the volume. -/
def onVolume (cached : Cached) (vol : Volume) : VolumeEvent → Volume
  | read _ => vol
  | write blk block => vol.writeBlk blk block
  | wipe blk => vol.testWipeBlock cached blk

/-- The event on the channel, with the bytes it answers. -/
def onChannel (chan : Channel) : VolumeEvent → List UInt8 × Channel
  | read blk => chan.unixReadBlk blk 1
  | write blk block => ([], chan.unixWriteBlk blk 1 block)
  | wipe blk => ([], chan.wipeBlock blk wipeLetters)

end VolumeEvent

namespace Channel

/-- The cache has the block. -/
def Has (chan : Channel) (block : Nat) : Prop := ¬ chan.Uncached block

instance (chan : Channel) (block : Nat) : Decidable (chan.Has block) := by
  unfold Has Uncached
  infer_instance

/-- The blocks whose contents are open after an event: those wiped while the cache has a clean
copy. -/
def unsettled (chan : Channel) (unsure : Set Nat) : VolumeEvent → Set Nat
  | .read _ => unsure
  | .write blk _ => unsure \ {blk}
  | .wipe blk =>
      if chan.Has blk then (if chan.HasDirty blk then unsure else insert blk unsure)
      else unsure \ {blk}

/-- The channel answers like the volume, with `cached` for what the cache holds, when the two go
through the events together. -/
def AnswersLike (cached : Cached) : Channel → Set Nat → Volume → List VolumeEvent → Prop
  | _, _, _, [] => True
  | chan, unsure, vol, event :: rest =>
      (∀ blk, event = .read blk → blk ∉ unsure →
        (event.onChannel chan).1 = Bytes.read (vol.io blk) 0 vol.super.blocksize) ∧
      AnswersLike cached (event.onChannel chan).2 (chan.unsettled unsure event)
        (event.onVolume cached vol) rest

variable {chan : Channel} {unsure : Set Nat} {vol : Volume} {block : Nat}

/-- The bytes of some blocks. -/
def areas (chan : Channel) (blocks : Set Nat) : Set Nat :=
    { position | ∃ blk ∈ blocks, position ∈ chan.area blk }

/-- The channel has the blocks of the volume, the open ones apart. -/
structure Tracks (chan : Channel) (unsure : Set Nat) (vol : Volume) : Prop where
  sound : chan.Sound
  size : chan.blockSize = vol.super.blocksize
  shows : ∃ plain, chan.state.Coherent (chan.areas unsure) plain ∧ ∀ blk, blk ∉ unsure → ∀ index,
    index < chan.blockSize → plain (chan.location blk + index) = vol.io blk index

/-- Each byte of a block lies in its area. -/
theorem area_mem {index : Nat} (bound : index < chan.blockSize) :
    chan.location block + index ∈ chan.area block :=
  ⟨Nat.le_add_right _ _, by omega⟩

/-- Taking a block out of the unsure ones takes its area out of theirs. -/
theorem areas_erase (chan : Channel) (unsure : Set Nat) (block : Nat) :
    chan.areas unsure \ chan.area block ⊆ chan.areas (unsure \ {block}) := by
  rintro position ⟨⟨blk, isUnsure, inside⟩, outside⟩
  refine ⟨blk, ⟨isUnsure, ?_⟩, inside⟩
  rintro rfl
  exact outside inside

/-- A byte of a block that is not unsure is outside of the unsure areas. -/
theorem notMem_areas {index : Nat} (sure : block ∉ unsure) (bound : index < chan.blockSize) :
    chan.location block + index ∉ chan.areas unsure := by
  rintro ⟨blk, isUnsure, inside⟩
  have different : blk ≠ block := by
    rintro rfl
    exact sure isUnsure
  exact Set.disjoint_left.mp (chan.area_disjoint different) inside (area_mem bound)

/-- A transfer of one block moves one block's bytes. -/
theorem transferSize_one (chan : Channel) : chan.transferSize 1 = chan.blockSize := by
  rw [transferSize, if_neg (by decide)]
  exact Nat.one_mul _

/-- The areas are a matter of the channel's shape. -/
theorem areas_congr {after : Channel} (same : after.shape = chan.shape) :
    after.areas = chan.areas := by
  funext blocks
  rw [areas, areas, area_congr same]

/-- A read is answered with what the volume has. -/
theorem Tracks.answer (tracks : chan.Tracks unsure vol) (sure : block ∉ unsure) :
    (chan.unixReadBlk block 1).1 = Bytes.read (vol.io block) 0 vol.super.blocksize := by
  obtain ⟨plain, coherent, shows⟩ := tracks.shows
  have answered := (unixReadBlk_acts tracks.sound block 1).2
  rw [transferSize_one] at answered
  rw [← tracks.size]
  refine List.ext_getElem (by rw [answered.length, Bytes.length_read]) fun index bound _ => ?_
  rw [answered.length] at bound
  have byte := answered.bytes coherent index bound (notMem_areas sure bound)
  rw [shows block sure index bound] at byte
  rw [Bytes.getElem_read, Nat.zero_add]
  exact (List.getElem?_eq_some_iff.mp byte).2

/-- Reading a block changes nothing about what the channel tracks. -/
theorem Tracks.read (tracks : chan.Tracks unsure vol) (blk : Nat) :
    (chan.unixReadBlk blk 1).2.Tracks unsure vol := by
  obtain ⟨plain, coherent, shows⟩ := tracks.shows
  have idles := (unixReadBlk_acts tracks.sound blk 1).1
  have still := idles.serves.coherent coherent
  rw [sdiff_empty] at still
  refine ⟨idles.sound, (blockSize_congr idles.shape).trans tracks.size, plain, ?_, ?_⟩
  · rw [areas_congr idles.shape]
    exact still
  · rw [location_congr idles.shape, blockSize_congr idles.shape]
    exact shows

/-- A block that was written is no longer unsure. -/
theorem Tracks.write (tracks : chan.Tracks unsure vol) (blk : Nat) (block : Block) :
    (chan.unixWriteBlk blk 1 block).Tracks (unsure \ {blk}) (vol.writeBlk blk block) := by
  obtain ⟨plain, coherent, shows⟩ := tracks.shows
  have acts := acts_unixWriteBlk tracks.sound blk 1 block
  rw [transferSize_one] at acts
  have coherentAfter := acts.serves.coherent coherent
  refine ⟨acts.sound, (blockSize_congr acts.shape).trans tracks.size,
    writing (chan.location blk) 0 chan.blockSize block plain, ?_, ?_⟩
  · rw [areas_congr acts.shape]
    exact coherentAfter.mono (chan.areas_erase unsure blk) fun _ _ => rfl
  · rw [location_congr acts.shape, blockSize_congr acts.shape]
    intro other sure index bound
    by_cases same : other = blk
    · subst same
      rw [Volume.writeBlk_io, Function.update_self]
      refine (write_on plain block _ 0 chan.blockSize (area_mem bound)).trans (congrArg block ?_)
      omega
    · rw [Volume.writeBlk_io, Function.update_of_ne same]
      have away : chan.location other + index ∉ chan.area blk :=
        Set.disjoint_left.mp (chan.area_disjoint same) (area_mem bound)
      refine (write_off plain _ _ (Bytes.length_read _ _ _) away).trans (shows other
        (fun isUnsure => ?_) index bound)
      exact sure ⟨isUnsure, same⟩

/-- The wipe of a block the cache does not have. -/
theorem Tracks.wipe_uncached (tracks : chan.Tracks unsure vol) {blk : Nat}
    (uncached : chan.Uncached blk) :
    (chan.wipeBlock blk wipeLetters).Tracks (unsure \ {blk})
      { vol with
        io := Function.update vol.io blk fun _ => 0x74
        tick := vol.tick + 1
        history := vol.history ++ [.wipe blk] } := by
  obtain ⟨plain, coherent, shows⟩ := tracks.shows
  have serves : chan.state.Serves (chan.wipeBlock blk wipeLetters).state (chan.area blk)
      (writing (chan.location blk) 0 chan.blockSize wipeLetters) :=
    @WriteBack.serves_direct _ _ _ chan.state _ (cover_of_uncached uncached) _ _
      (chan.wipe_off blk wipeLetters)
      (fun plain => write_off plain _ _ (Bytes.length_read _ _ _))
      fun plain => (write_on chan.dev wipeLetters _ 0 _).trans
        (write_on plain wipeLetters _ 0 _).symm
  refine ⟨sound_wipeBlock tracks.sound blk wipeLetters, tracks.size,
    writing (chan.location blk) 0 chan.blockSize wipeLetters plain, ?_,
      fun other sure index bound => ?_⟩
  · exact (serves.coherent coherent).mono (chan.areas_erase unsure blk) fun _ _ => rfl
  · show _ = Function.update vol.io blk (fun _ => 0x74) other index
    by_cases same : other = blk
    · subst same
      rw [Function.update_self]
      exact write_on plain wipeLetters _ 0 chan.blockSize (area_mem bound)
    · rw [Function.update_of_ne same]
      have away : chan.location other + index ∉ chan.area blk :=
        Set.disjoint_left.mp (chan.area_disjoint same) (area_mem bound)
      refine (write_off plain _ _ (Bytes.length_read _ _ _) away).trans (shows other
        (fun isUnsure => ?_) index bound)
      exact sure ⟨isUnsure, same⟩

/-- The wipe of a block the cache has dirty. -/
theorem Tracks.wipe_dirty (tracks : chan.Tracks unsure vol) {blk : Nat}
    (dirty : chan.HasDirty blk) :
    (chan.wipeBlock blk wipeLetters).Tracks unsure
    { vol with tick := vol.tick + 1, history := vol.history ++ [.wipe blk] } := by
  obtain ⟨plain, coherent, shows⟩ := tracks.shows
  obtain ⟨slot, inUse, isDirty, rfl⟩ := dirty
  refine ⟨sound_wipeBlock tracks.sound _ wipeLetters, tracks.size, plain, ?_, shows⟩
  refine @WriteBack.Coherent.beneath_dirty _ _ _ chan.state _ _ slot coherent ?_ _ ?_
  · show ((chan.cache slot).dirty && (chan.cache slot).inUse) = true
    rw [isDirty, inUse]
    rfl
  · have covers : (chan.state.lines slot).covers = chan.area (chan.cache slot).block := by
      ext position
      exact and_iff_right inUse
    rw [covers]
    exact chan.wipe_off _ wipeLetters

/-- The wipe of a block the cache has a clean copy of. -/
theorem Tracks.wipe_clean (tracks : chan.Tracks unsure vol) (blk : Nat) :
    (chan.wipeBlock blk wipeLetters).Tracks (insert blk unsure)
    { vol with tick := vol.tick + 1, history := vol.history ++ [.wipe blk] } := by
  obtain ⟨plain, coherent, shows⟩ := tracks.shows
  refine ⟨sound_wipeBlock tracks.sound blk wipeLetters, tracks.size, plain, ?_,
    fun other sure => ?_⟩
  · refine (coherent_wipeBlock coherent blk wipeLetters).mono (union_subset ?_ ?_) fun _ _ => rfl
    · rintro position ⟨other, isUnsure, inside⟩
      exact ⟨other, mem_insert_of_mem _ isUnsure, inside⟩
    · exact fun position inside => ⟨blk, mem_insert _ _, inside⟩
  · exact shows other fun isUnsure => sure (mem_insert_of_mem _ isUnsure)

/-- One event, when `cached` says of a block that is wiped whether the cache has it. -/
theorem Tracks.step (tracks : chan.Tracks unsure vol) (event : VolumeEvent) (cached : Cached)
    (knows : ∀ blk, event = .wipe blk → cached vol.tick blk = decide (chan.Has blk)) :
    (event.onChannel chan).2.Tracks (chan.unsettled unsure event) (event.onVolume cached vol) := by
  cases event with
  | read blk => exact tracks.read blk
  | write blk block => exact tracks.write blk block
  | wipe blk =>
      rw [unsettled, VolumeEvent.onVolume, Volume.testWipeBlock, knows blk rfl]
      by_cases has : chan.Has blk
      · rw [if_pos has, if_pos (decide_eq_true has)]
        by_cases dirty : chan.HasDirty blk
        · rw [if_pos dirty]
          exact tracks.wipe_dirty dirty
        · rw [if_neg dirty]
          exact tracks.wipe_clean blk
      · rw [if_neg has, if_neg (by simpa using has)]
        exact tracks.wipe_uncached (not_not.mp has)

/-- Only what is said from the volume's tick on matters. -/
theorem AnswersLike.congr {cached cachedToo : Cached} (events : List VolumeEvent)
    (same : ∀ tick, vol.tick ≤ tick → cachedToo tick = cached tick)
    (answers : AnswersLike cached chan unsure vol events) :
    AnswersLike cachedToo chan unsure vol events := by
  induction events generalizing chan unsure vol with
  | nil => trivial
  | cons event rest inductionHypothesis =>
      refine ⟨answers.1, ?_⟩
      have unchanged : event.onVolume cachedToo vol = event.onVolume cached vol := by
        cases event with
        | read blk => rfl
        | write blk block => rfl
        | wipe blk =>
            rw [VolumeEvent.onVolume, VolumeEvent.onVolume, Volume.testWipeBlock,
              Volume.testWipeBlock, same _ (le_refl _)]
      rw [unchanged]
      refine inductionHypothesis (fun tick later => same tick ?_) answers.2
      cases event with
      | read blk => exact later
      | write blk block => exact later
      | wipe blk => exact (Nat.le_succ _).trans later

/-- Every run over the channel answers like the volume, for some cached predicate. -/
theorem Tracks.answersLike (tracks : chan.Tracks unsure vol) (events : List VolumeEvent) :
    ∃ cached, AnswersLike cached chan unsure vol events := by
  induction events generalizing chan unsure vol with
  | nil => exact ⟨fun _ _ => false, trivial⟩
  | cons event rest inductionHypothesis =>
      have answers : ∀ blk, event = .read blk → blk ∉ unsure →
          (event.onChannel chan).1 = Bytes.read (vol.io blk) 0 vol.super.blocksize := by
        rintro blk rfl sure
        exact tracks.answer sure
      cases event with
      | read blk =>
          obtain ⟨cached, follows⟩ := inductionHypothesis (tracks.read blk)
          exact ⟨cached, answers, follows⟩
      | write blk block =>
          obtain ⟨cached, follows⟩ := inductionHypothesis (tracks.write blk block)
          exact ⟨cached, answers, follows⟩
      | wipe blk =>
          -- what the cache holds now goes before what it holds from the next tick on
          obtain ⟨later, follows⟩ := inductionHypothesis
            (tracks.step (.wipe blk) (fun _ blk => decide (chan.Has blk)) fun _ _ => rfl)
          refine ⟨Function.update later vol.tick fun blk => decide (chan.Has blk), answers, ?_⟩
          have now : VolumeEvent.onVolume (Function.update later vol.tick
            fun blk => decide (chan.Has blk)) vol (.wipe blk) =
              VolumeEvent.onVolume (fun _ blk => decide (chan.Has blk)) vol (.wipe blk) := by
            rw [VolumeEvent.onVolume, VolumeEvent.onVolume, Volume.testWipeBlock,
              Volume.testWipeBlock, Function.update_self]
          rw [now]
          refine follows.congr rest fun tick after => Function.update_of_ne ?_ _ _
          have next : vol.tick + 1 ≤ tick := after
          omega

end Channel

/-- A volume on a device, whose blocks are those of the device. -/
def Volume.onDevice (vol : Volume) (dev : Bytes) (offset : Nat) : Volume :=
  { vol with io := fun blk index => dev (blk * vol.super.blocksize + offset + index) }

/-- Mount a volume from a device and go through any reads, writes and wipes of blocks: there is a
choice of what the cache holds when with which the channel answers as the volume does. -/
theorem channel_refines_volume (dev : Bytes) (offset : Nat)
    (heap heapToo : Slot → Block) (vol : Volume) (events : List VolumeEvent) :
    ∃ cached, Channel.AnswersLike cached
      ((Channel.unixOpen dev offset heap).unixSetBlksize vol.super.blocksize heapToo) ∅
      (vol.onDevice dev offset) events := by
  refine Channel.Tracks.answersLike ?_ events
  have stands :=
    ((Channel.standsFor_unixOpen dev offset heap).step (.setBlksize vol.super.blocksize heapToo)).2
  refine ⟨stands.sound, stands.blockSize, dev, ?_, fun blk _ index bound => ?_⟩
  · have none : Channel.areas
      ((Channel.unixOpen dev offset heap).unixSetBlksize vol.super.blocksize heapToo) ∅ = ∅ := by
      ext position
      exact ⟨fun ⟨_, nothing, _⟩ => nothing, fun nothing => absurd nothing (Set.notMem_empty _)⟩
    rw [none]
    exact stands.coherent
  · exact congrArg (fun start => dev (start + index)) (congrFun stands.start blk)

end Ext2Fuse
