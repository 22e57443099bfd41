import Ext2Fuse.ChannelRuns
import Ext2Fuse.BlockHistory

/-!
# What becomes of a wiped block

`wipe_block.c` overwrites a released block on the device, past the cache of the channel. If the
cache has the block dirty the old contents come back over the wipe; otherwise the wipe stays, as
long as nothing is written to the block.
-/

namespace Ext2Fuse

open Lib Set

namespace Channel

variable {chan : Channel} {slot : Slot} {block : Nat} {buffer plain pattern : Bytes}
    {area : Set Nat}

/-- The cache has the block, with data the device has not got. -/
def HasDirty (chan : Channel) (block : Nat) : Prop :=
  ∃ slot, (chan.cache slot).inUse = true ∧ (chan.cache slot).dirty = true ∧
    (chan.cache slot).block = block

instance (chan : Channel) (block : Nat) : Decidable (chan.HasDirty block) := by
  unfold HasDirty
  infer_instance

/-- The bytes an operation writes, through the cache or past it. -/
def touches (chan : Channel) : ChannelOp → Set Nat
  | .transfer transfer => chan.written transfer
  | .setBlksize _ _ => ∅
  | .wipe block _ => chan.area block

/-- The operations write to none of the bytes. -/
def Spares (area : Set Nat) : Channel → List ChannelOp → Prop
  | _, [] => True
  | chan, op :: rest => Disjoint area (chan.touches op) ∧ Spares area (chan.step op).2 rest

/-- A transfer has no effect outside of what it writes. -/
theorem effect_off (chan : Channel) (transfer : Transfer) (plain : Bytes) :
    EqOn (chan.effect transfer plain) plain (chan.written transfer)ᶜ := by
  cases transfer with
  | readBlk block count => exact fun _ _ => rfl
  | writeBlk block count buf => exact write_off plain _ _ (Bytes.length_read _ _ _)
  | writeByte offset size buf => exact write_off plain _ _ (Bytes.length_read _ _ _)
  | flush => exact fun _ _ => rfl

/-- A wipe leaves the device outside of its block's area. -/
theorem wipe_off (chan : Channel) (block : Nat) (buffer : Bytes) :
    EqOn (chan.wipeBlock block buffer).dev chan.dev (chan.area block)ᶜ :=
  write_off chan.dev _ _ (Bytes.length_read _ _ _)

/-- A wipe puts the buffer into the whole area of its block. -/
theorem wipe_on (chan : Channel) (block : Nat) (buffer : Bytes) :
    EqOn (chan.wipeBlock block buffer).dev
      (fun position => buffer (position - chan.location block)) (chan.area block) :=
  fun _ inside => (write_on chan.dev buffer _ 0 chan.blockSize inside).trans
    (congrArg buffer (Nat.zero_add _))

/-- An area no operation writes to stays sealed. -/
theorem sealed_step (sound : chan.Sound) (isSealed : chan.state.Sealed area pattern)
    {op : ChannelOp}
    (spared : Disjoint area (chan.touches op)) : (chan.step op).2.state.Sealed area pattern := by
  cases op with
  | transfer transfer => exact (acts_transfer sound transfer).serves.keeps spared isSealed
  | setBlksize blksize heap =>
      exact (quiet_unixSetBlksize sound blksize heap).2.keeps (Set.disjoint_empty _) isSealed
  | wipe block buffer =>
      exact isSealed.beneath ((chan.wipe_off block buffer).mono
        (subset_compl_iff_disjoint_right.mpr spared))

/-- A sealed area stays sealed through a run that spares it. -/
theorem sealed_runs (ops : List ChannelOp) (sound : chan.Sound)
    (isSealed : chan.state.Sealed area pattern)
    (spared : chan.Spares area ops) : (chan.runs ops).2.state.Sealed area pattern := by
  induction ops generalizing chan with
  | nil => exact isSealed
  | cons op rest inductionHypothesis =>
      exact inductionHypothesis (sound_step sound op) (sealed_step sound isSealed spared.1) spared.2

/-- An area no operation writes to goes on to be what it is. -/
theorem known_step (sound : chan.Sound) (coherent : chan.state.Coherent areaᶜ plain)
    {op : ChannelOp}
    (spared : Disjoint area (chan.touches op)) : (chan.step op).2.state.Coherent areaᶜ plain := by
  cases op with
  | transfer transfer =>
      refine ((acts_transfer sound transfer).serves.coherent coherent).mono sdiff_subset
        fun position known => ?_
      rw [compl_compl] at known
      exact effect_off chan transfer plain fun inside => Set.disjoint_left.mp spared known inside
  | setBlksize blksize heap =>
      have still := (quiet_unixSetBlksize sound blksize heap).2.coherent coherent
      rwa [sdiff_empty] at still
  | wipe block buffer =>
      refine (coherent_wipeBlock coherent block buffer).mono ?_ fun _ _ => rfl
      exact union_subset subset_rfl (subset_compl_iff_disjoint_left.mpr spared)

/-- What is known outside of an area stays known through a run that spares the area. -/
theorem known_runs (ops : List ChannelOp) (sound : chan.Sound)
    (coherent : chan.state.Coherent areaᶜ plain)
    (spared : chan.Spares area ops) : (chan.runs ops).2.state.Coherent areaᶜ plain := by
  induction ops generalizing chan with
  | nil => exact coherent
  | cons op rest inductionHypothesis =>
      exact inductionHypothesis (sound_step sound op) (known_step sound coherent spared.1) spared.2

/-- A wipe seals the block, unless the cache has it dirty. -/
theorem sealed_wipeBlock (clean : ¬ chan.HasDirty block) (buffer : Bytes) :
    (chan.wipeBlock block buffer).state.Sealed (chan.area block) fun position => buffer
    (position - chan.location block) := by
  refine @WriteBack.sealed_beneath _ _ _ chan.state _ _
    (fun slot dirty => ?_) _ (chan.wipe_on block buffer)
  have both := (Bool.and_eq_true _ _).mp dirty
  rw [Set.disjoint_left]
  rintro position ⟨-, covered⟩
  refine Set.disjoint_left.mp (chan.area_disjoint fun same => clean ?_) covered
  exact ⟨slot, both.2, both.1, same⟩

/-- A block that is cached dirty is what its entry holds, wiped or not. -/
theorem known_wipeBlock (sound : chan.Sound) (inUse : (chan.cache slot).inUse = true)
    (dirty : (chan.cache slot).dirty = true) (buffer : Bytes) :
    (chan.wipeBlock (chan.cache slot).block buffer).state.Coherent
    (chan.area (chan.cache slot).block)ᶜ
      fun position => (chan.cache slot).buf (position - chan.location (chan.cache slot).block) := by
  have isDirty : (chan.state.lines slot).dirty := by
    show ((chan.cache slot).dirty && (chan.cache slot).inUse) = true
    rw [dirty, inUse]
    rfl
  have covers : (chan.state.lines slot).covers = chan.area (chan.cache slot).block := by
    ext position
    exact and_iff_right inUse
  refine WriteBack.Coherent.beneath_dirty ?_ isDirty ?_
  · refine ⟨fun one other different => ?_, fun one => ?_, fun position known uncovered => ?_⟩
    · rw [Set.disjoint_left]
      rintro position ⟨oneInUse, oneCovered⟩ ⟨otherInUse, otherCovered⟩
      refine Set.disjoint_left.mp (chan.area_disjoint fun same => different ?_)
        oneCovered otherCovered
      exact sound.distinct one other oneInUse otherInUse same
    · rintro position ⟨⟨oneInUse, covered⟩, known⟩
      rw [mem_compl_iff, not_not] at known
      have same : one = slot := by
        by_contra different
        refine Set.disjoint_left.mp (chan.area_disjoint fun same => different ?_) covered known
        exact sound.distinct one slot oneInUse inUse same
      subst same
      rfl
    · rw [mem_compl_iff, not_not, ← covers] at known
      exact absurd known (uncovered slot isDirty)
  · rw [covers]
    exact chan.wipe_off _ buffer

/-- A sealed area outlasts the flush. -/
theorem sealed_unixFlush (sound : chan.Sound) (isSealed : chan.state.Sealed area pattern) :
    EqOn chan.unixFlush.dev pattern area :=
  ((idles_unixFlush sound).serves.keeps (Set.disjoint_empty _) isSealed).stored

end Channel

/-- What a block holds that is wiped and not written again, once the channel is flushed: the wipe,
unless the cache had the block dirty when it was wiped. Then it is what was in the cache. -/
theorem wiped_block_fate (dev : Bytes) (offset : Nat) (heap : Slot → Block)
    (earlier later : List ChannelOp) (block : Nat) (buffer : Bytes)
    (spared : Channel.Spares (((Channel.unixOpen dev offset heap).runs earlier).2.area block)
      (((Channel.unixOpen dev offset heap).runs earlier).2.wipeBlock block buffer) later) :
    let chan := ((Channel.unixOpen dev offset heap).runs earlier).2
    let flushed := ((chan.wipeBlock block buffer).runs later).2.unixFlush
    (¬ chan.HasDirty block →
      EqOn flushed.dev (fun position => buffer (position - chan.location block))
        (chan.area block)) ∧
    ∀ slot, (chan.cache slot).inUse = true → (chan.cache slot).dirty = true →
      (chan.cache slot).block = block →
      EqOn flushed.dev (fun position => (chan.cache slot).buf (position - chan.location block))
        (chan.area block) := by
  intro chan flushed
  have sound : chan.Sound := Channel.sound_runs (Channel.sound_unixOpen dev offset heap) earlier
  have wiped := Channel.sound_wipeBlock sound block buffer
  have after := Channel.sound_runs wiped later
  refine ⟨fun clean => ?_, fun slot inUse dirty same => ?_⟩
  · exact Channel.sealed_unixFlush after
      (Channel.sealed_runs later wiped (Channel.sealed_wipeBlock clean buffer) spared)
  · subst same
    have known := Channel.known_runs later wiped
      (Channel.known_wipeBlock sound inUse dirty buffer) spared
    have still := (Channel.idles_unixFlush after).serves.coherent known
    rw [sdiff_empty] at still
    have settled := still.settled
      fun slot dirty => absurd dirty (Channel.unixFlush_clean after slot)
    rwa [compl_compl] at settled

/-- The buffer of `test_wipe_block`. -/
def wipeLetters : Bytes := fun _ => 0x74

/-- Two fates: a block the cache has dirty, and one written back before it is wiped. -/
theorem wiped_block_fate_twice :
    ((Channel.unixOpen zeroes 0 fun _ => zeroes).runs
      [.transfer (.writeBlk 40 1 fun _ => 0x73), .wipe 40 wipeLetters,
        .transfer .flush]).2.dev 40960 = 0x73 ∧
    ((Channel.unixOpen zeroes 0 fun _ => zeroes).runs
      [.transfer (.writeBlk 40 1 fun _ => 0x73), .transfer .flush, .wipe 40 wipeLetters,
        .transfer .flush]).2.dev 40960 =
        0x74 := by
  have dirty := (wiped_block_fate zeroes 0
    (fun _ => zeroes) [.transfer (.writeBlk 40 1 fun _ => 0x73)] [] 40 wipeLetters
    trivial).2 0 (by decide +kernel) (by decide +kernel) (by decide +kernel)
  have clean := (wiped_block_fate zeroes 0
    (fun _ => zeroes) [.transfer (.writeBlk 40 1 fun _ => 0x73), .transfer .flush]
    [] 40 wipeLetters trivial).1 (by decide +kernel)
  have inside : 40960 ∈ Ico 40960 41984 := ⟨le_refl _, by decide⟩
  exact ⟨(dirty inside).trans (by decide +kernel), (clean inside).trans (by decide +kernel)⟩

/-- What happens while the program runs: what the history of the volume has, where a wipe comes with
what is written, and transfers of other blocks. -/
inductive DiskEvent
  | write (blk : Nat) (block : Block)
  | wipe (blk : Nat) (buffer : Bytes)
  | alloc (blk : Nat)
  | release (blk : Nat)
  | other (transfer : Transfer)

/-- The channel, what has been done to the blocks, and what each was wiped with last. -/
structure DiskRun where
  chan : Channel
  history : List BlockEvent
  wiped : Nat → Bytes

namespace DiskRun

variable {state : DiskRun} {event : DiskEvent}

def start (chan : Channel) : DiskRun := ⟨chan, [], fun _ => zeroes⟩

/-- Blocks are written through the cache and wiped past it; allocating and releasing are about the
bitmap. -/
def step (state : DiskRun) : DiskEvent → DiskRun
  | .write blk block =>
      { state with
        chan := state.chan.unixWriteBlk blk 1 block
        history := state.history ++ [.write blk block] }
  | .wipe blk buffer =>
      { chan := state.chan.wipeBlock blk buffer
        history := state.history ++ [.wipe blk]
        wiped := Function.update state.wiped blk buffer }
  | .alloc blk => { state with history := state.history ++ [.alloc blk] }
  | .release blk => { state with history := state.history ++ [.release blk] }
  | .other transfer => { state with chan := (state.chan.transfer transfer).2 }

def run (state : DiskRun) (events : List DiskEvent) : DiskRun := events.foldl step state

/-- On the device, the block holds what it was wiped with last. -/
def Holds (state : DiskRun) (blk : Nat) : Prop :=
  EqOn state.chan.dev (fun position => state.wiped blk (position - state.chan.location blk))
    (state.chan.area blk)

/-- A block is wiped when the cache has nothing to write back to it, and the other blocks are none
of the vacant ones. -/
def Careful (state : DiskRun) : DiskEvent → Prop
  | .wipe blk _ => ¬ state.chan.HasDirty blk
  | .other transfer =>
      ∀ blk, Vacant state.history blk → Disjoint (state.chan.area blk) (state.chan.written transfer)
  | _ => True

/-- Each of the events is careful in the state it happens in. -/
def CarefulRun : DiskRun → List DiskEvent → Prop
  | _, [] => True
  | state, event :: rest => state.Careful event ∧ CarefulRun (state.step event) rest

/-- The cache has nothing to write back to a block that was left wiped. -/
structure Safe (state : DiskRun) : Prop where
  sound : state.chan.Sound
  isSealed : ∀ blk, LeftWiped state.history blk →
    state.chan.state.Sealed (state.chan.area blk)
      fun position => state.wiped blk (position - state.chan.location blk)

/-- The channel writes to none of the blocks that are left wiped. -/
theorem Safe.acts (safe : state.Safe) {chan : Channel} {history : List BlockEvent}
    {written : Set Nat}
    {effect : Bytes → Bytes} (acts : Channel.Acts state.chan chan written effect)
    (fewer : ∀ blk, LeftWiped history blk → LeftWiped state.history blk ∧
      Disjoint (state.chan.area blk) written) :
    Safe { state with chan, history } where
  sound := acts.sound
  isSealed blk left := by
    obtain ⟨before, apart⟩ := fewer blk left
    have still := acts.serves.keeps apart (safe.isSealed blk before)
    change chan.state.Sealed (chan.area blk)
      fun position => state.wiped blk (position - chan.location blk)
    rw [Channel.area_congr acts.shape, Channel.location_congr acts.shape]
    exact still

/-- Every careful event keeps the run safe. -/
theorem Safe.step (safe : state.Safe) (careful : state.Careful event) :
    (state.step event).Safe := by
  cases event with
  | write blk block =>
      refine safe.acts (Channel.acts_unixWriteBlk safe.sound blk 1 block) fun other left => ?_
      obtain ⟨before, different⟩ := left.of_snoc (by rintro ⟨⟩)
      have size : state.chan.transferSize 1 = state.chan.blockSize := by
        rw [Channel.transferSize, if_neg (by decide)]
        exact Nat.one_mul _
      refine ⟨before, ?_⟩
      rw [size]
      exact state.chan.area_disjoint different.symm
  | wipe blk buffer =>
      refine ⟨Channel.sound_wipeBlock safe.sound blk buffer, fun other left => ?_⟩
      by_cases same : other = blk
      · subst same
        change (state.chan.wipeBlock other buffer).state.Sealed _
          fun position => Function.update state.wiped other buffer other _
        rw [Function.update_self]
        exact Channel.sealed_wipeBlock careful buffer
      · change (state.chan.wipeBlock blk buffer).state.Sealed _
          fun position => Function.update state.wiped blk buffer other _
        rw [Function.update_of_ne same]
        obtain ⟨before, -⟩ := left.of_snoc (by rintro ⟨⟩; exact same rfl)
        refine (safe.isSealed other before).beneath ((state.chan.wipe_off blk buffer).mono ?_)
        exact subset_compl_iff_disjoint_right.mpr (state.chan.area_disjoint same)
  | alloc blk =>
      exact ⟨safe.sound, fun other left => safe.isSealed other (left.of_snoc (by rintro ⟨⟩)).1⟩
  | release blk =>
      exact ⟨safe.sound, fun other left => safe.isSealed other (left.of_snoc (by rintro ⟨⟩)).1⟩
  | other transfer =>
      exact safe.acts (Channel.acts_transfer safe.sound transfer)
        fun blk left => ⟨left, careful blk left.vacant⟩

/-- Every event keeps the channel's cache sound. -/
theorem sound_step (sound : state.chan.Sound) (event : DiskEvent) :
    (state.step event).chan.Sound := by
  cases event with
  | write blk block => exact (Channel.acts_unixWriteBlk sound blk 1 block).sound
  | wipe blk buffer => exact Channel.sound_wipeBlock sound blk buffer
  | alloc blk => exact sound
  | release blk => exact sound
  | other transfer => exact (Channel.acts_transfer sound transfer).sound

/-- Each of the events of a run. -/
theorem Safe.run (safe : state.Safe) (events : List DiskEvent) (careful : state.CarefulRun events) :
    (state.run events).Safe := by
  induction events generalizing state with
  | nil => exact safe
  | cons event rest inductionHypothesis => exact inductionHypothesis (safe.step careful.1) careful.2

/-- A run that has seen no event is safe. -/
theorem safe_start {chan : Channel} (sound : chan.Sound) : (start chan).Safe where
  sound := sound
  isSealed blk left := absurd left.vacant (not_vacant_nil blk)

/-- Once the channel is flushed, the blocks that were left wiped hold what they were wiped with. -/
theorem Safe.flushed (safe : state.Safe) {blk : Nat} (left : LeftWiped state.history blk) :
    (state.step (.other .flush)).Holds blk := by
  have after : (state.step (.other .flush)).Safe := safe.step fun other _ => Set.disjoint_empty _
  exact (after.isSealed blk left).stored

end DiskRun

end Ext2Fuse
