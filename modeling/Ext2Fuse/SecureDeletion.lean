import Ext2Fuse.RemovedFiles
import Ext2Fuse.Wiping

/-!
# Secure deletion

The README offers secure deletion, by overwriting the blocks that are released. A run of the
requests leaves a history of the blocks; the channel has it done, among other transfers. What a
block that was released and not allocated again holds in the end is what it was wiped with, if the
cache of the channel had nothing to write back to it when it was wiped.
-/

namespace Ext2Fuse

open Lib Volume Set

/-- What an event of the history is for the channel, where blocks are wiped by `test_wipe_block`. -/
def DiskEvent.ofBlockEvent : BlockEvent → DiskEvent
  | .write blk block => .write blk block
  | .wipe blk => .wipe blk wipeLetters
  | .alloc blk => .alloc blk
  | .release blk => .release blk

/-- The events of a history, each after other transfers. -/
def timeline (others : BlockEvent → List Transfer) (history : List BlockEvent) : List DiskEvent :=
  history.flatMap fun event => (others event).map .other ++ [.ofBlockEvent event]

/-- The channel is flushed before each wipe. -/
def flushFirst : BlockEvent → List Transfer
  | .wipe _ => [.flush]
  | _ => []

namespace DiskRun

variable {state : DiskRun}

/-- Operations that neither take nor release a block leave the history as it is. -/
theorem run_others (transfers : List Transfer) (state : DiskRun) :
    (state.run (transfers.map .other)).history = state.history := by
  induction transfers generalizing state with
  | nil => rfl
  | cons transfer rest inductionHypothesis =>
      exact inductionHypothesis (state.step (.other transfer))

/-- A timeline records its history. -/
theorem run_timeline (others : BlockEvent → List Transfer) (history : List BlockEvent)
    (state : DiskRun) :
    (state.run (timeline others history)).history = state.history ++ history := by
  induction history generalizing state with
  | nil => exact (List.append_nil _).symm
  | cons event rest inductionHypothesis =>
      rw [timeline, List.flatMap_cons, run, List.foldl_append, List.foldl_append]
      refine (inductionHypothesis _).trans ?_
      have before := run_others (others event) state
      rw [run] at before
      cases event <;> simp [DiskEvent.ofBlockEvent, step, before]

/-- The condition can be met whatever the history is: by flushing the channel before each wipe. -/
theorem carefulRun_flushFirst (history : List BlockEvent) (sound : state.chan.Sound) :
    state.CarefulRun (timeline flushFirst history) := by
  induction history generalizing state with
  | nil => exact trivial
  | cons event rest inductionHypothesis =>
      have later := inductionHypothesis (sound_step sound (.ofBlockEvent event))
      cases event with
      | write blk block => exact ⟨trivial, later⟩
      | wipe blk =>
          have flushed := sound_step sound (.other .flush)
          refine ⟨fun other _ => Set.disjoint_empty _, ?_,
            inductionHypothesis (sound_step flushed (.wipe blk wipeLetters))⟩
          rintro ⟨slot, inUse, dirty, -⟩
          exact Channel.unixFlush_clean sound slot ((Bool.and_eq_true _ _).mpr ⟨dirty, inUse⟩)
      | alloc blk => exact ⟨trivial, later⟩
      | release blk => exact ⟨trivial, later⟩

end DiskRun

/-- **Wiped blocks stay wiped.** From a volume whose blocks are used once and whose files have sizes
within reach, over any run of requests, also with calls that fail, in which what loses blocks is not
open, and whatever is transferred besides, as long as the cache has nothing to write back to a block
when it is wiped: once the channel is flushed, every block that was released and not allocated again
holds what it was wiped with last. -/
theorem released_blocks_stay_wiped {δ : Type} {env : Env δ} {fs : Fs δ}
    {requests : List BlockRequest} (fresh : fs.vol.history = []) (apart : fs.FilesApart)
    (sizes : ∀ ino, fs.RegularFile ino → (fs.inodeTab ino).ext2ISize ≤ fs.reach)
    (follows : BlockRequest.Follows env requests ⟨fs, fun _ => none⟩)
    (dev : Bytes) (offset : Nat) (heap : Slot → Block) (earlier : List ChannelOp)
    {events : List DiskEvent}
    (recorded : ((DiskRun.start ((Channel.unixOpen dev offset heap).runs earlier).2).run
      events).history =
      (BlockRequest.runs env ⟨fs, fun _ => none⟩ requests).fs.vol.history)
    (careful : (DiskRun.start
      ((Channel.unixOpen dev offset heap).runs earlier).2).CarefulRun events) :
    let final := (DiskRun.start ((Channel.unixOpen dev offset heap).runs earlier).2).run events
    ∀ blk, Vacant (BlockRequest.runs env ⟨fs, fun _ => none⟩ requests).fs.vol.history blk →
      (final.step (.other .flush)).Holds blk := by
  intro final blk vacant
  have start : OpenFiles.InOrder ⟨fs, fun _ => none⟩ :=
    ⟨⟨apart, nofun, fun ino _ => sizes ino⟩, tidy_of_nil fresh⟩
  have tidy := (BlockRequest.inOrder_runs start follows).tidy
  have sound := Channel.sound_runs (Channel.sound_unixOpen dev offset heap) earlier
  have safe : final.Safe := (DiskRun.safe_start sound).run events careful
  refine safe.flushed ?_
  rw [recorded]
  exact (tidy blk vacant).2

/-- Both files are written and closed, then 12 is emptied and 11 removed. -/
def writeAndRemove : List BlockRequest :=
  [.handle (.opens 11 none { rdwr := true }), .handle (.write 11 [0x73] 0), .handle (.close 11),
    .handle (.opens 12 none { rdwr := true }), .handle (.write 12 [0x73] 0), .handle (.close 12),
    .truncate none 12 0, .unlink ⟨1000, 1000⟩ 1 [0x61]]

/-- The two requests of the example can follow one another. -/
theorem writeAndRemove_follows : BlockRequest.Follows listEnv writeAndRemove ⟨twoFiles,
      fun _ => none⟩ := by
  refine ⟨⟨⟨rfl, by decide, by decide, by decide⟩, nofun⟩, ⟨trivial, ?_⟩, ⟨trivial, trivial⟩,
    ⟨⟨rfl, ?_⟩, nofun⟩,
    ⟨trivial, ?_⟩, ⟨trivial, trivial⟩, ⟨?_, rfl, ?_, fun block small _ => ?_⟩,
      ⟨fun ino found => ?_, fun ino found few => ?_⟩,
    trivial⟩
  · exact (show ∀ fh ∈ OpenFiles.handles _ 11, Fs.WithinReach _ fh.inode _ _ by decide +kernel)
  · exact ⟨by decide +kernel, by decide +kernel, by decide +kernel⟩
  · exact (show ∀ fh ∈ OpenFiles.handles _ 12, Fs.WithinReach _ fh.inode _ _ by decide +kernel)
  · exact ⟨by decide +kernel, by decide +kernel, by decide +kernel⟩
  · show Fs.WithinReach _ _ _ _
    decide +kernel
  · exact small.trans (by decide +kernel)
  · obtain rfl : 11 = ino :=
      Except.ok.inj ((show _ = Except.ok 11 by decide +kernel).symm.trans found)
    decide +kernel
  · obtain rfl : 11 = ino :=
      Except.ok.inj ((show _ = Except.ok 11 by decide +kernel).symm.trans found)
    exact ⟨rfl, show _ = true by decide +kernel⟩

/-- Both files' blocks are released, and hold the letters in the end. -/
theorem released_blocks_stay_wiped_two :
    let history :=
      (BlockRequest.runs listEnv ⟨twoFiles, fun _ => none⟩ writeAndRemove).fs.vol.history
    let final := (DiskRun.start (Channel.unixOpen zeroes 0 fun _ => zeroes)).run
      (timeline flushFirst history)
    (Vacant history 20 ∧ Vacant history 21) ∧ ∀ blk, Vacant history blk →
    (final.step (.other .flush)).Holds blk := by
  intro history final
  have sound := Channel.sound_unixOpen zeroes 0 fun _ => zeroes
  exact ⟨by decide +kernel, released_blocks_stay_wiped rfl twoFiles_apart
    (fun ino _ => twoFiles_sizes ino) writeAndRemove_follows zeroes 0 (fun _ => zeroes) []
    (DiskRun.run_timeline flushFirst history _) (DiskRun.carefulRun_flushFirst history sound)⟩

/-- A file is written and closed, and then removed. -/
def writeAndUnlink : List BlockRequest :=
  [.handle (.opens 11 none { rdwr := true }), .handle (.write 11 [0x73] 0), .handle (.close 11),
    .unlink ⟨1000, 1000⟩ 1 [0x61]]

/-- Before a block is wiped, its inode in block 8 and its entry in block 19 have been read and
written. -/
def throughCache : BlockEvent → List Transfer
  | .wipe _ => [.readBlk 8 1, .writeBlk 8 1 zeroes, .readBlk 19 1, .writeBlk 19 1 zeroes]
  | _ => []

/-- The data of a file that was just written comes back over the wipe. -/
theorem dirty_block_returns :
    let history :=
      (BlockRequest.runs listEnv ⟨twoFiles, fun _ => none⟩ writeAndUnlink).fs.vol.history
    let final := (DiskRun.start (Channel.unixOpen zeroes 0 fun _ => zeroes)).run
      (timeline throughCache history)
    (twoFiles.vol.history = [] ∧ twoFiles.FilesApart ∧
      BlockRequest.Follows listEnv writeAndUnlink ⟨twoFiles, fun _ => none⟩) ∧
      final.history = history ∧ Vacant history 20 ∧ ¬ (final.step (.other .flush)).Holds 20 := by
  intro history final
  refine ⟨⟨rfl, twoFiles_apart, ⟨⟨rfl, by decide, by decide, by decide⟩, nofun⟩, ⟨trivial, ?_⟩,
    ⟨trivial, trivial⟩,
    ⟨fun ino found => ?_, fun ino found few => ?_⟩, trivial⟩,
      DiskRun.run_timeline throughCache history _,
    by decide +kernel, fun holds => ?_⟩
  · exact (show ∀ fh ∈ OpenFiles.handles _ 11, Fs.WithinReach _ fh.inode _ _ by decide +kernel)
  · obtain rfl : 11 = ino :=
      Except.ok.inj ((show _ = Except.ok 11 by decide +kernel).symm.trans found)
    decide +kernel
  · obtain rfl : 11 = ino :=
      Except.ok.inj ((show _ = Except.ok 11 by decide +kernel).symm.trans found)
    exact ⟨rfl, show _ = true by decide +kernel⟩
  · have inside : 20480 ∈ Ico 20480 21504 := ⟨le_refl _, by decide⟩
    have letter := holds inside
    have data : (final.step (.other .flush)).chan.dev 20480 = 0x73 := by decide +kernel
    exact absurd (data.symm.trans letter) (by decide +kernel)

end Ext2Fuse
