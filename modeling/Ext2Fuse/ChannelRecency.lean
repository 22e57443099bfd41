import Ext2Fuse.ChannelRuns
import Ext2Fuse.Lib.Recency

/-!
# What the cache keeps

The blocks in the cache of the channel are those that were used last. Only a read of several
blocks at once is an exception: all blocks it has to fetch take turns in one entry.
-/

namespace Ext2Fuse

open Lib Set

namespace Channel

variable {chan next : Channel} {slot : Slot} {block : Nat} {used kept : List Nat}

/-- The first eight of the blocks, by their last use, are in the cache, and their access times are
in that order. -/
structure ByRecency (chan : Channel) (used : List Nat) : Prop where
  sound : chan.Sound
  nodup : used.Nodup
  held : ∀ block, block ∈ used.take 8 ↔ ∃ slot, (chan.cache slot).inUse = true ∧
    (chan.cache slot).block = block
  order : (used.take 8).Pairwise fun newer older => ∀ slot other,
    (chan.cache slot).inUse = true → (chan.cache slot).block = newer →
    (chan.cache other).inUse = true → (chan.cache other).block = older →
    (chan.cache other).accessTime < (chan.cache slot).accessTime
  past : ∀ slot, (chan.cache slot).inUse = true → (chan.cache slot).accessTime ≤ chan.accessTime

/-- An access puts its block in front of those whose entries stay. -/
theorem ByRecency.renew (recent : chan.ByRecency used) (accesses : Accesses chan next block slot)
    (sound : next.Sound)
    (front : (Recency.use used block).take 8 = block :: kept) (fewer : kept.Sublist (used.take 8))
    (stay : ∀ other, other ∈ kept ↔ ∃ one, one ≠ slot ∧ (chan.cache one).inUse = true ∧
      (chan.cache one).block = other) :
    next.ByRecency (Recency.use used block) where
  sound := sound
  nodup := Recency.nodup_use recent.nodup
  held other := by
    rw [front, List.mem_cons, stay]
    constructor
    · rintro (rfl | ⟨one, different, inUse, same⟩)
      · exact ⟨slot, accesses.inUse, accesses.block⟩
      · refine ⟨one, ?_⟩
        rw [accesses.others one different]
        exact ⟨inUse, same⟩
    · rintro ⟨one, inUse, same⟩
      by_cases here : one = slot
      · subst here
        exact .inl (same.symm.trans accesses.block)
      · rw [accesses.others one here] at inUse same
        exact .inr ⟨one, here, inUse, same⟩
  order := by
    rw [front, List.pairwise_cons]
    -- the entries of the blocks that stay are not the one accessed
    have elsewhere : ∀ other, other ∈ kept → ∀ one, (next.cache one).inUse = true →
      (next.cache one).block = other →
        one ≠ slot := by
      rintro other member one inUse same rfl
      obtain ⟨two, different, twoInUse, twoSame⟩ := (stay other).mp member
      refine different (sound.distinct two one ?_ inUse ?_)
      · rwa [accesses.others two different]
      · rw [accesses.others two different, twoSame, same]
    refine ⟨fun older member one other oneInUse oneSame otherInUse otherSame => ?_, ?_⟩
    · have here : one = slot :=
        sound.distinct one slot oneInUse accesses.inUse (oneSame.trans accesses.block.symm)
      have different := elsewhere older member other otherInUse otherSame
      rw [here, accesses.newest]
      rw [accesses.others other different] at otherInUse ⊢
      exact Nat.lt_succ_of_le (recent.past other otherInUse)
    · refine (recent.order.sublist fewer).imp_of_mem
        fun newer older before one other oneInUse oneSame otherInUse otherSame => ?_
      have first := elsewhere _ newer one oneInUse oneSame
      have second := elsewhere _ older other otherInUse otherSame
      rw [accesses.others one first] at oneInUse oneSame ⊢
      rw [accesses.others other second] at otherInUse otherSame ⊢
      exact before one other oneInUse oneSame otherInUse otherSame
  past one inUse := by
    rw [accesses.clock]
    by_cases here : one = slot
    · subst here
      exact le_of_eq accesses.newest
    · rw [accesses.others one here] at inUse ⊢
      exact (recent.past one inUse).trans (Nat.le_succ _)

/-- Blocks in entries out of some are no more than these. -/
theorem length_le_slots (chan : Channel) {blocks : List Nat} (nodup : blocks.Nodup)
    (slots : List Slot)
    (among : ∀ block ∈ blocks, ∃ slot ∈ slots, (chan.cache slot).block = block) :
    blocks.length ≤ slots.length := by
  have subset : blocks ⊆ slots.map fun slot => (chan.cache slot).block := by
    intro block member
    obtain ⟨slot, inSlots, same⟩ := among block member
    exact List.mem_map.mpr ⟨slot, inSlots, same⟩
  have short := List.Nodup.length_le_of_subset nodup subset
  rwa [List.length_map] at short

/-- What stays when an entry is reused: all but the last of the blocks kept. -/
theorem ByRecency.stay_of_eldest (recent : chan.ByRecency used) (slot : Slot)
    (eldest : (chan.cache slot).inUse = true → ∀ other, (chan.cache other).inUse = true ∧
      (chan.cache slot).accessTime ≤ (chan.cache other).accessTime) (other : Nat) :
    other ∈ used.take 7 ↔ ∃ one, one ≠ slot ∧ (chan.cache one).inUse = true ∧
      (chan.cache one).block = other := by
  have nodup : (used.take 8).Nodup := recent.nodup.sublist (List.take_sublist 8 used)
  by_cases inUse : (chan.cache slot).inUse = true
  · -- all entries are in use, and this one has the last of the blocks
    have all := eldest inUse
    have full : 8 ≤ (used.take 8).length := by
      have nodupBlocks : ((List.finRange 8).map fun one => (chan.cache one).block).Nodup :=
        (List.nodup_finRange 8).map fun one two same => recent.sound.distinct one two (all one).1
          (all two).1 same
      have enough := List.Nodup.length_le_of_subset nodupBlocks fun block member => by
        obtain ⟨one, -, same⟩ := List.mem_map.mp member
        exact (recent.held block).mpr ⟨one, (all one).1, same⟩
      rwa [List.length_map, List.length_finRange] at enough
    obtain ⟨last, split⟩ : ∃ last, used.take 8 = used.take 7 ++ [last] := by
      rw [List.length_take] at full
      exact ⟨_, List.take_succ_eq_append_getElem (by omega)⟩
    have isLast : (chan.cache slot).block = last := by
      by_contra different
      have member := (recent.held (chan.cache slot).block).mpr ⟨slot, inUse, rfl⟩
      rw [split] at member
      have before : (chan.cache slot).block ∈ used.take 7 := by
        rcases List.mem_append.mp member with early | late
        · exact early
        · exact absurd (List.mem_singleton.mp late) different
      obtain ⟨one, oneInUse, same⟩ := (recent.held last).mp (by rw [split]; simp)
      have order := recent.order
      rw [split, List.pairwise_append] at order
      have older := order.2.2 _ before last (List.mem_singleton_self _) slot one inUse
        rfl oneInUse same
      exact absurd (all one).2 (Nat.not_le.mpr older)
    rw [split, List.nodup_append] at nodup
    constructor
    · intro early
      obtain ⟨one, oneInUse, same⟩ :=
        (recent.held other).mp (by rw [split]; exact List.mem_append_left _ early)
      refine ⟨one, ?_, oneInUse, same⟩
      rintro rfl
      exact nodup.2.2 other early last (List.mem_singleton_self _) (same.symm.trans isLast)
    · rintro ⟨one, different, oneInUse, same⟩
      have member := (recent.held other).mpr ⟨one, oneInUse, same⟩
      rw [split] at member
      rcases List.mem_append.mp member with early | late
      · exact early
      · refine absurd (recent.sound.distinct one slot oneInUse inUse ?_) different
        rw [same, isLast]
        exact List.mem_singleton.mp late
  · -- there is room left
    have short : (used.take 8).length ≤ 7 := by
      have few := chan.length_le_slots nodup ((List.finRange 8).erase slot) fun block member => by
        obtain ⟨one, oneInUse, same⟩ := (recent.held block).mp member
        refine ⟨one, (List.nodup_finRange 8).mem_erase_iff.mpr ⟨?_, List.mem_finRange one⟩, same⟩
        rintro rfl
        exact inUse oneInUse
      rw [List.length_erase_of_mem (List.mem_finRange slot), List.length_finRange] at few
      exact few
    have all : used.take 7 = used.take 8 := by
      rw [List.length_take] at short
      rw [List.take_of_length_le (by omega), List.take_of_length_le (by omega)]
    rw [all, recent.held]
    constructor
    · rintro ⟨one, oneInUse, same⟩
      refine ⟨one, ?_, oneInUse, same⟩
      rintro rfl
      exact inUse oneInUse
    · rintro ⟨one, -, oneInUse, same⟩
      exact ⟨one, oneInUse, same⟩

/-- An access to a block, whichever entry it takes. -/
theorem ByRecency.access (recent : chan.ByRecency used) (accesses : Accesses chan next block slot)
    (sound : next.Sound) :
    next.ByRecency (Recency.use used block) := by
  rcases accesses.chosen with ⟨inUse, here⟩ | ⟨uncached, eldest⟩
  · have present : block ∈ used.take 8 := (recent.held block).mpr ⟨slot, inUse, here⟩
    refine recent.renew accesses sound (Recency.take_use_of_mem present)
      List.erase_sublist fun other => ?_
    rw [(recent.nodup.sublist (List.take_sublist 8 used)).mem_erase_iff, recent.held]
    constructor
    · rintro ⟨different, one, oneInUse, same⟩
      refine ⟨one, ?_, oneInUse, same⟩
      rintro rfl
      exact different (same.symm.trans here)
    · rintro ⟨one, different, oneInUse, same⟩
      refine ⟨fun isBlock => different ?_, one, oneInUse, same⟩
      exact recent.sound.distinct one slot oneInUse inUse (by rw [same, isBlock, here])
  · have absent : block ∉ used.take 8 := fun member => by
      obtain ⟨one, inUse, same⟩ := (recent.held block).mp member
      exact uncached one inUse same
    have fewer : (used.take 7).Sublist (used.take 8) := by
      rw [show used.take 7 = (used.take 8).take 7 by rw [List.take_take]; rfl]
      exact List.take_sublist 7 _
    exact recent.renew accesses sound (Recency.take_use_of_notMem absent) fewer
      (recent.stay_of_eldest slot eldest)

/-- Only which entries are in use, for what, and when they were accessed matters. -/
theorem ByRecency.congr (recent : chan.ByRecency used) (sound : next.Sound)
    (same : ∀ slot, (next.cache slot).inUse = (chan.cache slot).inUse ∧
      (next.cache slot).block = (chan.cache slot).block ∧
      (next.cache slot).accessTime = (chan.cache slot).accessTime)
    (clock : next.accessTime = chan.accessTime) : next.ByRecency used where
  sound := sound
  nodup := recent.nodup
  held block := by
    rw [recent.held]
    exact exists_congr fun slot => by rw [(same slot).1, (same slot).2.1]
  order := by
    refine recent.order.imp fun before slot other => ?_
    rw [(same slot).1, (same slot).2.1, (same slot).2.2, (same other).1, (same other).2.1,
      (same other).2.2]
    exact before slot other
  past slot := by
    rw [(same slot).1, (same slot).2.2, clock]
    exact recent.past slot

/-- A cache with no slot in use holds the last blocks of no uses at all. -/
theorem byRecency_of_unused (sound : chan.Sound)
    (unused : ∀ slot, (chan.cache slot).inUse = false) :
    chan.ByRecency [] where
  sound := sound
  nodup := List.nodup_nil
  held block := by
    refine ⟨fun member => (List.not_mem_nil member).elim, ?_⟩
    rintro ⟨slot, inUse, -⟩
    rw [unused slot] at inUse
    cases inUse
  order := List.Pairwise.nil
  past slot inUse := by
    rw [unused slot] at inUse
    cases inUse

/-- A flush that keeps the entries changes none of this. -/
theorem flushEntry_keeps (chan : Channel) (slot other : Slot) :
    (((flushEntry false chan slot).cache other).inUse = (chan.cache other).inUse ∧
      ((flushEntry false chan slot).cache other).block = (chan.cache other).block ∧
      ((flushEntry false chan slot).cache other).accessTime = (chan.cache other).accessTime) ∧
      (flushEntry false chan slot).accessTime = chan.accessTime := by
  by_cases same : other = slot
  · subst same
    rw [flushEntry]
    split
    · exact ⟨⟨rfl, rfl, rfl⟩, rfl⟩
    · rename_i used
      have inUse : (chan.cache other).inUse = true := by simpa using used
      dsimp only
      split
      · rw [setEntry_same]
        exact ⟨⟨inUse.symm, rfl, rfl⟩, rfl⟩
      · rw [setEntry_same]
        exact ⟨⟨inUse.symm, rfl, rfl⟩, rfl⟩
  · rw [flushEntry_other false chan same]
    refine ⟨⟨rfl, rfl, rfl⟩, ?_⟩
    rw [flushEntry]
    split
    · rfl
    · dsimp only
      split <;> rfl

/-- Flushing writes blocks back and evicts none. -/
theorem ByRecency.flush (recent : chan.ByRecency used) : chan.unixFlush.ByRecency used := by
  have keeps : ∀ slots : List Slot, ∀ before : Channel, before.ByRecency used →
      (slots.foldl (flushEntry false) before).ByRecency used := by
    intro slots
    induction slots with
    | nil => exact fun _ recent => recent
    | cons first rest inductionHypothesis =>
        intro before recent
        refine inductionHypothesis _
          (recent.congr (idles_flushEntry recent.sound false first).sound ?_ ?_)
        · exact fun slot => (flushEntry_keeps before first slot).1
        · exact (flushEntry_keeps before first first).2
  exact keeps _ chan recent

/-- An invalidating flush leaves the cache as it was at the start. -/
theorem byRecency_invalidated (sound : chan.Sound) : (chan.flushCachedBlocks true).ByRecency [] :=
  byRecency_of_unused (idles_flushCachedBlocks sound true).sound (flushCachedBlocks_unused sound)

/-- A read of one block is an access to it. -/
theorem unixReadBlk_accesses (chan : Channel) (block : Nat) :
    ∃ slot, Accesses chan (chan.unixReadBlk block 1).2 block slot := by
  have one : chan.unixReadBlk block 1 = readLoop 1 chan block 1 := by
    rw [unixReadBlk, if_neg (by decide)]
    rfl
  rw [one, readLoop, if_neg (by decide)]
  rcases findCachedBlock_cases chan
    block with ⟨slot, found, inUse, here⟩ | ⟨slot, found, uncached, eldest⟩
  · rw [found]
    have touched : (chan.touch slot).cache slot =
      { chan.cache slot with accessTime := chan.accessTime + 1 } := by
      rw [touch_cache, Function.update_self]
    refine ⟨slot, .inl ⟨inUse, here⟩, ?_, ?_, ?_, fun other different => ?_, rfl⟩
    · exact (congrArg UnixCache.inUse touched).trans inUse
    · exact (congrArg UnixCache.block touched).trans here
    · exact congrArg UnixCache.accessTime touched
    · show (chan.touch slot).cache other = _
      rw [touch_cache, Function.update_of_ne different]
  · rw [found]
    show ∃ slot, Accesses chan ((chan.reuseCache _ block).copyIn _ _) block slot
    rw [reuse_copy]
    exact ⟨slot, .inr ⟨uncached, eldest⟩, congrArg UnixCache.inUse setEntry_same,
      congrArg UnixCache.block setEntry_same, congrArg UnixCache.accessTime setEntry_same,
      fun other different => (setEntry_other different).trans (evict_other chan different), rfl⟩

/-- The loop of unix_write_blk uses its blocks in their order. -/
theorem ByRecency.writeLoop (buf : Bytes) (count : Nat) :
    ∀ (chan : Channel) (used : List Nat) (block cp : Nat), chan.ByRecency used →
      (writeLoop buf count chan block cp).ByRecency
      ((List.range' block count).foldl Recency.use used) := by
  induction count with
  | zero => exact fun _ _ _ _ recent => recent
  | succ count inductionHypothesis =>
      intro chan used block cp recent
      obtain ⟨next, unfolded, acts, slot, accesses⟩ := acts_writeLoop_one recent.sound buf block cp
      rw [unfolded, List.range'_succ, List.foldl_cons]
      exact inductionHypothesis next _ (block + 1) _ (recent.access accesses acts.sound)

end Channel

/-- The blocks used so far, when the transfer is done. A write past the cache empties it. -/
def Transfer.uses (used : List Nat) : Transfer → List Nat
  | .readBlk block count => if count = 1 then Recency.use used block else used
  | .writeBlk block count _ =>
      if count < 0 ∨ WRITE_DIRECT_SIZE < count then [] else (List.range' block count.toNat).foldl
        Recency.use used
  | .writeByte _ _ _ => []
  | .flush => used

/-- Reads take one block at a time through the cache. -/
def Transfer.Single : Transfer → Prop
  | .readBlk _ count => count ≤ 1 ∨ WRITE_DIRECT_SIZE < count
  | _ => True

/-- A transfer of single blocks renews exactly the blocks it uses. -/
theorem Channel.ByRecency.transfer {chan : Channel} {used : List Nat} (recent : chan.ByRecency used)
    {transfer : Transfer}
    (single : transfer.Single) : (chan.transfer transfer).2.ByRecency (transfer.uses used) := by
  cases transfer with
  | readBlk block count =>
      rw [Transfer.uses]
      by_cases one : count = 1
      · subst one
        obtain ⟨slot, accesses⟩ := chan.unixReadBlk_accesses block
        exact recent.access accesses (Channel.unixReadBlk_acts recent.sound block 1).1.sound
      · rw [if_neg one]
        show (chan.unixReadBlk block count).2.ByRecency used
        rw [Channel.unixReadBlk]
        split
        · exact recent.flush
        · rename_i small
          obtain rfl : count = 0 := by
            rcases single with few | many <;> omega
          exact recent
  | writeBlk block count buf =>
      show (chan.unixWriteBlk block count buf).ByRecency _
      rw [Transfer.uses, Channel.unixWriteBlk]
      split
      · exact (Channel.byRecency_invalidated recent.sound).congr
          ⟨(Channel.byRecency_invalidated recent.sound).sound.distinct,
            (Channel.byRecency_invalidated recent.sound).sound.buffered⟩
          (fun _ => ⟨rfl, rfl, rfl⟩) rfl
      · rw [recent.sound.buffered]
        exact Channel.ByRecency.writeLoop buf count.toNat chan used block 0 recent
  | writeByte offset size buf =>
      have empty := Channel.byRecency_invalidated recent.sound
      exact empty.congr ⟨empty.sound.distinct, empty.sound.buffered⟩ (fun _ => ⟨rfl, rfl, rfl⟩) rfl
  | flush => exact recent.flush

end Ext2Fuse
