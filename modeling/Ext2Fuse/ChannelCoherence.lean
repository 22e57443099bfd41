import Ext2Fuse.IoChannel
import Mathlib.Order.Interval.Set.LinearOrder

/-!
# What the channel's cache keeps

The channel seen as a write-back cache over the bytes of the device, and the contract of each of
its operations: reads and flushes only move lines about, a write changes the bytes it names.
-/

namespace Ext2Fuse

open Lib Set

namespace Channel

variable {chan before middle after : Channel} {slot other : Slot} {block : Nat} {entry : UnixCache}

/-- The bytes of the device that belong to a block. -/
def area (chan : Channel) (block : Nat) : Set Nat :=
  Ico (chan.location block) (chan.location block + chan.blockSize)

/-- An entry as a line over the bytes of the device. -/
def line (chan : Channel) (entry : UnixCache) : Line Nat UInt8 where
  covers := { position | entry.inUse = true ∧ position ∈ chan.area entry.block }
  holds position := entry.buf (position - chan.location entry.block)
  dirty := (entry.dirty && entry.inUse) = true

/-- The channel as a write-back cache. -/
def state (chan : Channel) : WriteBack Slot Nat UInt8 where
  lines slot := chan.line (chan.cache slot)
  store := chan.dev

/-- What no transfer changes. -/
def shape (chan : Channel) : Nat × Nat × Bool := (chan.blockSize, chan.offset, chan.writethrough)

/-- No two entries hold one block, and writes stay in the cache. -/
structure Sound (chan : Channel) : Prop where
  distinct : ∀ slot other, (chan.cache slot).inUse = true → (chan.cache other).inUse = true →
    (chan.cache slot).block = (chan.cache other).block → slot = other
  buffered : chan.writethrough = false

/-- No entry holds the block. -/
def Uncached (chan : Channel) (block : Nat) : Prop :=
  ∀ slot, (chan.cache slot).inUse = true → (chan.cache slot).block ≠ block

/-- The contract of an operation on the channel. -/
structure Acts (before after : Channel) (written : Set Nat) (effect : Bytes → Bytes) : Prop where
  shape : after.shape = before.shape
  sound : after.Sound
  serves : before.state.Serves after.state written effect

/-- An operation that writes nothing. -/
abbrev Idles (before after : Channel) : Prop := Acts before after ∅ id

/-- Two acts in a row write both ranges, where neither undoes the other. -/
theorem Acts.trans {written writtenToo : Set Nat} {effect effectToo : Bytes → Bytes}
    (first : Acts before middle written effect) (second : Acts middle after writtenToo effectToo)
    (once : ∀ plain position, effect plain position = plain position ∨
      effectToo (effect plain) position = effect plain position) :
    Acts before after (written ∪ writtenToo) (effectToo ∘ effect) :=
  ⟨second.shape.trans first.shape, second.sound, first.serves.trans second.serves once⟩

/-- A channel that nothing happened to has idled. -/
theorem Idles.refl (sound : chan.Sound) : Idles chan chan := ⟨rfl, sound, WriteBack.Quiet.refl _⟩

/-- Two idle steps in a row are idle. -/
theorem Idles.trans (first : Idles before middle) (second : Idles middle after) :
    Idles before after :=
  ⟨second.shape.trans first.shape, second.sound, WriteBack.Quiet.trans first.serves second.serves⟩

/-- An idle step before an act changes nothing about it. -/
theorem Idles.acts {written : Set Nat} {effect : Bytes → Bytes} (first : Idles before middle)
    (second : Acts middle after written effect) : Acts before after written effect :=
  ⟨second.shape.trans first.shape, second.sound, WriteBack.Quiet.serves first.serves second.serves⟩

section Shape

/-- Where a block lies is a matter of the channel's shape. -/
theorem location_congr (same : after.shape = before.shape) : after.location = before.location := by
  rw [shape, shape, Prod.mk.injEq, Prod.mk.injEq] at same
  funext block
  rw [location, location, same.1, same.2.1]

/-- The block size is a matter of the channel's shape. -/
theorem blockSize_congr (same : after.shape = before.shape) : after.blockSize = before.blockSize :=
  congrArg Prod.fst same

/-- The area of a block is a matter of the channel's shape. -/
theorem area_congr (same : after.shape = before.shape) : after.area = before.area := by
  funext block
  rw [area, area, location_congr same, blockSize_congr same]

/-- How much a transfer moves is a matter of the channel's shape. -/
theorem transferSize_congr (same : after.shape = before.shape) (count : Int) :
    after.transferSize count = before.transferSize count := by
  rw [transferSize, transferSize, blockSize_congr same]

/-- What an entry caches is a matter of the channel's shape. -/
theorem line_congr (same : after.shape = before.shape) : after.line = before.line := by
  funext entry
  rw [line, line, location_congr same, area_congr same]

/-- Blocks that follow one another lie side by side. -/
theorem location_succ (chan : Channel) (block more : Nat) :
    chan.location (block + more) = chan.location block + more * chan.blockSize := by
  rw [location, location, Nat.add_mul]
  omega

/-- Different blocks share no byte. -/
theorem area_disjoint (chan : Channel) {block other : Nat} (different : block ≠ other) :
    Disjoint (chan.area block) (chan.area other) := by
  rw [Set.disjoint_left]
  rintro position ⟨low, high⟩ ⟨lowToo, highToo⟩
  rcases Nat.lt_or_gt_of_ne different with below | above
  · obtain ⟨more, rfl⟩ := Nat.exists_eq_add_of_lt below
    rw [Nat.add_assoc, location_succ, Nat.add_mul] at lowToo
    omega
  · obtain ⟨more, rfl⟩ := Nat.exists_eq_add_of_lt above
    rw [Nat.add_assoc, location_succ, Nat.add_mul] at low
    omega

@[simp] theorem shape_setEntry : (chan.setEntry slot entry).shape = chan.shape := rfl

@[simp] theorem shape_rawWriteBlk (count : Int) (buf : Bytes) :
    (chan.rawWriteBlk block count buf).shape = chan.shape := rfl

@[simp] theorem shape_touch : (chan.touch slot).shape = chan.shape := rfl

@[simp] theorem setEntry_same :
    (chan.setEntry slot entry).cache slot = entry := Function.update_self _ _ _

/-- Setting one entry leaves the others. -/
theorem setEntry_other (different : other ≠ slot) :
    (chan.setEntry slot entry).cache other = chan.cache other :=
  Function.update_of_ne different _ _

/-- Setting an entry is setting its line of the write-back cache. -/
theorem state_setEntry : (chan.setEntry slot entry).state = chan.state.setLine slot
    (chan.line entry) := by
  simp only [state, WriteBack.setLine, WriteBack.mk.injEq]
  refine ⟨funext fun one => ?_, rfl⟩
  show chan.line _ = _
  by_cases same : one = slot
  · subst same
    rw [setEntry_same, Function.update_self]
  · rw [setEntry_other same, Function.update_of_ne same]

/-- Touching an entry gives it the next access time and nothing else. -/
theorem touch_cache : (chan.touch slot).cache =
    Function.update chan.cache slot
      { chan.cache slot with accessTime := chan.accessTime + 1 } := rfl

/-- Access times are of no account. -/
theorem state_touch : (chan.touch slot).state = chan.state := by
  have same : (chan.touch slot).state =
    (chan.setEntry slot { chan.cache slot with accessTime := chan.accessTime + 1 }).state :=
    rfl
  rw [same, state_setEntry]
  simp only [state, WriteBack.setLine, WriteBack.mk.injEq, and_true]
  exact Function.update_eq_self _ _

/-- No line of the cache covers any byte of an uncached block. -/
theorem cover_of_uncached (uncached : chan.Uncached block) (slot : Slot) :
    Disjoint (chan.state.lines slot).covers (chan.area block) := by
  rw [Set.disjoint_left]
  rintro position ⟨inUse, covered⟩
  exact Set.disjoint_left.mp (chan.area_disjoint (uncached slot inUse)) covered

/-- Touching an entry keeps the cache sound. -/
theorem Sound.touch (sound : chan.Sound) (slot : Slot) : (chan.touch slot).Sound := by
  have same : ∀ one, ((chan.touch slot).cache one).inUse = (chan.cache one).inUse ∧
      ((chan.touch slot).cache one).block = (chan.cache one).block := by
    intro one
    rw [touch_cache]
    by_cases here : one = slot
    · rw [here, Function.update_self]
      exact ⟨rfl, rfl⟩
    · rw [Function.update_of_ne here]
      exact ⟨rfl, rfl⟩
  refine ⟨fun one two => ?_, sound.buffered⟩
  rw [(same one).1, (same one).2, (same two).1, (same two).2]
  exact sound.distinct one two

/-- Touching an entry shows in no byte. -/
theorem idles_touch (sound : chan.Sound) (slot : Slot) : Idles chan (chan.touch slot) where
  shape := rfl
  sound := sound.touch slot
  serves := by
    rw [state_touch]
    exact WriteBack.Quiet.refl _

/-- An entry may be taken out of use, or given the block it has. -/
theorem Sound.setEntry (sound : chan.Sound)
    (alone : entry.inUse = true → ∀ other, other ≠ slot → (chan.cache other).inUse = true →
      (chan.cache other).block ≠ entry.block) : (chan.setEntry slot entry).Sound where
  distinct one two oneInUse twoInUse same := by
    by_cases first : one = slot
    · by_cases second : two = slot
      · rw [first, second]
      · subst first
        rw [setEntry_same] at oneInUse same
        rw [setEntry_other second] at twoInUse same
        exact absurd same.symm (alone oneInUse two second twoInUse)
    · rw [setEntry_other first] at oneInUse same
      by_cases second : two = slot
      · subst second
        rw [setEntry_same] at twoInUse same
        exact absurd same (alone twoInUse one first oneInUse)
      · rw [setEntry_other second] at twoInUse same
        exact sound.distinct one two oneInUse twoInUse same
  buffered := sound.buffered

end Shape

section Lookups

/-- What the scan of the cache knows of the entries it has seen. -/
structure Scanned (chan : Channel) (block : Nat) (seen : List Slot)
    (unused oldest : Option Slot) : Prop where
  uncached : ∀ slot ∈ seen, (chan.cache slot).inUse = true → (chan.cache slot).block ≠ block
  free : ∀ slot, unused = some slot → (chan.cache slot).inUse = false
  full : unused = none → ∀ slot ∈ seen, (chan.cache slot).inUse = true
  least : ∀ slot, oldest = some slot → (chan.cache slot).inUse = true ∧ ∀ other ∈ seen,
    (chan.cache other).inUse = true → (chan.cache slot).accessTime ≤ (chan.cache other).accessTime
  idle : oldest = none → ∀ slot ∈ seen, (chan.cache slot).inUse = false

variable {seen slots : List Slot} {unused oldest : Option Slot}

/-- The scan steps over an unused slot, which becomes the unused one if there was none. -/
theorem Scanned.skip (scanned : chan.Scanned block seen unused oldest)
    (free : (chan.cache slot).inUse = false) :
    chan.Scanned block (seen ++ [slot]) (unused <|> some slot) oldest where
  uncached one member inUse := by
    rcases List.mem_append.mp member with before | here
    · exact scanned.uncached one before inUse
    · rw [List.mem_singleton.mp here, free] at inUse
      cases inUse
  free one same := by
    cases unused with
    | none => exact Option.some.inj same ▸ free
    | some first => exact scanned.free one same
  full none := by cases unused <;> cases none
  least one same := by
    refine ⟨(scanned.least one same).1, fun other member inUse => ?_⟩
    rcases List.mem_append.mp member with before | here
    · exact (scanned.least one same).2 other before inUse
    · rw [List.mem_singleton.mp here, free] at inUse
      cases inUse
  idle none one member := by
    rcases List.mem_append.mp member with before | here
    · exact scanned.idle none one before
    · rw [List.mem_singleton.mp here]
      exact free

/-- The scan steps over another block's slot, which becomes the oldest one if it is older. -/
theorem Scanned.pass (scanned : chan.Scanned block seen unused oldest)
    (inUse : (chan.cache slot).inUse = true) (different : (chan.cache slot).block ≠ block) :
    chan.Scanned block (seen ++ [slot]) unused
      (if chan.isOlder slot oldest then some slot else oldest) where
  uncached one member := by
    rcases List.mem_append.mp member with before | here
    · exact scanned.uncached one before
    · rw [List.mem_singleton.mp here]
      exact fun _ => different
  free := scanned.free
  full none one member := by
    rcases List.mem_append.mp member with before | here
    · exact scanned.full none one before
    · rw [List.mem_singleton.mp here]
      exact inUse
  least one same := by
    cases oldest with
    | none =>
        rw [isOlder, if_pos rfl, Option.some.injEq] at same
        subst same
        refine ⟨inUse, fun other member otherInUse => ?_⟩
        rcases List.mem_append.mp member with before | here
        · rw [scanned.idle rfl other before] at otherInUse
          cases otherInUse
        · rw [List.mem_singleton.mp here]
    | some first =>
        obtain ⟨firstInUse, least⟩ := scanned.least first rfl
        by_cases older : (chan.cache slot).accessTime < (chan.cache first).accessTime
        · rw [isOlder, if_pos (decide_eq_true older), Option.some.injEq] at same
          subst same
          refine ⟨inUse, fun other member otherInUse => ?_⟩
          rcases List.mem_append.mp member with before | here
          · exact older.le.trans (least other before otherInUse)
          · rw [List.mem_singleton.mp here]
        · rw [isOlder, if_neg (by simpa using older), Option.some.injEq] at same
          subst same
          refine ⟨firstInUse, fun other member otherInUse => ?_⟩
          rcases List.mem_append.mp member with before | here
          · exact least other before otherInUse
          · rw [List.mem_singleton.mp here]
            exact Nat.le_of_not_lt older
  idle none := by
    exfalso
    cases oldest with
    | none => cases none
    | some first => split at none <;> cases none

/-- What a scan of the cache comes back with. -/
def Comes (chan : Channel) (block : Nat) (slots : List Slot) : Lookup → Prop
  | .cached slot => (chan.cache slot).inUse = true ∧ (chan.cache slot).block = block
  | .eldest slot =>
      (∀ other ∈ slots, (chan.cache other).inUse = true → (chan.cache other).block ≠ block) ∧
      ((chan.cache slot).inUse = true → ∀ other ∈ slots, (chan.cache other).inUse = true ∧
        (chan.cache slot).accessTime ≤ (chan.cache other).accessTime)

/-- The scan of the whole cache ends at the block's slot, at an unused one or at the oldest. -/
theorem scanCache_comes (scanned : chan.Scanned block seen unused oldest)
    (some : seen ++ slots ≠ []) :
    chan.Comes block (seen ++ slots) (chan.scanCache block slots unused oldest) := by
  induction slots generalizing seen unused oldest with
  | nil =>
      rw [List.append_nil] at some ⊢
      refine ⟨scanned.uncached, ?_⟩
      cases unused with
      | some first =>
          intro inUse
          rw [show ((Option.some first <|> oldest).getD 0) = first from rfl,
            scanned.free first rfl] at inUse
          cases inUse
      | none =>
          cases oldest with
          | none =>
              obtain ⟨one, member⟩ := List.exists_mem_of_ne_nil _ some
              have free := scanned.idle rfl one member
              rw [scanned.full rfl one member] at free
              cases free
          | some first =>
              intro _ other member
              exact ⟨scanned.full rfl other member,
                (scanned.least first rfl).2 other member (scanned.full rfl other member)⟩
  | cons slot rest inductionHypothesis =>
      rw [scanCache]
      have split : seen ++ slot :: rest = (seen ++ [slot]) ++ rest := by
        rw [List.append_assoc, List.singleton_append]
      by_cases free : (chan.cache slot).inUse = false
      · rw [if_pos free, split]
        exact inductionHypothesis (scanned.skip free) (split ▸ some)
      · rw [Bool.not_eq_false] at free
        rw [if_neg (by rw [free]; simp)]
        by_cases here : (chan.cache slot).block = block
        · rw [if_pos here]
          exact ⟨free, here⟩
        · rw [if_neg here, split]
          exact inductionHypothesis (scanned.pass free here) (split ▸ some)

/-- `find_cached_block` finds the entry of the block, whose access time it renews, or an entry to
reuse: one out of use, or else the one that was not accessed for longest. -/
theorem findCachedBlock_cases (chan : Channel) (block : Nat) :
    (∃ slot, chan.findCachedBlock block = (.cached slot, chan.touch slot) ∧
      (chan.cache slot).inUse = true ∧
      (chan.cache slot).block = block) ∨
    ∃ slot, chan.findCachedBlock block = (.eldest slot, chan) ∧ chan.Uncached block ∧
      ((chan.cache slot).inUse = true → ∀ other, (chan.cache other).inUse = true ∧
        (chan.cache slot).accessTime ≤ (chan.cache other).accessTime) := by
  have start : chan.Scanned block [] none none :=
    ⟨by simp, by simp, by simp, by simp, by simp⟩
  have comes : chan.Comes block ([] ++ List.finRange 8) _ := scanCache_comes start (by decide)
  rw [findCachedBlock]
  rcases outcome : chan.scanCache block (List.finRange 8) none none with slot | slot
  · rw [outcome] at comes
    exact .inl ⟨slot, rfl, comes.1, comes.2⟩
  · rw [outcome] at comes
    exact .inr ⟨slot, rfl, fun other => comes.1 other (List.mem_finRange other),
      fun inUse other => comes.2 inUse other (List.mem_finRange other)⟩

/-- An access to a block: its entry is the one the block has, or else the one to be reused. -/
structure Accesses (chan next : Channel) (block : Nat) (slot : Slot) : Prop where
  chosen : ((chan.cache slot).inUse = true ∧ (chan.cache slot).block = block) ∨
    (chan.Uncached block ∧ ((chan.cache slot).inUse = true → ∀ other,
      (chan.cache other).inUse = true ∧
      (chan.cache slot).accessTime ≤ (chan.cache other).accessTime))
  inUse : (next.cache slot).inUse = true
  block : (next.cache slot).block = block
  newest : (next.cache slot).accessTime = chan.accessTime + 1
  others : ∀ other, other ≠ slot → next.cache other = chan.cache other
  clock : next.accessTime = chan.accessTime + 1

end Lookups

section Flushes

variable {buf : Bytes}

/-- Writing a number of bytes to the device. -/
theorem write_on (dev buf : Bytes) (start cp size : Nat) :
    EqOn (Bytes.write dev start (Bytes.read buf cp size))
      (fun position => buf (cp + (position - start)))
      (Ico start (start + size)) :=
  fun _ inside => Bytes.write_read_inside _ _ inside.1 inside.2

/-- Outside of the written range a write changes nothing. -/
theorem write_off (dev : Bytes) (start : Nat) (data : List UInt8) {size : Nat}
    (length : data.length = size) :
    EqOn (Bytes.write dev start data) dev (Ico start (start + size))ᶜ := by
  intro position outside
  refine Bytes.write_apply_outside _ ?_
  rw [mem_compl_iff, mem_Ico] at outside
  omega

/-- Of two settings of one entry the later one counts. -/
theorem setEntry_setEntry (entryToo : UnixCache) :
    (chan.setEntry slot entry).setEntry slot entryToo = chan.setEntry slot entryToo := by
  rw [setEntry, setEntry, setEntry, Function.update_idem]

/-- Writing a dirty entry back. -/
theorem idles_writeBack (sound : chan.Sound) (slot : Slot)
    (dirty : ((chan.cache slot).dirty && (chan.cache slot).inUse) = true) :
    Idles chan ((chan.rawWriteBlk (chan.cache slot).block 1 (chan.cache slot).buf).setEntry slot
      { chan.cache slot with dirty := false }) where
  shape := rfl
  sound := by
    refine Sound.setEntry ⟨sound.distinct, sound.buffered⟩
      fun inUse other different otherInUse same => ?_
    exact different (sound.distinct other slot otherInUse inUse same)
  serves := by
    rw [state_setEntry]
    have inUse : (chan.cache slot).inUse = true := ((Bool.and_eq_true _ _).mp dirty).2
    have covers : (chan.state.lines slot).covers = chan.area (chan.cache slot).block := by
      ext position
      exact and_iff_right inUse
    refine @WriteBack.quiet_writeBack _ _ _ chan.state slot _ _ _ dirty rfl
      (fun _ _ => rfl) (by simp [line]) ?_ ?_
    · rw [covers]
      intro position inside
      have stored := write_on chan.dev (chan.cache slot).buf (chan.location (chan.cache slot).block)
        0 chan.blockSize inside
      exact stored.trans (congrArg (chan.cache slot).buf (Nat.zero_add _))
    · rw [covers]
      exact write_off _ _ _ (Bytes.length_read _ _ _)

/-- Taking a clean entry out of use. -/
theorem idles_drop (sound : chan.Sound) (slot : Slot)
    (clean : (chan.cache slot).dirty = false) (inUse : Bool)
    (less : inUse = true → (chan.cache slot).inUse = true) :
    Idles chan (chan.setEntry slot { chan.cache slot with inUse }) where
  shape := rfl
  sound := by
    refine sound.setEntry fun still other different otherInUse same => ?_
    exact different (sound.distinct other slot otherInUse (less still) same)
  serves := by
    rw [state_setEntry]
    refine WriteBack.quiet_shrink (by simp [state, line, clean]) ?_
      (fun _ _ => rfl) (by simp [line, clean])
    rintro position ⟨still, covered⟩
    exact ⟨less still, covered⟩

/-- One turn of the flush. -/
theorem idles_flushEntry (sound : chan.Sound) (invalidate : Bool) (slot : Slot) :
    Idles chan (flushEntry invalidate chan slot) := by
  rw [flushEntry]
  by_cases unused : (chan.cache slot).inUse = false
  · rw [if_pos (by rw [unused]; rfl)]
    exact .refl sound
  · rw [Bool.not_eq_false] at unused
    rw [if_neg (by rw [unused]; simp)]
    by_cases clean : (chan.cache slot).dirty = false
    · rw [if_pos (by rw [clean]; rfl)]
      exact idles_drop sound slot clean _ fun _ => unused
    · rw [Bool.not_eq_false] at clean
      rw [if_neg (by rw [clean]; simp)]
      have first := idles_writeBack sound slot (by rw [clean, unused]; rfl)
      have second := idles_drop first.sound slot (by rw [setEntry_same]) (!invalidate)
        (by rw [setEntry_same]; exact fun _ => unused)
      rw [setEntry_setEntry, setEntry_same] at second
      exact first.trans second

/-- An entry has nothing to be written back, and is out of use if that was asked for. -/
def Flushed (chan : Channel) (invalidate : Bool) (slot : Slot) : Prop :=
  (chan.cache slot).inUse = true → (chan.cache slot).dirty = false ∧ invalidate = false

/-- A flushed entry is clean, and unused when the flush invalidates. -/
theorem flushEntry_flushed (invalidate : Bool) (chan : Channel) (slot : Slot) :
    (flushEntry invalidate chan slot).Flushed invalidate slot := by
  rw [flushEntry]
  by_cases unused : (chan.cache slot).inUse = false
  · rw [if_pos (by rw [unused]; rfl), Flushed, unused]
    intro inUse
    cases inUse
  · rw [if_neg (by simpa using unused)]
    split
    · rename_i clean
      rw [Flushed, setEntry_same]
      exact fun kept => ⟨by simpa using clean, by simpa using kept⟩
    · rw [Flushed, setEntry_same]
      exact fun kept => ⟨rfl, by simpa using kept⟩

/-- Flushing one entry leaves the others. -/
theorem flushEntry_other (invalidate : Bool) (chan : Channel) (different : other ≠ slot) :
    (flushEntry invalidate chan slot).cache other = chan.cache other := by
  rw [flushEntry]
  split
  · rfl
  · dsimp only
    split
    · exact setEntry_other different
    · exact setEntry_other different

/-- Flushing slot after slot is idle, and each of them ends up flushed. -/
theorem foldl_flushEntry (invalidate : Bool) (slots : List Slot) (sound : chan.Sound) :
    Idles chan (slots.foldl (flushEntry invalidate) chan) ∧
      ∀ slot, slot ∈ slots ∨ chan.Flushed invalidate slot →
        (slots.foldl (flushEntry invalidate) chan).Flushed invalidate slot := by
  induction slots generalizing chan with
  | nil => exact ⟨.refl sound, by simp⟩
  | cons first rest inductionHypothesis =>
      have here := idles_flushEntry sound invalidate first
      obtain ⟨idles, flushed⟩ := inductionHypothesis here.sound
      refine ⟨here.trans idles, fun slot among => flushed slot ?_⟩
      by_cases same : slot = first
      · subst same
        exact .inr (flushEntry_flushed invalidate chan slot)
      · rcases among with member | already
        · exact .inl ((List.mem_cons.mp member).resolve_left same)
        · refine .inr ?_
          rw [Flushed, flushEntry_other invalidate chan same]
          exact already

/-- `flush_cached_blocks` writes every dirty entry back. -/
theorem idles_flushCachedBlocks (sound : chan.Sound) (invalidate : Bool) :
    Idles chan (chan.flushCachedBlocks invalidate) :=
  (foldl_flushEntry invalidate _ sound).1

/-- After a flush of the cache every slot is flushed. -/
theorem flushCachedBlocks_flushed (sound : chan.Sound) (invalidate : Bool) (slot : Slot) :
    (chan.flushCachedBlocks invalidate).Flushed invalidate slot :=
  (foldl_flushEntry invalidate _ sound).2 slot (.inl (List.mem_finRange slot))

end Flushes

section Reuse

variable {data : List UInt8} {buf : Bytes}

/-- The write-back `reuse_cache` starts with. -/
def evict (chan : Channel) (slot : Slot) : Channel :=
  if (chan.cache slot).dirty && (chan.cache slot).inUse then
    (chan.rawWriteBlk (chan.cache slot).block 1 (chan.cache slot).buf).setEntry slot
      { chan.cache slot with dirty := false }
  else chan

/-- The entry a block is put in. -/
def newEntry (chan : Channel) (slot : Slot) (block : Nat) (data : List UInt8)
    (dirty : Bool) : UnixCache where
  buf := Bytes.write (chan.cache slot).buf 0 data
  block := block
  accessTime := chan.accessTime + 1
  dirty := dirty
  inUse := true

/-- Making room in a slot shows in no byte. -/
theorem idles_evict (sound : chan.Sound) (slot : Slot) : Idles chan (chan.evict slot) := by
  rw [evict]
  split
  · rename_i dirty
    exact idles_writeBack sound slot dirty
  · exact .refl sound

/-- A slot that room was made in is clean. -/
theorem evict_clean (chan : Channel) (slot : Slot) :
    ¬ ((chan.evict slot).state.lines slot).dirty := by
  rw [evict]
  split
  · simp [state, line]
  · rename_i clean
    exact clean

/-- Making room leaves what the slots hold; only what is dirty changes. -/
theorem evict_entry (chan : Channel) (slot other : Slot) :
    ((chan.evict slot).cache other).inUse = (chan.cache other).inUse ∧
      ((chan.evict slot).cache other).block = (chan.cache other).block := by
  rw [evict]
  split
  · by_cases same : other = slot
    · subst same
      rw [setEntry_same]
      exact ⟨rfl, rfl⟩
    · rw [setEntry_other same]
      exact ⟨rfl, rfl⟩
  · exact ⟨rfl, rfl⟩

/-- Making room in one slot leaves the others. -/
theorem evict_other (chan : Channel) (different : other ≠ slot) :
    (chan.evict slot).cache other = chan.cache other := by
  rw [evict]
  split
  · exact setEntry_other different
  · rfl

/-- Making room brings no block into the cache. -/
theorem Uncached.evict (uncached : chan.Uncached block) (slot : Slot) :
    (chan.evict slot).Uncached block := by
  intro other
  rw [(evict_entry chan slot other).1, (evict_entry chan slot other).2]
  exact uncached other

/-- Making room does not change the blocks that are not cached. -/
theorem evict_dev (uncached : chan.Uncached block) (slot : Slot) :
    EqOn (chan.evict slot).dev chan.dev (chan.area block) := by
  rw [evict]
  split
  · rename_i dirty
    have inUse : (chan.cache slot).inUse = true := ((Bool.and_eq_true _ _).mp dirty).2
    refine (write_off chan.dev _ _ (Bytes.length_read _ _ _)).mono ?_
    exact subset_compl_iff_disjoint_left.mpr (chan.area_disjoint (uncached slot inUse))
  · exact fun _ _ => rfl

/-- Reusing a slot and copying into it is making room and setting one clean entry. -/
theorem reuse_copy (chan : Channel) (slot : Slot) (block : Nat) (data : List UInt8) :
    (chan.reuseCache slot block).copyIn slot data =
      { (chan.evict slot).setEntry slot
        (chan.newEntry slot block data false) with accessTime := chan.accessTime + 1 } := by
  simp only [reuseCache, evict]
  split
  · simp [touch, copyIn, setEntry, newEntry, rawWriteBlk]
  · simp [touch, copyIn, setEntry, newEntry]

/-- What a new entry holds. -/
theorem newEntry_holds (chan : Channel) (slot : Slot) (block : Nat) (buf : Bytes) (cp : Nat)
    (dirty : Bool) :
    EqOn (chan.line (chan.newEntry slot block (Bytes.read buf cp chan.blockSize) dirty)).holds
      (fun position => buf (cp + (position - chan.location block))) (chan.area block) := by
  intro position inside
  show Bytes.write _ 0 _ _ = _
  rw [Bytes.write_read_inside _ _ (by omega)]
  · rfl
  · have low := inside.1
    have high := inside.2
    show position - chan.location block < 0 + chan.blockSize
    omega

/-- A new entry covers its block's area. -/
theorem newEntry_covers (chan : Channel) (slot : Slot) (block : Nat) (data : List UInt8)
    (dirty : Bool) :
    (chan.line (chan.newEntry slot block data dirty)).covers = chan.area block := by
  ext position
  exact and_iff_right rfl

/-- An entry for an uncached block, put where room was made, keeps the cache sound. -/
theorem Sound.newEntry (sound : chan.Sound) (uncached : chan.Uncached block) (slot : Slot)
    (data : List UInt8)
    (dirty : Bool) :
    ((chan.evict slot).setEntry slot (chan.newEntry slot block data dirty)).Sound := by
  refine (idles_evict sound slot).sound.setEntry fun _ other _ otherInUse => ?_
  exact uncached.evict slot other otherInUse

/-- A block read from the device and saved in the cache. -/
theorem idles_save (sound : chan.Sound) (uncached : chan.Uncached block) (slot : Slot) :
    Idles chan
      ((chan.reuseCache slot block).copyIn slot
      (Bytes.read chan.dev (chan.location block) chan.blockSize)) := by
  have evicts := idles_evict sound slot
  refine evicts.trans ?_
  rw [reuse_copy]
  refine ⟨rfl, ?_, ?_⟩
  · have still := sound.newEntry uncached slot
      (Bytes.read chan.dev (chan.location block) chan.blockSize) false
    exact ⟨still.distinct, still.buffered⟩
  · show WriteBack.Quiet _ ((chan.evict slot).setEntry slot _).state
    rw [state_setEntry, line_congr evicts.shape]
    have away : ∀ other, Disjoint ((chan.evict slot).state.lines other).covers
      (chan.area block) := by
      intro other
      rw [← area_congr evicts.shape]
      exact cover_of_uncached (uncached.evict slot) other
    refine WriteBack.quiet_fill (evict_clean chan slot)
      (fun other _ => ?_) ?_ ?_ (by simp [line, Channel.newEntry])
    · rw [newEntry_covers]
      exact away other
    · rw [newEntry_covers]
      exact away slot
    · rw [newEntry_covers]
      intro position inside
      rw [newEntry_holds chan slot block chan.dev _ false inside]
      have low := inside.1
      show chan.dev _ = (chan.evict slot).dev position
      rw [evict_dev uncached slot inside]
      congr 1
      omega

/-- Saving one block brings no other one into the cache. -/
theorem save_uncached {blockToo : Nat} (uncached : chan.Uncached blockToo)
    (different : blockToo ≠ block) (slot : Slot)
    (data : List UInt8) : ((chan.reuseCache slot block).copyIn slot data).Uncached blockToo := by
  rw [reuse_copy]
  intro other
  show (((chan.evict slot).setEntry slot _).cache other).inUse = true → _
  by_cases same : other = slot
  · subst same
    show _ → (((chan.evict other).setEntry other _).cache other).block ≠ blockToo
    rw [setEntry_same]
    exact fun _ => different.symm
  · show _ → (((chan.evict slot).setEntry slot _).cache other).block ≠ blockToo
    rw [setEntry_other same]
    exact uncached.evict slot other

/-- Saving one block leaves the device's bytes of an uncached one. -/
theorem save_dev {blockToo : Nat} (uncached : chan.Uncached blockToo) (slot : Slot) (block : Nat)
    (data : List UInt8) :
    EqOn ((chan.reuseCache slot block).copyIn slot data).dev chan.dev (chan.area blockToo) := by
  rw [reuse_copy]
  exact evict_dev uncached slot

end Reuse

section Reads

variable {answer answerToo : List UInt8} {start size sizeToo count : Nat}

/-- An answer of so many bytes that are, from `start` on, what the channel stands for. -/
structure Answered (chan : Channel) (start size : Nat) (answer : List UInt8) : Prop where
  length : answer.length = size
  bytes : ∀ {stale : Set Nat} {plain : Bytes}, chan.state.Coherent stale plain →
    ∀ index, index < size → start + index ∉ stale → answer[index]? = some (plain (start + index))

/-- What is answered after an idle step was true before it. -/
theorem Answered.earlier (idles : Idles before after)
    (answered : after.Answered start size answer) :
    before.Answered start size answer where
  length := answered.length
  bytes coherent index inside known := by
    have still := idles.serves.coherent coherent
    rw [sdiff_empty] at still
    exact answered.bytes still index inside known

/-- Answers about two neighbouring ranges are one answer about both. -/
theorem Answered.append (first : chan.Answered start size answer)
    (second : chan.Answered (start + size) sizeToo answerToo) :
    chan.Answered start (size + sizeToo) (answer ++ answerToo) where
  length := by rw [List.length_append, first.length, second.length]
  bytes {_ plain} coherent index inside known := by
    by_cases low : index < size
    · rw [List.getElem?_append_left (by rw [first.length]; exact low)]
      exact first.bytes coherent index low known
    · rw [List.getElem?_append_right (by rw [first.length]; omega), first.length]
      have place : start + size + (index - size) = start + index := by omega
      have further := second.bytes coherent (index - size) (by omega) (by rwa [place])
      rwa [place] at further

/-- The empty range is answered by no bytes. -/
theorem Answered.nil (chan : Channel) (start : Nat) : chan.Answered start 0 [] :=
  ⟨rfl, fun _ index inside => absurd inside (Nat.not_lt_zero index)⟩

/-- The bytes of consecutive blocks. -/
theorem mem_blocks {position : Nat} (low : chan.location block ≤ position)
    (high : position < chan.location block + count * chan.blockSize) :
    ∃ more, more < count ∧ position ∈ chan.area (block + more) := by
  induction count with
  | zero => omega
  | succ count inductionHypothesis =>
      by_cases before : position < chan.location block + count * chan.blockSize
      · obtain ⟨more, bound, inside⟩ := inductionHypothesis before
        exact ⟨more, by omega, inside⟩
      · rw [Nat.succ_mul] at high
        refine ⟨count, by omega, ?_, ?_⟩
        · rw [location_succ]
          omega
        · rw [location_succ]
          omega

/-- Blocks that are not cached, read from the device. -/
theorem answered_device (uncached : ∀ more, more < count → chan.Uncached (block + more)) :
    chan.Answered (chan.location block) (count * chan.blockSize)
      (Bytes.read chan.dev (chan.location block) (count * chan.blockSize)) where
  length := Bytes.length_read _ _ _
  bytes coherent index inside known := by
    rw [List.getElem?_eq_getElem (by rw [Bytes.length_read]; exact inside), Bytes.getElem_read]
    obtain ⟨more, bound, covered⟩ : ∃ more, more < count ∧
      chan.location block + index ∈ chan.area (block + more) :=
      mem_blocks (by omega) (by omega)
    refine congrArg some (coherent.miss (fun slot => ?_) known)
    exact disjoint_right.mp (cover_of_uncached (uncached more bound) slot) covered

/-- A block read from its entry. -/
theorem answered_entry (inUse : (chan.cache slot).inUse = true) :
    chan.Answered (chan.location (chan.cache slot).block) chan.blockSize
      (Bytes.read (chan.cache slot).buf 0 chan.blockSize) where
  length := Bytes.length_read _ _ _
  bytes coherent index inside known := by
    rw [List.getElem?_eq_getElem (by rw [Bytes.length_read]; exact inside), Bytes.getElem_read]
    have covered : chan.location (chan.cache slot).block + index ∈ (chan.state.lines slot).covers :=
      ⟨inUse, by omega, by omega⟩
    have held := coherent.hit covered known
    rw [← held]
    show _ = some ((chan.cache slot).buf _)
    rw [Nat.zero_add, Nat.add_sub_cancel_left]

/-- Saving what was just read from the device into reusable slots shows in no byte. -/
theorem idles_saveBlocks (reuse : List Slot) (sound : chan.Sound)
    (uncached : ∀ more, more < reuse.length → chan.Uncached (block + more)) :
    Idles chan (chan.saveBlocks block reuse
      (Bytes.read chan.dev (chan.location block) (reuse.length * chan.blockSize))) := by
  induction reuse generalizing chan block with
  | nil => exact .refl sound
  | cons slot rest inductionHypothesis =>
      have first := idles_save sound (uncached 0 (by simp)) slot
      rw [Nat.add_zero] at first
      have later : ∀ more, more < rest.length →
          ((chan.reuseCache slot block).copyIn slot
            (Bytes.read chan.dev (chan.location block) chan.blockSize)).Uncached
            (block + 1 + more) := by
        intro more bound
        refine save_uncached ?_ (by omega) slot _
        rw [show block + 1 + more = block + (more + 1) by omega]
        exact uncached (more + 1) (by simp; omega)
      have pieces : Bytes.read chan.dev (chan.location block)
        ((slot :: rest).length * chan.blockSize) =
          Bytes.read chan.dev (chan.location block) chan.blockSize ++
            Bytes.read chan.dev (chan.location (block + 1)) (rest.length * chan.blockSize) := by
        rw [location_succ, Nat.one_mul, ← Bytes.read_add, List.length_cons,
          Nat.succ_mul, Nat.add_comm]
      have second := inductionHypothesis first.sound later
      refine first.trans ?_
      rw [saveBlocks, pieces, List.take_left' (Bytes.length_read _ _ _),
        List.drop_left' (Bytes.length_read _ _ _)]
      rw [blockSize_congr first.shape, location_congr first.shape] at second
      have same : Bytes.read
          ((chan.reuseCache slot block).copyIn slot
            (Bytes.read chan.dev (chan.location block) chan.blockSize)).dev
          (chan.location (block + 1)) (rest.length * chan.blockSize) =
          Bytes.read chan.dev (chan.location (block + 1)) (rest.length * chan.blockSize) := by
        refine Bytes.read_congr fun position low high => ?_
        obtain ⟨more, bound, inside⟩ : ∃ more, more < rest.length ∧
          position ∈ chan.area (block + 1 + more) :=
          mem_blocks low high
        refine save_dev ?_ slot block _ inside
        rw [show block + 1 + more = block + (more + 1) by omega]
        exact uncached (more + 1) (by simp; omega)
      rw [same] at second
      exact second

/-- Touching an entry brings no block into the cache. -/
theorem Uncached.touch (uncached : chan.Uncached block) (slot : Slot) :
    (chan.touch slot).Uncached block := by
  intro one
  rw [touch_cache]
  by_cases here : one = slot
  · subst here
    rw [Function.update_self]
    exact uncached one
  · rw [Function.update_of_ne here]
    exact uncached one

/-- What the search for further blocks to read comes back with. -/
theorem uncachedRun_spec (more : Nat) (chan : Channel) (block : Nat) :
    ((uncachedRun more chan block).2 = chan ∨ ∃ slot,
      (uncachedRun more chan block).2 = chan.touch slot) ∧
      (uncachedRun more chan block).1.length ≤ more ∧
      ∀ further, further < (uncachedRun more chan block).1.length → chan.Uncached
        (block + further) := by
  induction more generalizing block with
  | zero => exact ⟨.inl rfl, le_refl _, fun further bound => absurd bound (Nat.not_lt_zero further)⟩
  | succ more inductionHypothesis =>
      rw [uncachedRun]
      rcases findCachedBlock_cases chan block with ⟨slot, found, -, -⟩ | ⟨slot, found, uncached, -⟩
      · rw [found]
        exact ⟨.inr ⟨slot, rfl⟩, Nat.zero_le _,
          fun further bound => absurd bound (Nat.not_lt_zero further)⟩
      · rw [found]
        obtain ⟨same, short, rest⟩ := inductionHypothesis (block + 1)
        refine ⟨same, Nat.succ_le_succ short, fun further bound => ?_⟩
        cases further with
        | zero => exact uncached
        | succ further =>
            rw [show block + (further + 1) = block + 1 + further by omega]
            exact rest further (Nat.lt_of_succ_lt_succ bound)

/-- The loop of unix_read_blk idles and answers with the channel's bytes, cached or not. -/
theorem readLoop_acts (turns : Nat) : ∀ (chan : Channel) (block count : Nat),
    chan.Sound → count ≤ turns →
    Idles chan (readLoop turns chan block count).2 ∧
      chan.Answered (chan.location block) (count * chan.blockSize)
        (readLoop turns chan block count).1 := by
  induction turns with
  | zero =>
      intro chan block count sound enough
      obtain rfl : count = 0 := by omega
      rw [Nat.zero_mul]
      exact ⟨.refl sound, .nil _ _⟩
  | succ turns inductionHypothesis =>
      intro chan block count sound enough
      rw [readLoop]
      by_cases none : count = 0
      · subst none
        rw [if_pos rfl, Nat.zero_mul]
        exact ⟨.refl sound, .nil _ _⟩
      · rw [if_neg none]
        rcases findCachedBlock_cases chan
          block with ⟨slot, found, inUse, here⟩ | ⟨slot, found, uncached, -⟩
        · -- the block is cached
          rw [found]
          have touched := idles_touch sound slot
          obtain ⟨idles, answered⟩ :=
            inductionHypothesis (chan.touch slot) (block + 1) (count - 1) touched.sound
            (show count - 1 ≤ turns by omega)
          refine ⟨touched.trans idles, ?_⟩
          have entry := answered_entry inUse
          rw [here] at entry
          have rest := answered.earlier touched
          rw [location_congr touched.shape, blockSize_congr touched.shape, location_succ,
            Nat.one_mul] at rest
          have both := entry.append rest
          have sizes : chan.blockSize + (count - 1) * chan.blockSize = count * chan.blockSize := by
            obtain ⟨less, rfl⟩ := Nat.exists_eq_succ_of_ne_zero none
            rw [Nat.succ_sub_one, Nat.succ_mul, Nat.add_comm]
          have buffer : ((chan.touch slot).cache slot).buf = (chan.cache slot).buf := by
            rw [touch_cache, Function.update_self]
          rw [sizes] at both
          show chan.Answered _ _ (Bytes.read ((chan.touch slot).cache slot).buf 0
            chan.blockSize ++ _)
          rw [buffer]
          exact both
        · -- the block is read from the device, and those behind it that are not cached either
          rw [found]
          dsimp only
          obtain ⟨same, short, further⟩ := uncachedRun_spec (count - 1) chan (block + 1)
          rcases run : uncachedRun (count - 1) chan (block + 1) with ⟨reuse, looked⟩
          rw [run] at same short further
          dsimp only at same short further ⊢
          have looks : Idles chan looked := by
            rcases same with rfl | ⟨hit, rfl⟩
            · exact .refl sound
            · exact idles_touch sound hit
          have absent : ∀ more, more < (slot :: reuse).length → looked.Uncached (block + more) := by
            intro more bound
            have before : chan.Uncached (block + more) := by
              cases more with
              | zero => exact uncached
              | succ more =>
                  rw [show block + (more + 1) = block + 1 + more by omega]
                  exact further more (Nat.lt_of_succ_lt_succ bound)
            rcases same with rfl | ⟨hit, rfl⟩
            · exact before
            · exact before.touch hit
          have saved := idles_saveBlocks (slot :: reuse) looks.sound absent
          have answeredFirst := (answered_device absent).earlier looks
          have data : looked.rawReadBlk block ((reuse.length : Int) + 1) =
              Bytes.read looked.dev (looked.location block)
                ((slot :: reuse).length * looked.blockSize) := by
            rw [rawReadBlk, transferSize, if_neg (by omega)]
            rfl
          rw [← data] at saved answeredFirst
          obtain ⟨idles, answered⟩ :=
            inductionHypothesis _ (block + (reuse.length + 1))
            (count - (reuse.length + 1)) saved.sound
            (show count - (reuse.length + 1) ≤ turns by omega)
          refine ⟨(looks.trans saved).trans idles, ?_⟩
          have rest := answered.earlier (looks.trans saved)
          rw [location_congr (looks.trans saved).shape, blockSize_congr (looks.trans saved).shape,
            location_succ] at rest
          rw [location_congr looks.shape, blockSize_congr looks.shape] at answeredFirst
          have both := answeredFirst.append rest
          have sizes : (slot :: reuse).length * chan.blockSize +
            (count - (reuse.length + 1)) * chan.blockSize =
              count * chan.blockSize := by
            rw [← Nat.add_mul, List.length_cons, Nat.add_sub_cancel' (by omega)]
          rw [sizes] at both
          exact both

/-- `unix_read_blk` answers with what the channel stands for, and writes nothing. -/
theorem unixReadBlk_acts (sound : chan.Sound) (block : Nat) (count : Int) :
    Idles chan (chan.unixReadBlk block count).2 ∧
      chan.Answered (chan.location block) (chan.transferSize count)
        (chan.unixReadBlk block count).1 := by
  rw [unixReadBlk]
  split
  · -- the device is read past the cache
    have flushes := idles_flushCachedBlocks sound false
    refine ⟨flushes, ?_⟩
    have size := transferSize_congr flushes.shape count
    refine Answered.earlier flushes ⟨?_, fun coherent index inside known => ?_⟩
    · show (Bytes.read _ _ _).length = _
      rw [Bytes.length_read, size]
    · show (Bytes.read _ _ _)[index]? = _
      rw [List.getElem?_eq_getElem (by rw [Bytes.length_read, size]; exact inside),
        Bytes.getElem_read, location_congr flushes.shape]
      refine congrArg some (coherent.behind _ known fun slot dirty => ?_)
      have both := (Bool.and_eq_true _ _).mp dirty
      rw [(flushCachedBlocks_flushed sound false slot both.2).1] at both
      cases both.1
  · rename_i small
    have size : chan.transferSize count = count.toNat * chan.blockSize := by
      rw [transferSize, if_neg (by omega)]
    rw [size]
    exact readLoop_acts count.toNat chan block count.toNat sound (le_refl _)

end Reads

section Writes

variable {buf : Bytes} {cp count size start : Nat} {data : List UInt8}

/-- What a write of so many bytes from `buf + cp` does to plain memory. -/
abbrev writing (start cp size : Nat) (buf : Bytes) : Bytes → Bytes := fun plain =>
  Bytes.write plain start (Bytes.read buf cp size)

/-- A block put in an entry that no other entry holds. -/
theorem acts_newEntry (evicted : Idles chan middle) (slot : Slot)
    (contained : (middle.state.lines slot).dirty →
      (middle.state.lines slot).covers ⊆ chan.area block)
    (alone : ∀ other, other ≠ slot → (middle.cache other).inUse = true →
      (middle.cache other).block ≠ block) :
    Acts chan
      (middle.setEntry slot (chan.newEntry slot block (Bytes.read buf cp chan.blockSize) true))
      (chan.area block) (writing (chan.location block) cp chan.blockSize buf) := by
  refine evicted.acts ⟨rfl, evicted.sound.setEntry fun _ => alone, ?_⟩
  rw [state_setEntry, line_congr evicted.shape]
  have covers := newEntry_covers chan slot block (Bytes.read buf cp chan.blockSize) true
  have serves := @WriteBack.serves_set _ _ _ middle.state slot _
    (chan.line (chan.newEntry slot block (Bytes.read buf cp chan.blockSize) true))
    (writing (chan.location block) cp chan.blockSize buf)
  rw [covers] at serves
  refine serves contained (fun other different => ?_) (fun plain => ?_) (fun plain => ?_)
    (fun clean => ?_)
  · rw [Set.disjoint_left]
    rintro position ⟨inUse, covered⟩
    rw [area_congr evicted.shape] at covered
    exact Set.disjoint_left.mp (chan.area_disjoint (alone other different inUse)) covered
  · exact write_off plain _ _ (Bytes.length_read _ _ _)
  · exact (newEntry_holds chan slot block buf cp true).trans
      (write_on plain buf _ cp chan.blockSize).symm
  · exact absurd rfl clean

/-- One turn of the loop of `unix_write_blk`. -/
theorem acts_writeLoop_one (sound : chan.Sound) (buf : Bytes) (block cp : Nat) :
    ∃ next,
      (∀ count, writeLoop buf (count + 1) chan block cp = writeLoop buf count next (block + 1)
      (cp + chan.blockSize)) ∧
      Acts chan next (chan.area block) (writing (chan.location block) cp chan.blockSize buf) ∧
      ∃ slot, Accesses chan next block slot := by
  rcases findCachedBlock_cases chan
    block with ⟨slot, found, inUse, here⟩ | ⟨slot, found, uncached, eldest⟩
  · -- the entry of the block is overwritten
    have touched := idles_touch sound slot
    have acts : Acts chan ((chan.touch slot).setEntry slot
        (chan.newEntry slot block (Bytes.read buf cp chan.blockSize) true)) (chan.area block)
        (writing (chan.location block) cp chan.blockSize buf) := by
      refine acts_newEntry touched slot ?_ fun other different otherInUse same => different ?_
      · rintro - position ⟨-, covered⟩
        rw [touch_cache, Function.update_self] at covered
        rw [← here]
        exact covered
      · rw [touch_cache, Function.update_of_ne different] at otherInUse same
        exact sound.distinct other slot otherInUse inUse (same.trans here.symm)
    refine ⟨_, fun count => ?_, acts, slot, .inl ⟨inUse, here⟩,
      by rw [setEntry_same]; rfl, by rw [setEntry_same]; rfl,
      by rw [setEntry_same]; rfl, fun other different => ?_, rfl⟩
    swap
    · rw [setEntry_other different, touch_cache, Function.update_of_ne different]
    rw [writeLoop, found]
    have entry :
      { (((chan.touch slot).copyIn slot (Bytes.read buf cp chan.blockSize)).cache slot) with
        dirty :=
          !((chan.touch slot).copyIn slot (Bytes.read buf cp chan.blockSize)).writethrough } =
        chan.newEntry slot block (Bytes.read buf cp chan.blockSize) true := by
      rw [copyIn, setEntry_same, touch_cache, Function.update_self]
      show UnixCache.mk _ _ _ (!chan.writethrough) _ = _
      rw [sound.buffered, here, inUse]
      rfl
    dsimp only
    rw [show (chan.touch slot).blockSize = chan.blockSize from rfl, entry, copyIn,
      setEntry_setEntry]
    rfl
  · -- an entry is reused
    have evicts := idles_evict sound slot
    have acts : Acts chan ((chan.evict slot).setEntry slot
        (chan.newEntry slot block (Bytes.read buf cp chan.blockSize) true)) (chan.area block)
        (writing (chan.location block) cp chan.blockSize buf) := by
      refine acts_newEntry evicts slot (fun dirty => absurd dirty (evict_clean chan slot))
        fun other _ => ?_
      exact uncached.evict slot other
    refine ⟨{ (chan.evict slot).setEntry slot
      (chan.newEntry slot block (Bytes.read buf cp chan.blockSize) true) with
      accessTime := chan.accessTime + 1 },
        fun count => ?_, ⟨acts.shape, ⟨acts.sound.distinct, acts.sound.buffered⟩, acts.serves⟩,
      slot, .inr ⟨uncached, eldest⟩, congrArg UnixCache.inUse setEntry_same,
        congrArg UnixCache.block setEntry_same,
      congrArg UnixCache.accessTime setEntry_same, fun other different => ?_, rfl⟩
    swap
    · exact (setEntry_other different).trans (evict_other chan different)
    rw [writeLoop, found]
    dsimp only
    have shape : (chan.reuseCache slot block).shape = chan.shape := by
      rw [reuseCache]
      split <;> rfl
    have through : (chan.evict slot).writethrough = false := evicts.sound.buffered
    have size : (chan.evict slot).blockSize = chan.blockSize := blockSize_congr evicts.shape
    rw [blockSize_congr shape, reuse_copy]
    simp only [setEntry, through, Function.update_self, Function.update_idem, Channel.newEntry,
      Bool.not_false, size]

/-- Two writes, one behind the other, are one. -/
theorem Acts.join {sizeToo : Nat}
    (first : Acts before middle (Ico start (start + size)) (writing start cp size buf))
    (second : Acts middle after (Ico (start + size) (start + size + sizeToo))
      (writing (start + size) (cp + size) sizeToo buf)) :
    Acts before after (Ico start (start + (size + sizeToo)))
      (writing start cp (size + sizeToo) buf) := by
  have once : ∀ plain position, writing start cp size buf plain position = plain position ∨
      writing (start + size) (cp + size) sizeToo buf (writing start cp size buf plain) position =
        writing start cp size buf plain position := by
    intro plain position
    by_cases inside : position ∈ Ico start (start + size)
    · refine .inr (write_off _ _ _ (Bytes.length_read _ _ _) fun insideToo => ?_)
      exact absurd inside.2 (Nat.not_lt.mpr insideToo.1)
    · exact .inl (write_off plain _ _ (Bytes.length_read _ _ _) inside)
  have both := first.trans second once
  rw [Ico_union_Ico_eq_Ico (by omega) (by omega), Nat.add_assoc] at both
  have effect : writing (start + size) (cp + size) sizeToo buf ∘ writing start cp size buf =
      writing start cp (size + sizeToo) buf := by
    funext plain
    show Bytes.write (Bytes.write plain start _) (start + size) _ = _
    have joined := Bytes.write_append plain start (Bytes.read buf cp size)
      (Bytes.read buf (cp + size) sizeToo)
    rw [Bytes.length_read, ← Bytes.read_add] at joined
    exact joined
  rwa [effect] at both

/-- Writing no bytes is no act. -/
theorem Acts.nothing (sound : chan.Sound) (start cp : Nat) (buf : Bytes) :
    Acts chan chan (Ico start (start + 0)) (writing start cp 0 buf) := by
  have same : writing start cp 0 buf = id := by
    funext plain
    exact Bytes.write_nil plain start
  rw [same, Nat.add_zero, Ico_self]
  exact Idles.refl sound

/-- The loop of unix_write_blk writes the caller's blocks one after the other. -/
theorem acts_writeLoop (buf : Bytes) (count : Nat) :
    ∀ (chan : Channel) (block cp : Nat), chan.Sound →
    Acts chan (writeLoop buf count chan block cp)
      (Ico (chan.location block) (chan.location block + count * chan.blockSize))
      (writing (chan.location block) cp (count * chan.blockSize) buf) := by
  induction count with
  | zero =>
      intro chan block cp sound
      rw [Nat.zero_mul]
      exact .nothing sound _ cp buf
  | succ count inductionHypothesis =>
      intro chan block cp sound
      obtain ⟨next, unfolded, first, -⟩ := acts_writeLoop_one sound buf block cp
      have rest := inductionHypothesis next (block + 1) (cp + chan.blockSize) first.sound
      rw [location_congr first.shape, blockSize_congr first.shape, location_succ,
        Nat.one_mul] at rest
      rw [unfolded, Nat.succ_mul, Nat.add_comm (count * chan.blockSize)]
      exact first.join rest

/-- A write to the device with every entry out of use. -/
theorem acts_direct (sound : chan.Sound) (unused : ∀ slot, (chan.cache slot).inUse = false)
    (start size : Nat) (buf : Bytes) :
    Acts chan { chan with dev := Bytes.write chan.dev start (Bytes.read buf 0 size) }
      (Ico start (start + size))
      (writing start 0 size buf) := by
  refine ⟨rfl, ⟨sound.distinct, sound.buffered⟩, ?_⟩
  refine @WriteBack.serves_direct _ _ _ chan.state _ (fun slot => ?_) _ _
    (write_off chan.dev start _ (Bytes.length_read buf 0 size)) (fun plain => ?_) fun plain => ?_
  · rw [Set.disjoint_left]
    rintro position ⟨inUse, -⟩
    rw [unused slot] at inUse
    cases inUse
  · exact write_off plain start _ (Bytes.length_read buf 0 size)
  · exact (write_on chan.dev buf start 0 size).trans (write_on plain buf start 0 size).symm

/-- After an invalidating flush no slot is in use. -/
theorem flushCachedBlocks_unused (sound : chan.Sound) (slot : Slot) :
    ((chan.flushCachedBlocks true).cache slot).inUse = false := by
  by_contra inUse
  rw [Bool.not_eq_false] at inUse
  cases (flushCachedBlocks_flushed sound true slot inUse).2

/-- `unix_write_blk` writes the blocks it names. -/
theorem acts_unixWriteBlk (sound : chan.Sound) (block : Nat) (count : Int) (buf : Bytes) :
    Acts chan (chan.unixWriteBlk block count buf)
      (Ico (chan.location block) (chan.location block + chan.transferSize count))
      (writing (chan.location block) 0 (chan.transferSize count) buf) := by
  rw [unixWriteBlk]
  split
  · rename_i large
    have flushes := idles_flushCachedBlocks sound true
    have direct := acts_direct flushes.sound (flushCachedBlocks_unused sound) (chan.location block)
      (chan.transferSize count) buf
    have same : (chan.flushCachedBlocks true).rawWriteBlk block count buf =
        { chan.flushCachedBlocks true with
          dev := Bytes.write (chan.flushCachedBlocks true).dev (chan.location block)
            (Bytes.read buf 0 (chan.transferSize count)) } := by
      have notOne : count ≠ 1 := by
        rintro rfl
        rcases large with negative | many
        · omega
        · exact absurd many (by decide)
      rw [rawWriteBlk, if_neg notOne, location_congr flushes.shape,
        transferSize_congr flushes.shape]
    rw [same]
    exact flushes.acts direct
  · rename_i small
    have size : chan.transferSize count = count.toNat * chan.blockSize := by
      rw [transferSize, if_neg (by omega)]
    rw [sound.buffered, size]
    exact acts_writeLoop buf count.toNat chan block 0 sound

/-- `unix_write_byte` writes the bytes it names. -/
theorem acts_unixWriteByte (sound : chan.Sound) (offset size : Nat) (buf : Bytes) :
    Acts chan (chan.unixWriteByte offset size buf)
      (Ico (offset + chan.offset) (offset + chan.offset + size))
      (writing (offset + chan.offset) 0 size buf) := by
  have flushes := idles_flushCachedBlocks sound true
  have same : (chan.flushCachedBlocks true).offset = chan.offset :=
    congrArg (fun shape => shape.2.1) flushes.shape
  have acts : Acts chan (chan.unixWriteByte offset size buf) _ _ :=
    flushes.acts (acts_direct flushes.sound (flushCachedBlocks_unused sound)
      (offset + (chan.flushCachedBlocks true).offset) size buf)
  rwa [same] at acts

/-- unix_flush shows in no byte. -/
theorem idles_unixFlush (sound : chan.Sound) :
    Idles chan chan.unixFlush := idles_flushCachedBlocks sound false

/-- After a flush no line is left to be written back. -/
theorem unixFlush_clean (sound : chan.Sound) (slot : Slot) :
    ¬ (chan.unixFlush.state.lines slot).dirty := by
  intro dirty
  have both := (Bool.and_eq_true _ _).mp dirty
  have clean := (flushCachedBlocks_flushed sound false slot both.2).1
  exact absurd both.1 (by rw [unixFlush, clean]; simp)

/-- `unix_set_blksize` changes the size of the blocks and nothing the channel stands for. -/
theorem quiet_unixSetBlksize (sound : chan.Sound) (blksize : Nat) (heap : Slot → Block) :
    (chan.unixSetBlksize blksize heap).Sound ∧
      WriteBack.Quiet chan.state (chan.unixSetBlksize blksize heap).state := by
  rw [unixSetBlksize]
  split
  · exact ⟨sound, WriteBack.Quiet.refl _⟩
  · have flushes := idles_unixFlush sound
    refine ⟨⟨fun slot other inUse => absurd inUse (by simp [allocCache]),
      flushes.sound.buffered⟩, ?_⟩
    refine WriteBack.Quiet.trans flushes.serves ?_
    refine WriteBack.quiet_forget (unixFlush_clean sound) fun slot => ?_
    ext position
    exact ⟨fun covered => absurd covered.1 Bool.false_ne_true,
      fun nothing => absurd nothing (Set.notMem_empty _)⟩

/-- A channel just opened is sound. -/
theorem sound_unixOpen (dev : Bytes) (offset : Nat) (heap : Slot → Block) :
    (unixOpen dev offset heap).Sound :=
  ⟨fun _ _ inUse => absurd inUse (by simp [unixOpen, allocCache]), rfl⟩

/-- A channel that was just opened stands for the device. -/
theorem coherent_unixOpen (dev : Bytes) (offset : Nat) (heap : Slot → Block) :
    (unixOpen dev offset heap).state.Coherent ∅ dev where
  apart slot other _ := by
    rw [Set.disjoint_left]
    rintro position ⟨inUse, -⟩
    cases inUse
  held slot := by
    rintro position ⟨⟨inUse, -⟩, -⟩
    cases inUse
  behind _ _ _ := rfl

/-- Wiping a block leaves what the channel stands for as it is, the block apart. -/
theorem coherent_wipeBlock {stale : Set Nat} {plain : Bytes}
    (coherent : chan.state.Coherent stale plain) (block : Nat)
    (buffer : Bytes) : (chan.wipeBlock block buffer).state.Coherent
    (stale ∪ chan.area block) plain :=
  WriteBack.Coherent.beneath coherent (write_off _ _ _ (Bytes.length_read _ _ _))

end Writes

end Channel

end Ext2Fuse
