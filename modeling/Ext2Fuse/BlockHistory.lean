import Mathlib.Data.List.Induction
import Ext2Fuse.Volume

/-!
# What has been done to the blocks

The history of a volume has every write, wipe, allocation and release of a block in order. A block
is vacant when it was released and has not been allocated since. A volume is tidy when every vacant
block was wiped right after its release and has been left alone since: nothing but the blocks in use
has been written to.
-/

namespace Ext2Fuse

/-- The block an event is about. -/
def BlockEvent.blk : BlockEvent → Nat
  | write blk _ => blk
  | wipe blk => blk
  | alloc blk => blk
  | release blk => blk

/-- The block was released, and has not been allocated since. -/
def Vacant (history : List BlockEvent) (blk : Nat) : Prop :=
  ∃ before after, history = before ++ .release blk :: after ∧ .alloc blk ∉ after

/-- The block was wiped when it was released last, and nothing has been done to it since. -/
def LeftWiped (history : List BlockEvent) (blk : Nat) : Prop :=
  ∃ before after, history = before ++ .release blk :: .wipe blk :: after ∧
    ∀ event ∈ after, event.blk ≠ blk

section History

variable {history : List BlockEvent} {event : BlockEvent} {blk : Nat}

/-- With no history no block is vacant. -/
theorem not_vacant_nil (blk : Nat) : ¬ Vacant [] blk := by
  rintro ⟨before, after, none, -⟩
  exact List.append_ne_nil_of_right_ne_nil before (List.cons_ne_nil _ after) none.symm

/-- One event more. -/
theorem vacant_snoc_iff : Vacant (history ++ [event]) blk ↔
    event = .release blk ∨ (Vacant history blk ∧ event ≠ .alloc blk) := by
  constructor
  · rintro ⟨before, after, split, notAgain⟩
    rcases List.eq_nil_or_concat after with rfl | ⟨between, last, rfl⟩
    · obtain ⟨-, same⟩ := List.append_inj' split rfl
      exact .inl (List.cons.inj same).1
    · rw [List.concat_eq_append, ← List.cons_append, ← List.append_assoc] at split
      obtain ⟨same, lastOnes⟩ := List.append_inj' split rfl
      obtain rfl := (List.cons.inj lastOnes).1
      rw [List.concat_eq_append, List.mem_append, not_or, List.mem_singleton] at notAgain
      exact .inr ⟨⟨before, between, same, notAgain.1⟩, Ne.symm notAgain.2⟩
  · rintro (rfl | ⟨⟨before, after, rfl, notAgain⟩, other⟩)
    · exact ⟨history, [], rfl, List.not_mem_nil⟩
    · refine ⟨before, after ++ [event], by simp, ?_⟩
      rw [List.mem_append, not_or, List.mem_singleton]
      exact ⟨notAgain, Ne.symm other⟩

/-- Whether the block is vacant after one event more. -/
def BlockEvent.vacates (blk : Nat) (vacant : Bool) : BlockEvent → Bool
  | release other => vacant || other == blk
  | alloc other => vacant && other != blk
  | write _ _ | wipe _ => vacant

/-- A block is vacant when folding the history over its flag ends with it set. -/
theorem vacant_iff (history : List BlockEvent) (blk : Nat) :
    Vacant history blk ↔ history.foldl (BlockEvent.vacates blk) false = true := by
  induction history using List.reverseRecOn with
  | nil => simp [not_vacant_nil]
  | append_singleton history event inductionHypothesis =>
      rw [vacant_snoc_iff, inductionHypothesis, List.foldl_append, List.foldl_cons, List.foldl_nil]
      cases event <;> simp [BlockEvent.vacates, or_comm]

instance (history : List BlockEvent) (blk : Nat) : Decidable (Vacant history blk) :=
  decidable_of_iff _ (vacant_iff history blk).symm

/-- One event more: the wipe itself, or one of another block. -/
theorem leftWiped_snoc_iff : LeftWiped (history ++ [event]) blk ↔
    (event = .wipe blk ∧ ∃ before, history = before ++ [.release blk]) ∨
    (LeftWiped history blk ∧ event.blk ≠ blk) := by
  constructor
  · rintro ⟨before, after, split, alone⟩
    rcases List.eq_nil_or_concat after with rfl | ⟨between, last, rfl⟩
    · have regrouped : history ++ [event] = (before ++ [.release blk]) ++ [.wipe blk] := by
        simpa using split
      obtain ⟨released, wiped⟩ := List.append_inj' regrouped rfl
      exact .inl ⟨(List.cons.inj wiped).1, before, released⟩
    · have regrouped : history ++ [event] =
        (before ++ .release blk :: .wipe blk :: between) ++ [last] := by
        simpa using split
      obtain ⟨same, lastOnes⟩ := List.append_inj' regrouped rfl
      obtain rfl := (List.cons.inj lastOnes).1
      rw [List.concat_eq_append] at alone
      exact .inr ⟨⟨before, between, same,
        fun other member => alone other (List.mem_append_left _ member)⟩,
        alone event (List.mem_append_right _ (List.mem_singleton_self event))⟩
  · rintro (⟨rfl, before, rfl⟩ | ⟨left, other⟩)
    · exact ⟨before, [], by simp, fun event member => absurd member List.not_mem_nil⟩
    · obtain ⟨before, after, rfl, alone⟩ := left
      refine ⟨before, after ++ [event], by simp, fun later member => ?_⟩
      rcases List.mem_append.mp member with early | last
      · exact alone later early
      · rwa [List.mem_singleton.mp last]

/-- A block that is left wiped is vacant. -/
theorem LeftWiped.vacant (left : LeftWiped history blk) : Vacant history blk := by
  obtain ⟨before, after, rfl, alone⟩ := left
  refine ⟨before, .wipe blk :: after, rfl, fun again => ?_⟩
  rcases List.mem_cons.mp again with wipe | member
  · cases wipe
  · exact alone _ member rfl

/-- An event of another block leaves it as it was. -/
theorem LeftWiped.snoc (left : LeftWiped history blk) (other : event.blk ≠ blk) :
    LeftWiped (history ++ [event]) blk :=
  leftWiped_snoc_iff.mpr (.inr ⟨left, other⟩)

/-- The event was not the wipe. -/
theorem LeftWiped.of_snoc (left : LeftWiped (history ++ [event]) blk)
    (notWipe : event ≠ .wipe blk) :
    LeftWiped history blk ∧ event.blk ≠ blk :=
  (leftWiped_snoc_iff.mp left).resolve_left fun ⟨wipe, _⟩ => notWipe wipe

/-- A block that is released and wiped. -/
theorem leftWiped_release (history : List BlockEvent) (blk : Nat) :
    LeftWiped ((history ++ [.release blk]) ++ [.wipe blk]) blk :=
  leftWiped_snoc_iff.mpr (.inl ⟨rfl, history, rfl⟩)

end History

namespace Volume

variable {vol vol' : Volume} {blk : Nat}

/-- The volume has the block and its bit is set. -/
def InUse (vol : Volume) (blk : Nat) : Prop := vol.inRange blk = true ∧ vol.blockMap blk = true

/-- Every block that is vacant is free, and has been left alone since it was wiped. -/
def Tidy (vol : Volume) : Prop :=
  ∀ blk, Vacant vol.history blk → ¬ vol.InUse blk ∧ LeftWiped vol.history blk

/-- At a mount. -/
theorem tidy_of_nil (empty : vol.history = []) : vol.Tidy := by
  intro blk vacant
  rw [empty] at vacant
  exact absurd vacant (not_vacant_nil blk)

/-- What the environment and the counters say makes no difference. -/
theorem Tidy.congr (tidy : vol.Tidy) (super : vol'.super = vol.super)
    (blockMap : vol'.blockMap = vol.blockMap)
    (history : vol'.history = vol.history) : vol'.Tidy := by
  intro blk vacant
  rw [history] at vacant ⊢
  rw [InUse, inRange, super, blockMap]
  exact tidy blk vacant

/-- A block in use is written to. -/
theorem Tidy.writeBlk (tidy : vol.Tidy) (inUse : vol.InUse blk) (block : Block) :
    (vol.writeBlk blk block).Tidy := by
  intro other vacant
  rcases vacant_snoc_iff.mp vacant with released | ⟨before, -⟩
  · cases released
  · obtain ⟨free, left⟩ := tidy other before
    refine ⟨free, left.snoc ?_⟩
    rintro rfl
    exact free inUse

/-- A block is filled and allocated. -/
theorem Tidy.alloc (tidy : vol.Tidy) (blk : Nat) (block : Block) :
    ((vol.writeBlk blk block).ext2fsBlockAllocStats blk true).Tidy := by
  intro other vacant
  rcases vacant_snoc_iff.mp vacant with released | ⟨written, notThis⟩
  · cases released
  rcases vacant_snoc_iff.mp written with released | ⟨before, -⟩
  · cases released
  have different : other ≠ blk := by
    rintro rfl
    exact notThis rfl
  obtain ⟨free, left⟩ := tidy other before
  have afterWrite : LeftWiped (vol.history ++ [.write blk block]) other := left.snoc different.symm
  have afterAlloc : LeftWiped ((vol.history ++ [.write blk block]) ++ [.alloc blk]) other :=
    afterWrite.snoc different.symm
  refine ⟨fun inUse => free ⟨inUse.1, ?_⟩, afterAlloc⟩
  have marked := inUse.2
  rw [ext2fsBlockAllocStats_blockMap, writeBlk_blockMap] at marked
  split at marked
  · rwa [Function.update_of_ne different] at marked
  · exact marked

/-- A block is released and wiped. -/
theorem Tidy.release (tidy : vol.Tidy) (cached : Cached) (blk : Nat) :
    (testWipeBlock cached (vol.ext2fsBlockAllocStats blk false) blk).Tidy := by
  have inUse_iff : ∀ other,
    (testWipeBlock cached (vol.ext2fsBlockAllocStats blk false) blk).InUse other ↔
      vol.InUse other ∧ other ≠ blk := by
    intro other
    rw [InUse, testWipeBlock_blockMap, ext2fsBlockAllocStats_blockMap]
    by_cases same : other = blk
    · subst same
      refine ⟨fun ⟨inside, marked⟩ => ?_, fun ⟨_, different⟩ => absurd rfl different⟩
      rw [if_pos (show vol.inRange other = true from inside), Function.update_self] at marked
      cases marked
    · split
      · rw [Function.update_of_ne same]
        exact (and_iff_left same).symm
      · exact (and_iff_left same).symm
  intro other vacant
  rw [inUse_iff]
  by_cases same : other = blk
  · subst same
    exact ⟨fun both => both.2 rfl, leftWiped_release vol.history other⟩
  rcases vacant_snoc_iff.mp vacant with released | ⟨both, -⟩
  · cases released
  rcases vacant_snoc_iff.mp both with released | ⟨before, -⟩
  · exact absurd (BlockEvent.release.inj released).symm same
  · obtain ⟨free, left⟩ := tidy other before
    have afterRelease : LeftWiped (vol.history ++ [.release blk]) other := left.snoc (Ne.symm same)
    have afterWipe : LeftWiped ((vol.history ++ [.release blk]) ++ [.wipe blk]) other :=
      afterRelease.snoc (Ne.symm same)
    exact ⟨fun both => free both.1, afterWipe⟩

end Volume

end Ext2Fuse
