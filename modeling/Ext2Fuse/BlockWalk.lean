import Ext2Fuse.Lib.TreeWalk
import Ext2Fuse.BlockForest
import Ext2Fuse.Library

/-!
# The depth-first iteration as a walk

With `BLOCK_FLAG_DEPTH_TRAVERSE` and a callback that keeps or releases each block it is
handed, `ext2fs_block_iterate2` walks the trees of an inode in post-order. The pointers
to what the callback released are cleared, all other pointers stay, and no block outside
the trees changes.
-/

namespace Ext2Fuse

open Lib

namespace Volume

variable {ρ : Type}

/-- The block count the callback is given with a visit. -/
def visitCount (visit : Visit) : Int :=
  if visit.level = 0 then visit.first else -(visit.level : Int)

/-- A callback that releases what a selector drops and keeps everything else. -/
def Selects (cached : Cached) (func : IterFunc ρ) (selector : Selector ρ) : Prop :=
  ∀ vol visit priv, func vol visit.block (visitCount visit) priv =
    if selector.drops priv visit then
      ({ changed := true }, 0, releaseBlock cached vol visit.block, selector.next priv visit)
    else ({}, visit.block, vol, selector.next priv visit)

/-- What a volume has become when some of the blocks seen are gone. -/
structure Walked (vol vol' : Volume) (seen : List Visit) (gone : List Nat) : Prop where
  super : vol'.super = vol.super
  blockMap : ∀ blk, vol'.blockMap blk =
    (vol.blockMap blk && !(vol.inRange blk && decide (blk ∈ gone)))
  outside : ∀ blk, (∀ visit ∈ seen, visit.block ≠ blk) → vol'.io blk = vol.io blk
  data : ∀ visit ∈ seen, visit.level = 0 → visit.block ∉ gone →
    vol'.io visit.block = vol.io visit.block
  inner : ∀ visit ∈ seen, 0 < visit.level → visit.block ∉ gone →
    ∀ index < vol.super.addrPerBlock, vol'.ptrs visit.block index =
      if vol.ptrs visit.block index ∈ gone then 0 else vol.ptrs visit.block index
  tidy : (∀ visit ∈ seen, vol.InUse visit.block) → vol.Tidy → vol'.Tidy

/-- What the visits point to has been visited, at a lower level. -/
def Closed (vol : Volume) (seen : List Visit) : Prop :=
  ∀ visit ∈ seen, 0 < visit.level → ∀ index < vol.super.addrPerBlock,
    vol.ptrs visit.block index ≠ 0 →
      ∃ target ∈ seen, target.block = vol.ptrs visit.block index ∧ target.level < visit.level

/-- The range of block numbers is read off the superblock. -/
theorem inRange_congr {vol vol' : Volume} (super : vol'.super = vol.super) (blk : Nat) :
    vol'.inRange blk = vol.inRange blk := by
  simp [inRange, super]

/-- The visits to one tree are closed: every pointer of a visited inner block is visited. -/
theorem closed_visits (vol : Volume) (level block first : Nat) :
    vol.Closed (visits vol.ptrs vol.super.addrPerBlock level block first) := by
  intro visit member inner index small present
  obtain ⟨lower, isInner⟩ := Nat.exists_eq_succ_of_ne_zero (Nat.pos_iff_ne_zero.mp inner)
  exact ⟨_, entry_mem_visits member isInner small present, rfl, by simp [isInner]⟩

/-- What a visited inner block points to is visited. -/
theorem Closed.mem {vol : Volume} {seen : List Visit} (closed : vol.Closed seen) {visit : Visit}
    (member : visit ∈ seen) (inner : 0 < visit.level) {index : Nat}
    (small : index < vol.super.addrPerBlock) (present : vol.ptrs visit.block index ≠ 0) :
    vol.ptrs visit.block index ∈ seen.map Visit.block := by
  obtain ⟨target, inSeen, same, -⟩ := closed visit member inner index small present
  exact List.mem_map.mpr ⟨target, inSeen, same⟩

/-- Closed segments make a closed list. -/
theorem closed_flatMap {vol : Volume} {segment : Nat → List Visit} (indices : List Nat)
    (closed : ∀ index ∈ indices, vol.Closed (segment index)) :
    vol.Closed (indices.flatMap segment) := by
  intro visit member inner index small present
  obtain ⟨entry, entryMember, inSegment⟩ := List.mem_flatMap.mp member
  obtain ⟨target, targetMember, same, lower⟩ :=
    closed entry entryMember visit inSegment inner index small present
  exact ⟨target, List.mem_flatMap.mpr ⟨entry, entryMember, targetMember⟩, same, lower⟩

section Composing

variable {vol vol' vol'' : Volume} {seen seen' : List Visit} {gone gone' : List Nat}

/-- Walking nothing releases nothing. -/
theorem Walked.refl (vol : Volume) : Walked vol vol [] [] where
  super := rfl
  blockMap blk := by simp
  outside _ _ := rfl
  data _ member := by cases member
  inner _ member := by cases member
  tidy _ := id

/-- A block that is not gone is in use as before. -/
theorem Walked.inUse (walked : Walked vol vol' seen gone) {blk : Nat} (kept : blk ∉ gone)
    (inUse : vol.InUse blk) : vol'.InUse blk := by
  refine ⟨(inRange_congr walked.super blk).trans inUse.1, ?_⟩
  rw [walked.blockMap, inUse.2]
  simp [kept]

/-- A walk leaves the pointers of the blocks it does not visit. -/
theorem Walked.ptrs_outside (walked : Walked vol vol' seen gone) {blk : Nat}
    (apart : ∀ visit ∈ seen, visit.block ≠ blk) (index : Nat) :
    vol'.ptrs blk index = vol.ptrs blk index := by
  rw [ptrs, walked.outside blk apart, ptrs]

/-- Two walks over different blocks, one after the other. -/
theorem Walked.trans (first : Walked vol vol' seen gone) (second : Walked vol' vol'' seen' gone')
    (closed : vol.Closed seen) (closed' : vol.Closed seen')
    (labelled : ∀ visit ∈ seen ++ seen', visit.block ≠ 0)
    (apart : ((seen ++ seen').map Visit.block).Nodup) (among : gone ⊆ seen.map Visit.block)
    (among' : gone' ⊆ seen'.map Visit.block) :
    Walked vol vol'' (seen ++ seen') (gone ++ gone') := by
  rw [List.map_append] at apart
  have disjoint := List.disjoint_of_nodup_append apart
  have notLater : ∀ visit ∈ seen, ∀ other ∈ seen', other.block ≠ visit.block :=
    fun visit member other otherMember same => disjoint (List.mem_map_of_mem member)
      (same ▸ List.mem_map_of_mem otherMember)
  have notEarlier : ∀ visit ∈ seen', ∀ other ∈ seen, other.block ≠ visit.block :=
    fun visit member other otherMember same => notLater other otherMember visit member same.symm
  have keptEarlier : ∀ blk ∈ seen'.map Visit.block, blk ∉ gone :=
    fun blk member inGone => disjoint (among inGone) member
  have keptLater : ∀ blk ∈ seen.map Visit.block, blk ∉ gone' :=
    fun blk member inGone => disjoint member (among' inGone)
  have notZero : 0 ∉ (seen ++ seen').map Visit.block := by
    intro member
    obtain ⟨visit, inSeen, zero⟩ := List.mem_map.mp member
    exact labelled visit inSeen zero
  rw [List.map_append] at notZero
  have zeroKept : 0 ∉ gone ∧ 0 ∉ gone' :=
    ⟨fun inGone => notZero (List.mem_append_left _ (among inGone)),
    fun inGone => notZero (List.mem_append_right _ (among' inGone))⟩
  refine ⟨second.super.trans first.super, ?_, ?_, ?_, ?_, fun inUse tidy => ?_⟩
  · intro blk
    rw [second.blockMap, first.blockMap, inRange_congr first.super]
    by_cases early : blk ∈ gone <;> by_cases late : blk ∈ gone' <;>
      cases vol.inRange blk <;> simp [early, late]
  · intro blk untouched
    rw [second.outside blk fun visit member => untouched visit (List.mem_append_right _ member),
      first.outside blk fun visit member => untouched visit (List.mem_append_left _ member)]
  · intro visit member isData kept
    rw [List.mem_append, not_or] at kept
    obtain early | late := List.mem_append.mp member
    · rw [second.outside _ (notLater visit early), first.data visit early isData kept.1]
    · rw [second.data visit late isData kept.2, first.outside _ (notEarlier visit late)]
  · intro visit member inner kept index small
    rw [List.mem_append, not_or] at kept
    obtain early | late := List.mem_append.mp member
    · have elsewhere : vol.ptrs visit.block index ∉ gone' := by
        by_cases present : vol.ptrs visit.block index = 0
        · rw [present]
          exact zeroKept.2
        · exact keptLater _ (closed.mem early inner small present)
      rw [second.ptrs_outside (notLater visit early),
        first.inner visit early inner kept.1 index small]
      simp [List.mem_append, elsewhere]
    · have elsewhere : vol.ptrs visit.block index ∉ gone := by
        by_cases present : vol.ptrs visit.block index = 0
        · rw [present]
          exact zeroKept.1
        · exact keptEarlier _ (closed'.mem late inner small present)
      have same := first.ptrs_outside (notEarlier visit late) index
      rw [second.inner visit late inner kept.2 index (by rw [first.super]; exact small), same]
      simp [List.mem_append, elsewhere]
  · refine second.tidy (fun visit late => ?_)
      (first.tidy (fun visit early => inUse visit (List.mem_append_left _ early)) tidy)
    exact first.inUse (keptEarlier _ (List.mem_map_of_mem late))
      (inUse visit (List.mem_append_right _ late))

/-- Releasing a data block. -/
theorem walked_release (cached : Cached) (vol : Volume) (visit : Visit) :
    Walked vol (releaseBlock cached vol visit.block) [visit] [visit.block] where
  super := rfl
  blockMap blk := by
    rw [releaseBlock, testWipeBlock_blockMap, ext2fsBlockAllocStats_blockMap]
    by_cases same : blk = visit.block
    · subst same
      cases inRange : vol.inRange visit.block <;> simp
    · split <;> simp [same]
  outside blk apart := testWipeBlock_io_of_ne _ _ _ (Ne.symm (apart visit (by simp)))
  data other member _ kept := by
    obtain rfl := List.mem_singleton.mp member
    exact absurd (List.mem_singleton_self _) kept
  inner other member _ kept := by
    obtain rfl := List.mem_singleton.mp member
    exact absurd (List.mem_singleton_self _) kept
  tidy _ before := before.release cached visit.block

/-- Keeping a data block. -/
theorem walked_keep (vol : Volume) {visit : Visit} (isData : visit.level = 0) :
    Walked vol vol [visit] [] where
  super := rfl
  blockMap blk := by simp
  outside _ _ := rfl
  data _ _ _ _ := rfl
  inner other member inner := by
    obtain rfl := List.mem_singleton.mp member
    omega
  tidy _ := id

end Composing

/-- The blocks a selector drops among the visits. -/
def lost (selector : Selector ρ) (priv : ρ) (seen : List Visit) : List Nat :=
  (selector.dropped priv seen).map Visit.block

section Lost

variable (selector : Selector ρ) (priv : ρ)

@[simp] theorem lost_nil : lost selector priv [] = [] := rfl

/-- What is lost over two segments is what each of them loses. -/
theorem lost_append (seen later : List Visit) : lost selector priv (seen ++ later) =
    lost selector priv seen ++ lost selector (selector.after priv seen) later := by
  simp [lost]

/-- Only visited blocks are lost. -/
theorem lost_subset (seen : List Visit) : lost selector priv seen ⊆ seen.map Visit.block :=
  ((Selector.dropped_sublist seen).map Visit.block).subset

end Lost

/-- What handing one pointer, with a tree of `level` levels below it, to the iteration has
come to. -/
structure ChildWalked (selector : Selector ρ) (seen : List Visit) (span : Nat) (ctx : IterCtx ρ)
    (blk : Nat) (outcome : IterFlags × Nat × IterCtx ρ) : Prop where
  smooth : outcome.1.abort = false ∧ outcome.1.error = false
  changed : blk ∈ lost selector ctx.priv seen → outcome.1.changed = true
  pointer : outcome.2.1 = if blk ∈ lost selector ctx.priv seen then 0 else blk
  bcount : outcome.2.2.bcount = ctx.bcount + span
  priv : outcome.2.2.priv = selector.after ctx.priv seen
  walked : Walked ctx.vol outcome.2.2.vol seen (lost selector ctx.priv seen)

/-- The iteration walks every tree of `level` levels whose blocks are all different and in
the volume. -/
def Walks (selector : Selector ρ) (level : Nat) (child : IterChild ρ) : Prop :=
  ∀ ctx blk, blk ≠ 0 →
    ∀ seen, seen = visits ctx.vol.ptrs ctx.vol.super.addrPerBlock level blk ctx.bcount →
    (seen.map Visit.block).Nodup → (∀ visit ∈ seen, ctx.vol.inRange visit.block = true) →
    ChildWalked selector seen (ctx.vol.super.addrPerBlock ^ level) ctx blk (child ctx blk)

/-- What going through `count` pointers from `index` on has come to; `entry` are the
pointers as they were. -/
structure EntriesWalked (selector : Selector ρ) (seen : List Visit) (index count stride : Nat)
    (entry : Nat → Nat) (loop loop' : IterLoop ρ) : Prop where
  ret : loop'.ret = loop.ret
  unchanged : loop'.changed.changed = false → loop.changed.changed = false ∧
    ∀ other, index ≤ other → other < index + count →
      entry other ∉ lost selector loop.ctx.priv seen
  buf : ∀ other, ptr loop'.buf other =
    if (index ≤ other ∧ other < index + count) ∧ entry other ∈ lost selector loop.ctx.priv seen
    then 0 else ptr loop.buf other
  bcount : loop'.ctx.bcount = loop.ctx.bcount + count * stride
  priv : loop'.ctx.priv = selector.after loop.ctx.priv seen
  walked : Walked loop.ctx.vol loop'.ctx.vol seen (lost selector loop.ctx.priv seen)

/-- The visits below the pointers `entry` from `index` on, each with its number of levels and
its first number. -/
def entryVisits (vol : Volume) (level entry start : Nat → Nat) (index count : Nat) : List Visit :=
  (List.range' index count).flatMap fun other =>
    visits vol.ptrs vol.super.addrPerBlock (level other) (entry other) (start other)

section EntryVisits

variable {vol vol' : Volume} {level entry start : Nat → Nat} {index count : Nat} {visit : Visit}

/-- The visits below a row of entries are those below the first, then the rest. -/
theorem entryVisits_succ : vol.entryVisits level entry start index (count + 1) =
    visits vol.ptrs vol.super.addrPerBlock (level index) (entry index) (start index) ++
      vol.entryVisits level entry start (index + 1) count := by
  rw [entryVisits, List.range'_succ, List.flatMap_cons, entryVisits]

/-- A visit below a row of entries is below one of them. -/
theorem mem_entryVisits : visit ∈ vol.entryVisits level entry start index count ↔
    ∃ other, (index ≤ other ∧ other < index + count) ∧
      visit ∈ visits vol.ptrs vol.super.addrPerBlock (level other) (entry other) (start other) := by
  simp only [entryVisits, List.mem_flatMap, List.mem_range'_1]

/-- Holes are not visited. -/
theorem entryVisits_block_ne_zero
    (member : visit ∈ vol.entryVisits level entry start index count) : visit.block ≠ 0 := by
  obtain ⟨other, -, below⟩ := mem_entryVisits.mp member
  exact block_ne_zero below

/-- The visits below a row of entries are closed. -/
theorem closed_entryVisits : vol.Closed (vol.entryVisits level entry start index count) :=
  closed_flatMap _ fun _ _ => closed_visits vol _ _ _

/-- A pointer that is not 0 is the block of a visit. -/
theorem entry_mem_entryVisits {other : Nat} (low : index ≤ other) (high : other < index + count)
    (present : entry other ≠ 0) :
    entry other ∈ (vol.entryVisits level entry start index count).map Visit.block :=
  List.mem_map.mpr ⟨_, mem_entryVisits.mpr ⟨other, ⟨low, high⟩, root_mem_visits present⟩, rfl⟩

/-- The walk below other pointers is not affected by what a walk changes. -/
theorem Walked.entryVisits_eq {seen : List Visit} {gone : List Nat}
    (walked : Walked vol vol' seen gone) (apart : ((seen ++
      vol.entryVisits level entry start index count).map Visit.block).Nodup) :
    vol'.entryVisits level entry start index count =
      vol.entryVisits level entry start index count := by
  rw [List.map_append] at apart
  have disjoint := List.disjoint_of_nodup_append apart
  simp only [entryVisits, walked.super]
  refine List.flatMap_congr fun other member => visits_congr fun visit below _ slot _ => ?_
  refine walked.ptrs_outside (fun earlier inSeen same => ?_) slot
  have inside := mem_entryVisits.mpr ⟨other, List.mem_range'_1.mp member, below⟩
  exact disjoint (List.mem_map_of_mem inSeen) (same ▸ List.mem_map_of_mem inside)

end EntryVisits

section Split

variable {selector : Selector ρ} {priv : ρ} {head tail : List Visit} {blk : Nat}

/-- What is met first is lost or not whatever follows. -/
theorem mem_lost_head (apart : ((head ++ tail).map Visit.block).Nodup)
    (inHead : blk ∈ head.map Visit.block) :
    blk ∈ lost selector priv (head ++ tail) ↔ blk ∈ lost selector priv head := by
  rw [List.map_append] at apart
  rw [lost_append, List.mem_append, or_iff_left]
  exact fun inTail => List.disjoint_of_nodup_append apart inHead (lost_subset _ _ _ inTail)

/-- What is not met first is lost by what the selector does after that. -/
theorem mem_lost_tail (apart : ((head ++ tail).map Visit.block).Nodup)
    (labelled : ∀ visit ∈ head, visit.block ≠ 0) (inTail : blk ≠ 0 → blk ∈ tail.map Visit.block) :
    blk ∈ lost selector priv (head ++ tail) ↔
      blk ∈ lost selector (selector.after priv head) tail := by
  rw [List.map_append] at apart
  rw [lost_append, List.mem_append, or_iff_right]
  intro inLost
  have inHead := lost_subset _ _ _ inLost
  refine List.disjoint_of_nodup_append apart inHead (inTail fun zero => ?_)
  obtain ⟨visit, member, same⟩ := List.mem_map.mp inHead
  exact labelled visit member (same.trans zero)

end Split

section Row

variable {vol vol₁ vol' : Volume} {selector : Selector ρ} {priv : ρ} {head tail : List Visit}
  {level entry start : Nat → Nat} {index count : Nat}

/-- A row of pointers: the visits below the first of them are `head`, those below the others
`tail`. -/
structure RowSplit (vol : Volume) (entry : Nat → Nat) (index count : Nat)
    (head tail : List Visit) : Prop where
  apart : ((head ++ tail).map Visit.block).Nodup
  headLabelled : ∀ visit ∈ head, visit.block ≠ 0
  tailLabelled : ∀ visit ∈ tail, visit.block ≠ 0
  headClosed : vol.Closed head
  tailClosed : vol.Closed tail
  first : entry index ∈ head.map Visit.block
  others : ∀ other, index + 1 ≤ other → other < index + 1 + count → entry other ≠ 0 →
    entry other ∈ tail.map Visit.block

/-- A row that does not begin with a hole splits at its first pointer. -/
theorem rowSplit_entryVisits (present : entry index ≠ 0)
    (apart : ((vol.entryVisits level entry start index (count + 1)).map Visit.block).Nodup) :
    RowSplit vol entry index count
      (visits vol.ptrs vol.super.addrPerBlock (level index) (entry index) (start index))
      (vol.entryVisits level entry start (index + 1) count) where
  apart := by rwa [entryVisits_succ] at apart
  headLabelled _ := block_ne_zero
  tailLabelled _ := entryVisits_block_ne_zero
  headClosed := closed_visits vol (level index) (entry index) (start index)
  tailClosed := closed_entryVisits
  first := List.mem_map.mpr ⟨_, root_mem_visits present, rfl⟩
  others _ := entry_mem_entryVisits

/-- Whether the first pointer is lost is decided by the visits below it. -/
theorem RowSplit.first_lost (split : RowSplit vol entry index count head tail) :
    entry index ∈ lost selector priv (head ++ tail) ↔ entry index ∈ lost selector priv head :=
  mem_lost_head split.apart split.first

/-- Whether another pointer is lost is decided by the visits after those below the first. -/
theorem RowSplit.other_lost (split : RowSplit vol entry index count head tail) {other : Nat}
    (low : index + 1 ≤ other) (high : other < index + 1 + count) :
    entry other ∈ lost selector priv (head ++ tail) ↔
      entry other ∈ lost selector (selector.after priv head) tail :=
  mem_lost_tail split.apart split.headLabelled (split.others other low high)

/-- Walking below the first pointer and then below the others is walking below the row. -/
theorem RowSplit.walked (split : RowSplit vol entry index count head tail)
    (first : Walked vol vol₁ head (lost selector priv head))
    (rest : Walked vol₁ vol' tail (lost selector (selector.after priv head) tail)) :
    Walked vol vol' (head ++ tail) (lost selector priv (head ++ tail)) := by
  rw [lost_append]
  exact first.trans rest split.headClosed split.tailClosed
    (fun visit member => (List.mem_append.mp member).elim (split.headLabelled visit)
      (split.tailLabelled visit))
    split.apart (lost_subset _ _ _) (lost_subset _ _ _)

/-- A hole is not among what is lost. -/
theorem hole_not_lost (empty : entry index = 0)
    (labelled : ∀ visit ∈ tail, visit.block ≠ 0) : entry index ∉ lost selector priv tail := by
  intro inLost
  obtain ⟨visit, member, same⟩ := List.mem_map.mp (lost_subset _ _ _ inLost)
  exact labelled visit member (same.trans empty)

variable {before middle after : Nat → Nat} {gone gone₁ gone' : List Nat}

/-- Clearing what is lost of the first pointer and then of the others clears the row. -/
theorem cleared_cons (first : entry index ∈ gone ↔ entry index ∈ gone₁)
    (others : ∀ other, index + 1 ≤ other → other < index + 1 + count →
      (entry other ∈ gone ↔ entry other ∈ gone'))
    (own : middle index = if entry index ∈ gone₁ then 0 else before index)
    (kept : ∀ other, other ≠ index → middle other = before other)
    (rest : ∀ other, after other = if (index + 1 ≤ other ∧ other < index + 1 + count) ∧
      entry other ∈ gone' then 0 else middle other) (other : Nat) :
    after other = if (index ≤ other ∧ other < index + (count + 1)) ∧ entry other ∈ gone then 0
      else before other := by
  rw [rest other]
  by_cases here : other = index
  · subst here
    rw [if_neg (by omega), own]
    simp only [first, le_refl, true_and, Nat.lt_add_right_iff_pos, Nat.succ_pos]
  · rw [kept other here]
    by_cases later : index + 1 ≤ other ∧ other < index + 1 + count
    · simp only [later, and_self, true_and, others other later.1 later.2,
        show index ≤ other ∧ other < index + (count + 1) by omega]
    · rw [if_neg (fun both => later both.1), if_neg (fun both => later (by omega))]

/-- Where neither the first pointer nor another one is lost, none of the row is. -/
theorem spared_cons (first : entry index ∈ gone ↔ entry index ∈ gone₁)
    (others : ∀ other, index + 1 ≤ other → other < index + 1 + count →
      (entry other ∈ gone ↔ entry other ∈ gone'))
    (own : entry index ∉ gone₁)
    (rest : ∀ other, index + 1 ≤ other → other < index + 1 + count → entry other ∉ gone')
    (other : Nat) (low : index ≤ other) (high : other < index + (count + 1)) :
    entry other ∉ gone := by
  obtain rfl | later := Nat.eq_or_lt_of_le low
  · exact fun inGone => own (first.mp inGone)
  · exact fun inGone =>
      rest other later (by omega) ((others other later (by omega)).mp inGone)

end Row

section Iterating

variable {mode : IterMode} {selector : Selector ρ} {child : IterChild ρ} {level : Nat}

/-- A hole before the rest of the row only moves the block count. -/
theorem EntriesWalked.hole {seen : List Visit} {entry : Nat → Nat} {index count stride : Nat}
    {loop loop' : IterLoop ρ} (empty : entry index = 0)
    (labelled : ∀ visit ∈ seen, visit.block ≠ 0)
    (rest : EntriesWalked selector seen (index + 1) count stride entry
      { loop with ctx := { loop.ctx with bcount := loop.ctx.bcount + stride } } loop') :
    EntriesWalked selector seen index (count + 1) stride entry loop loop' := by
  have notLost : entry index ∉ lost selector loop.ctx.priv seen := hole_not_lost empty labelled
  have first : entry index ∈ lost selector loop.ctx.priv seen ↔ entry index ∈ [] := by
    simp [notLost]
  have bcount : loop'.ctx.bcount = loop.ctx.bcount + (count + 1) * stride := by
    rw [rest.bcount]
    simp only
    ring
  refine ⟨rest.ret, fun quiet => ?_, ?_, bcount, rest.priv, rest.walked⟩
  · obtain ⟨before, none⟩ := rest.unchanged quiet
    exact ⟨before, spared_cons first (fun _ _ _ => Iff.rfl) (by simp) none⟩
  · exact cleared_cons first (fun _ _ _ => Iff.rfl) (by simp) (fun _ _ => rfl) rest.buf

/-- A pointer that the child has walked below, before the rest of the row. -/
theorem EntriesWalked.cons {head tail : List Visit} {entry : Nat → Nat}
    {index count stride blk : Nat} {flags : IterFlags} {ctx : IterCtx ρ} {loop loop' : IterLoop ρ}
    (split : RowSplit loop.ctx.vol entry index count head tail)
    (reads : ptr loop.buf index = entry index) (small : blk < 2 ^ 32)
    (here : ChildWalked selector head stride loop.ctx (entry index) (flags, blk, ctx))
    (rest : EntriesWalked selector tail (index + 1) count stride entry
      { loop with
        buf := setPtr loop.buf index blk, changed := loop.changed.or flags, ctx := ctx } loop') :
    EntriesWalked selector (head ++ tail) index (count + 1) stride entry loop loop' := by
  obtain ⟨-, changed, pointer, bcount, priv, walked⟩ := here
  obtain ⟨ret, unchanged, buf, bcount', priv', walked'⟩ := rest
  simp only at changed pointer bcount priv walked ret unchanged buf bcount' priv' walked'
  rw [priv] at unchanged buf priv' walked'
  refine ⟨ret, fun quiet => ?_, ?_, ?_, ?_, split.walked walked walked'⟩
  · obtain ⟨before, none⟩ := unchanged quiet
    simp only [IterFlags.or, Bool.or_eq_false_iff] at before
    refine ⟨before.1, spared_cons split.first_lost (fun _ => split.other_lost) ?_ none⟩
    intro inLost
    rw [changed inLost] at before
    cases before.2
  · refine cleared_cons split.first_lost (fun _ => split.other_lost) ?_ ?_ buf
    · rw [ptr_setPtr_same small, pointer, reads]
    · exact fun other different => ptr_setPtr_of_ne _ different
  · rw [bcount', bcount]
    ring
  · rw [priv', Selector.after_append]

/-- The loop over the pointers of an indirect block. -/
theorem iterateEntries_walks (sparse : mode.append = false)
    (childWalks : Walks selector level child)
    (entry : Nat → Nat) (start count index : Nat) (loop : IterLoop ρ) {stride : Nat}
    (strideEq : stride = loop.ctx.vol.super.addrPerBlock ^ level)
    (reads : ∀ other, index ≤ other → ptr loop.buf other = entry other)
    (counted : loop.ctx.bcount = start + index * stride) (seen : List Visit)
    (seenEq : loop.ctx.vol.entryVisits (fun _ => level) entry (fun other => start + other * stride)
      index count = seen)
    (apart : (seen.map Visit.block).Nodup)
    (inRange : ∀ visit ∈ seen, loop.ctx.vol.inRange visit.block = true) :
    EntriesWalked selector seen index count stride entry loop
      (iterateEntries mode child stride count index loop) := by
  induction count generalizing index loop seen with
  | zero =>
      subst seenEq
      refine ⟨rfl, fun quiet => ⟨quiet, fun other _ _ => by omega⟩, fun other => ?_, ?_, rfl, ?_⟩
      · rw [if_neg (by omega)]
        rfl
      · simp [iterateEntries]
      · exact Walked.refl _
  | succ count inductionHypothesis =>
      simp only [iterateEntries, sparse, Bool.not_false, Bool.and_true, decide_eq_true_eq]
      rw [reads index le_rfl]
      by_cases empty : entry index = 0
      · rw [entryVisits_succ, empty, visits_zero, List.nil_append] at seenEq
        rw [if_pos empty]
        refine EntriesWalked.hole empty
          (fun _ member => entryVisits_block_ne_zero (seenEq ▸ member)) ?_
        exact inductionHypothesis (index + 1)
          { loop with ctx := { loop.ctx with bcount := loop.ctx.bcount + stride } } strideEq
          (fun other le => reads other (by omega)) (by simp only [counted]; ring) seen seenEq apart
          inRange
      · -- the child walks the tree below the pointer, the rest of the loop the others
        rw [if_neg empty]
        have split := rowSplit_entryVisits empty (seenEq ▸ apart)
        rw [entryVisits_succ] at seenEq
        subst seenEq
        have here := childWalks loop.ctx (entry index) empty _ rfl
          (by rw [counted]; exact List.Nodup.of_append_left (List.map_append ▸ apart))
          (fun visit member => inRange visit
            (List.mem_append_left _ (by rwa [counted] at member)))
        rw [← strideEq, counted] at here
        generalize child loop.ctx (entry index) = outcome at here ⊢
        obtain ⟨flags, blk, ctx⟩ := outcome
        obtain ⟨smooth, walked⟩ := And.intro here.smooth here.walked
        have super : ctx.vol.super = loop.ctx.vol.super := walked.super
        simp only at smooth ⊢
        rw [if_neg (by simp [smooth])]
        have small : blk < 2 ^ 32 := by
          rw [show blk = _ from here.pointer]
          split_ifs
          · exact Nat.two_pow_pos 32
          · rw [← reads index le_rfl]
            exact Bytes.getU32_lt _ _
        refine EntriesWalked.cons split (reads index le_rfl) small here ?_
        refine inductionHypothesis (index + 1) _ (by rw [strideEq, super])
          (fun other le => by rw [ptr_setPtr_of_ne _ (by omega)]; exact reads other (by omega))
          ?_ _ (walked.entryVisits_eq split.apart)
          (List.Nodup.of_append_right (List.map_append ▸ apart)) fun visit member => ?_
        · rw [show ctx.bcount = _ from here.bcount, counted]
          ring
        · rw [inRange_congr super]
          exact inRange visit (List.mem_append_right _ member)

/-- A data pointer. -/
theorem iterateData_walks {cached : Cached} {func : IterFunc ρ}
    (selects : Selects cached func selector) : Walks selector 0 (iterateData func) := by
  rintro ctx blk present seen rfl - -
  have answer := selects ctx.vol ⟨blk, 0, ctx.bcount⟩ ctx.priv
  simp only [visitCount, if_true] at answer
  simp only [visits, if_neg present, iterateData, IterFunc.apply, answer, pow_zero]
  by_cases drops : selector.drops ctx.priv ⟨blk, 0, ctx.bcount⟩ = true
  · have gone : lost selector ctx.priv [⟨blk, 0, ctx.bcount⟩] = [blk] := by
      simp [lost, Selector.dropped, drops]
    rw [if_pos drops]
    refine ⟨⟨rfl, rfl⟩, fun _ => rfl, ?_, rfl, rfl, ?_⟩
    · simp [gone]
    · rw [gone]
      exact walked_release cached ctx.vol ⟨blk, 0, ctx.bcount⟩
  · have gone : lost selector ctx.priv [⟨blk, 0, ctx.bcount⟩] = [] := by
      simp [lost, Selector.dropped, drops]
    rw [if_neg drops]
    refine ⟨⟨rfl, rfl⟩, fun inGone => ?_, ?_, rfl, rfl, ?_⟩
    · rw [gone] at inGone
      cases inGone
    · simp [gone]
    · rw [gone]
      exact walked_keep ctx.vol rfl

section Root

variable {vol below above : Volume} {seen : List Visit} {gone : List Nat}

/-- After the entries of an indirect block have been walked and the block has been written
back. -/
theorem Walked.with_root (walked : Walked vol below seen gone) (root : Visit)
    (inner : 0 < root.level)
    (apart : ∀ visit ∈ seen, visit.block ≠ root.block) (rootKept : root.block ∉ gone)
    (super : above.super = below.super) (blockMap : above.blockMap = below.blockMap)
    (io : ∀ blk, blk ≠ root.block → above.io blk = below.io blk)
    (pointers : ∀ index < vol.super.addrPerBlock, above.ptrs root.block index =
      if vol.ptrs root.block index ∈ gone then 0 else vol.ptrs root.block index)
    (tidy : below.InUse root.block → below.Tidy → above.Tidy) :
    Walked vol above (seen ++ [root]) gone where
  super := super.trans walked.super
  blockMap blk := by rw [blockMap, walked.blockMap]
  outside blk untouched := by
    rw [io blk (Ne.symm (untouched root (by simp))),
      walked.outside blk fun visit member => untouched visit (List.mem_append_left _ member)]
  data visit member isData kept := by
    obtain early | isRoot := List.mem_append.mp member
    · rw [io _ (apart visit early), walked.data visit early isData kept]
    · obtain rfl := List.mem_singleton.mp isRoot
      omega
  inner visit member visitInner kept index small := by
    obtain early | isRoot := List.mem_append.mp member
    · rw [ptrs, io _ (apart visit early)]
      exact walked.inner visit early visitInner kept index small
    · obtain rfl := List.mem_singleton.mp isRoot
      exact pointers index small
  tidy inUse before := tidy (walked.inUse rootKept (inUse root (by simp)))
    (walked.tidy (fun visit member => inUse visit (List.mem_append_left _ member)) before)

/-- Releasing an indirect block nothing seen points to. -/
theorem Walked.release (cached : Cached) (walked : Walked vol above seen gone) (root : Visit)
    (member : root ∈ seen) (unpointed : ∀ visit ∈ seen, 0 < visit.level →
      ∀ index < vol.super.addrPerBlock, vol.ptrs visit.block index ≠ root.block) :
    Walked vol (releaseBlock cached above root.block) seen (gone ++ [root.block]) := by
  have io : ∀ blk, blk ≠ root.block →
    (releaseBlock cached above root.block).io blk = above.io blk :=
    fun blk different => testWipeBlock_io_of_ne _ _ _ different
  refine ⟨walked.super, fun blk => ?_, fun blk untouched => ?_, fun visit inSeen isData kept => ?_,
    fun visit inSeen inner kept index small => ?_,
    fun inUse before => (walked.tidy inUse before).release cached root.block⟩
  · rw [releaseBlock, testWipeBlock_blockMap, ext2fsBlockAllocStats_blockMap,
      inRange_congr walked.super]
    by_cases same : blk = root.block
    · subst same
      cases inRange : vol.inRange root.block <;> simp [walked.blockMap, inRange]
    · split <;> simp [same, walked.blockMap]
  · rw [io blk (Ne.symm (untouched root member)), walked.outside blk untouched]
  · rw [List.mem_append, List.mem_singleton, not_or] at kept
    rw [io _ kept.2, walked.data visit inSeen isData kept.1]
  · rw [List.mem_append, List.mem_singleton, not_or] at kept
    rw [ptrs, io _ kept.2]
    have pointer := walked.inner visit inSeen inner kept.1 index small
    rw [ptrs] at pointer
    rw [pointer]
    simp [unpointed visit inSeen inner index small]

end Root

/-- What one more visit loses. -/
theorem lost_snoc (selector : Selector ρ) (priv : ρ) (seen : List Visit) (visit : Visit) :
    lost selector priv (seen ++ [visit]) = lost selector priv seen ++
      if selector.drops (selector.after priv seen) visit = true then [visit.block] else [] := by
  rw [lost_append]
  by_cases drops : selector.drops (selector.after priv seen) visit = true <;>
    simp [lost, Selector.dropped, drops]

/-- The entries of an indirect block have been walked, and the block is written back if one of them
changed. -/
theorem EntriesWalked.writtenBack {below : List Visit} {stride : Nat} {ctx : IterCtx ρ}
    {blk : Nat} {loop : IterLoop ρ}
    (entries : EntriesWalked selector below 0 ctx.vol.super.addrPerBlock stride (ctx.vol.ptrs blk)
      { buf := ctx.vol.io blk, changed := {}, ret := {}, ctx := ctx } loop)
    (first : Nat) (apart : ∀ visit ∈ below, visit.block ≠ blk)
    (kept : blk ∉ lost selector ctx.priv below) :
    let written := if loop.changed.changed = true then
      { loop.ctx with vol := loop.ctx.vol.writeBlk blk loop.buf } else loop.ctx
    written.bcount = ctx.bcount + ctx.vol.super.addrPerBlock * stride ∧
      written.priv = selector.after ctx.priv below ∧
      Walked ctx.vol written.vol (below ++ [⟨blk, level + 1, first⟩])
        (lost selector ctx.priv below) := by
  obtain ⟨-, unchanged, buf, bcount, priv, walked⟩ := entries
  simp only at unchanged buf bcount priv walked
  refine ⟨?_, ?_, walked.with_root _ (Nat.succ_pos level) apart kept ?_ ?_ ?_ ?_ ?_⟩
  · split <;> exact bcount
  · split <;> exact priv
  · split <;> rfl
  · split <;> rfl
  · intro other different
    split
    · exact Function.update_of_ne different _ _
    · rfl
  · intro index small
    split
    · rw [ptrs, writeBlk_io, Function.update_self, buf index]
      simp only [Nat.zero_le, Nat.zero_add, small, true_and, and_self]
      rfl
    · rename_i quiet
      have none := (unchanged (by simpa using quiet)).2 index (Nat.zero_le _) (by omega)
      rw [if_neg none, walked.ptrs_outside apart]
  · intro inUse tidy
    split
    · exact tidy.writeBlk inUse _
    · exact tidy

/-- Nothing that is visited in a tree points to its root: the level falls along pointers. -/
theorem root_unpointed {vol : Volume} {below : List Visit} {root : Visit}
    (closed : vol.Closed (below ++ [root])) (apart : ∀ visit ∈ below, visit.block ≠ root.block)
    (levels : ∀ visit ∈ below ++ [root], visit.level ≤ root.level) (present : root.block ≠ 0)
    (visit : Visit) (member : visit ∈ below ++ [root]) (inner : 0 < visit.level)
    (index : Nat) (small : index < vol.super.addrPerBlock) :
    vol.ptrs visit.block index ≠ root.block := by
  intro same
  obtain ⟨target, inSeen, targetEq, lower⟩ := closed visit member inner index small
    (by rw [same]; exact present)
  have bounded := levels visit member
  obtain early | isRoot := List.mem_append.mp inSeen
  · exact apart target early (targetEq.trans same)
  · obtain rfl := List.mem_singleton.mp isRoot
    omega

/-- An indirect block. -/
theorem iterateIndirect_walks {cached : Cached} {func : IterFunc ρ}
    (depthFirst : mode.depthTraverse = true) (sparse : mode.append = false)
    (selects : Selects cached func selector) (childWalks : Walks selector level child) :
    Walks selector (level + 1)
      (fun ctx => iterateIndirect mode func (-((level + 1 : Nat) : Int)) child
      (ctx.vol.super.addrPerBlock ^ level) ctx) := by
  intro ctx blk present seen seenEq apart inRange
  have split : seen = ctx.vol.entryVisits (fun _ => level) (ctx.vol.ptrs blk)
      (fun other => ctx.bcount + other * ctx.vol.super.addrPerBlock ^ level) 0
      ctx.vol.super.addrPerBlock ++ [⟨blk, level + 1, ctx.bcount⟩] := by
    rw [seenEq, visits, if_neg present]
    rfl
  have closed : ctx.vol.Closed seen := seenEq ▸ closed_visits _ _ _ _
  have levels : ∀ visit ∈ seen, visit.level ≤ level + 1 :=
    fun visit member => (visit_range (seenEq ▸ member)).1
  clear seenEq
  subst split
  have entries := iterateEntries_walks sparse childWalks (ctx.vol.ptrs blk) ctx.bcount
    ctx.vol.super.addrPerBlock 0 { buf := ctx.vol.io blk, changed := {}, ret := {}, ctx := ctx } rfl
    (fun other _ => rfl) (by simp) _ rfl (List.Nodup.of_append_left (List.map_append ▸ apart))
    (fun visit member => inRange visit (List.mem_append_left _ member))
  have rootInRange : ctx.vol.inRange blk = true :=
    inRange ⟨blk, level + 1, ctx.bcount⟩ (by simp)
  simp only [iterateIndirect, depthFirst, if_true, present, decide_false, Bool.false_or,
    rootInRange, Bool.not_true, Bool.false_eq_true, if_false, Bool.true_and]
  generalize ctx.vol.entryVisits (fun _ => level) (ctx.vol.ptrs blk)
    (fun other => ctx.bcount + other * ctx.vol.super.addrPerBlock ^ level) 0
    ctx.vol.super.addrPerBlock = below at *
  generalize iterateEntries mode child _ _ _ _ = loop at entries ⊢
  rw [List.map_append, List.map_singleton] at apart
  have notBelow : blk ∉ below.map Visit.block :=
    fun member => List.disjoint_of_nodup_append apart member (List.mem_singleton_self _)
  have apartRoot : ∀ visit ∈ below, visit.block ≠ blk :=
    fun visit member same => notBelow (same ▸ List.mem_map_of_mem member)
  have rootKept : blk ∉ lost selector ctx.priv below :=
    fun inLost => notBelow (lost_subset _ _ _ inLost)
  obtain ⟨bcount, priv, above⟩ := entries.writtenBack ctx.bcount apartRoot rootKept
  rw [show loop.ret = {} from entries.ret, if_pos (by rfl)]
  generalize (if loop.changed.changed = true then
    { loop.ctx with vol := loop.ctx.vol.writeBlk blk loop.buf } else loop.ctx) = written
    at bcount priv above ⊢
  -- the callback is handed the block itself last
  have answer := selects written.vol ⟨blk, level + 1, ctx.bcount⟩ written.priv
  simp only [visitCount, Nat.add_one_ne_zero, if_false] at answer
  simp only [IterFunc.apply, answer]
  rw [priv]
  have span : written.bcount = ctx.bcount + ctx.vol.super.addrPerBlock ^ (level + 1) := by
    rw [bcount]
    ring
  have gone := lost_snoc selector ctx.priv below ⟨blk, level + 1, ctx.bcount⟩
  by_cases drops : selector.drops (selector.after ctx.priv below)
    ⟨blk, level + 1, ctx.bcount⟩ = true
  · rw [if_pos drops] at gone
    rw [if_pos drops]
    refine ⟨⟨rfl, rfl⟩, fun _ => rfl, by simp [gone], span, by simp [Selector.after], ?_⟩
    rw [gone]
    exact above.release cached ⟨blk, level + 1, ctx.bcount⟩ (by simp)
      (root_unpointed closed apartRoot levels present)
  · rw [if_neg drops, List.append_nil] at gone
    rw [if_neg drops]
    refine ⟨⟨rfl, rfl⟩, fun inGone => ?_, ?_, span, by simp [Selector.after], ?_⟩
    · rw [gone] at inGone
      exact absurd inGone rootKept
    · rw [gone, if_neg rootKept]
    · rw [gone]
      exact above

/-- The iteration below a pointer with `level` levels of indirect blocks. -/
def iterateLevel (mode : IterMode) (func : IterFunc ρ) : Nat → IterChild ρ
  | 0 => iterateData func
  | level + 1 => fun ctx => iterateIndirect mode func (-((level + 1 : Nat) : Int))
      (iterateLevel mode func level) (ctx.vol.super.addrPerBlock ^ level) ctx

/-- A tree of any level is walked as its list of visits says, by induction on the level. -/
theorem iterateLevel_walks {cached : Cached} {func : IterFunc ρ}
    (depthFirst : mode.depthTraverse = true) (sparse : mode.append = false)
    (selects : Selects cached func selector) (level : Nat) :
    Walks selector level (iterateLevel mode func level) := by
  induction level with
  | zero => exact iterateData_walks selects
  | succ level inductionHypothesis =>
      exact iterateIndirect_walks depthFirst sparse selects inductionHypothesis

/-- The levels of indirect blocks below a pointer of the inode. -/
def slotLevel (slot : Nat) : Nat := slot - 11

/-- The first logical block below a pointer of the inode. -/
def slotFirst (addrPerBlock : Nat) : Nat → Nat
  | 0 => 0
  | slot + 1 => slotFirst addrPerBlock slot + addrPerBlock ^ slotLevel slot

/-- The visits below all pointers of an inode. -/
def inodeVisits (vol : Volume) (iBlock : Nat → Nat) : List Visit :=
  vol.entryVisits slotLevel iBlock (slotFirst vol.super.addrPerBlock) 0 EXT2_N_BLOCKS

/-- Well-formed trees: every block is in the volume and none is met twice. -/
structure TreesApart (vol : Volume) (iBlock : Nat → Nat) : Prop where
  inRange : ∀ visit ∈ vol.inodeVisits iBlock, vol.inRange visit.block = true
  apart : ((vol.inodeVisits iBlock).map Visit.block).Nodup

/-- One of the fifteen pointers. -/
def iterateLevelSlot (mode : IterMode) (func : IterFunc ρ) (addrPerBlock : Nat) (top : IterTop ρ)
    (slot : Nat) : IterTop ρ :=
  iterateSlot mode (iterateLevel mode func (slotLevel slot))
    (addrPerBlock ^ slotLevel slot) slot top

/-- `ext2fs_block_iterate2` goes through the fifteen pointers alike. -/
theorem iterateBlocks_eq (mode : IterMode) (func : IterFunc ρ) (vol : Volume) (blocks : Nat → Nat)
    (priv : ρ) : iterateBlocks mode func vol blocks priv =
      (List.range' 0 EXT2_N_BLOCKS).foldl (iterateLevelSlot mode func vol.super.addrPerBlock)
        { blocks := blocks, ret := {}, ctx := { vol := vol, bcount := 0, priv := priv } } := by
  have ind : blockIterateInd mode func = iterateLevel mode func 1 := by
    funext ctx blk
    simp [blockIterateInd, iterateLevel, BLOCK_COUNT_IND]
  have dind : blockIterateDind mode func = iterateLevel mode func 2 := by
    funext ctx blk
    simp only [blockIterateDind, iterateLevel, ind, pow_one]
    rfl
  have tind : blockIterateTind mode func = iterateLevel mode func 3 := by
    funext ctx blk
    simp only [blockIterateTind, iterateLevel, dind, sq]
    rfl
  have slots : List.range' 0 EXT2_N_BLOCKS = List.range EXT2_NDIR_BLOCKS ++
    [EXT2_IND_BLOCK, EXT2_DIND_BLOCK, EXT2_TIND_BLOCK] := rfl
  have direct : ∀ top, (List.range EXT2_NDIR_BLOCKS).foldl
      (iterateLevelSlot mode func vol.super.addrPerBlock) top =
      (List.range EXT2_NDIR_BLOCKS).foldl
        (fun top slot => iterateSlot mode (iterateData func) 1 slot top) top := by
    intro top
    refine List.foldl_ext _ _ _ fun top slot member => ?_
    have low : slotLevel slot = 0 := by
      have small := List.mem_range.mp member
      simp only [EXT2_NDIR_BLOCKS] at small
      simp only [slotLevel]
      omega
    simp only [iterateLevelSlot, low, iterateLevel, pow_zero]
  rw [slots, List.foldl_append, direct]
  simp only [iterateBlocks, List.foldl_cons, List.foldl_nil, iterateLevelSlot, ind, dind, tind]
  simp only [slotLevel, EXT2_IND_BLOCK, EXT2_DIND_BLOCK, EXT2_TIND_BLOCK, Nat.reduceSub, pow_one]
  ring_nf

/-- What going through `count` of the pointers of an inode has come to. -/
structure SlotsWalked (selector : Selector ρ) (seen : List Visit) (index count : Nat)
    (top top' : IterTop ρ) : Prop where
  abort : top'.ret.abort = false
  unchanged : top'.ret.changed = false → top.ret.changed = false ∧
    ∀ slot, index ≤ slot → slot < index + count → top.blocks slot ∉ lost selector top.ctx.priv seen
  blocks : ∀ slot, top'.blocks slot =
    if (index ≤ slot ∧ slot < index + count) ∧ top.blocks slot ∈ lost selector top.ctx.priv seen
    then 0 else top.blocks slot
  priv : top'.ctx.priv = selector.after top.ctx.priv seen
  walked : Walked top.ctx.vol top'.ctx.vol seen (lost selector top.ctx.priv seen)

section Slots

variable {seen head tail : List Visit} {index count : Nat} {top top' : IterTop ρ}

/-- An empty pointer before the others only moves the block count. -/
theorem SlotsWalked.hole (span : Nat) (empty : top.blocks index = 0)
    (labelled : ∀ visit ∈ seen, visit.block ≠ 0)
    (rest : SlotsWalked selector seen (index + 1) count
      { top with ctx := { top.ctx with bcount := top.ctx.bcount + span } } top') :
    SlotsWalked selector seen index (count + 1) top top' := by
  have notLost : top.blocks index ∉ lost selector top.ctx.priv seen :=
    hole_not_lost empty labelled
  have first : top.blocks index ∈ lost selector top.ctx.priv seen ↔ top.blocks index ∈ [] := by
    simp [notLost]
  refine ⟨rest.abort, fun quiet => ?_, ?_, rest.priv, rest.walked⟩
  · obtain ⟨before, none⟩ := rest.unchanged quiet
    exact ⟨before, spared_cons first (fun _ _ _ => Iff.rfl) (by simp) none⟩
  · exact cleared_cons first (fun _ _ _ => Iff.rfl) (by simp) (fun _ _ => rfl) rest.blocks

/-- A pointer with a walked tree below it, before the others. -/
theorem SlotsWalked.cons {span blk : Nat} {flags : IterFlags} {ctx : IterCtx ρ}
    (split : RowSplit top.ctx.vol top.blocks index count head tail)
    (here : ChildWalked selector head span top.ctx (top.blocks index) (flags, blk, ctx))
    (rest : SlotsWalked selector tail (index + 1) count
      { blocks := Function.update top.blocks index blk, ret := top.ret.or flags, ctx := ctx }
      top') :
    SlotsWalked selector (head ++ tail) index (count + 1) top top' := by
  obtain ⟨-, changed, pointer, -, priv, walked⟩ := here
  obtain ⟨abort, unchanged, blocks, priv', walked'⟩ := rest
  simp only at changed pointer priv walked unchanged blocks priv' walked'
  rw [priv] at unchanged blocks priv' walked'
  have others : ∀ slot, index + 1 ≤ slot → Function.update top.blocks index blk slot =
      top.blocks slot := fun slot low => Function.update_of_ne (by omega) _ _
  refine ⟨abort, fun quiet => ?_, ?_, ?_, split.walked walked walked'⟩
  · obtain ⟨before, none⟩ := unchanged quiet
    simp only [IterFlags.or, Bool.or_eq_false_iff] at before
    refine ⟨before.1, spared_cons split.first_lost (fun _ => split.other_lost) ?_
      fun slot low high => others slot low ▸ none slot low high⟩
    intro inLost
    rw [changed inLost] at before
    cases before.2
  · have rest : ∀ slot, top'.blocks slot =
        if (index + 1 ≤ slot ∧ slot < index + 1 + count) ∧
          top.blocks slot ∈ lost selector (selector.after top.ctx.priv head) tail
        then 0 else Function.update top.blocks index blk slot := by
      intro slot
      rw [blocks slot]
      by_cases later : index + 1 ≤ slot
      · simp only [others slot later]
      · simp only [later, false_and, if_false]
    refine cleared_cons split.first_lost (fun _ => split.other_lost) ?_ ?_ rest
    · rw [Function.update_self, pointer]
    · exact fun slot different => Function.update_of_ne different _ _
  · rw [priv', Selector.after_append]

end Slots

/-- The loop over the pointers of the inode. -/
theorem iterateSlots_walks {cached : Cached} {func : IterFunc ρ}
    (depthFirst : mode.depthTraverse = true) (sparse : mode.append = false)
    (selects : Selects cached func selector) (count index : Nat) (top : IterTop ρ)
    (going : top.ret.abort = false)
    (counted : top.ctx.bcount = slotFirst top.ctx.vol.super.addrPerBlock index) (seen : List Visit)
    (seenEq : top.ctx.vol.entryVisits slotLevel top.blocks
      (slotFirst top.ctx.vol.super.addrPerBlock) index count = seen)
    (apart : (seen.map Visit.block).Nodup)
    (inRange : ∀ visit ∈ seen, top.ctx.vol.inRange visit.block = true) :
    SlotsWalked selector seen index count top ((List.range' index count).foldl
      (iterateLevelSlot mode func top.ctx.vol.super.addrPerBlock) top) := by
  induction count generalizing index top seen with
  | zero =>
      subst seenEq
      refine ⟨going, fun quiet => ⟨quiet, fun slot _ _ => by omega⟩, fun slot => ?_, rfl, ?_⟩
      · rw [if_neg (by omega)]
        rfl
      · exact Walked.refl _
  | succ count inductionHypothesis =>
      rw [List.range'_succ, List.foldl_cons]
      simp only [iterateLevelSlot, iterateSlot, going, Bool.false_eq_true, if_false, sparse,
        Bool.not_false, Bool.and_true, decide_eq_true_eq]
      by_cases empty : top.blocks index = 0
      · rw [entryVisits_succ, empty, visits_zero, List.nil_append] at seenEq
        rw [if_pos empty]
        refine SlotsWalked.hole (top.ctx.vol.super.addrPerBlock ^ slotLevel index) empty
          (fun _ member => entryVisits_block_ne_zero (seenEq ▸ member)) ?_
        exact inductionHypothesis (index + 1) { top with ctx := { top.ctx with
          bcount := top.ctx.bcount + top.ctx.vol.super.addrPerBlock ^ slotLevel index } } going
          (by simp only [counted]; rfl) seen seenEq apart inRange
      · rw [if_neg empty]
        have split := rowSplit_entryVisits empty (seenEq ▸ apart)
        rw [entryVisits_succ] at seenEq
        subst seenEq
        have here := iterateLevel_walks depthFirst sparse selects (slotLevel index) top.ctx
          (top.blocks index) empty _ rfl
          (by rw [counted]; exact List.Nodup.of_append_left (List.map_append ▸ apart))
          (fun visit member => inRange visit
            (List.mem_append_left _ (by rwa [counted] at member)))
        rw [counted] at here
        generalize iterateLevel mode func (slotLevel index) top.ctx (top.blocks index) = outcome
          at here ⊢
        obtain ⟨flags, blk, ctx⟩ := outcome
        have super : ctx.vol.super = top.ctx.vol.super := here.walked.super
        have smooth : flags.abort = false := here.smooth.1
        have others : ctx.vol.entryVisits slotLevel (Function.update top.blocks index blk)
            (slotFirst ctx.vol.super.addrPerBlock) (index + 1) count =
            top.ctx.vol.entryVisits slotLevel top.blocks
              (slotFirst top.ctx.vol.super.addrPerBlock) (index + 1) count := by
          refine Eq.trans ?_ (here.walked.entryVisits_eq split.apart)
          simp only [super, entryVisits]
          refine List.flatMap_congr fun slot member => ?_
          have low := (List.mem_range'_1.mp member).1
          rw [Function.update_of_ne (by omega)]
        have rest := inductionHypothesis (index + 1)
          { blocks := Function.update top.blocks index blk, ret := top.ret.or flags, ctx := ctx }
          (by simp [IterFlags.or, going, smooth])
          (by simp only [super, show ctx.bcount = _ from here.bcount, counted]; rfl) _ others
          (List.Nodup.of_append_right (List.map_append ▸ apart))
          (fun visit member => by
            rw [inRange_congr super]
            exact inRange visit (List.mem_append_right _ member))
        simp only [super] at rest
        exact SlotsWalked.cons split here rest

/-- The whole iteration: what it reports, leaves in the inode and does to the volume. -/
theorem iterateBlocks_walks {cached : Cached} {func : IterFunc ρ}
    (depthFirst : mode.depthTraverse = true) (sparse : mode.append = false)
    (selects : Selects cached func selector) (vol : Volume) (blocks : Nat → Nat) (priv : ρ)
    (apart : ((vol.inodeVisits blocks).map Visit.block).Nodup)
    (inRange : ∀ visit ∈ vol.inodeVisits blocks, vol.inRange visit.block = true) :
    SlotsWalked selector (vol.inodeVisits blocks) 0 EXT2_N_BLOCKS
      { blocks := blocks, ret := {}, ctx := { vol := vol, bcount := 0, priv := priv } }
      (iterateBlocks mode func vol blocks priv) := by
  rw [iterateBlocks_eq]
  exact iterateSlots_walks depthFirst sparse selects EXT2_N_BLOCKS 0
    { blocks := blocks, ret := {}, ctx := { vol := vol, bcount := 0, priv := priv } } rfl rfl _ rfl
    apart inRange

end Iterating

section Inode

variable {vol vol' : Volume} {iBlock iBlock' : Nat → Nat} {visit : Visit}

/-- The slots of the inode map ascending ranges of blocks. -/
theorem slotFirst_monotone (addrPerBlock : Nat) : Monotone (slotFirst addrPerBlock) :=
  monotone_nat_of_le_succ fun _ => Nat.le_add_right _ _

/-- The first logical blocks below the pointers of an inode. -/
theorem slotFirst_values (addrPerBlock : Nat) : (∀ slot ≤ 12, slotFirst addrPerBlock slot = slot) ∧
    slotFirst addrPerBlock 13 = 12 + addrPerBlock ∧
    slotFirst addrPerBlock 14 = 12 + addrPerBlock + addrPerBlock ^ 2 ∧
    slotFirst addrPerBlock 15 = capacity addrPerBlock := by
  have direct : ∀ slot ≤ 12, slotFirst addrPerBlock slot = slot := by
    intro slot small
    induction slot with
    | zero => rfl
    | succ slot inductionHypothesis =>
        rw [slotFirst, inductionHypothesis (by omega), slotLevel, Nat.sub_eq_zero_of_le (by omega),
          pow_zero]
  have ind : slotFirst addrPerBlock 13 = 12 + addrPerBlock := by
    rw [slotFirst, direct 12 le_rfl, slotLevel, pow_one]
  have dind : slotFirst addrPerBlock 14 = 12 + addrPerBlock + addrPerBlock ^ 2 := by
    rw [slotFirst, ind, slotLevel]
  refine ⟨direct, ind, dind, ?_⟩
  rw [slotFirst, dind, slotLevel, capacity, EXT2_NDIR_BLOCKS]
  ring

/-- Where a visit of an inode's trees lies: below which pointer, and on which numbers. -/
theorem inodeVisit_range (member : visit ∈ vol.inodeVisits iBlock) :
    ∃ slot < EXT2_N_BLOCKS, visit ∈ visits vol.ptrs vol.super.addrPerBlock (slotLevel slot)
        (iBlock slot) (slotFirst vol.super.addrPerBlock slot) ∧
      visit.level ≤ slotLevel slot ∧ slotFirst vol.super.addrPerBlock slot ≤ visit.first ∧
      visit.bound vol.super.addrPerBlock ≤ slotFirst vol.super.addrPerBlock (slot + 1) ∧
      vol.super.addrPerBlock ^ visit.level ∣
        visit.first - slotFirst vol.super.addrPerBlock slot := by
  obtain ⟨slot, ⟨-, small⟩, below⟩ := mem_entryVisits.mp member
  obtain ⟨lower, starts, ends, aligned⟩ := visit_range below
  exact ⟨slot, by omega, below, lower, starts, ends, aligned⟩

/-- The visits come in the order of their numbers. -/
theorem inodeVisits_pairwise :
    (vol.inodeVisits iBlock).Pairwise (Visit.Before vol.super.addrPerBlock) := by
  refine pairwise_flatMap (slotFirst_monotone vol.super.addrPerBlock) ?_
    (fun _ => visits_pairwise) _ _
  intro slot visit member
  obtain ⟨-, starts, ends, -⟩ := visit_range member
  exact ⟨starts, ends⟩

/-- The first digit of a number in front of the others. -/
theorem digits_cons (addrPerBlock level nr : Nat) : digits addrPerBlock (level + 1) nr =
    nr / addrPerBlock ^ (level + 1) :: digits addrPerBlock level
      (nr % addrPerBlock ^ (level + 1)) := by
  induction level generalizing nr with
  | zero => simp [digits]
  | succ level inductionHypothesis =>
      have shift : nr / addrPerBlock / addrPerBlock ^ (level + 1) =
        nr / addrPerBlock ^ (level + 2) := by
        rw [Nat.div_div_eq_div_mul, ← pow_succ']
      have rest : nr % addrPerBlock ^ (level + 2) / addrPerBlock =
          nr / addrPerBlock % addrPerBlock ^ (level + 1) := by
        rw [pow_succ', Nat.mod_mul_right_div_self]
      have last : nr % addrPerBlock ^ (level + 2) % addrPerBlock = nr % addrPerBlock :=
        Nat.mod_mod_of_dvd _ (Dvd.intro_left _ (pow_succ _ _).symm)
      rw [digits, inductionHypothesis, shift, digits, rest, last, List.cons_append]

/-- The path to a number has the digits of the number. -/
theorem numberPath_eq_digits (addrPerBlock level nr : Nat) :
    numberPath addrPerBlock (level + 1) nr = digits addrPerBlock level nr := by
  induction level generalizing nr with
  | zero => simp [numberPath, digits]
  | succ level inductionHypothesis => rw [numberPath, inductionHypothesis, digits_cons]

/-- A logical block of the inode lies below one of its pointers. -/
theorem exists_slot {addrPerBlock block : Nat} (small : block < capacity addrPerBlock) :
    ∃ slot < EXT2_N_BLOCKS, slotFirst addrPerBlock slot ≤ block ∧
      block < slotFirst addrPerBlock (slot + 1) := by
  obtain ⟨direct, ind, dind, tind⟩ := slotFirst_values addrPerBlock
  rcases Nat.lt_or_ge block 12 with low | low
  · refine ⟨block, by simp only [EXT2_N_BLOCKS]; omega, (direct block (by omega)).le, ?_⟩
    rw [direct (block + 1) (by omega)]
    omega
  rcases Nat.lt_or_ge block (12 + addrPerBlock) with inInd | low'
  · exact ⟨12, by decide, by rw [direct 12 le_rfl]; exact low, by rw [ind]; exact inInd⟩
  rcases Nat.lt_or_ge block (12 + addrPerBlock + addrPerBlock ^ 2) with inDind | low''
  · exact ⟨13, by decide, by rw [ind]; exact low', by rw [dind]; exact inDind⟩
  · exact ⟨14, by decide, by rw [dind]; exact low'', by rw [tind]; exact small⟩

/-- The path to a logical block, by the pointer it lies below. -/
theorem blockPath_eq {addrPerBlock block slot : Nat} (inside : slot < EXT2_N_BLOCKS)
    (starts : slotFirst addrPerBlock slot ≤ block)
    (ends : block < slotFirst addrPerBlock (slot + 1)) :
    blockPath addrPerBlock block = (slot, numberPath addrPerBlock (slotLevel slot)
      (block - slotFirst addrPerBlock slot)) := by
  obtain ⟨direct, ind, dind, tind⟩ := slotFirst_values addrPerBlock
  simp only [EXT2_N_BLOCKS] at inside
  rcases Nat.lt_or_ge slot 12 with low | low
  · rw [direct slot (by omega)] at starts
    rw [direct (slot + 1) (by omega)] at ends
    obtain rfl : slot = block := by omega
    rw [blockPath, if_pos (by simpa [EXT2_NDIR_BLOCKS] using low), slotLevel,
      Nat.sub_eq_zero_of_le (by omega), numberPath]
  have square : addrPerBlock ^ 2 = addrPerBlock * addrPerBlock := sq _
  obtain rfl | rfl | rfl : slot = 12 ∨ slot = 13 ∨ slot = 14 := by omega
  · rw [direct 12 le_rfl] at starts ⊢
    rw [ind] at ends
    rw [blockPath, if_neg (by simp only [EXT2_NDIR_BLOCKS]; omega),
      if_pos (by simp only [EXT2_NDIR_BLOCKS]; omega), ← numberPath_eq_digits]
    rfl
  · rw [ind] at starts ⊢
    rw [dind] at ends
    rw [blockPath, if_neg (by simp only [EXT2_NDIR_BLOCKS]; omega),
      if_neg (by simp only [EXT2_NDIR_BLOCKS]; omega),
      if_pos (by simp only [EXT2_NDIR_BLOCKS]; omega), ← numberPath_eq_digits, Nat.sub_sub]
    rfl
  · rw [dind] at starts ⊢
    rw [blockPath, if_neg (by simp only [EXT2_NDIR_BLOCKS]; omega),
      if_neg (by simp only [EXT2_NDIR_BLOCKS]; omega),
      if_neg (by simp only [EXT2_NDIR_BLOCKS]; omega), ← numberPath_eq_digits, Nat.sub_sub,
      Nat.sub_sub, ← Nat.add_assoc, square]
    rfl

/-- The data blocks that are visited are those logical blocks are mapped to. -/
theorem mem_inodeVisits_data {blk block : Nat} : ⟨blk, 0, block⟩ ∈ vol.inodeVisits iBlock ↔
    block < capacity vol.super.addrPerBlock ∧ blk ≠ 0 ∧ vol.mapped iBlock block = blk := by
  have below : ∀ slot < EXT2_N_BLOCKS, slotFirst vol.super.addrPerBlock slot ≤ block →
      block < slotFirst vol.super.addrPerBlock (slot + 1) →
      (⟨blk, 0, block⟩ ∈ visits vol.ptrs vol.super.addrPerBlock (slotLevel slot) (iBlock slot)
          (slotFirst vol.super.addrPerBlock slot) ↔
        blk ≠ 0 ∧ vol.mapped iBlock block = blk) := by
    intro slot inside starts ends
    have data := @mem_visits_data vol.ptrs vol.super.addrPerBlock (slotLevel slot) (iBlock slot) blk
      (slotFirst vol.super.addrPerBlock slot) vol.super.addrPerBlock_pos
      (block - slotFirst vol.super.addrPerBlock slot)
    rw [Nat.add_sub_cancel' starts] at data
    rw [data, mapped, blockPath_eq inside starts ends]
    refine ⟨And.right, fun rest => ⟨?_, rest⟩⟩
    rw [slotFirst] at ends
    omega
  constructor
  · intro member
    obtain ⟨slot, inside, inSlot, -, starts, ends, -⟩ := inodeVisit_range member
    simp only [Visit.bound, pow_zero] at starts ends
    have last := slotFirst_monotone vol.super.addrPerBlock (show slot + 1 ≤ 15 from inside)
    rw [(slotFirst_values vol.super.addrPerBlock).2.2.2] at last
    exact ⟨by omega, (below slot inside starts ends).mp inSlot⟩
  · rintro ⟨small, rest⟩
    obtain ⟨slot, inside, starts, ends⟩ := exists_slot small
    exact mem_entryVisits.mpr
      ⟨slot, ⟨Nat.zero_le _, by omega⟩, (below slot inside starts ends).mpr rest⟩

/-- What is left of the trees of an inode when some blocks are gone, and everything below
them: the same visits without those blocks. -/
theorem Walked.inodeVisits_eq {gone : List Nat}
    (walked : Walked vol vol' (vol.inodeVisits iBlock) gone)
    (blocks : ∀ slot < EXT2_N_BLOCKS, iBlock' slot = if iBlock slot ∈ gone then 0 else iBlock slot)
    (unlabelled : 0 ∉ gone) (downward : ∀ visit ∈ vol.inodeVisits iBlock, 0 < visit.level →
      visit.block ∈ gone → ∀ index < vol.super.addrPerBlock, vol.ptrs visit.block index ≠ 0 →
        vol.ptrs visit.block index ∈ gone) :
    vol'.inodeVisits iBlock' =
      (vol.inodeVisits iBlock).filter (fun visit => decide (visit.block ∉ gone)) := by
  rw [inodeVisits, inodeVisits, entryVisits, entryVisits, List.filter_flatMap, walked.super]
  refine List.flatMap_congr fun slot member => ?_
  have inside := List.mem_range'_1.mp member
  rw [blocks slot (by omega)]
  have below : ∀ visit ∈ visits vol.ptrs vol.super.addrPerBlock (slotLevel slot) (iBlock slot)
      (slotFirst vol.super.addrPerBlock slot), visit ∈ vol.inodeVisits iBlock :=
    fun visit inSlot => mem_entryVisits.mpr ⟨slot, inside, inSlot⟩
  exact visits_pruned unlabelled (fun visit inSlot => walked.inner visit (below visit inSlot))
    fun visit inSlot => downward visit (below visit inSlot)

/-- A logical block of such an inode. -/
theorem Walked.mapped_eq {gone : List Nat}
    (walked : Walked vol vol' (vol.inodeVisits iBlock) gone) (left : vol'.inodeVisits iBlock' =
      (vol.inodeVisits iBlock).filter (fun visit => decide (visit.block ∉ gone))) {block : Nat}
    (small : block < capacity vol.super.addrPerBlock) :
    vol'.mapped iBlock' block =
      if vol.mapped iBlock block ∈ gone then 0 else vol.mapped iBlock block := by
  have before := fun blk => @mem_inodeVisits_data vol iBlock blk block
  have after := fun blk => @mem_inodeVisits_data vol' iBlock' blk block
  simp only [walked.super, left, List.mem_filter, before, small, true_and] at after
  by_cases present : vol'.mapped iBlock' block = 0
  · by_cases absent : vol.mapped iBlock block = 0
    · rw [present, absent, ite_self]
    · have notLeft := (after (vol.mapped iBlock block)).not.mpr
        fun both => both.1 (both.2.symm.trans present)
      rw [if_pos (by simpa [absent] using notLeft), present]
  · obtain ⟨⟨-, same⟩, kept⟩ := (after _).mpr ⟨present, rfl⟩
    rw [same, if_neg (by simpa using kept)]

end Inode

end Volume

end Ext2Fuse
