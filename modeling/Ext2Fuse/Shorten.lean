import Ext2Fuse.BlockWalk
import Ext2Fuse.Truncate

/-!
# Shortening a file

`do_shorten` lets `truncate_blocks_proc` decide on each block of the inode. A data block
goes when it lies behind the new end. An indirect block goes when a data block released
earlier on the walk was the first below an indirect block of its level or a higher one; the
callback keeps three flags for that. Written as a selector on the walk over the trees, this has
a closed form: which blocks go depends on the tree and the new length alone.
-/

namespace Ext2Fuse

open Lib Volume Program Fs

/-- `block` is the first logical block below an indirect block of `level` levels or more, as
the tests in `truncate_blocks_proc` see it. -/
def Boundary (addrPerBlock level block : Nat) : Prop :=
  (block = 12 ∨ block = 12 + addrPerBlock ∨
    block = 12 + addrPerBlock + addrPerBlock * addrPerBlock) ∨
  (level ≤ 2 ∧ 12 + addrPerBlock + addrPerBlock * addrPerBlock < block ∧
    addrPerBlock * addrPerBlock ∣ block - (12 + addrPerBlock + addrPerBlock * addrPerBlock)) ∨
  (level ≤ 1 ∧ 12 + addrPerBlock < block ∧ addrPerBlock ∣ block - 12)

/-- What `truncate_blocks_proc` decides on, visit by visit. -/
def truncateSelector : Selector TruncateBlocksInfo where
  drops info visit :=
    if toInt32 (visitCount visit) < 0 then deletesIndirect info (toInt32 (visitCount visit))
    else decide (toInt32 (visitCount visit) > info.lastBlockToKeep)
  next info visit :=
    if toInt32 (visitCount visit) < 0 then
      if deletesIndirect info (toInt32 (visitCount visit)) then info
      else { info with totalNumBlocks := info.totalNumBlocks + 1 }
    else if toInt32 (visitCount visit) > info.lastBlockToKeep then
      markIndirect info (toInt32 (visitCount visit))
    else { info with totalNumBlocks := info.totalNumBlocks + 1 }

/-- `truncate_blocks_proc` with a record of the blocks it hands to
`ext2fs_block_alloc_stats` with -1. -/
def truncateBlocksLogged (cached : Cached) : IterFunc (TruncateBlocksInfo × List Nat) :=
  fun vol blk blockcnt (info, released) =>
    if blockcnt < 0 then
      if deletesIndirect info blockcnt then
        ({ changed := true }, 0, releaseBlock cached vol blk, info, released ++ [blk])
      else ({}, blk, vol, { info with totalNumBlocks := info.totalNumBlocks + 1 }, released)
    else if blockcnt > info.lastBlockToKeep then
      ({ changed := true }, 0, releaseBlock cached vol blk, markIndirect info blockcnt,
        released ++ [blk])
    else ({}, blk, vol, { info with totalNumBlocks := info.totalNumBlocks + 1 }, released)

theorem truncateBlocksLogged_forgets (cached : Cached) :
    Forgets (fun vol blk count => truncateBlocksLogged cached vol blk (toInt32 count))
      (fun vol blk count => truncateBlocksProc cached vol blk (toInt32 count)) := by
  intro vol blk count info released
  simp only [truncateBlocksLogged, truncateBlocksProc]
  split
  · split <;> rfl
  · split <;> rfl

/-- The logging callback selects as truncate_blocks_proc does and keeps the log besides. -/
theorem truncateBlocksLogged_selects (cached : Cached) :
    Selects cached (fun vol blk count => truncateBlocksLogged cached vol blk (toInt32 count))
      truncateSelector.logged := by
  rintro vol visit ⟨info, released⟩
  simp only [truncateBlocksLogged, Selector.logged, truncateSelector]
  by_cases inner : toInt32 (visitCount visit) < 0
  · simp only [inner, if_true]
    split <;> simp_all
  · simp only [inner, if_false, decide_eq_true_eq]
    split <;> simp_all

section Flags

variable {info : TruncateBlocksInfo} {level block : Nat}

theorem visitCount_data {visit : Visit} (isData : visit.level = 0)
    (numbered : visit.first < 2 ^ 31) :
    toInt32 (visitCount visit) = visit.first := by
  simp only [visitCount, isData, if_true, toInt32]
  omega

theorem visitCount_inner {visit : Visit} (inner : 0 < visit.level) (low : visit.level ≤ 3) :
    toInt32 (visitCount visit) = -(visit.level : Int) := by
  simp only [visitCount, Nat.pos_iff_ne_zero.mp inner, if_false, toInt32]
  omega

theorem markIndirect_kept (block : Int) :
    (markIndirect info block).lastBlockToKeep = info.lastBlockToKeep ∧
      (markIndirect info block).numInIndirectBlock = info.numInIndirectBlock ∧
      (markIndirect info block).totalNumBlocks = info.totalNumBlocks := by
  simp only [markIndirect]
  repeat' split
  all_goals exact ⟨rfl, rfl, rfl⟩

/-- The test of `truncate_blocks_proc` for a multiple, as divisibility. -/
theorem emod_eq_zero_iff {divisor offset block : Nat} (above : offset ≤ block) :
    ((block : Int) - offset) % divisor = 0 ↔ divisor ∣ block - offset := by
  rw [← Int.natCast_sub above, ← Int.natCast_emod]
  norm_cast
  exact (Nat.dvd_iff_mod_eq_zero ..).symm

/-- A released data block raises the flags for the indirect blocks it is a boundary of. -/
theorem deletesIndirect_mark (positive : 0 < level) (low : level ≤ 3) :
    deletesIndirect (markIndirect info block) (-(level : Int)) = true ↔
      deletesIndirect info (-(level : Int)) = true ∨
        Boundary info.numInIndirectBlock level block := by
  obtain ⟨last, num, single, allBut, all, total, clear⟩ := info
  have square : (num : Int) * num = ((num * num : Nat) : Int) := by push_cast; rfl
  have single12 : 12 ≤ block → (((block : Int) - 12) % num = 0 ↔ num ∣ block - 12) :=
    fun above => emod_eq_zero_iff above
  have double : 12 + num + num * num ≤ block →
      (((block : Int) - 12 - (num + (num * num : Nat))) % (num * num : Nat) = 0 ↔
        num * num ∣ block - (12 + num + num * num)) := by
    intro above
    rw [← emod_eq_zero_iff above]
    push_cast
    rw [show (block : Int) - 12 - (num + num * num) = block - (12 + num + num * num) by ring]
  simp only [markIndirect, square, Boundary]
  generalize num * num = sq at *
  have levels : level = 1 ∨ level = 2 ∨ level = 3 := by omega
  have equals : ((block : Int) = 12 ↔ block = 12) ∧ ((block : Int) = num + 12 ↔ block = 12 + num) ∧
      ((block : Int) > num + 12 ↔ 12 + num < block) ∧
      ((block : Int) - 12 - (num + sq) = 0 ↔ block = 12 + num + sq) ∧
      ((block : Int) - 12 - (num + sq) > 0 ↔ 12 + num + sq < block) ∧
      ((block : Int) < 12 ↔ block < 12) := by omega
  obtain ⟨isFirst, isSecond, behind, isThird, behindThird, direct⟩ := equals
  simp only [isFirst, isSecond, behind, isThird, behindThird, direct]
  by_cases small : block < 12
  · have notBoundary : ¬ (block = 12) ∧ ¬ (block = 12 + num) ∧ ¬ (block = 12 + num + sq) ∧
        ¬ (12 + num + sq < block) ∧ ¬ (12 + num < block) := by omega
    simp [small, notBoundary]
  rw [if_neg small]
  by_cases first : block = 12
  · rw [if_pos first]
    obtain rfl | rfl | rfl := levels <;>
      simp [first, deletesIndirect, BLOCK_COUNT_IND, BLOCK_COUNT_DIND, BLOCK_COUNT_TIND]
  rw [if_neg first]
  by_cases second : block = 12 + num
  · rw [if_pos second]
    obtain rfl | rfl | rfl := levels <;>
      simp [second, deletesIndirect, BLOCK_COUNT_IND, BLOCK_COUNT_DIND, BLOCK_COUNT_TIND]
  rw [if_neg second]
  by_cases inside : block < 12 + num
  · have notBoundary : ¬ (block = 12 + num + sq) ∧ ¬ (12 + num + sq < block) ∧
        ¬ (12 + num < block) := by omega
    simp [first, second, notBoundary]
  have later : 12 + num < block := by omega
  rw [if_pos later]
  simp only [single12 (by omega), first, second, later, true_and, false_or]
  by_cases third : block = 12 + num + sq
  · rw [if_pos third]
    obtain rfl | rfl | rfl := levels <;>
      simp [third, deletesIndirect, BLOCK_COUNT_IND, BLOCK_COUNT_DIND, BLOCK_COUNT_TIND]
  rw [if_neg third]
  simp only [third, false_or]
  by_cases multiple : 12 + num + sq < block ∧ sq ∣ block - (12 + num + sq)
  · rw [if_pos ⟨multiple.1, (double multiple.1.le).mpr multiple.2⟩]
    by_cases start : num ∣ block - 12
    · obtain rfl | rfl | rfl := levels <;>
        simp [start, multiple, deletesIndirect, BLOCK_COUNT_IND, BLOCK_COUNT_DIND, BLOCK_COUNT_TIND]
    · obtain rfl | rfl | rfl := levels <;>
        simp [start, multiple, deletesIndirect, BLOCK_COUNT_IND, BLOCK_COUNT_DIND, BLOCK_COUNT_TIND]
  · rw [if_neg fun both => multiple ⟨both.1, (double (Nat.le_of_lt both.1)).mp both.2⟩]
    simp only [multiple, and_false, false_or]
    by_cases start : num ∣ block - 12
    · obtain rfl | rfl | rfl := levels <;>
        simp [start, deletesIndirect, BLOCK_COUNT_IND, BLOCK_COUNT_DIND, BLOCK_COUNT_TIND]
    · simp [start]

end Flags

/-- What the callback is started with. -/
def truncateInfo (last : Int) (addrPerBlock : Nat) : TruncateBlocksInfo :=
  { lastBlockToKeep := last, numInIndirectBlock := addrPerBlock }

/-- Visits as the walk over an inode makes them, with block counts that fit an `int`. -/
def IntNumbered (seen : List Visit) : Prop :=
  ∀ visit ∈ seen, visit.level ≤ 3 ∧ (visit.level = 0 → visit.first < 2 ^ 31)

/-- What the callback remembers after some visits: the indirect blocks of a level are to go
once a data block behind the new end has been met that is a boundary for the level; the others
have been counted. -/
structure Remembers (last : Int) (addrPerBlock : Nat) (seen : List Visit)
    (info : TruncateBlocksInfo) : Prop where
  lastBlock : info.lastBlockToKeep = last
  numIndirect : info.numInIndirectBlock = addrPerBlock
  deletes : ∀ level : Nat, 0 < level → level ≤ 3 → (deletesIndirect info (-(level : Int)) = true ↔
    ∃ visit ∈ seen, visit.level = 0 ∧ last < visit.first ∧
      Boundary addrPerBlock level visit.first)
  total : info.totalNumBlocks +
    (truncateSelector.dropped (truncateInfo last addrPerBlock) seen).length = seen.length

section Memory

variable {last : Int} {addrPerBlock : Nat} {info : TruncateBlocksInfo} {visit : Visit}

/-- A data block is dropped when it lies behind the last one kept. -/
theorem truncate_data (isData : visit.level = 0) (numbered : visit.first < 2 ^ 31) :
    truncateSelector.drops info visit = decide ((visit.first : Int) > info.lastBlockToKeep) ∧
      truncateSelector.next info visit = if (visit.first : Int) > info.lastBlockToKeep then
        markIndirect info visit.first
      else { info with totalNumBlocks := info.totalNumBlocks + 1 } := by
  have count := visitCount_data isData numbered
  have notNegative : ¬ ((visit.first : Int) < 0) := by omega
  simp only [truncateSelector, count, notNegative, if_false, and_self]

/-- An indirect block is dropped when the mark says that it is to be deleted. -/
theorem truncate_inner (inner : 0 < visit.level) (low : visit.level ≤ 3) :
    truncateSelector.drops info visit = deletesIndirect info (-(visit.level : Int)) ∧
      truncateSelector.next info visit = if deletesIndirect info (-(visit.level : Int)) then info
        else { info with totalNumBlocks := info.totalNumBlocks + 1 } := by
  have count := visitCount_inner inner low
  have negative : -(visit.level : Int) < 0 := by omega
  simp only [truncateSelector, count, negative, if_true, and_self]

/-- Counting a block changes nothing else. -/
theorem deletesIndirect_count (total : Nat) (level : Int) :
    deletesIndirect { info with totalNumBlocks := total } level = deletesIndirect info level := rfl

/-- After any visits the mark is what the last data block seen has left, by induction on them. -/
theorem truncate_remembers {seen : List Visit} (numbered : IntNumbered seen) :
    Remembers last addrPerBlock seen
      (truncateSelector.after (truncateInfo last addrPerBlock) seen) := by
  induction seen using List.reverseRecOn with
  | nil =>
      refine ⟨rfl, rfl, fun level positive low => ?_, rfl⟩
      simp [Selector.after, truncateInfo, deletesIndirect]
  | append_singleton seen visit inductionHypothesis =>
      obtain ⟨lastEq, numEq, deletes, total⟩ := inductionHypothesis fun other member =>
        numbered other (List.mem_append_left _ member)
      obtain ⟨low, fits⟩ := numbered visit (by simp)
      rw [Selector.after_append]
      have droppedEq : (truncateSelector.dropped (truncateInfo last addrPerBlock)
          (seen ++ [visit])).length =
          (truncateSelector.dropped (truncateInfo last addrPerBlock) seen).length +
          if truncateSelector.drops
            (truncateSelector.after (truncateInfo last addrPerBlock) seen) visit
          then 1 else 0 := by
        rw [Selector.dropped_append, List.length_append]
        simp only [Selector.dropped]
        split <;> rfl
      generalize truncateSelector.after (truncateInfo last addrPerBlock) seen = info at *
      have nextEq : truncateSelector.after info [visit] = truncateSelector.next info visit := rfl
      rw [nextEq]
      have counts : (seen ++ [visit]).length = seen.length + 1 := by simp
      have met : ∀ level : Nat, (∃ other ∈ seen ++ [visit], other.level = 0 ∧ last < other.first ∧
          Boundary addrPerBlock level other.first) ↔
          (∃ other ∈ seen, other.level = 0 ∧ last < other.first ∧
            Boundary addrPerBlock level other.first) ∨
          (visit.level = 0 ∧ last < visit.first ∧ Boundary addrPerBlock level visit.first) := by
        intro level
        simp only [List.mem_append, List.mem_singleton, or_and_right, exists_or, exists_eq_left]
      by_cases isData : visit.level = 0
      · obtain ⟨drops, next⟩ := @truncate_data info visit isData (fits isData)
        rw [drops] at droppedEq
        rw [next]
        by_cases gone : (visit.first : Int) > info.lastBlockToKeep
        · -- released: the flags it is a boundary for are raised
          rw [if_pos gone]
          simp only [gone, decide_true, if_true] at droppedEq
          obtain ⟨lastKept, numKept, totalKept⟩ := @markIndirect_kept info (visit.first : Int)
          refine ⟨lastKept.trans lastEq, numKept.trans numEq, fun level positive low => ?_, ?_⟩
          · rw [deletesIndirect_mark positive low, deletes level positive low, met, numEq]
            simp only [isData, true_and, show last < (visit.first : Int) from lastEq ▸ gone]
          · rw [totalKept, counts]
            omega
        · rw [if_neg gone]
          simp only [gone, decide_false, Bool.false_eq_true, if_false] at droppedEq
          refine ⟨lastEq, numEq, fun level positive low => ?_, ?_⟩
          · rw [deletesIndirect_count, deletes level positive low, met]
            simp only [show ¬ last < (visit.first : Int) from lastEq ▸ gone, false_and, and_false,
              or_false]
          · rw [counts]
            simp only
            omega
      · obtain ⟨drops, next⟩ := @truncate_inner info visit (Nat.pos_of_ne_zero isData) low
        rw [drops] at droppedEq
        rw [next]
        by_cases gone : deletesIndirect info (-(visit.level : Int)) = true
        · rw [if_pos gone]
          rw [if_pos gone] at droppedEq
          refine ⟨lastEq, numEq, fun level positive low => ?_, ?_⟩
          · rw [deletes level positive low, met]
            simp only [isData, false_and, or_false]
          · rw [counts]
            omega
        · rw [if_neg gone]
          rw [if_neg gone] at droppedEq
          refine ⟨lastEq, numEq, fun level positive low => ?_, ?_⟩
          · rw [deletesIndirect_count, deletes level positive low, met]
            simp only [isData, false_and, or_false]
          · rw [counts]
            simp only
            omega

end Memory

section Boundaries

variable {addrPerBlock level block slot : Nat}

theorem dvd_iff_eq_zero {divisor value : Nat} (small : value < divisor) :
    divisor ∣ value ↔ value = 0 :=
  ⟨fun divides => Nat.eq_zero_of_dvd_of_lt divides small, fun zero => zero ▸ Nat.dvd_zero _⟩

/-- Below a pointer of the inode, the boundaries of a level are the multiples of what an
indirect block of the level covers. -/
theorem boundary_iff (positive : 0 < addrPerBlock) (inside : slot < EXT2_N_BLOCKS)
    (inner : 0 < level) (low : level ≤ slotLevel slot)
    (starts : slotFirst addrPerBlock slot ≤ block)
    (ends : block < slotFirst addrPerBlock (slot + 1)) :
    Boundary addrPerBlock level block ↔
      addrPerBlock ^ level ∣ block - slotFirst addrPerBlock slot := by
  obtain ⟨direct, ind, dind, -⟩ := slotFirst_values addrPerBlock
  have square : 0 < addrPerBlock ^ 2 := Nat.pow_pos positive
  have divides : addrPerBlock ∣ addrPerBlock ^ 2 := Dvd.intro_left _ (pow_succ _ _).symm
  simp only [Boundary, ← sq]
  simp only [EXT2_N_BLOCKS, slotLevel] at inside low
  obtain rfl | rfl | rfl : slot = 12 ∨ slot = 13 ∨ slot = 14 := by omega
  · obtain rfl : level = 1 := by omega
    rw [direct 12 le_rfl] at starts ⊢
    rw [ind] at ends
    have others : ¬ (block = 12 + addrPerBlock) ∧ ¬ (block = 12 + addrPerBlock + addrPerBlock ^ 2) ∧
        ¬ (12 + addrPerBlock + addrPerBlock ^ 2 < block) ∧ ¬ (12 + addrPerBlock < block) := by omega
    have small : block - 12 < addrPerBlock := by omega
    rw [pow_one, dvd_iff_eq_zero small]
    simp only [others, false_and, and_false, or_false]
    omega
  · rw [ind] at starts ⊢
    rw [dind] at ends
    have others : ¬ (block = 12) ∧ ¬ (block = 12 + addrPerBlock + addrPerBlock ^ 2) ∧
        ¬ (12 + addrPerBlock + addrPerBlock ^ 2 < block) := by omega
    simp only [others, false_and, and_false, or_false, false_or]
    obtain rfl | rfl : level = 1 ∨ level = 2 := by omega
    · have shift : block - 12 = block - (12 + addrPerBlock) + addrPerBlock := by omega
      have same : addrPerBlock ∣ block - 12 ↔ addrPerBlock ∣ block - (12 + addrPerBlock) := by
        rw [shift, Nat.dvd_add_self_right]
      rw [pow_one, same]
      by_cases first : block = 12 + addrPerBlock
      · simp [first]
      · have later : 12 + addrPerBlock < block := by omega
        simp only [first, later, le_refl, true_and, false_or]
    · have small : block - (12 + addrPerBlock) < addrPerBlock ^ 2 := by omega
      have notSingle : ¬ (2 ≤ 1) := by omega
      rw [dvd_iff_eq_zero small]
      simp only [notSingle, false_and, or_false]
      omega
  · rw [dind] at starts ⊢
    rw [slotFirst, dind, slotLevel] at ends
    have later : 12 + addrPerBlock < block := by omega
    by_cases first : block = 12 + addrPerBlock + addrPerBlock ^ 2
    · simp [first]
    have behind : 12 + addrPerBlock + addrPerBlock ^ 2 < block := by omega
    have notRoot : ¬ (block = 12) ∧ ¬ (block = 12 + addrPerBlock) := by omega
    simp only [notRoot, first, behind, later, true_and, false_or]
    obtain rfl | rfl | rfl : level = 1 ∨ level = 2 ∨ level = 3 := by omega
    · have shift : block - 12 = block - (12 + addrPerBlock + addrPerBlock ^ 2) + addrPerBlock ^ 2 +
          addrPerBlock := by omega
      have same : addrPerBlock ∣ block - 12 ↔
          addrPerBlock ∣ block - (12 + addrPerBlock + addrPerBlock ^ 2) := by
        rw [shift, Nat.dvd_add_self_right]
        exact (Nat.dvd_add_iff_left divides).symm
      rw [pow_one, same]
      have coarser : addrPerBlock ^ 2 ∣ block - (12 + addrPerBlock + addrPerBlock ^ 2) →
          addrPerBlock ∣ block - (12 + addrPerBlock + addrPerBlock ^ 2) := divides.trans
      simp only [Nat.one_le_ofNat, le_refl, true_and]
      exact ⟨fun either => either.elim coarser id, .inr⟩
    · simp
    · have small : block - (12 + addrPerBlock + addrPerBlock ^ 2) < addrPerBlock ^ 3 := by
        rw [show 14 - 11 = 3 from rfl] at ends
        omega
      have lower : ¬ (3 ≤ 2) ∧ ¬ (3 ≤ 1) := by omega
      rw [dvd_iff_eq_zero small]
      simp only [lower, false_and, or_false, false_iff]
      omega

/-- A boundary of its level inside the numbers of a visit is the first of them. -/
theorem boundary_first {vol : Volume} {iBlock : Nat → Nat} {visit : Visit}
    (member : visit ∈ vol.inodeVisits iBlock) (inner : 0 < visit.level)
    (starts : visit.first ≤ block) (ends : block < visit.bound vol.super.addrPerBlock)
    (boundary : Boundary vol.super.addrPerBlock visit.level block) : block = visit.first := by
  obtain ⟨slot, inside, -, low, slotStarts, slotEnds, aligned⟩ := inodeVisit_range member
  rw [boundary_iff vol.super.addrPerBlock_pos inside inner low (by omega) (by omega)] at boundary
  have apart := Nat.dvd_sub boundary aligned
  rw [dvd_iff_eq_zero (by simp only [Visit.bound] at ends; omega)] at apart
  omega

/-- The first number of a visit is a boundary of its level. -/
theorem first_boundary {vol : Volume} {iBlock : Nat → Nat} {visit : Visit}
    (member : visit ∈ vol.inodeVisits iBlock) (inner : 0 < visit.level) :
    Boundary vol.super.addrPerBlock visit.level visit.first := by
  obtain ⟨slot, inside, -, low, slotStarts, slotEnds, aligned⟩ := inodeVisit_range member
  have room : 0 < vol.super.addrPerBlock ^ visit.level := Nat.pow_pos vol.super.addrPerBlock_pos
  have before : visit.first < visit.bound vol.super.addrPerBlock := Nat.lt_add_of_pos_right room
  exact (boundary_iff vol.super.addrPerBlock_pos inside inner low slotStarts (by omega)).mpr aligned

/-- A boundary of a level is one of every lower level. -/
theorem Boundary.mono {lower : Nat} (boundary : Boundary addrPerBlock level block)
    (le : lower ≤ level) : Boundary addrPerBlock lower block := by
  obtain root | ⟨low, double⟩ | ⟨low, single⟩ := boundary
  · exact .inl root
  · exact .inr (.inl ⟨le.trans low, double⟩)
  · exact .inr (.inr ⟨le.trans low, single⟩)

end Boundaries

/-- A well-formed block tree: every block is in the volume, none is met twice, and the
numbers of the data blocks fit an `int`. -/
structure BlockTree (vol : Volume) (iBlock : Nat → Nat) : Prop extends TreesApart vol iBlock where
  numbered : ∀ visit ∈ vol.inodeVisits iBlock, visit.level = 0 → visit.first < 2 ^ 31

/-- Which blocks go when everything behind the logical block `last` does: data blocks behind
it, and indirect blocks before whose end there is such a data block that is a boundary of
their level. -/
def Goes (vol : Volume) (iBlock : Nat → Nat) (last : Int) (visit : Visit) : Prop :=
  if visit.level = 0 then last < visit.first
  else ∃ other ∈ vol.inodeVisits iBlock, other.level = 0 ∧ last < other.first ∧
    other.first < visit.bound vol.super.addrPerBlock ∧
    Boundary vol.super.addrPerBlock visit.level other.first

instance (addrPerBlock level block : Nat) : Decidable (Boundary addrPerBlock level block) :=
  inferInstanceAs (Decidable ((block = 12 ∨ block = 12 + addrPerBlock ∨
      block = 12 + addrPerBlock + addrPerBlock * addrPerBlock) ∨
    (level ≤ 2 ∧ 12 + addrPerBlock + addrPerBlock * addrPerBlock < block ∧
      addrPerBlock * addrPerBlock ∣ block - (12 + addrPerBlock + addrPerBlock * addrPerBlock)) ∨
    (level ≤ 1 ∧ 12 + addrPerBlock < block ∧ addrPerBlock ∣ block - 12)))

instance (vol : Volume) (iBlock : Nat → Nat) (last : Int) (visit : Visit) :
    Decidable (Goes vol iBlock last visit) :=
  inferInstanceAs (Decidable (if visit.level = 0 then last < (visit.first : Int)
    else ∃ other ∈ vol.inodeVisits iBlock, other.level = 0 ∧ last < (other.first : Int) ∧
      other.first < visit.bound vol.super.addrPerBlock ∧
      Boundary vol.super.addrPerBlock visit.level other.first))

/-- The last logical block `do_shorten` keeps. -/
def lastBlock (blocksize length : Nat) : Int :=
  if length = 0 then -1 else ((length - 1) / blocksize : Nat)

/-- A block lies behind the last one kept when it begins at the length or later. -/
theorem lastBlock_lt {blocksize length block : Nat} (positive : 0 < blocksize) :
    lastBlock blocksize length < block ↔ length ≤ block * blocksize := by
  rw [lastBlock]
  split
  · omega
  · rw [Int.ofNat_lt, Nat.div_lt_iff_lt_mul positive]
    omega

section Goes

variable {vol : Volume} {iBlock : Nat → Nat} {last : Int} {visit : Visit}

/-- The visits of a tree have block numbers that fit an int. -/
theorem BlockTree.seen (tree : BlockTree vol iBlock) : IntNumbered (vol.inodeVisits iBlock) := by
  intro visit member
  obtain ⟨slot, inside, -, low, -⟩ := inodeVisit_range member
  simp only [EXT2_N_BLOCKS, slotLevel] at inside low
  exact ⟨by omega, tree.numbered visit member⟩

/-- The callback drops exactly the blocks that go. -/
theorem mem_dropped_truncate (tree : BlockTree vol iBlock)
    (member : visit ∈ vol.inodeVisits iBlock) :
    visit ∈ truncateSelector.dropped (truncateInfo last vol.super.addrPerBlock)
      (vol.inodeVisits iBlock) ↔ Goes vol iBlock last visit := by
  have numbered := tree.seen
  have ordered := @inodeVisits_pairwise vol iBlock
  have decides : ∀ earlier later, vol.inodeVisits iBlock = earlier ++ visit :: later →
      (truncateSelector.drops (truncateSelector.after
        (truncateInfo last vol.super.addrPerBlock) earlier) visit = true ↔
        Goes vol iBlock last visit) := by
    intro earlier later split
    have memory := @truncate_remembers last vol.super.addrPerBlock earlier fun other inEarlier =>
      numbered other (split ▸ List.mem_append_left _ inEarlier)
    obtain ⟨low, fits⟩ := numbered visit member
    by_cases isData : visit.level = 0
    · rw [(truncate_data isData (fits isData)).1, memory.lastBlock, decide_eq_true_eq, Goes,
        if_pos isData]
    · have inner := Nat.pos_of_ne_zero isData
      rw [(truncate_inner inner low).1, memory.deletes _ inner low, Goes, if_neg isData]
      rw [split, List.pairwise_append, List.pairwise_cons] at ordered
      obtain ⟨-, ⟨after, -⟩, before⟩ := ordered
      constructor
      · rintro ⟨other, inEarlier, otherData, behind, boundary⟩
        have ends := (before other inEarlier visit (by simp)).1
        simp only [Visit.bound, otherData, pow_zero] at ends
        exact ⟨other, split ▸ List.mem_append_left _ inEarlier, otherData, behind, ends, boundary⟩
      · rintro ⟨other, inTree, otherData, behind, ends, boundary⟩
        rw [split, List.mem_append, List.mem_cons] at inTree
        obtain inEarlier | rfl | inLater := inTree
        · exact ⟨other, inEarlier, otherData, behind, boundary⟩
        · exact absurd otherData isData
        · have starts := (after other inLater).2 otherData
          omega
  constructor
  · intro dropped
    obtain ⟨earlier, later, split, drops⟩ := Selector.mem_dropped.mp dropped
    exact (decides earlier later split).mp drops
  · intro goes
    obtain ⟨earlier, later, split⟩ := List.append_of_mem member
    exact Selector.mem_dropped.mpr ⟨earlier, later, split, (decides earlier later split).mpr goes⟩

/-- The blocks lost are those that go. -/
theorem mem_lost_truncate (tree : BlockTree vol iBlock) (member : visit ∈ vol.inodeVisits iBlock) :
    visit.block ∈ lost truncateSelector (truncateInfo last vol.super.addrPerBlock)
      (vol.inodeVisits iBlock) ↔ Goes vol iBlock last visit := by
  rw [lost, Selector.mem_dropped_blocks tree.apart member, mem_dropped_truncate tree member]

/-- A boundary that makes an indirect block go comes no later than the first number below
the block. -/
theorem Goes.boundary (goes : Goes vol iBlock last visit) (member : visit ∈ vol.inodeVisits iBlock)
    (inner : 0 < visit.level) : ∃ other ∈ vol.inodeVisits iBlock, other.level = 0 ∧
      last < other.first ∧ other.first ≤ visit.first ∧
      Boundary vol.super.addrPerBlock visit.level other.first := by
  rw [Goes, if_neg (Nat.pos_iff_ne_zero.mp inner)] at goes
  obtain ⟨other, inTree, isData, behind, ends, boundary⟩ := goes
  refine ⟨other, inTree, isData, behind, ?_, boundary⟩
  rcases Nat.lt_or_ge other.first visit.first with before | starts
  · exact before.le
  · exact (boundary_first member inner starts ends boundary).le

/-- Nothing goes above a data block that stays. -/
theorem not_goes_above {block : Nat} (member : visit ∈ vol.inodeVisits iBlock)
    (inner : 0 < visit.level) (starts : visit.first ≤ block) (stays : (block : Int) ≤ last) :
    ¬ Goes vol iBlock last visit := by
  intro goes
  obtain ⟨other, -, -, behind, before, -⟩ := goes.boundary member inner
  omega

/-- Everything below a block that goes, goes. -/
theorem Goes.below (goes : Goes vol iBlock last visit) (member : visit ∈ vol.inodeVisits iBlock)
    {lower index : Nat} (inner : visit.level = lower + 1) {blk : Nat} :
    Goes vol iBlock last
      ⟨blk, lower, visit.first + index * vol.super.addrPerBlock ^ lower⟩ := by
  obtain ⟨other, inTree, isData, behind, before, boundary⟩ := goes.boundary member (by omega)
  rw [Goes]
  split
  · simp only
    omega
  · have room : 0 < vol.super.addrPerBlock ^ lower := Nat.pow_pos vol.super.addrPerBlock_pos
    refine ⟨other, inTree, isData, behind, ?_, boundary.mono (show lower ≤ visit.level by omega)⟩
    simp only [Visit.bound]
    omega

end Goes

/-- What shortening has done to the volume and the pointers of an inode. -/
structure Shortened (vol vol' : Volume) (iBlock iBlock' : Nat → Nat) (last : Int)
    (released : List Nat) : Prop where
  super : vol'.super = vol.super
  record : released = lost truncateSelector (truncateInfo last vol.super.addrPerBlock)
    (vol.inodeVisits iBlock)
  walked : Walked vol vol' (vol.inodeVisits iBlock) released
  blocks : ∀ slot < EXT2_N_BLOCKS, iBlock' slot = if iBlock slot ∈ released then 0 else iBlock slot
  left : vol'.inodeVisits iBlock' =
    (vol.inodeVisits iBlock).filter (fun visit => decide (visit.block ∉ released))

section Iteration

variable {vol : Volume} {iBlock : Nat → Nat} {last : Int} {cached : Cached}

/-- An entry of a visited indirect block of the inode is visited. -/
theorem entry_mem_inodeVisits {visit : Visit} (member : visit ∈ vol.inodeVisits iBlock)
    {lower index : Nat} (inner : visit.level = lower + 1) (small : index < vol.super.addrPerBlock)
    (present : vol.ptrs visit.block index ≠ 0) :
    ⟨vol.ptrs visit.block index, lower, visit.first + index * vol.super.addrPerBlock ^ lower⟩ ∈
      vol.inodeVisits iBlock := by
  obtain ⟨slot, inside, below⟩ := mem_entryVisits.mp member
  exact mem_entryVisits.mpr ⟨slot, inside, entry_mem_visits below inner small present⟩

/-- The iteration `do_shorten` starts, with a record of what it releases. -/
theorem iterateBlocks_shortens (tree : BlockTree vol iBlock) :
    let top := iterateBlocks { depthTraverse := true }
      (fun vol blk count => truncateBlocksProc cached vol blk (toInt32 count)) vol iBlock
      (truncateInfo last vol.super.addrPerBlock)
    let logged := iterateBlocks { depthTraverse := true }
      (fun vol blk count => truncateBlocksLogged cached vol blk (toInt32 count)) vol iBlock
      (truncateInfo last vol.super.addrPerBlock, [])
    Shortened vol top.ctx.vol iBlock top.blocks last logged.ctx.priv.2 ∧
      forgetTop logged = top ∧ (top.ret.changed = false → top.blocks = iBlock) ∧
      top.ctx.priv.totalNumBlocks + logged.ctx.priv.2.length = (vol.inodeVisits iBlock).length := by
  intro top logged
  have same : forgetTop logged = top :=
    iterateBlocks_forget (truncateBlocksLogged_forgets cached) _ _ _ _
  have walks := @iterateBlocks_walks _ { depthTraverse := true } _ cached _ rfl rfl
    (truncateBlocksLogged_selects cached) vol iBlock (truncateInfo last vol.super.addrPerBlock, [])
    tree.apart tree.inRange
  change SlotsWalked _ _ _ _ _ logged at walks
  obtain ⟨-, unchanged, blocks, priv, walked⟩ := walks
  have lostEq : lost truncateSelector.logged (truncateInfo last vol.super.addrPerBlock, [])
      (vol.inodeVisits iBlock) =
      lost truncateSelector (truncateInfo last vol.super.addrPerBlock)
        (vol.inodeVisits iBlock) := by
    rw [lost, Selector.logged_dropped, lost]
  simp only [Selector.logged_after, List.nil_append] at priv
  simp only [lostEq] at unchanged blocks walked
  have record : logged.ctx.priv.2 = lost truncateSelector
      (truncateInfo last vol.super.addrPerBlock) (vol.inodeVisits iBlock) := by
    rw [priv, lost]
  have topBlocks : top.blocks = logged.blocks := by rw [← same]; rfl
  have topVol : top.ctx.vol = logged.ctx.vol := by rw [← same]; rfl
  have topPriv : top.ctx.priv = logged.ctx.priv.1 := by rw [← same]; rfl
  have topRet : top.ret = logged.ret := by rw [← same]; rfl
  rw [← record] at unchanged blocks walked
  have slots : ∀ slot < EXT2_N_BLOCKS,
      top.blocks slot = if iBlock slot ∈ logged.ctx.priv.2 then 0 else iBlock slot := by
    intro slot inside
    rw [topBlocks, blocks slot]
    simp only [Nat.zero_le, Nat.zero_add, inside, true_and, and_self]
  have unlabelled : 0 ∉ logged.ctx.priv.2 := by
    intro member
    rw [record] at member
    obtain ⟨visit, inTree, zero⟩ := List.mem_map.mp (lost_subset _ _ _ member)
    exact entryVisits_block_ne_zero inTree zero
  rw [← topVol] at walked
  refine ⟨⟨walked.super, record, walked, slots,
    walked.inodeVisits_eq slots unlabelled ?_⟩, same, ?_, ?_⟩
  · intro visit member inner gone index small present
    rw [record, mem_lost_truncate tree member] at gone
    obtain ⟨lower, level⟩ := Nat.exists_eq_succ_of_ne_zero (Nat.pos_iff_ne_zero.mp inner)
    have below := entry_mem_inodeVisits member level small present
    rw [record]
    exact (mem_lost_truncate tree below).mpr (gone.below member level)
  · intro quiet
    rw [topRet] at quiet
    obtain ⟨-, none⟩ := unchanged quiet
    funext slot
    rw [topBlocks, blocks slot, if_neg]
    rintro ⟨⟨low, high⟩, member⟩
    exact none slot low high member
  · have memory := @truncate_remembers last vol.super.addrPerBlock _ tree.seen
    rw [topPriv, priv]
    simp only [List.length_map]
    exact memory.total

end Iteration

section Tick

variable {vol vol' : Volume} {iBlock iBlock' : Nat → Nat} {now : Nat}

/-- The clock does not matter to the trees. -/
theorem BlockTree.tick (tree : BlockTree vol iBlock) (now : Nat) :
    BlockTree { vol with tick := now } iBlock :=
  ⟨⟨tree.inRange, tree.apart⟩, tree.numbered⟩

theorem Shortened.of_tick {last : Int} {released : List Nat}
    (shortened : Shortened { vol with tick := now } vol' iBlock iBlock' last released) :
    Shortened vol vol' iBlock iBlock' last released where
  super := shortened.super
  record := shortened.record
  walked := ⟨shortened.walked.super, shortened.walked.blockMap, shortened.walked.outside,
    shortened.walked.data, shortened.walked.inner, fun inUse tidy =>
      shortened.walked.tidy inUse (tidy.congr rfl rfl rfl)⟩
  blocks := shortened.blocks
  left := shortened.left

end Tick

section Shorten

variable {δ : Type} {env : Env δ} {fs fs' : Fs δ} {fh fh' : File} {ino length : Nat}

/-- The iteration of `do_shorten` on the filesystem: keeping a record of what is released
makes no difference to the rest, and only the volume and the pointers of the inode change. -/
theorem ext2fsBlockIterate_shortens (cached : Cached) (valid : fs.validIno ino = true)
    (small : (fs.inodeTab ino).iSizeHigh = 0) (tree : BlockTree fs.vol (fs.inodeTab ino).iBlock)
    (last : Int) :
    let real := fs.ext2fsBlockIterate ino { depthTraverse := true } (truncateBlocksProc cached)
      (truncateInfo last fs.super.addrPerBlock)
    let logged := fs.ext2fsBlockIterate ino { depthTraverse := true } (truncateBlocksLogged cached)
      (truncateInfo last fs.super.addrPerBlock, [])
    ∃ vol iBlock, Shortened fs.vol vol (fs.inodeTab ino).iBlock iBlock last logged.2.1.2 ∧
      real.2.2 = { fs with
        vol := vol
        inodeTab := Function.update fs.inodeTab ino { fs.inodeTab ino with iBlock := iBlock } } ∧
      real.1 = logged.1 ∧ real.2.1 = logged.2.1.1 ∧ real.2.2 = logged.2.2 ∧
      real.2.1.totalNumBlocks + logged.2.1.2.length =
        (fs.vol.inodeVisits (fs.inodeTab ino).iBlock).length := by
  intro real logged
  have same : fs = { fs with
      inodeTab := Function.update fs.inodeTab ino
        { fs.inodeTab ino with iBlock := (fs.inodeTab ino).iBlock } } := by simp
  obtain ⟨shortened, forgotten, quiet, counted⟩ := @iterateBlocks_shortens fs.vol
    (fs.inodeTab ino).iBlock last cached tree
  have super := shortened.super
  have readable : (true && !LINUX_S_ISDIR (fs.inodeTab ino).iMode &&
      (fs.inodeTab ino).iSizeHigh != 0) = false := by simp [small]
  have realEq : real = fs.ext2fsBlockIterate2 ino true { depthTraverse := true }
    (fun vol blk count => truncateBlocksProc cached vol blk (toInt32 count))
    (truncateInfo last fs.vol.super.addrPerBlock) := rfl
  have loggedEq : logged = fs.ext2fsBlockIterate2 ino true { depthTraverse := true }
    (fun vol blk count => truncateBlocksLogged cached vol blk (toInt32 count))
    (truncateInfo last fs.vol.super.addrPerBlock, []) := rfl
  rw [realEq, loggedEq]
  simp only [ext2fsBlockIterate2, ext2fsReadInode, valid, if_true, readable, Bool.false_eq_true,
    if_false]
  generalize iterateBlocks { depthTraverse := true }
    (fun vol blk count => truncateBlocksProc cached vol blk (toInt32 count)) fs.vol
    (fs.inodeTab ino).iBlock (truncateInfo last fs.vol.super.addrPerBlock) = top at *
  generalize iterateBlocks { depthTraverse := true }
    (fun vol blk count => truncateBlocksLogged cached vol blk (toInt32 count)) fs.vol
    (fs.inodeTab ino).iBlock (truncateInfo last fs.vol.super.addrPerBlock, []) = record at *
  subst forgotten
  have validLater : ({ fs with vol := record.ctx.vol } : Fs δ).validIno ino = true := by
    rw [validIno_congr (by exact super) ino]
    exact valid
  simp only [forgetTop, forgetCtx] at *
  by_cases changed : record.ret.changed = true
  · simp only [changed, if_true, ext2fsWriteInode, validLater, true_and]
    exact ⟨_, _, shortened, rfl, counted⟩
  · have unmoved := quiet (by simpa using changed)
    simp only [changed, if_false, Bool.false_eq_true, true_and]
    rw [unmoved] at shortened
    refine ⟨_, _, shortened, ?_, counted⟩
    simp

/-- The blocks `do_shorten` hands to `ext2fs_block_alloc_stats` with -1, in order: the record
of its iteration. -/
def shortenReleases (env : Env δ) (fs : Fs δ) (fh : File) (ino length : Nat) : List Nat :=
  let (_, sized) := (setFileSize ino fh.inode length).run (lib env) fs
  let (_, (_, released), _) := sized.ext2fsBlockIterate ino { depthTraverse := true }
    (truncateBlocksLogged env.cached)
    (truncateInfo (lastBlock fs.super.blocksize length) fs.super.addrPerBlock, [])
  released

/-- What a successful `do_shorten` leaves: the trees of the inode shortened, and in `i_blocks`
what the blocks left take. -/
theorem doShorten_shortens (shorter : length < fh.inode.iSize)
    (tree : BlockTree fs.vol fh.inode.iBlock)
    (outcome : (doShorten fh ino length).run (lib env) fs = ((0, fh'), fs')) :
    Shortened fs.vol fs'.vol fh.inode.iBlock (fs'.inodeTab ino).iBlock
        (lastBlock fs.super.blocksize length) (shortenReleases env fs fh ino length) ∧
      (fs'.inodeTab ino).iFileAcl = fh.inode.iFileAcl ∧
      (fs'.inodeTab ino).iBlocks =
        (fs'.vol.inodeVisits (fs'.inodeTab ino).iBlock).length * fs.super.blocksize % 2
        ^ 32 / 512 := by
  simp only [doShorten, run_bind, run_ite, run_pure, run_lift, lib_super] at outcome
  rw [if_neg (by omega), if_neg (by omega)] at outcome
  by_cases valid : fs.validIno ino = true
  · have validLater : fs.advance.validIno ino = true := valid
    have sized : (setFileSize ino fh.inode length).run (lib env) fs =
        ((0, { fh.inode with
            iMtime := env.time fs.vol.tick, iSize := length % 2 ^ 32, iSizeHigh := 0 }),
          { fs.advance with
            inodeTab := Function.update fs.inodeTab ino { fh.inode with
              iMtime := env.time fs.vol.tick, iSize := length % 2 ^ 32, iSizeHigh := 0 } }) := by
      simp only [setFileSize, run_bind, run_lift, run_pure, lib_time, lib_writeInode,
        ext2fsWriteInode, validLater, if_true]
      rfl
    rw [sized] at outcome
    simp only [ne_eq, not_true_eq_false, if_false] at outcome
    generalize recordEq : shortenReleases env fs fh ino length = record
    simp only [shortenReleases, sized] at recordEq
    generalize fs₁Eq : ({ fs.advance with
      inodeTab := Function.update fs.inodeTab ino { fh.inode with
        iMtime := env.time fs.vol.tick, iSize := length % 2 ^ 32, iSizeHigh := 0 } } : Fs δ) = fs₁
      at outcome recordEq
    have inodeEq : fs₁.inodeTab ino = { fh.inode with
        iMtime := env.time fs.vol.tick, iSize := length % 2 ^ 32, iSizeHigh := 0 } := by
      rw [← fs₁Eq]
      exact Function.update_self ..
    have pointers : (fs₁.inodeTab ino).iBlock = fh.inode.iBlock := (congrArg Inode.iBlock inodeEq :)
    have volEq : fs₁.vol = { fs.vol with tick := fs.vol.tick + 1 } := by
      rw [← fs₁Eq]
      rfl
    have sameSuper : fs.super = fs₁.super := by
      rw [← fs₁Eq]
      rfl
    have validNow : fs₁.validIno ino = true := by
      rw [validIno_congr sameSuper.symm]
      exact valid
    have treeNow : BlockTree fs₁.vol (fs₁.inodeTab ino).iBlock := by
      rw [volEq, pointers]
      exact tree.tick _
    obtain ⟨vol, iBlock, shortened, final, -, priv, -, counted⟩ := ext2fsBlockIterate_shortens
      env.cached validNow (congrArg Inode.iSizeHigh inodeEq :) treeNow
      (lastBlock fs.super.blocksize length)
    rw [← sameSuper] at shortened final priv counted
    have truncated : (lib env).exec (.blockIterateTruncate ino
        { lastBlockToKeep := if length = 0 then -1 else ((length - 1) / fs.super.blocksize : Nat)
          numInIndirectBlock := fs.super.addrPerBlock }) fs₁ =
        (((fs₁.ext2fsBlockIterate ino { depthTraverse := true } (truncateBlocksProc env.cached)
            (truncateInfo (lastBlock fs.super.blocksize length) fs.super.addrPerBlock)).1,
          (fs₁.ext2fsBlockIterate ino { depthTraverse := true } (truncateBlocksProc env.cached)
            (truncateInfo (lastBlock fs.super.blocksize length) fs.super.addrPerBlock)).2.1),
          (fs₁.ext2fsBlockIterate ino { depthTraverse := true } (truncateBlocksProc env.cached)
            (truncateInfo (lastBlock fs.super.blocksize length) fs.super.addrPerBlock)).2.2) := rfl
    rw [truncated] at outcome
    generalize fs₁.ext2fsBlockIterate ino { depthTraverse := true } (truncateBlocksProc env.cached)
      (truncateInfo (lastBlock fs.super.blocksize length) fs.super.addrPerBlock) = iterated at *
    obtain ⟨rc, info, fs₂⟩ := iterated
    rw [recordEq] at shortened counted
    simp only at final counted outcome
    subst final
    have validLast : ({ fs₁ with
        vol := vol
        inodeTab := Function.update fs₁.inodeTab ino { fs₁.inodeTab ino with iBlock := iBlock } } :
        Fs δ).validIno ino = true := by
      rw [validIno_congr (by exact shortened.super)]
      exact validNow
    simp only [lib_readInode, ext2fsReadInode, validLast, if_true, run_bind,
      run_lift, lib_writeInode,
      ext2fsWriteInode, run_pure, Function.update_self, Prod.mk.injEq, true_and] at outcome
    obtain ⟨-, rfl⟩ := outcome
    have acl : (fs₁.inodeTab ino).iFileAcl = fh.inode.iFileAcl :=
      (congrArg Inode.iFileAcl inodeEq :)
    rw [volEq, pointers] at shortened counted
    simp only [Function.update_self]
    refine ⟨shortened.of_tick, acl, ?_⟩
    have left := @Selector.length_left _ truncateSelector
      (truncateInfo (lastBlock fs.super.blocksize length) fs.super.addrPerBlock) _ tree.apart
    have recordIs := shortened.record
    have remaining := shortened.left
    change record = lost truncateSelector
      (truncateInfo (lastBlock fs.super.blocksize length) fs.super.addrPerBlock)
      (fs.vol.inodeVisits fh.inode.iBlock) at recordIs
    change vol.inodeVisits iBlock = (fs.vol.inodeVisits fh.inode.iBlock).filter
      (fun visit => decide (visit.block ∉ record)) at remaining
    change info.totalNumBlocks + record.length =
      (fs.vol.inodeVisits fh.inode.iBlock).length at counted
    have lengths : record.length = (truncateSelector.dropped
        (truncateInfo (lastBlock fs.super.blocksize length) fs.super.addrPerBlock)
        (fs.vol.inodeVisits fh.inode.iBlock)).length := by
      rw [recordIs, lost, List.length_map]
    have total : info.totalNumBlocks = (vol.inodeVisits iBlock).length := by
      rw [remaining, recordIs, lost]
      omega
    rw [total]
  · simp only [setFileSize, run_bind, run_lift, run_pure, lib_time, lib_writeInode,
      ext2fsWriteInode] at outcome
    have invalid : fs.advance.validIno ino = false := Bool.eq_false_iff.mpr valid
    simp [invalid, EXT2_ET_BAD_INODE_NUM] at outcome

end Shorten

end Ext2Fuse
