import Ext2Fuse.Shorten
import Ext2Fuse.FileSizes

/-!
# What shortening a file releases

The walk of `do_shorten` judged by what it is for. Data blocks behind the new end go, each
once, and nothing above a block that stays. An indirect block, though, goes only if a released
data block raised a flag for it: blocks that hold nothing, and sparse ones whose first data
block is a hole, are left behind.
-/

namespace Ext2Fuse

open Lib Volume Program Fs

/-- The indirect blocks on the path to a logical block. -/
def OnPath (vol : Volume) (iBlock : Nat → Nat) (block blk : Nat) : Prop :=
  ∃ count < (blockPath vol.super.addrPerBlock block).2.length,
    follow vol.ptrs (iBlock (blockPath vol.super.addrPerBlock block).1)
      ((blockPath vol.super.addrPerBlock block).2.take count) = blk

section Paths

variable {vol : Volume} {iBlock : Nat → Nat} {visit : Visit} {block : Nat}

/-- What the first steps of the path to a logical block lead to is a visit that covers it. -/
theorem follow_take_iff {slot lower count blk : Nat} (inside : slot < EXT2_N_BLOCKS)
    (starts : slotFirst vol.super.addrPerBlock slot ≤ block)
    (ends : block < slotFirst vol.super.addrPerBlock (slot + 1))
    (levels : count + lower = slotLevel slot) :
    ⟨blk, lower, slotFirst vol.super.addrPerBlock slot +
        (block - slotFirst vol.super.addrPerBlock slot) / vol.super.addrPerBlock ^ lower *
          vol.super.addrPerBlock ^ lower⟩ ∈
      visits vol.ptrs vol.super.addrPerBlock (slotLevel slot) (iBlock slot)
        (slotFirst vol.super.addrPerBlock slot) ↔
      blk ≠ 0 ∧ follow vol.ptrs (iBlock (blockPath vol.super.addrPerBlock block).1)
        ((blockPath vol.super.addrPerBlock block).2.take count) = blk := by
  have positive := vol.super.addrPerBlock_pos
  have quotient : (block - slotFirst vol.super.addrPerBlock slot) / vol.super.addrPerBlock ^ lower <
      vol.super.addrPerBlock ^ count := by
    refine Nat.div_lt_of_lt_mul ?_
    rw [← pow_add, Nat.add_comm lower, levels]
    rw [slotFirst] at ends
    omega
  rw [blockPath_eq inside starts ends, ← levels, mem_visits_iff positive, numberPath_take]
  exact ⟨And.right, fun rest => ⟨quotient, rest⟩⟩

/-- An indirect block is on the paths to the logical blocks it covers. -/
theorem onPath_iff (apart : ((vol.inodeVisits iBlock).map Visit.block).Nodup)
    (member : visit ∈ vol.inodeVisits iBlock) (inner : 0 < visit.level)
    (small : block < capacity vol.super.addrPerBlock) :
    OnPath vol iBlock block visit.block ↔
      visit.first ≤ block ∧ block < visit.bound vol.super.addrPerBlock := by
  have room : ∀ level, 0 < vol.super.addrPerBlock ^ level :=
    fun level => Nat.pow_pos vol.super.addrPerBlock_pos
  constructor
  · rintro ⟨count, short, reached⟩
    obtain ⟨slot, inside, starts, ends⟩ := exists_slot small
    have short' : count < slotLevel slot := by
      rwa [blockPath_eq inside starts ends, length_numberPath] at short
    have present : visit.block ≠ 0 := entryVisits_block_ne_zero member
    have found := (@follow_take_iff vol iBlock block slot (slotLevel slot - count) count visit.block
      inside starts ends (by omega)).mpr ⟨present, reached⟩
    have inTree : (⟨visit.block, slotLevel slot - count, _⟩ : Visit) ∈ vol.inodeVisits iBlock :=
      mem_entryVisits.mpr ⟨slot, ⟨Nat.zero_le _, by omega⟩, found⟩
    have same := List.inj_on_of_nodup_map apart member inTree rfl
    rw [same]
    simp only [Visit.bound]
    have division := Nat.div_add_mod (block - slotFirst vol.super.addrPerBlock slot)
      (vol.super.addrPerBlock ^ (slotLevel slot - count))
    have remainder := Nat.mod_lt (block - slotFirst vol.super.addrPerBlock slot)
      (room (slotLevel slot - count))
    rw [Nat.mul_comm] at division
    generalize (block - slotFirst vol.super.addrPerBlock slot) %
      vol.super.addrPerBlock ^ (slotLevel slot - count) = rest at division remainder
    omega
  · rintro ⟨starts, ends⟩
    obtain ⟨slot, inside, found, low, slotStarts, slotEnds, aligned⟩ := inodeVisit_range member
    obtain ⟨quotient, multiple⟩ := aligned
    have within : (block - slotFirst vol.super.addrPerBlock slot) /
        vol.super.addrPerBlock ^ visit.level = quotient := by
      simp only [Visit.bound] at ends
      rw [Nat.mul_comm] at multiple
      exact Nat.div_eq_of_lt_le (by omega) (by rw [Nat.succ_mul]; omega)
    have first : slotFirst vol.super.addrPerBlock slot +
        quotient * vol.super.addrPerBlock ^ visit.level = visit.first := by
      rw [Nat.mul_comm, ← multiple]
      omega
    have covers :=
      (@follow_take_iff vol iBlock block slot visit.level (slotLevel slot - visit.level)
      visit.block inside (by omega) (by omega) (by omega)).mp (by rw [within, first]; exact found)
    refine ⟨slotLevel slot - visit.level, ?_, covers.2⟩
    rw [blockPath_eq inside (by omega) (by omega), length_numberPath]
    omega

/-- Above a mapped block there are indirect blocks of the tree. -/
theorem OnPath.inTree {blk : Nat} (small : block < capacity vol.super.addrPerBlock)
    (present : vol.mapped iBlock block ≠ 0) (onPath : OnPath vol iBlock block blk) :
    ∃ visit ∈ vol.inodeVisits iBlock, visit.block = blk ∧ 0 < visit.level := by
  obtain ⟨count, short, reached⟩ := onPath
  have notZero : blk ≠ 0 := by
    rintro rfl
    rw [mapped, ← List.take_append_drop count (blockPath vol.super.addrPerBlock block).2,
      follow_append, reached, follow_zero] at present
    exact present rfl
  obtain ⟨slot, inside, starts, ends⟩ := exists_slot small
  have short' : count < slotLevel slot := by
    rwa [blockPath_eq inside starts ends, length_numberPath] at short
  have found := (@follow_take_iff vol iBlock block slot (slotLevel slot - count) count blk
    inside starts ends (by omega)).mpr ⟨notZero, reached⟩
  exact ⟨_, mem_entryVisits.mpr ⟨slot, ⟨Nat.zero_le _, by omega⟩, found⟩, rfl, by
    simp only
    omega⟩

/-- The first number of a visit is one an inode can address, and the visit covers it. -/
theorem inodeVisit_first (member : visit ∈ vol.inodeVisits iBlock) :
    visit.first < visit.bound vol.super.addrPerBlock ∧
      visit.first < capacity vol.super.addrPerBlock := by
  obtain ⟨slot, inside, -, -, -, slotEnds, -⟩ := inodeVisit_range member
  have room : 0 < vol.super.addrPerBlock ^ visit.level := Nat.pow_pos vol.super.addrPerBlock_pos
  have last := slotFirst_monotone vol.super.addrPerBlock (show slot + 1 ≤ 15 from inside)
  rw [(slotFirst_values vol.super.addrPerBlock).2.2.2] at last
  have covers : visit.first < visit.bound vol.super.addrPerBlock := Nat.lt_add_of_pos_right room
  exact ⟨covers, by omega⟩

end Paths

section Releasing

/-- What `do_shorten` from `size` to `length` ought to do to a block tree: the logical blocks
before `length` keep their blocks, the others lose them; the blocks that lose their place in the
tree are released, each once; nothing on the path to a block kept is released; and in a file
without holes an indirect block is released exactly if nothing below it is kept. -/
structure ReleasesRight (vol vol' : Volume) (iBlock iBlock' : Nat → Nat) (size length : Nat)
    (released : List Nat) : Prop where
  mapped : ∀ block < capacity vol.super.addrPerBlock, vol'.mapped iBlock' block =
    if block * vol.super.blocksize < length then vol.mapped iBlock block else 0
  once : ∀ block < capacity vol.super.addrPerBlock, vol.mapped iBlock block ≠ 0 →
    vol'.mapped iBlock' block = 0 → released.count (vol.mapped iBlock block) = 1
  paths : ∀ block < capacity vol.super.addrPerBlock, vol'.mapped iBlock' block ≠ 0 →
    ∀ blk, OnPath vol iBlock block blk → blk ∉ released
  noneTwice : released.Nodup
  dense : (∀ block, block * vol.super.blocksize < size → vol.mapped iBlock block ≠ 0) →
    ∀ visit ∈ vol.inodeVisits iBlock, 0 < visit.level →
      (visit.block ∈ released ↔ ¬ ∃ block < capacity vol.super.addrPerBlock,
        vol'.mapped iBlock' block ≠ 0 ∧ OnPath vol iBlock block visit.block)
  pointers : ∀ slot < EXT2_N_BLOCKS, iBlock slot ∈ released → iBlock' slot = 0

variable {vol vol' : Volume} {iBlock iBlock' : Nat → Nat} {size length : Nat}
  {released : List Nat} {visit : Visit}

/-- What is released is what goes. -/
theorem Shortened.mem_released (tree : BlockTree vol iBlock)
    (shortened : Shortened vol vol' iBlock iBlock' (lastBlock vol.super.blocksize length) released)
    (member : visit ∈ vol.inodeVisits iBlock) : visit.block ∈ released ↔
      Goes vol iBlock (lastBlock vol.super.blocksize length) visit := by
  rw [shortened.record]
  exact mem_lost_truncate tree member

/-- A mapped data block is released if it lies behind the new end. -/
theorem Shortened.mapped_released (tree : BlockTree vol iBlock)
    (shortened : Shortened vol vol' iBlock iBlock' (lastBlock vol.super.blocksize length) released)
    {block : Nat} (small : block < capacity vol.super.addrPerBlock)
    (present : vol.mapped iBlock block ≠ 0) :
    vol.mapped iBlock block ∈ released ↔ length ≤ block * vol.super.blocksize := by
  have member := mem_inodeVisits_data.mpr ⟨small, present, rfl⟩
  have goes := shortened.mem_released tree member
  simp only [Goes, if_true, lastBlock_lt vol.super.blocksize_pos] at goes
  exact goes

/-- A shortened file maps the blocks before its new end as before, and none behind. -/
theorem Shortened.mapped_eq (tree : BlockTree vol iBlock)
    (shortened : Shortened vol vol' iBlock iBlock' (lastBlock vol.super.blocksize length) released)
    {block : Nat} (small : block < capacity vol.super.addrPerBlock) :
    vol'.mapped iBlock' block =
      if block * vol.super.blocksize < length then vol.mapped iBlock block else 0 := by
  rw [shortened.walked.mapped_eq shortened.left small]
  by_cases present : vol.mapped iBlock block = 0
  · simp [present]
  · simp only [shortened.mapped_released tree small present]
    by_cases kept : block * vol.super.blocksize < length
    · rw [if_neg (by omega), if_pos kept]
    · rw [if_pos (by omega), if_neg kept]

/-- The data kept below an indirect block: what is mapped before the new end. -/
theorem Shortened.kept_below (tree : BlockTree vol iBlock)
    (shortened : Shortened vol vol' iBlock iBlock' (lastBlock vol.super.blocksize length) released)
    {blk : Nat} : (∃ block < capacity vol.super.addrPerBlock, vol'.mapped iBlock' block ≠ 0 ∧
        OnPath vol iBlock block blk) ↔
      ∃ block < capacity vol.super.addrPerBlock, block * vol.super.blocksize < length ∧
        vol.mapped iBlock block ≠ 0 ∧ OnPath vol iBlock block blk := by
  refine exists_congr fun block => and_congr_right fun small => ?_
  rw [shortened.mapped_eq tree small]
  by_cases kept : block * vol.super.blocksize < length
  · simp [kept]
  · simp [kept]

/-- No indirect block above a block that is kept goes. -/
theorem not_goes_of_kept (tree : BlockTree vol iBlock) (member : visit ∈ vol.inodeVisits iBlock)
    (inner : 0 < visit.level) {block : Nat} (small : block < capacity vol.super.addrPerBlock)
    (kept : block * vol.super.blocksize < length) (onPath : OnPath vol iBlock block visit.block) :
    ¬ Goes vol iBlock (lastBlock vol.super.blocksize length) visit := by
  obtain ⟨starts, -⟩ := (onPath_iff tree.apart member inner small).mp onPath
  refine not_goes_above member inner starts ?_
  by_contra behind
  rw [not_le, lastBlock_lt vol.super.blocksize_pos] at behind
  omega

/-- In a file without holes an indirect block that starts before the old end and keeps nothing
goes: its first data block is released. -/
theorem goes_of_dense (member : visit ∈ vol.inodeVisits iBlock) (inner : 0 < visit.level)
    (present : vol.mapped iBlock visit.first ≠ 0)
    (behind : length ≤ visit.first * vol.super.blocksize) :
    Goes vol iBlock (lastBlock vol.super.blocksize length) visit := by
  obtain ⟨covers, small⟩ := inodeVisit_first member
  rw [Goes, if_neg (Nat.pos_iff_ne_zero.mp inner)]
  exact ⟨⟨vol.mapped iBlock visit.first, 0, visit.first⟩,
    mem_inodeVisits_data.mpr ⟨small, present, rfl⟩, rfl,
    (lastBlock_lt vol.super.blocksize_pos).mpr behind, covers, first_boundary member inner⟩

/-- The walk releases the right blocks if and only if, in a file without holes, every indirect
block that starts behind the old end goes. -/
theorem Shortened.releasesRight_iff (tree : BlockTree vol iBlock) (shorter : length < size)
    (shortened : Shortened vol vol' iBlock iBlock'
      (lastBlock vol.super.blocksize length) released) :
    ReleasesRight vol vol' iBlock iBlock' size length released ↔
      ((∀ block, block * vol.super.blocksize < size → vol.mapped iBlock block ≠ 0) →
        ∀ visit ∈ vol.inodeVisits iBlock, 0 < visit.level →
          size ≤ visit.first * vol.super.blocksize →
          Goes vol iBlock (lastBlock vol.super.blocksize length) visit) := by
  have distinct : released.Nodup := by
    rw [shortened.record]
    exact tree.apart.sublist ((Selector.dropped_sublist _).map Visit.block)
  constructor
  · intro right dense visit member inner past
    rw [← shortened.mem_released tree member, right.dense dense visit member inner,
      shortened.kept_below tree]
    rintro ⟨block, small, kept, -, onPath⟩
    obtain ⟨starts, -⟩ := (onPath_iff tree.apart member inner small).mp onPath
    have scaled := Nat.mul_le_mul_right vol.super.blocksize starts
    omega
  · intro covered
    refine ⟨fun block small => shortened.mapped_eq tree small, fun block small present lost => ?_,
      fun block small kept blk onPath => ?_, distinct, fun dense visit member inner => ?_,
      fun slot inside gone => ?_⟩
    · rw [shortened.mapped_eq tree small] at lost
      refine List.count_eq_one_of_mem distinct
        ((shortened.mapped_released tree small present).mpr ?_)
      by_contra early
      rw [if_pos (by omega)] at lost
      exact present lost
    · rw [shortened.mapped_eq tree small] at kept
      have early : block * vol.super.blocksize < length := by
        by_contra behind
        rw [if_neg behind] at kept
        exact kept rfl
      rw [if_pos early] at kept
      obtain ⟨visit, member, rfl, inner⟩ := OnPath.inTree small kept onPath
      rw [shortened.mem_released tree member]
      exact not_goes_of_kept tree member inner small early onPath
    · rw [shortened.mem_released tree member, shortened.kept_below tree]
      constructor
      · rintro goes ⟨block, small, kept, -, onPath⟩
        exact not_goes_of_kept tree member inner small kept onPath goes
      · intro nothing
        rcases Nat.lt_or_ge (visit.first * vol.super.blocksize) size with early | past
        · have present := dense visit.first early
          obtain ⟨covers, small⟩ := inodeVisit_first member
          refine goes_of_dense member inner present ?_
          by_contra kept
          exact nothing ⟨visit.first, small, by omega, present,
            (onPath_iff tree.apart member inner small).mpr ⟨le_rfl, covers⟩⟩
        · exact covered dense visit member inner past
    · rw [shortened.blocks slot inside, if_pos gone]

/-- Every indirect block leads to a mapped data block. -/
def LeadsToData (vol : Volume) (iBlock : Nat → Nat) : Prop :=
  ∀ visit ∈ vol.inodeVisits iBlock, 0 < visit.level → ∃ block < capacity vol.super.addrPerBlock,
    vol.mapped iBlock block ≠ 0 ∧ OnPath vol iBlock block visit.block

/-- No indirect block is kept for nothing; in particular nothing is left of a file cut to
length 0. -/
structure KeepsNoEmpty (vol vol' : Volume) (iBlock iBlock' : Nat → Nat) (length : Nat) : Prop where
  leads : LeadsToData vol' iBlock'
  emptied : length = 0 → (∀ slot < EXT2_N_BLOCKS, iBlock' slot = 0) ∧
    ∀ visit ∈ vol.inodeVisits iBlock, vol'.blockMap visit.block = false

/-- What is left of a tree is on the same paths. -/
theorem Shortened.onPath_left (tree : BlockTree vol iBlock)
    (shortened : Shortened vol vol' iBlock iBlock' (lastBlock vol.super.blocksize length) released)
    (member : visit ∈ vol'.inodeVisits iBlock') (inner : 0 < visit.level) {block : Nat}
    (small : block < capacity vol.super.addrPerBlock) :
    OnPath vol' iBlock' block visit.block ↔ OnPath vol iBlock block visit.block := by
  have before : visit ∈ vol.inodeVisits iBlock :=
    List.mem_of_mem_filter (shortened.left ▸ member)
  have apart : ((vol'.inodeVisits iBlock').map Visit.block).Nodup := by
    rw [shortened.left]
    exact tree.apart.sublist (List.filter_sublist.map Visit.block)
  rw [onPath_iff tree.apart before inner small,
    onPath_iff apart member inner (by rw [shortened.super]; exact small), shortened.super]

/-- Nothing is kept for nothing if and only if every indirect block whose data blocks are all
released goes. -/
theorem Shortened.keepsNoEmpty_iff (tree : BlockTree vol iBlock)
    (shortened : Shortened vol vol' iBlock iBlock'
      (lastBlock vol.super.blocksize length) released) :
    KeepsNoEmpty vol vol' iBlock iBlock' length ↔
      ∀ visit ∈ vol.inodeVisits iBlock, 0 < visit.level →
        (∀ block < capacity vol.super.addrPerBlock, vol.mapped iBlock block ≠ 0 →
          OnPath vol iBlock block visit.block → length ≤ block * vol.super.blocksize) →
        Goes vol iBlock (lastBlock vol.super.blocksize length) visit := by
  have remains : ∀ visit ∈ vol.inodeVisits iBlock,
      ¬ Goes vol iBlock (lastBlock vol.super.blocksize length) visit →
      visit ∈ vol'.inodeVisits iBlock' := by
    intro visit member stays
    rw [shortened.left, List.mem_filter, decide_eq_true_eq, shortened.mem_released tree member]
    exact ⟨member, stays⟩
  constructor
  · intro keeps visit member inner allBehind
    by_contra stays
    have left := remains visit member stays
    obtain ⟨block, small, present, onPath⟩ := keeps.leads visit left inner
    rw [shortened.super] at small
    rw [shortened.onPath_left tree left inner small] at onPath
    rw [shortened.mapped_eq tree small] at present
    by_cases kept : block * vol.super.blocksize < length
    · rw [if_pos kept] at present
      have behind := allBehind block small present onPath
      omega
    · rw [if_neg kept] at present
      exact present rfl
  · intro covered
    refine ⟨fun visit left inner => ?_, fun empty => ?_⟩
    · have member : visit ∈ vol.inodeVisits iBlock :=
        List.mem_of_mem_filter (shortened.left ▸ left)
      by_contra nothing
      have goes := covered visit member inner fun block small present onPath => by
        by_contra kept
        refine nothing ⟨block, by rw [shortened.super]; exact small, ?_,
          (shortened.onPath_left tree left inner small).mpr onPath⟩
        rw [shortened.mapped_eq tree small, if_pos (by omega)]
        exact present
      rw [← shortened.mem_released tree member] at goes
      rw [shortened.left, List.mem_filter, decide_eq_true_eq] at left
      exact left.2 goes
    · subst empty
      have all : ∀ visit ∈ vol.inodeVisits iBlock, visit.block ∈ released := by
        intro visit member
        rw [shortened.mem_released tree member]
        by_cases isData : visit.level = 0
        · rw [Goes, if_pos isData, lastBlock_lt vol.super.blocksize_pos]
          exact Nat.zero_le _
        · exact covered visit member (Nat.pos_of_ne_zero isData) fun _ _ _ _ => Nat.zero_le _
      refine ⟨fun slot inside => ?_, fun visit member => ?_⟩
      · rw [shortened.blocks slot inside]
        by_cases absent : iBlock slot = 0
        · rw [absent, ite_self]
        · have root : (⟨iBlock slot, slotLevel slot,
            slotFirst vol.super.addrPerBlock slot⟩ : Visit) ∈
              vol.inodeVisits iBlock :=
            mem_entryVisits.mpr ⟨slot, ⟨Nat.zero_le _, by omega⟩, root_mem_visits absent⟩
          rw [if_pos (all _ root)]
      · rw [shortened.walked.blockMap, tree.inRange visit member]
        simp [all visit member]

/-- The number of blocks that stay when a file is cut to `length`. -/
def keptBlocks (vol : Volume) (iBlock : Nat → Nat) (length : Nat) : Nat :=
  ((vol.inodeVisits iBlock).filter fun visit =>
    decide (¬ Goes vol iBlock (lastBlock vol.super.blocksize length) visit)).length

/-- A shortened file has as many blocks as are to be kept. -/
theorem Shortened.length_left (tree : BlockTree vol iBlock)
    (shortened : Shortened vol vol' iBlock iBlock'
      (lastBlock vol.super.blocksize length) released) :
    (vol'.inodeVisits iBlock').length = keptBlocks vol iBlock length := by
  rw [shortened.left, keptBlocks]
  refine congrArg List.length (List.filter_congr fun visit member => ?_)
  simp only [shortened.mem_released tree member]

/-- The sectors of a number of blocks, computed in 32 bits, are right while they fit. -/
theorem sectors_eq_iff (super : Super) (blocks owned : Nat) :
    blocks * super.blocksize % 2 ^ 32 / 512 = super.blocksize / 512 * (blocks + owned) ↔
      owned = 0 ∧ blocks * super.blocksize < 2 ^ 32 := by
  have size : super.blocksize = 512 * (2 * 2 ^ super.sLogBlockSize) := by
    rw [Super.blocksize]
    ring
  have positive : 0 < 2 * 2 ^ super.sLogBlockSize :=
    Nat.mul_pos Nat.two_pos (Nat.two_pow_pos _)
  rw [size]
  generalize 2 * 2 ^ super.sLogBlockSize = perBlock at positive
  have quotient : 512 * perBlock / 512 = perBlock := Nat.mul_div_cancel_left _ (by decide)
  have product : blocks * (512 * perBlock) = 512 * (blocks * perBlock) := by ring
  have spread : perBlock * (blocks + owned) = blocks * perBlock + perBlock * owned := by ring
  rw [quotient, product, spread]
  generalize blocks * perBlock = sectors
  rcases Nat.eq_zero_or_pos owned with none | some
  · subst none
    omega
  · have more : perBlock ≤ perBlock * owned := Nat.le_mul_of_pos_right _ some
    generalize perBlock * owned = extra at more
    omega

end Releasing

section Files

variable {δ : Type} {env : Env δ} {fs fs' : Fs δ} {fh fh' : File} {ino length : Nat}

/-- `do_shorten` does to the blocks of the file what it ought to, unless the file has no hole
below its old end and an indirect block behind it that no released data block gives away: one
that is empty, or whose boundary blocks are holes. -/
theorem shorten_releases_iff (shorter : length < fh.inode.iSize)
    (tree : BlockTree fs.vol fh.inode.iBlock)
    (outcome : (doShorten fh ino length).run (lib env) fs = ((0, fh'), fs')) :
    ReleasesRight fs.vol fs'.vol fh.inode.iBlock (fs'.inodeTab ino).iBlock fh.inode.iSize length
        (shortenReleases env fs fh ino length) ↔
      ((∀ block, block * fs.super.blocksize < fh.inode.iSize →
          fs.vol.mapped fh.inode.iBlock block ≠ 0) →
        ∀ visit ∈ fs.vol.inodeVisits fh.inode.iBlock, 0 < visit.level →
          fh.inode.iSize ≤ visit.first * fs.super.blocksize →
          Goes fs.vol fh.inode.iBlock (lastBlock fs.super.blocksize length) visit) :=
  (doShorten_shortens shorter tree outcome).1.releasesRight_iff tree shorter

/-- Two data blocks and nothing else. -/
def twoDataBlocks : Fs (List Dirent) :=
  { twoFiles with
    vol := { twoFiles.vol with blockMap := fun blk => decide (blk < 23) }
    inodeTab := Function.update twoFiles.inodeTab 11 { twoFiles.inodeTab 11 with
      iSize := 2048
      iBlock := fun slot => if slot < 2 then 20 + slot else 0 } }

theorem twoDataBlocks_visits : twoDataBlocks.vol.inodeVisits (twoDataBlocks.inodeTab 11).iBlock =
    [⟨20, 0, 0⟩, ⟨21, 0, 1⟩] := by decide +kernel

theorem twoDataBlocks_tree : BlockTree twoDataBlocks.vol (twoDataBlocks.inodeTab 11).iBlock := by
  refine ⟨⟨?_, ?_⟩, ?_⟩ <;> rw [twoDataBlocks_visits] <;> decide

/-- A file of two data blocks cut to one: the second is released. -/
theorem shorten_releases_iff_two : ∃ fh' fs',
    (doShorten (freshHandle twoDataBlocks 11) 11 1024).run (lib listEnv) twoDataBlocks =
    ((0, fh'), fs') ∧
      ReleasesRight twoDataBlocks.vol fs'.vol (twoDataBlocks.inodeTab 11).iBlock
        (fs'.inodeTab 11).iBlock 2048 1024
          (shortenReleases listEnv twoDataBlocks (freshHandle twoDataBlocks 11) 11 1024) := by
  have success : ((doShorten (freshHandle twoDataBlocks 11) 11 1024).run
    (lib listEnv) twoDataBlocks).1.1 = 0 := by
    decide +kernel
  generalize outcome : (doShorten (freshHandle twoDataBlocks 11) 11 1024).run
    (lib listEnv) twoDataBlocks = final
    at success
  obtain ⟨⟨rc, fh'⟩, fs'⟩ := final
  simp only at success
  subst success
  refine ⟨fh', fs', rfl, (shorten_releases_iff (by decide) twoDataBlocks_tree outcome).mpr ?_⟩
  intro _ visit member inner
  have onlyData : ∀ visit ∈ [(⟨20, 0, 0⟩ : Visit), ⟨21, 0, 1⟩], ¬ 0 < visit.level := by decide
  exact absurd inner (onlyData visit (twoDataBlocks_visits ▸ member))

/-- Twelve data blocks and an indirect block without entries, as `ext2fs_bmap` leaves it when
the allocation of the data block behind it fails. -/
def emptyIndirect : Fs (List Dirent) :=
  { twoFiles with
    vol := { twoFiles.vol with blockMap := fun blk => decide (blk < 33) }
    inodeTab := Function.update twoFiles.inodeTab 11 { twoFiles.inodeTab 11 with
      iSize := 12 * 1024
      iBlock := fun slot => if slot < 13 then 20 + slot else 0 } }

/-- The indirect block stays, although the file has no hole and nothing is left below it. -/
theorem shorten_keeps_empty_indirect :
    BlockTree emptyIndirect.vol (emptyIndirect.inodeTab 11).iBlock ∧ ∃ fh' fs',
      (doShorten (freshHandle emptyIndirect 11) 11 (11 * 1024)).run (lib listEnv) emptyIndirect =
        ((0, fh'), fs') ∧
      ¬ ReleasesRight emptyIndirect.vol fs'.vol (emptyIndirect.inodeTab 11).iBlock
        (fs'.inodeTab 11).iBlock (12 * 1024) (11 * 1024)
        (shortenReleases listEnv emptyIndirect (freshHandle emptyIndirect 11) 11 (11 * 1024)) := by
  have visits : emptyIndirect.vol.inodeVisits (emptyIndirect.inodeTab 11).iBlock =
      (List.range 12).map (fun slot => ⟨20 + slot, 0, slot⟩) ++ [⟨32, 1, 12⟩] := by decide +kernel
  have success : ((doShorten (freshHandle emptyIndirect 11) 11 (11 * 1024)).run (lib listEnv)
      emptyIndirect).1.1 = 0 := by decide +kernel
  have released : shortenReleases listEnv emptyIndirect (freshHandle emptyIndirect 11)
    11 (11 * 1024) =
      [31] := by decide +kernel
  have full : ∀ block < 12,
    emptyIndirect.vol.mapped (emptyIndirect.inodeTab 11).iBlock block ≠ 0 := by
    decide +kernel
  refine ⟨⟨⟨by rw [visits]; decide, by rw [visits]; decide⟩, by rw [visits]; decide⟩, ?_⟩
  generalize outcome : (doShorten (freshHandle emptyIndirect 11) 11 (11 * 1024)).run (lib listEnv)
    emptyIndirect = final at success
  obtain ⟨⟨rc, fh'⟩, fs'⟩ := final
  simp only at success
  subst success
  refine ⟨fh', fs', rfl, fun right => ?_⟩
  have blocksize : emptyIndirect.vol.super.blocksize = 1024 := rfl
  have inTree : (⟨32, 1, 12⟩ : Visit) ∈
      emptyIndirect.vol.inodeVisits (emptyIndirect.inodeTab 11).iBlock := by
    rw [visits]
    simp
  have gone := (right.dense (fun block small => full block (by rw [blocksize] at small; omega))
    _ inTree Nat.one_pos).mpr ?_
  · rw [released] at gone
    revert gone
    decide
  · rintro ⟨block, small, kept, count, short, -⟩
    rw [right.mapped block small, blocksize] at kept
    have early : block < 11 := by
      by_contra behind
      rw [if_neg (by omega)] at kept
      exact kept rfl
    rw [blockPath, if_pos (by simp only [EXT2_NDIR_BLOCKS]; omega)] at short
    cases short

/-- Shrinking keeps no empty indirect block, if there was none before, exactly when every
indirect block whose data blocks are all released goes: a released data block before its end
is a boundary of its level. -/
theorem shorten_keeps_no_empty_iff (shorter : length < fh.inode.iSize)
    (tree : BlockTree fs.vol fh.inode.iBlock)
    (outcome : (doShorten fh ino length).run (lib env) fs = ((0, fh'), fs')) :
    (LeadsToData fs.vol fh.inode.iBlock →
        KeepsNoEmpty fs.vol fs'.vol fh.inode.iBlock (fs'.inodeTab ino).iBlock length) ↔
      (LeadsToData fs.vol fh.inode.iBlock →
        ∀ visit ∈ fs.vol.inodeVisits fh.inode.iBlock, 0 < visit.level →
          (∀ block < capacity fs.super.addrPerBlock, fs.vol.mapped fh.inode.iBlock block ≠ 0 →
            OnPath fs.vol fh.inode.iBlock block visit.block →
              length ≤ block * fs.super.blocksize) →
          Goes fs.vol fh.inode.iBlock (lastBlock fs.super.blocksize length) visit) :=
  imp_congr_right fun _ => (doShorten_shortens shorter tree outcome).1.keepsNoEmpty_iff tree

/-- A file of an indirect block, 20, and one data block, 21, below its entry `index`. -/
def sparseFile (index : Nat) : Fs (List Dirent) :=
  { twoFiles with
    vol := { twoFiles.vol with
      blockMap := fun blk => decide (blk < 22)
      io := Function.update (fun _ _ => 0) 20 (setPtr (fun _ => 0) index 21) }
    inodeTab := Function.update twoFiles.inodeTab 11 { twoFiles.inodeTab 11 with
      iSize := (13 + index) * 1024
      iBlock := fun slot => if slot = EXT2_IND_BLOCK then 20 else 0 } }

theorem sparseFile_visits : ∀ index < 2,
    (sparseFile index).vol.inodeVisits ((sparseFile index).inodeTab 11).iBlock =
      [⟨21, 0, 12 + index⟩, ⟨20, 1, 12⟩] := by decide +kernel

theorem sparseFile_tree {index : Nat} (small : index < 2) :
    BlockTree (sparseFile index).vol ((sparseFile index).inodeTab 11).iBlock := by
  refine ⟨⟨?_, ?_⟩, ?_⟩ <;> rw [sparseFile_visits index small] <;> revert index <;> decide

theorem sparseFile_leads {index : Nat} (small : index < 2) :
    LeadsToData (sparseFile index).vol ((sparseFile index).inodeTab 11).iBlock := by
  intro visit member inner
  have tree := sparseFile_tree small
  have data : (⟨21, 0, 12 + index⟩ : Visit) ∈
      (sparseFile index).vol.inodeVisits ((sparseFile index).inodeTab 11).iBlock := by
    rw [sparseFile_visits index small]
    simp
  obtain ⟨inside, present, mapped⟩ := mem_inodeVisits_data.mp data
  refine ⟨12 + index, inside, mapped ▸ present, (onPath_iff tree.apart member inner inside).mpr ?_⟩
  rw [sparseFile_visits index small, List.mem_pair] at member
  obtain rfl | rfl := member
  · cases inner
  · have width : (sparseFile index).vol.super.addrPerBlock = 256 := rfl
    simp only [Visit.bound, width]
    omega

/-- A sparse file cut to nothing: its indirect block goes with its data block. -/
theorem shorten_keeps_no_empty_iff_sparse : ∃ fh' fs',
    (doShorten (freshHandle (sparseFile 0) 11) 11 0).run (lib listEnv) (sparseFile 0) =
      ((0, fh'), fs') ∧
      KeepsNoEmpty (sparseFile 0).vol fs'.vol ((sparseFile 0).inodeTab 11).iBlock
        (fs'.inodeTab 11).iBlock 0 := by
  have success : ((doShorten (freshHandle (sparseFile 0) 11) 11 0).run (lib listEnv)
      (sparseFile 0)).1.1 = 0 := by decide +kernel
  generalize outcome : (doShorten (freshHandle (sparseFile 0) 11) 11 0).run (lib listEnv)
    (sparseFile 0) = final at success
  obtain ⟨⟨rc, fh'⟩, fs'⟩ := final
  simp only at success
  subst success
  refine ⟨fh', fs', rfl, (shorten_keeps_no_empty_iff (by decide) (sparseFile_tree (by decide))
    outcome).mpr (fun _ visit member inner _ => ?_) (sparseFile_leads (by decide))⟩
  have goes : ∀ visit ∈ [(⟨21, 0, 12⟩ : Visit), ⟨20, 1, 12⟩],
      Goes (sparseFile 0).vol ((sparseFile 0).inodeTab 11).iBlock (-1) visit := by decide +kernel
  exact goes visit (sparseFile_visits 0 (by decide) ▸ member)

/-- Cut to length 0 the file whose first block below the indirect block is a hole keeps the
indirect block. -/
theorem shorten_keeps_sparse_indirect :
    BlockTree (sparseFile 1).vol ((sparseFile 1).inodeTab 11).iBlock ∧
      LeadsToData (sparseFile 1).vol ((sparseFile 1).inodeTab 11).iBlock ∧ ∃ fh' fs',
        (doShorten (freshHandle (sparseFile 1) 11) 11 0).run (lib listEnv) (sparseFile 1) =
          ((0, fh'), fs') ∧
        ¬ KeepsNoEmpty (sparseFile 1).vol fs'.vol ((sparseFile 1).inodeTab 11).iBlock
          (fs'.inodeTab 11).iBlock 0 := by
  have success : ((doShorten (freshHandle (sparseFile 1) 11) 11 0).run (lib listEnv)
      (sparseFile 1)).1.1 = 0 := by decide +kernel
  have stays : (((doShorten (freshHandle (sparseFile 1) 11) 11 0).run (lib listEnv)
      (sparseFile 1)).2.inodeTab 11).iBlock EXT2_IND_BLOCK = 20 := by decide +kernel
  refine ⟨sparseFile_tree (by decide), sparseFile_leads (by decide), ?_⟩
  generalize (doShorten (freshHandle (sparseFile 1) 11) 11 0).run (lib listEnv)
    (sparseFile 1) = final
    at success stays
  obtain ⟨⟨rc, fh'⟩, fs'⟩ := final
  simp only at success stays
  subst success
  refine ⟨fh', fs', rfl, fun keeps => ?_⟩
  have cleared := (keeps.emptied rfl).1 EXT2_IND_BLOCK (by decide)
  rw [stays] at cleared
  cases cleared

/-- `i_blocks` counts what the inode owns after shrinking exactly when it owns no attribute
block and the bytes of what is kept fit 32 bits. -/
theorem shorten_counts_iff (shorter : length < fh.inode.iSize)
    (tree : BlockTree fs.vol fh.inode.iBlock)
    (outcome : (doShorten fh ino length).run (lib env) fs = ((0, fh'), fs')) :
    (fs'.inodeTab ino).iBlocks = fs.super.blocksize / 512 *
        ((fs'.vol.inodeVisits (fs'.inodeTab ino).iBlock).length +
          if (fs'.inodeTab ino).iFileAcl = 0 then 0 else 1) ↔
      fh.inode.iFileAcl = 0 ∧
        keptBlocks fs.vol fh.inode.iBlock length * fs.super.blocksize < 2 ^ 32 := by
  obtain ⟨shortened, acl, blocks⟩ := doShorten_shortens shorter tree outcome
  rw [blocks, sectors_eq_iff, acl]
  have kept : (fs'.vol.inodeVisits (fs'.inodeTab ino).iBlock).length =
      keptBlocks fs.vol fh.inode.iBlock length := shortened.length_left tree
  rw [kept]
  by_cases none : fh.inode.iFileAcl = 0
  · simp [none]
  · simp [none]

/-- A file of two data blocks cut to one: the sector count is that of one. -/
theorem shorten_counts_iff_two : ∃ fh' fs',
    (doShorten (freshHandle twoDataBlocks 11) 11 1024).run (lib listEnv) twoDataBlocks =
    ((0, fh'), fs') ∧
      (fs'.inodeTab 11).iBlocks = 1024 / 512 *
        ((fs'.vol.inodeVisits (fs'.inodeTab 11).iBlock).length +
          if (fs'.inodeTab 11).iFileAcl = 0 then 0 else 1) := by
  have success : ((doShorten (freshHandle twoDataBlocks 11) 11 1024).run
    (lib listEnv) twoDataBlocks).1.1 = 0 := by
    decide +kernel
  generalize outcome : (doShorten (freshHandle twoDataBlocks 11) 11 1024).run
    (lib listEnv) twoDataBlocks = final
    at success
  obtain ⟨⟨rc, fh'⟩, fs'⟩ := final
  simp only at success
  subst success
  exact ⟨fh', fs', rfl, (shorten_counts_iff (by decide) twoDataBlocks_tree outcome).mpr
    ⟨rfl, by decide +kernel⟩⟩

/-- Two data blocks and an attribute block. -/
def attributed : Fs (List Dirent) :=
  { twoDataBlocks with
    inodeTab := Function.update twoDataBlocks.inodeTab 11
      { twoDataBlocks.inodeTab 11 with iFileAcl := 22 } }

/-- Of the two blocks that are left only the data block is counted. -/
theorem shorten_forgets_attribute : BlockTree attributed.vol (attributed.inodeTab 11).iBlock ∧
    ∃ fh' fs', (doShorten (freshHandle attributed 11) 11 1024).run (lib listEnv) attributed =
        ((0, fh'), fs') ∧
      (fs'.inodeTab 11).iBlocks ≠ 1024 / 512 *
        ((fs'.vol.inodeVisits (fs'.inodeTab 11).iBlock).length +
          if (fs'.inodeTab 11).iFileAcl = 0 then 0 else 1) := by
  refine ⟨twoDataBlocks_tree, _, _, Prod.ext (Prod.ext ?_ rfl) rfl, ?_⟩
  · decide +kernel
  · decide +kernel

end Files

end Ext2Fuse
