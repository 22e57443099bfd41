import Ext2Fuse.DirBlock

/-!
# Well-formed directories

A directory block is well formed when its records, followed from its start by their
lengths, fill it exactly and each has room for its name. Over such blocks the
iterator visits the records one after the other, and reports the live ones when
asked for no others.
-/

namespace Ext2Fuse.DirBlock

open Lib

/-- From `offset` on, sound records fill the block exactly. -/
inductive Chain (bs : Nat) (buf : Block) : Nat → Prop where
  | last : Chain bs buf bs
  | record {offset : Nat} (inside : offset < bs) (sound : badRecord bs buf offset = false)
      (rest : Chain bs buf (offset + recLenAt buf offset)) : Chain bs buf offset

/-- Every block of the directory is filled by sound records. -/
def WellFormed (bs : Nat) (blocks : List Block) : Prop := ∀ block ∈ blocks, Chain bs block 0

/-- The same as a test, which gives up after `bound` records. -/
def chainFrom (bs : Nat) (buf : Block) : Nat → Nat → Bool
  | 0, offset => offset == bs
  | bound + 1, offset => offset == bs || (decide (offset < bs) && !badRecord bs buf offset &&
      chainFrom bs buf bound (offset + recLenAt buf offset))

/-- The offsets of the records from `offset` on. -/
def recordOffsets (bs : Nat) (buf : Block) : Nat → Nat → List Nat
  | 0, _ => []
  | bound + 1, offset =>
      if offset < bs then offset :: recordOffsets bs buf bound (offset + recLenAt buf offset)
      else []

/-- The live entries from `offset` on: the records with an inode number. -/
def liveFrom (bs : Nat) (buf : Block) (bound offset : Nat) : List Dirent :=
  ((recordOffsets bs buf bound offset).filter fun offset => inodeAt buf offset ≠ 0).map
    (direntAt buf)

/-- The live entries of a directory, in directory order. -/
def liveEntries (bs : Nat) (blocks : List Block) : List Dirent :=
  blocks.flatMap fun block => liveFrom bs block bs 0

variable {bs : Nat} {buf : Block} {offset : Nat}

/-- The four tests a record has to pass. -/
theorem badRecord_eq_false : badRecord bs buf offset = false ↔
    offset + recLenAt buf offset ≤ bs ∧ 8 ≤ recLenAt buf offset ∧ recLenAt buf offset % 4 = 0 ∧
      nameLen8At buf offset + 8 ≤ recLenAt buf offset := by
  simp only [badRecord, Bool.or_eq_false_iff, decide_eq_false_iff_not, ne_eq, not_not, not_lt,
    gt_iff_lt]
  omega

/-- The chain computed is a chain of the walk. -/
theorem chain_of_chainFrom {bound : Nat} (passed : chainFrom bs buf bound offset = true) :
    Chain bs buf offset := by
  induction bound generalizing offset with
  | zero =>
      obtain rfl : offset = bs := by simpa [chainFrom] using passed
      exact .last
  | succ bound inductionHypothesis =>
      simp only [chainFrom, Bool.or_eq_true, beq_iff_eq, Bool.and_eq_true, decide_eq_true_eq,
        Bool.not_eq_true'] at passed
      obtain rfl | ⟨⟨inside, sound⟩, rest⟩ := passed
      · exact .last
      · exact .record inside sound (inductionHypothesis rest)

/-- Reading the block finds nothing to complain about. -/
theorem Chain.readDirBlockBad_eq (chain : Chain bs buf offset) (bound : Nat) :
    readDirBlockBad bs buf bound offset = false := by
  induction bound generalizing offset with
  | zero => rfl
  | succ bound inductionHypothesis =>
      simp only [readDirBlockBad]
      split
      · rename_i more
        cases chain with
        | last => omega
        | record inside sound rest =>
            have checks := badRecord_eq_false.mp sound
            have even : (decide (recLenAt buf offset < 8) ||
                decide (recLenAt buf offset % 4 ≠ 0)) = false := by
              simp only [Bool.or_eq_false_iff, decide_eq_false_iff_not]
              omega
            have room : decide (nameLen8At buf offset + 8 > recLenAt buf offset) = false := by
              simp only [decide_eq_false_iff_not]
              omega
            simp only [even, room, Bool.false_or]
            exact inductionHypothesis rest
      · rfl

/-- The collecting iteration over a chain leaves the block alone and appends its live
entries. -/
theorem Chain.walkRecords_collect (chain : Chain bs buf offset) {bound : Nat}
    (enough : bs ≤ offset + bound) (entries : List Dirent) :
    walkRecords bs false collectProc bound offset { buf := buf, priv := entries } =
      { buf := buf, priv := entries ++ liveFrom bs buf bound offset } := by
  induction bound generalizing offset entries with
  | zero => simp [walkRecords, liveFrom, recordOffsets]
  | succ bound inductionHypothesis =>
      cases chain with
      | last => simp [walkRecords, liveFrom, recordOffsets]
      | record inside sound rest =>
          have checks := badRecord_eq_false.mp sound
          have later := fun entries => inductionHypothesis rest (by omega) entries
          simp only [walkRecords, inside, if_true, sound, Bool.false_eq_true, if_false, liveFrom,
            recordOffsets, List.filter_cons]
          by_cases free : inodeAt buf offset = 0
          · simp [free, later, liveFrom]
          · simp [free, collectProc, later, liveFrom]

/-- Iterating over a well-formed directory succeeds and visits its live entries. -/
theorem WellFormed.dirIterate_collect {blocks : List Block} (wellFormed : WellFormed bs blocks)
    (entries : List Dirent) :
    dirIterate bs false collectProc blocks entries =
      (0, blocks, entries ++ liveEntries bs blocks) := by
  induction blocks generalizing entries with
  | nil => simp [dirIterate, liveEntries]
  | cons block blocks inductionHypothesis =>
      have chain := wellFormed block (List.mem_cons_self ..)
      have later := inductionHypothesis fun other member =>
        wellFormed other (List.mem_cons_of_mem _ member)
      have first : processDirBlock bs false collectProc block entries =
          (0, false, block, entries ++ liveFrom bs block bs 0) := by
        simp [processDirBlock, chain.readDirBlockBad_eq,
          chain.walkRecords_collect (Nat.le_add_left ..)]
      simp [dirIterate, first, later, liveEntries]

/-- The iteration the handlers use. -/
theorem WellFormed.iterate_eq {blocks : List Block} (wellFormed : WellFormed bs blocks) :
    (dirLib bs).iterate blocks = (0, liveEntries bs blocks) := by
  simp [dirLib, wellFormed.dirIterate_collect]

end Ext2Fuse.DirBlock
