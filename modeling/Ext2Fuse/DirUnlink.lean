import Ext2Fuse.Attributes
import Ext2Fuse.DirSpans
import Ext2Fuse.Readdir

/-!
# Removing an entry

`unlink_proc` adds the length of the record it removes to the record before it, and
remembers that record from one block to the next. In the block of the record this is the
record's own predecessor, unless the record is the first of its block.
-/

namespace Ext2Fuse

open Lib Program

namespace DirBlock

variable {bs : Nat} {buf : Block} {name : Name} {ino : Nat} {start stop offset : Nat}
    {prev : Option Nat}
  {before after offsets : List Nat}

/-- Is this the record `ext2fs_unlink` looks for? -/
def selects (name : Name) (ino : Nat) (buf : Block) (offset : Nat) : Bool :=
  decide (inodeAt buf offset ≠ 0) && (direntAt buf offset).matchesEntry name ino

/-- What `unlink_proc` does to the record it looks for. -/
def removeRecord (prev : Option Nat) (buf : Block) (offset : Nat) : Block :=
  match prev with
  | some prev => buf.setU16 (prev + 4) (recLenAt buf prev + recLenAt buf offset)
  | none => buf.setU32 offset 0

/-- A name is as long as its length field says. -/
theorem length_nameAt (buf : Block) (offset : Nat) :
    (nameAt buf offset).length = nameLen8At buf offset := by
  simp [nameAt]

/-- When unlink_proc takes a record: the name is right, and the inode if one is asked for. -/
theorem selects_iff : selects name ino buf offset = true ↔
    nameAt buf offset = name ∧
      (if ino = 0 then inodeAt buf offset ≠ 0 else inodeAt buf offset = ino) := by
  simp only [selects, Dirent.matchesEntry, direntAt, Bool.and_eq_true,
    decide_eq_true_eq, beq_iff_eq, Bool.or_eq_true]
  by_cases zero : ino = 0
  · simp [zero, and_comm]
  · simp only [zero, false_or, if_false]
    constructor
    · exact And.right
    · rintro ⟨named, same⟩
      exact ⟨by omega, named, same⟩

/-- unlink_proc takes a selected record and steps over any other. -/
theorem unlinkProc_eq (done : Bool) : unlinkProc name ino buf offset (prev, done) =
    if selects name ino buf offset then
      ({ changed := true, abort := true }, removeRecord prev buf offset, (some offset, true))
    else ({}, buf, (some offset, done)) := by
  have named : (nameLen8At buf offset = name.length ∧ nameAt buf offset = name) ↔
      nameAt buf offset = name :=
    and_iff_right_of_imp fun same => by rw [← same, length_nameAt]
  simp only [unlinkProc, named]
  by_cases hit : selects name ino buf offset = true
  · obtain ⟨same, rightInode⟩ := selects_iff.mp hit
    rw [if_neg (not_not.mpr same), if_pos hit]
    by_cases zero : ino = 0
    · simp only [zero, if_true] at rightInode
      simp only [zero, rightInode, if_true, if_false, ne_eq]
      cases prev with
      | none => rfl
      | some prev => rfl
    · simp only [zero, if_false] at rightInode
      simp only [zero, rightInode, if_false, ne_eq, not_true_eq_false]
      cases prev with
      | none => rfl
      | some prev => rfl
  · rw [if_neg hit]
    rw [selects_iff] at hit
    by_cases same : nameAt buf offset = name
    · rw [if_neg (not_not.mpr same), if_pos]
      have wrong : ¬ if ino = 0 then inodeAt buf offset ≠ 0 else inodeAt buf offset = ino :=
        fun right => hit ⟨same, right⟩
      by_cases zero : ino = 0
      · simpa [zero] using wrong
      · simpa [zero] using wrong
    · rw [if_pos same]

/-- A block without the record: the walk remembers its last record. -/
theorem Spans.walk_unlink_none (spans : Spans buf start offsets bs)
    (missing : ∀ offset ∈ offsets, selects name ino buf offset = false) (bound : Nat)
    (enough : bs ≤ start + bound) (prev : Option Nat) :
    walkRecords bs true (unlinkProc name ino) bound start { buf := buf, priv := (prev, false) } =
      { buf := buf, priv := (offsets.getLast?.or prev, false) } := by
  induction bound generalizing start offsets prev with
  | zero =>
      cases spans with
      | nil => rfl
      | cons sound rest =>
          have long := sound.long
          have ends := rest.le
          omega
  | succ bound inductionHypothesis =>
      cases spans with
      | nil => simp [walkRecords]
      | @cons _ _ offsets sound rest =>
          have long := sound.long
          have ends := rest.le
          have unbad : badRecord bs buf start = false := badRecord_iff_sound.mpr ⟨ends, sound⟩
          have inside : start < bs := by omega
          have passed := missing start (List.mem_cons_self ..)
          have later := inductionHypothesis rest
            (fun offset member => missing offset (List.mem_cons_of_mem _ member))
              (by omega) (some start)
          simp only [walkRecords, inside, if_true, unbad, Bool.false_eq_true,
            if_false, Bool.not_true, Bool.and_false, unlinkProc_eq, passed, Bool.or_false]
          rw [later, List.getLast?_cons]
          cases offsets.getLast? <;> rfl

/-- The walk ends at the record, with the one before it in the block, if there is one. -/
theorem Spans.walk_unlink (spans : Spans buf start (before ++ offset :: after) bs)
    (missing : ∀ offset ∈ before, selects name ino buf offset = false)
    (hit : selects name ino buf offset = true) (bound : Nat)
    (enough : bs ≤ start + bound) (prev : Option Nat) :
    walkRecords bs true (unlinkProc name ino) bound start { buf := buf, priv := (prev, false) } =
      { changed := true, abort := true, buf := removeRecord (before.getLast?.or prev) buf offset
        priv := (some offset, true) } := by
  induction before generalizing start bound prev with
  | nil =>
      cases spans with
      | cons sound rest =>
          have long := sound.long
          have ends := rest.le
          have unbad : badRecord bs buf offset = false := badRecord_iff_sound.mpr ⟨ends, sound⟩
          have inside : offset < bs := by omega
          obtain ⟨bound, rfl⟩ : ∃ more, bound = more + 1 := ⟨bound - 1, by omega⟩
          simp [walkRecords, inside, unbad, unlinkProc_eq, hit]
  | cons first before inductionHypothesis =>
      cases spans with
      | cons sound rest =>
          have long := sound.long
          have ends := rest.le
          have unbad : badRecord bs buf first = false := badRecord_iff_sound.mpr ⟨ends, sound⟩
          have inside : first < bs := by omega
          have passed := missing first (List.mem_cons_self ..)
          obtain ⟨bound, rfl⟩ : ∃ more, bound = more + 1 := ⟨bound - 1, by omega⟩
          have later := inductionHypothesis rest
            (fun offset member => missing offset (List.mem_cons_of_mem _ member))
            bound (by omega) (some first)
          simp only [walkRecords, inside, if_true, unbad, Bool.false_eq_true,
            if_false, Bool.not_true, Bool.and_false, unlinkProc_eq, passed, Bool.or_false]
          rw [later, List.getLast?_cons]
          cases before.getLast? <;> rfl

/-- No live record is the one that is looked for. -/
def lacks (name : Name) (ino : Nat) (entries : List Dirent) : Bool :=
  entries.all fun entry => !entry.matchesEntry name ino

/-- Where no live entry matches, no record is selected. -/
theorem lacks_liveOf (lacking : lacks name ino (liveOf buf offsets) = true) :
    ∀ offset ∈ offsets, selects name ino buf offset = false := by
  intro offset member
  by_contra hit
  rw [Bool.not_eq_false, selects, Bool.and_eq_true, decide_eq_true_eq] at hit
  have live : direntAt buf offset ∈ liveOf buf offsets :=
    List.mem_map.mpr ⟨offset, List.mem_filter.mpr ⟨member, by simpa using hit.1⟩, rfl⟩
  have differs := List.all_eq_true.mp lacking _ live
  rw [hit.2] at differs
  cases differs

/-- Where no record is selected, no live entry matches. -/
theorem liveOf_lacks (missing : ∀ offset ∈ offsets, selects name ino buf offset = false) :
    lacks name ino (liveOf buf offsets) = true := by
  rw [lacks, List.all_eq_true]
  intro entry live
  obtain ⟨offset, member, rfl⟩ := List.mem_map.mp live
  obtain ⟨member, used⟩ := List.mem_filter.mp member
  have differs := missing offset member
  rw [selects, used, Bool.true_and] at differs
  rw [differs]
  rfl

/-- A row that has bytes has records. -/
theorem Spans.nonempty (spans : Spans buf start offsets bs) (inside : start < bs) :
    offsets ≠ [] := by
  rintro rfl
  cases spans
  omega

/-- A block without a selected record is walked to its end unchanged. -/
theorem processDirBlock_unlink_none (spans : Spans buf 0 offsets bs)
    (missing : ∀ offset ∈ offsets, selects name ino buf offset = false) (prev : Option Nat) :
    processDirBlock bs true (unlinkProc name ino) buf (prev, false) =
      (0, false, buf, offsets.getLast?.or prev, false) := by
  simp [processDirBlock, spans.chain.readDirBlockBad_eq,
    spans.walk_unlink_none missing bs (Nat.le_add_left ..)]

/-- A block with a selected record is changed at the first one. -/
theorem processDirBlock_unlink (spans : Spans buf 0 (before ++ offset :: after) bs)
    (missing : ∀ offset ∈ before, selects name ino buf offset = false)
    (hit : selects name ino buf offset = true) (prev : Option Nat) :
    processDirBlock bs true (unlinkProc name ino) buf (prev, false) =
      (0, true, removeRecord (before.getLast?.or prev) buf offset, some offset, true) := by
  simp [processDirBlock, spans.chain.readDirBlockBad_eq,
    spans.walk_unlink missing hit bs (Nat.le_add_left ..)]

/-- Blocks without the record are passed; what is remembered is a record of the last of them. -/
theorem dirIterate_unlink_skip {blocks : List Block} (rest : List Block) (positive : 0 < bs)
    (wellFormed : WellFormed bs blocks)
    (missing : ∀ block ∈ blocks, lacks name ino (liveFrom bs block bs 0) = true)
    (prev : Option Nat) :
    ∃ later, (blocks = [] → later = prev) ∧
      (blocks ≠ [] → ∃ last, later = some last ∧ last % 4 = 0) ∧
      dirIterate bs true (unlinkProc name ino) (blocks ++ rest) (prev, false) =
        ((dirIterate bs true (unlinkProc name ino) rest (later, false)).1,
          blocks ++ (dirIterate bs true (unlinkProc name ino) rest (later, false)).2.1,
          (dirIterate bs true (unlinkProc name ino) rest (later, false)).2.2) := by
  induction blocks generalizing prev with
  | nil => exact ⟨prev, fun _ => rfl, fun differs => absurd rfl differs, rfl⟩
  | cons block blocks inductionHypothesis =>
      obtain ⟨offsets, spans⟩ := (wellFormed block (List.mem_cons_self ..)).spans
      have unselected := missing block (List.mem_cons_self ..)
      rw [spans.liveFrom_eq] at unselected
      obtain ⟨last, isLast⟩ : ∃ last, offsets.getLast? = some last :=
        Option.ne_none_iff_exists'.mp fun none =>
          spans.nonempty positive (List.getLast?_eq_none_iff.mp none)
      have even : last % 4 = 0 := spans.aligned rfl (List.mem_of_getLast? isLast)
      obtain ⟨later, empty, more, skips⟩ := inductionHypothesis
        (fun other member => wellFormed other (List.mem_cons_of_mem _ member))
        (fun other member => missing other (List.mem_cons_of_mem _ member)) (some last)
      refine ⟨later, nofun, fun _ => ?_, ?_⟩
      · by_cases noMore : blocks = []
        · exact ⟨last, empty noMore, even⟩
        · exact more noMore
      · rw [List.cons_append, dirIterate,
          processDirBlock_unlink_none spans (lacks_liveOf unselected) prev, isLast, Option.some_or]
        simp only [skips]
        rfl

section Removal

/-- The first record of the first block is only marked free. -/
theorem removeRecord_none (spans : Spans buf start (start :: after) stop) :
    Spans (removeRecord none buf start) start (start :: after) stop ∧
      liveOf (removeRecord none buf start) (start :: after) = liveOf buf after := by
  cases spans with
  | cons sound rest =>
      have long := sound.long
      have outside : ∀ index, start + 4 ≤ index → removeRecord none buf start index = buf index :=
        fun index low => Bytes.setU32_apply_of_disjoint _ _ (.inr low)
      have recLen : recLenAt (removeRecord none buf start) start = recLenAt buf start :=
        Bytes.getU16_congr fun index low _ => outside index low
      have nameLen : nameLenAt (removeRecord none buf start) start = nameLenAt buf start :=
        Bytes.getU16_congr fun index low _ => outside index (by omega)
      have free : inodeAt (removeRecord none buf start) start = 0 := by
        rw [inodeAt, removeRecord, Bytes.getU32_setU32_same, Nat.zero_mod]
      have later : ∀ index, start + recLenAt buf start ≤ index → index < stop →
          removeRecord none buf start index = buf index :=
        fun index low _ => outside index (by omega)
      constructor
      · refine .cons ⟨?_, ?_, ?_⟩ ?_
        · rw [recLen]
          exact long
        · rw [recLen]
          exact sound.aligned
        · rw [nameLen8At, nameLen, recLen]
          exact sound.fits
        · rw [recLen]
          exact rest.congr later
      · rw [liveOf_cons, if_pos free, List.nil_append, rest.liveOf_congr later]

/-- A record behind another one is swallowed by it. -/
theorem removeRecord_some {prev : Nat}
    (spans : Spans buf start (before ++ prev :: offset :: after) stop)
    (short : recLenAt buf prev + recLenAt buf offset < 65536) :
    Spans (removeRecord (some prev) buf offset) start (before ++ prev :: after) stop ∧
      liveOf (removeRecord (some prev) buf offset) (before ++ prev :: after) =
        liveOf buf (before ++ prev :: after) := by
  obtain ⟨ahead, sound, behind⟩ := spans.split
  cases behind with
  | cons soundNext rest =>
      have long := sound.long
      have aligned := sound.aligned
      have alignedNext := soundNext.aligned
      refine ahead.resize short (by omega) (by omega) (by have := sound.fits; omega) ?_
      rw [← Nat.add_assoc]
      exact rest

end Removal

section Directories

variable {blocks : List Block}

/-- The first record that `ext2fs_unlink` looks for is the one at `offset` in `block`. -/
structure Found (bs : Nat) (name : Name) (ino : Nat) (blocks earlier : List Block) (block : Block)
    (later : List Block) (before : List Nat) (offset : Nat) (after : List Nat) : Prop where
  blocks_eq : blocks = earlier ++ block :: later
  skipped : ∀ block ∈ earlier, lacks name ino (liveFrom bs block bs 0) = true
  spans : Spans block 0 (before ++ offset :: after) bs
  missing : ∀ offset ∈ before, selects name ino block offset = false
  hit : selects name ino block offset = true

/-- The live entries of a directory, split at one block. -/
theorem liveEntries_append (earlier : List Block) (block : Block) (later : List Block) :
    liveEntries bs (earlier ++ block :: later) =
      liveEntries bs earlier ++ liveFrom bs block bs 0 ++ liveEntries bs later := by
  simp [liveEntries]

/-- What some item passes some first item passes. -/
theorem exists_first {α : Type} {test : α → Bool} {items : List α}
    (found : ∃ item ∈ items, test item = true) :
    ∃ before item after, items = before ++ item :: after ∧ (∀ other ∈ before, test other = false) ∧
      test item = true := by
  obtain ⟨item, hit⟩ := Option.isSome_iff_exists.mp (List.find?_isSome.mpr found)
  obtain ⟨passes, before, after, split, fails⟩ := List.find?_eq_some_iff_append.mp hit
  exact ⟨before, item, after, split, fun other member => by simpa using fails other member, passes⟩

/-- A live entry is found. -/
theorem WellFormed.found (wellFormed : WellFormed bs blocks)
    (live : ∃ entry ∈ liveEntries bs blocks, entry.matchesEntry name ino = true) :
    ∃ earlier block later before offset after,
      Found bs name ino blocks earlier block later before offset after := by
  obtain ⟨entry, inDir, matching⟩ := live
  obtain ⟨block, inBlocks, inBlock⟩ := List.mem_flatMap.mp inDir
  have holds : ∃ block ∈ blocks, (!lacks name ino (liveFrom bs block bs 0)) = true := by
    refine ⟨block, inBlocks, ?_⟩
    rw [Bool.not_eq_true', lacks, List.all_eq_false]
    exact ⟨entry, inBlock, by simp [matching]⟩
  obtain ⟨earlier, block, later, rfl, skipped, present⟩ := exists_first holds
  obtain ⟨offsets, spans⟩ := (wellFormed block (by simp)).spans
  have selected : ∃ offset ∈ offsets, selects name ino block offset = true := by
    by_contra none
    have lacking : lacks name ino (liveOf block offsets) = true :=
      liveOf_lacks fun offset member => Bool.eq_false_iff.mpr fun hit => none ⟨offset, member, hit⟩
    rw [spans.liveFrom_eq, lacking] at present
    cases present
  obtain ⟨before, offset, after, rfl, missing, hit⟩ := exists_first selected
  exact ⟨earlier, block, later, before, offset, after, rfl,
    fun block member => by simpa using skipped block member, spans, missing, hit⟩

/-- `ext2fs_unlink` on a directory with the record. -/
theorem Found.unlink_eq {earlier later : List Block} {block : Block} (positive : 0 < bs)
    (wellFormed : WellFormed bs blocks)
    (found : Found bs name ino blocks earlier block later before offset after) :
    ∃ prev, (earlier = [] → prev = none) ∧
      (earlier ≠ [] → ∃ last, prev = some last ∧ last % 4 = 0) ∧
      (dirLib bs).unlink blocks name ino =
        (0, earlier ++ removeRecord (before.getLast?.or prev) block offset :: later) := by
  obtain ⟨rfl, skipped, spans, missing, hit⟩ := found
  obtain ⟨prev, first, more, skips⟩ := dirIterate_unlink_skip (block :: later) positive
    (fun other member => wellFormed other (List.mem_append_left _ member)) skipped none
  refine ⟨prev, first, more, ?_⟩
  have ended : dirIterate bs true (unlinkProc name ino) (block :: later) (prev, false) =
      (0, removeRecord (before.getLast?.or prev) block offset :: later, some offset, true) := by
    rw [dirIterate, processDirBlock_unlink spans missing hit]
  simp only [dirLib, skips, ended]

/-- A list lacks an entry when both its parts do. -/
theorem lacks_append {first second : List Dirent} : lacks name ino (first ++ second) =
    (lacks name ino first && lacks name ino second) := by
  simp [lacks]

/-- The match is erased in the second part when the first one has none. -/
theorem eraseP_of_lacks {first second : List Dirent} (lacking : lacks name ino first = true) :
    (first ++ second).eraseP (Dirent.matchesEntry name ino) =
      first ++ second.eraseP (Dirent.matchesEntry name ino) := by
  rw [lacks, List.all_eq_true] at lacking
  refine List.eraseP_append_right _ fun entry member => ?_
  simpa using lacking entry member

/-- Erasing the first match in the directory is erasing the found record in its block. -/
theorem Found.eraseP_eq {earlier later : List Block} {block : Block}
    (found : Found bs name ino blocks earlier block later before offset after) :
    (liveEntries bs blocks).eraseP (Dirent.matchesEntry name ino) =
      liveEntries bs earlier ++ (liveOf block (before ++ after)) ++ liveEntries bs later := by
  obtain ⟨rfl, skipped, spans, missing, hit⟩ := found
  have ahead : lacks name ino (liveEntries bs earlier) = true := by
    rw [lacks, List.all_eq_true]
    intro entry member
    obtain ⟨block, inEarlier, inBlock⟩ := List.mem_flatMap.mp member
    exact List.all_eq_true.mp (skipped block inEarlier) entry inBlock
  rw [selects, Bool.and_eq_true, decide_eq_true_eq] at hit
  rw [liveEntries_append, spans.liveFrom_eq, liveOf_append, liveOf_cons, if_neg hit.1,
    List.append_assoc,
    List.append_assoc, eraseP_of_lacks ahead, eraseP_of_lacks (liveOf_lacks missing),
      List.singleton_append,
    List.cons_append, List.eraseP_cons_of_pos hit.2, liveOf_append, List.append_assoc,
      List.append_assoc]

/-- The directory afterwards is well formed, with the entry gone and the others as they were. -/
def Removes (bs : Nat) (blocks : List Block) (name : Name) (ino : Nat)
    (blocks' : List Block) : Prop :=
  WellFormed bs blocks' ∧
    liveEntries bs blocks' = (liveEntries bs blocks).eraseP (Dirent.matchesEntry name ino)

/-- The record is the first of a block, and not of the first block. -/
def StartsBlock (bs : Nat) (blocks : List Block) (name : Name) (ino : Nat) : Prop :=
  ∃ earlier block later, blocks = earlier ++ block :: later ∧ earlier ≠ [] ∧
    (∀ block ∈ earlier, lacks name ino (liveFrom bs block bs 0) = true) ∧
    selects name ino block 0 = true

/-- The record and the one before it fill a block of 64 KiB, the sum of whose lengths is 0 in 16
bits. -/
def FillsBlock (bs : Nat) (blocks : List Block) (name : Name) (ino : Nat) : Prop :=
  ∃ earlier block later, blocks = earlier ++ block :: later ∧
    (∀ block ∈ earlier, lacks name ino (liveFrom bs block bs 0) = true) ∧
    recLenAt block 0 < bs ∧ selects name ino block 0 = false ∧
    selects name ino block (recLenAt block 0) = true ∧
    recLenAt block 0 + recLenAt block (recLenAt block 0) = 65536

/-- What has to be shown of the block with the record. -/
theorem Found.removes_iff {earlier later : List Block} {block block' : Block}
    (wellFormed : WellFormed bs blocks)
    (found : Found bs name ino blocks earlier block later before offset after) :
    Removes bs blocks name ino (earlier ++ block' :: later) ↔
      Chain bs block' 0 ∧ liveFrom bs block' bs 0 = liveOf block (before ++ after) := by
  rw [Removes, found.eraseP_eq, liveEntries_append, List.append_cancel_right_eq,
    List.append_cancel_left_eq]
  refine and_congr_left fun _ => ⟨fun all => all block' (by simp), fun chain other member => ?_⟩
  rw [List.mem_append, List.mem_cons] at member
  rcases member with member | rfl | member
  · exact wellFormed other (by simp [found.blocks_eq, member])
  · exact chain
  · exact wellFormed other (by simp [found.blocks_eq, member])

/-- The first record of a block of a well-formed directory. -/
theorem WellFormed.first (wellFormed : WellFormed bs blocks) (positive : 0 < bs) (block : Block)
    (member : block ∈ blocks) : ∃ after, Spans block 0 (0 :: after) bs := by
  obtain ⟨offsets, spans⟩ := (wellFormed block member).spans
  cases spans with
  | nil => omega
  | cons sound rest => exact ⟨_, .cons sound rest⟩

/-- Elsewhere the entry is removed, and nothing else. -/
theorem WellFormed.unlink_removes (positive : 0 < bs) (bounded : bs ≤ 65536)
    (wellFormed : WellFormed bs blocks)
    (live : ∃ entry ∈ liveEntries bs blocks, entry.matchesEntry name ino = true)
    (inside : ¬ StartsBlock bs blocks name ino) (fits : ¬ FillsBlock bs blocks name ino) :
    Removes bs blocks name ino ((dirLib bs).unlink blocks name ino).2 := by
  obtain ⟨earlier, block, later, before, offset, after, found⟩ := wellFormed.found live
  obtain ⟨prev, first, -, unlinked⟩ := found.unlink_eq positive wellFormed
  rw [unlinked, found.removes_iff wellFormed]
  have spans := found.spans
  rcases List.eq_nil_or_concat before with rfl | ⟨before, last, rfl⟩
  · -- the first record of its block, which then is the first block
    obtain rfl : offset = 0 := by
      cases spans
      rfl
    obtain rfl : earlier = [] := by
      by_contra more
      exact inside ⟨earlier, block, later, found.blocks_eq, more, found.skipped, found.hit⟩
    rw [first rfl]
    obtain ⟨kept, gone⟩ := removeRecord_none (show Spans block 0 (0 :: after) bs from spans)
    exact ⟨kept.chain, kept.liveFrom_eq.trans gone⟩
  · rw [List.concat_eq_append, List.append_assoc, List.singleton_append] at spans
    obtain ⟨ahead, sound, behind⟩ := spans.split
    have follows : offset = last + recLenAt block last := by
      cases behind
      rfl
    have member : offset ∈ before ++ last :: offset :: after := by simp
    obtain ⟨-, ends, soundNext⟩ := spans.bounds member
    have short : recLenAt block last + recLenAt block offset < 65536 := by
      by_contra long
      obtain rfl : last = 0 := by omega
      refine fits ⟨earlier, block, later, found.blocks_eq, found.skipped, ?_, ?_, ?_, ?_⟩
      · have longNext := soundNext.long
        omega
      · exact found.missing 0 (by simp)
      · rw [← Nat.zero_add (recLenAt block 0), ← follows]
        exact found.hit
      · rw [Nat.zero_add] at follows
        rw [← follows]
        omega
    obtain ⟨kept, gone⟩ := removeRecord_some spans short
    rw [List.concat_eq_append, List.getLast?_concat, Option.some_or]
    refine ⟨kept.chain, ?_⟩
    rw [kept.liveFrom_eq, gone, List.append_assoc, List.singleton_append]

/-- A record that starts a later block is still there afterwards: it is not merged into the
record before it, which is in another block. -/
theorem not_removes_of_startsBlock (positive : 0 < bs) (wellFormed : WellFormed bs blocks)
    (once : lacks name ino ((liveEntries bs blocks).eraseP (Dirent.matchesEntry name ino)) = true)
    (starts : StartsBlock bs blocks name ino) :
    ¬ Removes bs blocks name ino ((dirLib bs).unlink blocks name ino).2 := by
  obtain ⟨earlier, block, later, blocksEq, more, skipped, hit⟩ := starts
  obtain ⟨after, spans⟩ := wellFormed.first positive block (by simp [blocksEq])
  have found : Found bs name ino blocks earlier block later [] 0 after :=
    ⟨blocksEq, skipped, spans, nofun, hit⟩
  obtain ⟨prev, -, remembered, unlinked⟩ := found.unlink_eq positive wellFormed
  obtain ⟨last, rfl, even⟩ := remembered more
  rw [unlinked, found.removes_iff wellFormed]
  rintro ⟨chain, removed⟩
  rw [found.eraseP_eq, lacks_append, lacks_append, Bool.and_eq_true, Bool.and_eq_true] at once
  have alone : lacks name ino (liveOf block after) = true := once.1.2
  rw [List.nil_append] at removed
  generalize eq : removeRecord (List.getLast? [] |>.or (some last)) block 0 =
    block' at chain removed
  have outside : ∀ index, index < last + 4 ∨ last + 6 ≤ index → block' index = block index := by
    intro index apart
    rw [← eq]
    exact setU16_apply_outside _ (by omega)
  have inUse : inodeAt block' 0 = inodeAt block 0 :=
    Bytes.getU32_congr fun index _ high => outside index (by omega)
  rw [selects, Bool.and_eq_true, decide_eq_true_eq] at hit
  cases spans with
  | cons sound rest =>
      have fits := sound.fits
      have aligned := sound.aligned
      by_cases named : last = 0 ∨ 8 + nameLen8At block 0 ≤ last + 4
      · -- the record has kept its name
        have entry : direntAt block' 0 = direntAt block 0 := by
          rcases named with rfl | behind
          · rw [← eq]
            exact direntAt_resized
          · exact direntAt_congr fun index _ high => outside index (by omega)
        obtain ⟨offsets, spans'⟩ := chain.spans
        rw [spans'.liveFrom_eq] at removed
        cases spans' with
        | nil => omega
        | cons _ _ =>
            rw [liveOf_cons, inUse, if_neg hit.1, entry, List.singleton_append] at removed
            rw [← removed, lacks, List.all_cons, hit.2] at alone
            cases alone
      · -- the name has changed, and all other records are as they were
        have header : ∀ index, 0 ≤ index → index < 0 + 8 → block' index = block index :=
          fun index _ high => outside index (by omega)
        have others : ∀ index, 0 + recLenAt block 0 ≤ index → index < bs →
          block' index = block index :=
          fun index low _ => outside index (by omega)
        have spans' : Spans block' 0 (0 :: after) bs := by
          refine .cons (sound.congr header) ?_
          rw [(fields_congr header).2.1]
          exact rest.congr others
        rw [spans'.liveFrom_eq, liveOf_cons, inUse, if_neg hit.1,
          rest.liveOf_congr others] at removed
        have lengths := congrArg List.length removed
        simp at lengths

/-- Two records that fill a block of 64 KiB together leave a record of length 0. -/
theorem not_removes_of_fillsBlock (positive : 0 < bs) (wellFormed : WellFormed bs blocks)
    (fills : FillsBlock bs blocks name ino) :
    ¬ Removes bs blocks name ino ((dirLib bs).unlink blocks name ino).2 := by
  obtain ⟨earlier, block, later, blocksEq, skipped, more, passed, hit, full⟩ := fills
  obtain ⟨after, spans⟩ := wellFormed.first positive block (by simp [blocksEq])
  cases spans with
  | cons sound rest =>
      rw [Nat.zero_add] at rest
      cases rest with
      | nil => omega
      | @cons _ _ after soundNext rest =>
          have found : Found bs name ino blocks earlier block later [0]
            (recLenAt block 0) after := by
            refine ⟨blocksEq, skipped, .cons sound ?_, ?_, hit⟩
            · rw [Nat.zero_add]
              exact .cons soundNext rest
            · intro offset member
              rw [List.mem_singleton.mp member]
              exact passed
          obtain ⟨prev, -, -, unlinked⟩ := found.unlink_eq positive wellFormed
          rw [unlinked, found.removes_iff wellFormed]
          rintro ⟨chain, -⟩
          obtain ⟨offsets, spans'⟩ := chain.spans
          cases spans' with
          | nil => omega
          | cons sound' _ =>
              have long := sound'.long
              have zero : recLenAt (removeRecord (some 0) block (recLenAt block 0)) 0 = 0 := by
                rw [removeRecord, full, recLenAt, Bytes.getU16_setU16_same]
              rw [show ([0] : List Nat).getLast?.or prev = some 0 from rfl, zero] at long
              omega

end Directories

end DirBlock

section Requests

open Fs DirBlock

variable {env : Env (List Block)} {fs fs' : Fs (List Block)} {parent ino : Nat} {name : Name}

/-- Writing an inode leaves the directories. -/
theorem Fs.ext2fsWriteInode_dirs {δ : Type} (fs : Fs δ) (ino : Nat) (inode : Inode) :
    (fs.ext2fsWriteInode ino inode).2.dirs = fs.dirs := by
  rw [ext2fsWriteInode]
  split <;> rfl

/-- Releasing an inode writes to no directory. -/
theorem keeps_killFileByInode {δ : Type} {env : Env δ} (dirs : Nat → δ) (inode : Inode) :
    Keeps (lib env) (fun fs : Fs δ => fs.dirs = dirs) (killFileByInode ino inode) := by
  refine keeps_bind (keeps_lift fun _ kept => kept) fun now => ?_
  refine keeps_bind (keeps_bind (keeps_lift fun state kept => ?_)
    fun _ => keeps_pure _) fun rc => ?_
  · exact (ext2fsWriteInode_dirs state _ _).trans kept
  split
  · exact keeps_pure _
  split
  · exact keeps_pure _
  refine keeps_bind (keeps_lift fun state kept => ?_) fun _ => ?_
  · exact (lib_blockIterateRelease_kept env state ino).1.trans kept
  refine keeps_bind (keeps_lift fun state kept => ?_) fun _ => keeps_lift fun state kept => ?_
  · change (state.ext2fsInodeAllocStats2 _ _ _).dirs = dirs
    rw [ext2fsInodeAllocStats2]
    split <;> exact kept
  · change (state.ext2fsUnmarkInodeBitmap _).dirs = dirs
    rw [ext2fsUnmarkInodeBitmap]
    split <;> exact kept

/-- The routines that remove an entry: `do_unlink_on_ino` and `do_rmdir_on_ino`. -/
inductive Removal where
  | unlink (links : Int)
  | rmdir (perms : Perms)

def Removal.program {δ : Type} (parent : Nat) (name : Name) (ino : Nat) : Removal → Prog δ Errcode
  | unlink links => doUnlinkOnIno parent name ino links
  | rmdir perms => doRmdirOnIno perms parent name ino

/-- A removal that reports success has called `ext2fs_unlink`, and written to the directory no
more. -/
theorem Removal.leads (removal : Removal) (isDirectory : fs.ext2fsCheckDirectory parent = 0) :
    Leads (lib env) (removal.program parent name ino) (fun rc fs' => rc = 0 →
      fs'.dirs parent = (env.dir.unlink (fs.dirs parent) name ino).2) fs := by
  have removed : ((lib env).exec (.unlink parent name ino) fs).2.dirs parent =
      (env.dir.unlink (fs.dirs parent) name ino).2 := by
    change (fs.ext2fsUnlink env parent name ino).2.dirs parent = _
    rw [ext2fsUnlink, if_pos isDirectory]
    exact Function.update_self ..
  have killed : ∀ {rc : Errcode} {unlinked next : Fs (List Block)} {result : Unit} {inode : Inode},
      (lib env).exec (.unlink parent name ino) fs = (rc, unlinked) →
      (killFileByInode ino inode).run (lib env) unlinked = (result, next) →
      next.dirs parent = (env.dir.unlink (fs.dirs parent) name ino).2 := by
    intro rc unlinked next result inode unlinking killing
    rw [(keeps_killFileByInode unlinked.dirs inode unlinked rfl).outcome killing,
      ← removed, unlinking]
  have failed : ∀ {rc : Errcode} {next : Fs (List Block)}, rc ≠ 0 → rc = 0 →
      next.dirs parent = (env.dir.unlink (fs.dirs parent) name ino).2 :=
    fun failed isZero => absurd isZero failed
  have eio : EIO ≠ 0 := by decide
  have enotdir : ENOTDIR ≠ 0 := by decide
  have eacces : EACCES ≠ 0 := by decide
  have enotempty : ENOTEMPTY ≠ 0 := by decide
  have one : (1 : Errcode) ≠ 0 := by decide
  cases removal with
  | unlink links =>
      rw [Removal.program, doUnlinkOnIno, leads_bind]
      refine leads_readInode (failed eio) fun _ => ?_
      dsimp only
      split
      · exact failed enotdir
      generalize (if (fs.inodeTab ino).iLinksCount > 0 then
        { fs.inodeTab ino with
          iLinksCount := (((fs.inodeTab ino).iLinksCount + links) % 2 ^ 16).toNat }
        else fs.inodeTab ino) = inode
      refine leads_lift_bind fun rc unlinked unlinking => ?_
      split
      · refine leads_bind_of fun _ next killing => ?_
        exact fun _ => killed unlinking killing
      · rw [leads_bind]
        refine leads_writeInode (failed eio) fun _ _ => ?_
        rw [← removed, unlinking]
        rfl
  | rmdir perms =>
      rw [Removal.program, doRmdirOnIno, leads_bind]
      refine leads_readInode (failed eio) fun _ => ?_
      dsimp only
      split
      · exact failed eacces
      split
      · exact failed enotdir
      refine leads_lift_bind fun listed _ outcome => ?_
      obtain ⟨rfl, rfl⟩ := Prod.mk.inj outcome
      split
      · exact failed eio
      split
      · exact failed enotempty
      refine leads_lift_bind fun rc unlinked unlinking => ?_
      split
      · exact failed eio
      refine leads_bind_of fun _ next killing => ?_
      have gone := killed unlinking killing
      split
      · exact fun _ => gone
      rw [leads_bind]
      refine leads_readInode (failed one) fun _ => ?_
      exact leads_writeInode (failed one) fun _ _ => gone

/-- Where the record of an entry is neither the first of a block other than the first, nor fills
a block of 64 KiB with the one before it, a removal that reports success removes exactly
this entry; elsewhere it does not, unless the entry is there twice. -/
theorem removes_exactly_iff (removal : Removal) (envDir : env.dir = dirLib fs.blocksize)
    (bounded : fs.blocksize ≤ 65536) (isDirectory : fs.ext2fsCheckDirectory parent = 0)
    (wellFormed : WellFormed fs.blocksize (fs.dirs parent))
    (live : ∃ entry ∈ liveEntries fs.blocksize (fs.dirs parent), entry.name = name ∧
      entry.inode = ino)
    (succeeded : (removal.program parent name ino).run (lib env) fs = (0, fs')) :
    (¬ StartsBlock fs.blocksize (fs.dirs parent) name ino ∧
        ¬ FillsBlock fs.blocksize (fs.dirs parent) name ino →
      Removes fs.blocksize (fs.dirs parent) name ino (fs'.dirs parent)) ∧
    (lacks name ino ((liveEntries fs.blocksize (fs.dirs parent)).eraseP
        (Dirent.matchesEntry name ino)) = true →
      Removes fs.blocksize (fs.dirs parent) name ino (fs'.dirs parent) →
      ¬ StartsBlock fs.blocksize (fs.dirs parent) name ino ∧
        ¬ FillsBlock fs.blocksize (fs.dirs parent) name ino) := by
  have positive : 0 < fs.blocksize := by
    rw [Fs.blocksize, Super.blocksize]
    exact Nat.mul_pos (by decide) (Nat.two_pow_pos _)
  have contents : fs'.dirs parent = ((dirLib fs.blocksize).unlink (fs.dirs parent) name ino).2 := by
    rw [← envDir]
    exact (removal.leads isDirectory).outcome succeeded rfl
  obtain ⟨entry, member, named, numbered⟩ := live
  have matching : ∃ entry ∈ liveEntries fs.blocksize (fs.dirs parent),
      entry.matchesEntry name ino = true :=
    ⟨entry, member, by simp [Dirent.matchesEntry, named, numbered]⟩
  rw [contents]
  constructor
  · rintro ⟨inside, fits⟩
    exact wellFormed.unlink_removes positive bounded matching inside fits
  · intro once removes
    exact ⟨fun starts => not_removes_of_startsBlock positive wellFormed once starts removes,
      fun fills => not_removes_of_fillsBlock positive wellFormed fills removes⟩

/-- A root directory of two blocks: the second has the files `c` and `d`. -/
def twoPages : List Block :=
  smallRoot ++ (smallEnv.dir.link
    (smallEnv.dir.link (smallEnv.dir.expand []) [0x63] 11 EXT2_FT_REG_FILE).2
    [0x64] 12 EXT2_FT_REG_FILE).2

/-- The volume with this root directory. -/
def pagedFs : Fs (List Block) := { smallFs with dirs := fun _ => twoPages }

/-- Removing `d` from the second block. -/
theorem removes_exactly_iff_paged :
    twoPages.length = 2 ∧
      (((Removal.unlink (-1)).program 2 [0x64] 12).run (lib smallEnv) pagedFs).1 = 0 ∧
      Removes 1024 twoPages [0x64] 12
        ((((Removal.unlink (-1)).program 2 [0x64] 12).run (lib smallEnv) pagedFs).2.dirs 2) := by
  have succeeded :
      (((Removal.unlink (-1)).program 2 [0x64] 12).run (lib smallEnv) pagedFs).1 = 0 := by
    decide +kernel
  have wellFormed : WellFormed pagedFs.blocksize (pagedFs.dirs 2) := by
    have passed : ∀ block ∈ twoPages, chainFrom 1024 block 8 0 = true := by decide +kernel
    exact fun block member => chain_of_chainFrom (passed block member)
  -- it is the first record of no block, and no two records fill a block of 64 KiB
  have inside : ∀ block ∈ twoPages, selects [0x64] 12 block 0 = false := by decide +kernel
  have shorter : ∀ block ∈ twoPages, recLenAt block 0 +
    recLenAt block (recLenAt block 0) ≠ 65536 := by
    decide +kernel
  refine ⟨by decide +kernel, succeeded, (removes_exactly_iff (.unlink (-1)) rfl (by decide)
    (by decide +kernel) wellFormed (by decide +kernel) (Prod.ext succeeded rfl)).1 ⟨?_, ?_⟩⟩
  · rintro ⟨earlier, block, later, split, -, -, first⟩
    rw [inside block (by rw [show twoPages = _ from split]; simp)] at first
    cases first
  · rintro ⟨earlier, block, later, split, -, -, -, -, full⟩
    exact shorter block (by rw [show twoPages = _ from split]; simp) full

/-- A root directory of two blocks: the second has one record, the file `a`. -/
def twoBlocks : List Block :=
  smallEnv.dir.newDirBlock 2 2 EXT2_FT_DIR ++
    (smallEnv.dir.link (smallEnv.dir.expand []) [0x61] 11 EXT2_FT_REG_FILE).2

/-- `do_unlink_on_ino` of `a` reports success and releases the inode, and the entry stays. -/
theorem unlink_leaves_entry :
    let fs : Fs (List Block) := { smallFs with dirs := fun _ => twoBlocks }
    let outcome := (doUnlinkOnIno 2 [0x61] 11 (-1)).run (lib smallEnv) fs
    WellFormed 1024 (fs.dirs 2) ∧ ⟨[0x61], 11, EXT2_FT_REG_FILE⟩ ∈ liveEntries 1024 (fs.dirs 2) ∧
      outcome.1 = 0 ∧ outcome.2.inodeMap 11 = false ∧
      ¬ Removes 1024 (fs.dirs 2) [0x61] 11 (outcome.2.dirs 2) := by
  refine ⟨?_, by decide +kernel, by decide +kernel, by decide +kernel, ?_⟩
  · have passed : ∀ block ∈ twoBlocks, chainFrom 1024 block 8 0 = true := by decide +kernel
    exact fun block member => chain_of_chainFrom (passed block member)
  · rintro ⟨-, removed⟩
    revert removed
    decide +kernel

end Requests

end Ext2Fuse
