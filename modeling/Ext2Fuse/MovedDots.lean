import Ext2Fuse.DirLink
import Ext2Fuse.Readdir
import Ext2Fuse.RenameSame
import Ext2Fuse.RmdirEmpty

/-!
# The first records of a directory that moves

`do_rename` enters the new `..` wherever there is room and then removes the old one, so that where
`..` ends up depends on the room in the first two records.
-/

namespace Ext2Fuse

open Lib Program Fs

namespace DirBlock

variable {bs : Nat} {buf block : Block} {ino parent newParent fileType start : Nat} {name : Name}

/-- The records at the start of a directory: `.` for itself and `..` for its parent. -/
structure DotRecords (bs : Nat) (block : Block) (ino parent : Nat) : Prop where
  dot : nameAt block 0 = dotName
  self : inodeAt block 0 = ino
  more : recLenAt block 0 < bs
  dotDot : nameAt block (recLenAt block 0) = dotDotName
  above : inodeAt block (recLenAt block 0) = parent

/-- The first block of a directory starts with them. -/
def StartsWithDots (bs : Nat) (blocks : List Block) (ino parent : Nat) : Prop :=
  ∃ block rest, blocks = block :: rest ∧ DotRecords bs block ino parent

/-- There is room for another `..` right behind `.`, or right behind `..` and what is free there. -/
def RoomForDotDot (bs : Nat) (block : Block) : Prop :=
  24 ≤ recLenAt block 0 ∨ 24 ≤ recLenAt (absorbed bs block (recLenAt block 0)) (recLenAt block 0)

section Walk

/-- What link_proc makes of a record before it looks for room: the next one absorbed, if it is
unused. -/
theorem absorbed_eq : absorbed bs buf start = if absorbs bs buf start then
    buf.setU16 (start + 4)
      (recLenAt buf start + recLenAt buf (start + recLenAt buf start)) else buf := rfl

theorem inodeAt_absorbed : inodeAt (absorbed bs buf start) start = inodeAt buf start := by
  rw [absorbed_eq]
  split
  · exact inodeAt_resized
  · rfl

theorem nameLen8At_absorbed : nameLen8At (absorbed bs buf start) start = nameLen8At buf start := by
  rw [absorbed_eq]
  split
  · rw [nameLen8At, nameLenAt_resized, nameLen8At]
  · rfl

theorem absorbed_apply {index : Nat} (apart : index ≠ start + 4 ∧ index ≠ start + 5) :
    absorbed bs buf start index = buf index := by
  rw [absorbed_eq]
  split
  · exact setU16_apply_outside _ (by omega)
  · rfl

theorem recLenAt_absorbed (bounded : bs < start + 65536) :
    recLenAt buf start ≤ recLenAt (absorbed bs buf start) start := by
  rw [absorbed_eq]
  split
  · rename_i absorbs
    rw [DirBlock.absorbs, Bool.and_eq_true, Bool.and_eq_true, decide_eq_true_eq, decide_eq_true_eq,
      decide_eq_true_eq] at absorbs
    rw [recLenAt_resized (by omega)]
    omega
  · exact Nat.le_refl _

/-- What `link_proc` leaves alone: what is before the record, and the inode and the name of a live
one. -/
theorem linkProc_apply (done : Bool) {index : Nat} (inHead : index < start ∨ inodeAt buf start ≠ 0 ∧
    index < start + 8 + nameLen8At buf start ∧ index ≠ start + 4 ∧ index ≠ start + 5) :
    (linkProc bs name ino fileType buf start done).2.1 index = buf index := by
  have same : absorbed bs buf start index = buf index := absorbed_apply (by omega)
  obtain ⟨-, -, fits, -⟩ := recLen_name (nameLen8At buf start)
  rw [linkProc_eq]
  split
  · split
    · exact same
    · rw [← same]
      exact cut_apply (by rw [nameLen8At_absorbed]; omega)
  · rename_i free
    rw [inodeAt_absorbed] at free
    split
    · exact same
    · rw [← same]
      exact filled_outside (by omega)

/-- A live record still ends behind its name. -/
theorem linkProc_recLen (bounded : bs < start + 65536) (done : Bool) (used : inodeAt buf start ≠ 0)
    (fits : nameLen8At buf start + 8 ≤ recLenAt buf start) :
    nameLen8At buf start + 8 ≤ recLenAt
      (linkProc bs name ino fileType buf start done).2.1 start := by
  have longer := @recLenAt_absorbed bs buf start bounded
  obtain ⟨-, -, room, -⟩ := recLen_name (nameLen8At buf start)
  obtain ⟨long, -⟩ := recLen_name name.length
  rw [linkProc_eq, if_pos (by rw [inodeAt_absorbed]; exact used)]
  split
  · exact Nat.le_trans fits longer
  · rename_i roomy
    rw [recLenAt_cut (by omega), nameLen8At_absorbed]
    exact room

/-- A live record with a short name that has no room for `..` is passed. -/
theorem linkProc_full (done : Bool) (live : inodeAt buf start ≠ 0)
    (least : EXT2_DIR_REC_LEN (nameLen8At buf start) = 12) (full : recLenAt buf start < 24)
    (alone : absorbs bs buf start = false) :
    linkProc bs dotDotName ino fileType buf start done = ({}, buf, done) := by
  have stays : absorbed bs buf start = buf := by rw [absorbed_eq, alone]; rfl
  rw [linkProc_eq, stays, if_pos live, least, show EXT2_DIR_REC_LEN dotDotName.length = 12 from rfl,
    if_pos full, alone]

/-- The walk writes nothing before the record it starts with. -/
theorem walk_link_below (bound : Nat) (walk : BlockWalk Bool) {index : Nat}
    (below : index < start) :
    (walkRecords bs true (linkProc bs name ino fileType) bound start walk).buf index =
    walk.buf index := by
  induction bound generalizing start walk with
  | zero => rfl
  | succ bound inductionHypothesis =>
      have kept := @linkProc_apply bs walk.buf ino fileType start name walk.priv index (.inl below)
      rw [walkRecords]
      split
      · split
        · rfl
        · rw [if_neg (by simp)]
          dsimp only
          split
          · exact kept
          · exact (inductionHypothesis _ (by omega)).trans kept
      · rfl

/-- Nor does it change the entry of a live record it starts with. -/
theorem walk_link_entry (bounded : bs < start + 65536) (bound : Nat) (walk : BlockWalk Bool)
    (used : inodeAt walk.buf start ≠ 0) {index : Nat}
    (inHead : index < start + 8 + nameLen8At walk.buf start)
    (apart : index ≠ start + 4 ∧ index ≠ start + 5) :
    (walkRecords bs true (linkProc bs name ino fileType) bound start walk).buf index =
    walk.buf index := by
  cases bound with
  | zero => rfl
  | succ bound =>
      have kept := @linkProc_apply bs walk.buf ino fileType start name walk.priv index
        (.inr ⟨used, inHead, apart.1, apart.2⟩)
      rw [walkRecords]
      split
      · split
        · rfl
        · rename_i sound
          have fits := (badRecord_eq_false.mp (by simpa using sound)).2.2.2
          have longer : nameLen8At walk.buf start + 8 ≤
              recLenAt (linkProc bs name ino fileType walk.buf start walk.priv).2.1 start :=
            linkProc_recLen bounded walk.priv used fits
          have below : index < start +
            recLenAt (linkProc bs name ino fileType walk.buf start walk.priv).2.1 start := by
            omega
          rw [if_neg (by simp)]
          dsimp only
          split
          · exact kept
          · exact (walk_link_below _ _ below).trans kept
      · rfl

/-- A record the callback has nothing to do with is the last one, or is passed. -/
theorem walk_quiet {ρ : Type} {func : DirFunc ρ} {walk : BlockWalk ρ}
    (quiet : func walk.buf start walk.priv = ({}, walk.buf, walk.priv)) (bound : Nat) :
    (walkRecords bs true func bound start walk).buf = walk.buf ∨ ∃ fewer,
      walkRecords bs true func bound start walk =
        walkRecords bs true func fewer (start + recLenAt walk.buf start) walk := by
  cases bound with
  | zero => exact .inl rfl
  | succ bound =>
      rw [walkRecords]
      split
      · split
        · exact .inl rfl
        · rw [if_neg (by simp), quiet]
          refine .inr ⟨bound, ?_⟩
          simp
      · exact .inl rfl

end Walk

/-- The first two records have no room for another `..`, and none follows that is live. -/
structure Cramped (bs : Nat) (block : Block) (ino parent : Nat) :
    Prop extends DotRecords bs block ino parent where
  used : ino ≠ 0
  usedParent : parent ≠ 0
  full : recLenAt block 0 < 24
  fullNext : recLenAt block (recLenAt block 0) < 24
  fits : 9 ≤ recLenAt block 0 ∧ 10 ≤ recLenAt block (recLenAt block 0)
  third : recLenAt block 0 + recLenAt block (recLenAt block 0) = bs ∨
    inodeAt block (recLenAt block 0 + recLenAt block (recLenAt block 0)) ≠ 0 ∧
      nameAt block (recLenAt block 0 + recLenAt block (recLenAt block 0)) ≠ dotDotName

section Cramped

variable (cramped : Cramped bs block ino parent)

include cramped

/-- Only the first two records matter, and the entry of the third. -/
theorem Cramped.congr {block' : Block}
    (same : ∀ index < recLenAt block 0 + recLenAt block (recLenAt block 0),
      block' index = block index)
    (third : inodeAt block (recLenAt block 0 + recLenAt block (recLenAt block 0)) ≠ 0 → ∀ index,
      index < recLenAt block 0 + recLenAt block (recLenAt block 0) + 8 +
        nameLen8At block (recLenAt block 0 + recLenAt block (recLenAt block 0)) →
      index ≠ recLenAt block 0 + recLenAt block (recLenAt block 0) + 4 ∧
        index ≠ recLenAt block 0 + recLenAt block
          (recLenAt block 0) + 5 → block' index = block index) :
    Cramped bs block' ino parent := by
  obtain ⟨⟨dot, self, more, dotDot, above⟩, used, usedParent, full, fullNext,
    ⟨fits, fitsNext⟩, last⟩ := cramped
  have short : nameLen8At block 0 = 1 := by rw [← length_nameAt, dot]; rfl
  have shortNext : nameLen8At block (recLenAt block 0) = 2 := by rw [← length_nameAt, dotDot]; rfl
  generalize firstEq : recLenAt block 0 = first at *
  generalize secondEq : recLenAt block first = second at *
  have recLen : recLenAt block' 0 = first :=
    (fields_congr fun index _ _ => same index (by omega)).2.1.trans firstEq
  have recLenNext : recLenAt block' first = second :=
    (fields_congr fun index _ _ => same index (by omega)).2.1.trans secondEq
  have entry : direntAt block' 0 = direntAt block 0 :=
    direntAt_congr fun index _ less => same index (by omega)
  have entryNext : direntAt block' first = direntAt block first :=
    direntAt_congr fun index _ less => same index (by omega)
  refine ⟨⟨?_, ?_, ?_, ?_, ?_⟩, used, usedParent, ?_, ?_, ?_, ?_⟩
  · exact (congrArg Dirent.name entry).trans dot
  · exact (congrArg Dirent.inode entry).trans self
  · rw [recLen]
    exact more
  · rw [recLen]
    exact (congrArg Dirent.name entryNext).trans dotDot
  · rw [recLen]
    exact (congrArg Dirent.inode entryNext).trans above
  · rw [recLen]
    exact full
  · rw [recLen, recLenNext]
    exact fullNext
  · rw [recLen, recLenNext]
    exact ⟨fits, fitsNext⟩
  · rw [recLen, recLenNext]
    refine last.imp_right fun ⟨live, named⟩ => ?_
    have kept := third live
    have inode : inodeAt block' (first + second) = inodeAt block (first + second) :=
      Bytes.getU32_congr fun index _ _ => kept index (by omega) (by omega)
    have nameLen : nameLenAt block' (first + second) = nameLenAt block (first + second) :=
      Bytes.getU16_congr fun index _ _ => kept index (by omega) (by omega)
    have sameName : nameAt block' (first + second) = nameAt block (first + second) := by
      rw [nameAt, nameAt, nameLen8At, nameLen]
      exact Bytes.read_congr fun index _ _ => kept index (by rw [nameLen8At]; omega) (by omega)
    rw [inode, sameName]
    exact ⟨live, named⟩

/-- In a cramped block '..' finds no room, and its record stays where it is. -/
theorem Cramped.walk_link (bounded : bs ≤ 65536) (bound : Nat) (done : Bool) (number : Nat) :
    Cramped bs (walkRecords bs true (linkProc bs dotDotName number fileType) bound 0
      { buf := block, priv := done }).buf ino parent := by
  have last : ∀ bound, Cramped bs
    (walkRecords bs true (linkProc bs dotDotName number fileType) bound
      (recLenAt block 0 + recLenAt block (recLenAt block 0)) { buf := block, priv := done }).buf
        ino parent := by
    intro bound
    refine cramped.congr (fun index less => walk_link_below _ _ less)
      fun live index less apart => ?_
    exact walk_link_entry (by have := cramped.fits; omega) _ _ live less apart
  have next : linkProc bs dotDotName number fileType block (recLenAt block 0) done =
    ({}, block, done) := by
    refine linkProc_full done (by rw [cramped.above]; exact cramped.usedParent) ?_
      cramped.fullNext ?_
    · rw [← length_nameAt, cramped.dotDot]
      rfl
    · rw [absorbs, Bool.and_eq_false_iff, Bool.and_eq_false_iff, decide_eq_false_iff_not,
        decide_eq_false_iff_not]
      rcases cramped.third with ends | ⟨live, -⟩
      · exact .inl (.inl (by omega))
      · exact .inl (.inr live)
  have first : linkProc bs dotDotName number fileType block 0 done = ({}, block, done) := by
    refine linkProc_full done (by rw [cramped.self]; exact cramped.used) ?_ cramped.full ?_
    · rw [← length_nameAt, cramped.dot]
      rfl
    · rw [absorbs, Nat.zero_add, cramped.above, Bool.and_eq_false_iff, Bool.and_eq_false_iff,
        decide_eq_false_iff_not, decide_eq_false_iff_not]
      exact .inl (.inr cramped.usedParent)
  rcases @walk_quiet bs 0 _ _ { buf := block, priv := done } first bound with same | ⟨fewer, goesOn⟩
  · rw [same]
    exact cramped
  rw [goesOn, Nat.zero_add]
  rcases @walk_quiet bs (recLenAt block 0) _ _ { buf := block, priv :=
    done } next fewer with same | ⟨fewer', goesOn'⟩
  · rw [same]
    exact cramped
  · rw [goesOn']
    exact last fewer'

/-- Entering another `..` leaves the first two records as they are. -/
theorem Cramped.link (bounded : bs ≤ 65536) (rest : List Block) (number : Nat) :
    ∃ block' rest',
      ((dirLib bs).link (block :: rest) dotDotName number fileType).2 = block' :: rest' ∧
      Cramped bs block' ino parent := by
  have kept : Cramped bs (processDirBlock bs true (linkProc bs dotDotName number fileType)
    block false).2.2.1
      ino parent := by
    rw [processDirBlock]
    split
    · exact cramped
    · dsimp only
      split
      · exact cramped.walk_link bounded bs false number
      · exact cramped
  have head : ∃ rest', (dirIterate bs true (linkProc bs dotDotName number fileType)
    (block :: rest) false).2.1 =
      (processDirBlock bs true (linkProc bs dotDotName number fileType) block
        false).2.2.1 :: rest' := by
    rw [dirIterate]
    rcases processDirBlock bs true (linkProc bs dotDotName number fileType) block false with
      ⟨errcode, abort, block', done⟩
    cases abort <;> exact ⟨_, rfl⟩
  obtain ⟨rest', first⟩ := head
  refine ⟨_, rest', ?_, kept⟩
  rw [← first]
  simp only [dirLib]
  split <;> simp_all

/-- The old `..` is the first that `ext2fs_unlink` finds, unless a record is damaged. -/
theorem Cramped.process_unlink : ∃ errcode block' ls,
    processDirBlock bs true (unlinkProc dotDotName parent) block (none, false) =
      (errcode, true, block', ls) ∧
      (errcode = 0 → block' = removeRecord (some 0) block (recLenAt block 0)) := by
  have corrupted : EXT2_ET_DIR_CORRUPTED ≠ 0 := by decide
  have first : unlinkProc dotDotName parent block 0 (none, false) =
    ({}, block, (some 0, false)) := by
    rw [unlinkProc_eq, if_neg]
    rw [selects_iff, cramped.dot]
    exact fun same => absurd same.1 (by decide)
  have next : unlinkProc dotDotName parent block (recLenAt block 0) (some 0, false) =
      ({ changed := true, abort := true }, removeRecord (some 0) block (recLenAt block 0),
        (some (recLenAt block 0), true)) := by
    rw [unlinkProc_eq, if_pos]
    rw [selects_iff, if_neg cramped.usedParent]
    exact ⟨cramped.dotDot, cramped.above⟩
  obtain ⟨bound, rfl⟩ : ∃ bound, bs = bound + 2 :=
    ⟨bs - 2, by have := cramped.more; have := cramped.fits; omega⟩
  have more := cramped.more
  rw [processDirBlock]
  split
  · exact ⟨_, _, _, rfl, fun ok => absurd ok corrupted⟩
  rw [walkRecords, if_pos (by omega)]
  split
  · exact ⟨_, _, _, rfl, fun ok => absurd ok corrupted⟩
  rw [if_neg (by simp), first]
  dsimp only
  rw [if_neg (by simp), Nat.zero_add, walkRecords, if_pos more]
  split
  · exact ⟨_, _, _, rfl, fun ok => absurd ok corrupted⟩
  rw [if_neg (by simp), next]
  exact ⟨_, _, _, rfl, fun _ => by simp⟩

/-- Removing the old `..` leaves no `..` in the second place. -/
theorem Cramped.unlink {rest blocks : List Block}
    (unlinked : (dirLib bs).unlink (block :: rest) dotDotName parent = (0, blocks)) (number : Nat) :
    ¬ StartsWithDots bs blocks ino number := by
  obtain ⟨errcode, block', ls, processed, removed⟩ := cramped.process_unlink
  have iterated : dirIterate bs true (unlinkProc dotDotName parent) (block :: rest) (none, false) =
      (errcode, block' :: rest, ls) := by
    rw [dirIterate, processed]
  have outcome : errcode = 0 ∧ blocks = block' :: rest := by
    simp only [dirLib, iterated] at unlinked
    split at unlinked <;> simp_all [EXT2_ET_DIR_NO_SPACE]
  obtain ⟨rfl, rfl⟩ := outcome
  rintro ⟨_, _, same, records⟩
  obtain ⟨rfl, rfl⟩ := List.cons.inj same
  have dotDot := records.dotDot
  have more := records.more
  have small := cramped.full
  have smallNext := cramped.fullNext
  have length : recLenAt block' 0 = recLenAt block 0 + recLenAt block (recLenAt block 0) := by
    rw [removed rfl, removeRecord, recLenAt_resized (by omega)]
  rw [length] at dotDot more
  rcases cramped.third with ends | ⟨-, named⟩
  · omega
  · refine named ?_
    have long := cramped.fits.1
    have entry : direntAt block' (recLenAt block 0 + recLenAt block (recLenAt block 0)) =
        direntAt block (recLenAt block 0 + recLenAt block (recLenAt block 0)) := by
      rw [removed rfl, removeRecord]
      exact direntAt_congr fun index low _ => setU16_apply_outside _ (by omega)
    exact (congrArg Dirent.name entry).symm.trans dotDot

end Cramped

/-- Every record of the block has room for an entry, as the records of the library and the kernel
have. -/
def Sizeable (bs : Nat) (block : Block) :
    Prop := ∀ offset ∈ recordOffsets bs block bs 0, 12 ≤ recLenAt block offset

/-- Where there is no room, the first records are in the way of each other. -/
theorem cramped_of_noRoom (bounded : bs ≤ 65536) (chain : Chain bs block 0)
    (dots : DotRecords bs block ino parent) (used : ino ≠ 0)
    (usedParent : parent ≠ 0) (sizeable : Sizeable bs block)
    (single : (liveFrom bs block bs 0).countP (fun entry => entry.name == dotDotName) ≤ 1)
    (noRoom : ¬ RoomForDotDot bs block) : Cramped bs block ino parent := by
  obtain ⟨offsets, spans⟩ := chain.spans
  have all : ∀ offset ∈ offsets, 12 ≤ recLenAt block offset := by
    rw [Sizeable, spans.recordOffsets_eq (Nat.le_add_left ..)] at sizeable
    exact sizeable
  rw [spans.liveFrom_eq] at single
  obtain ⟨full, fullNext⟩ := not_or.mp noRoom
  have more := dots.more
  have live : inodeAt block (recLenAt block 0) ≠ 0 := by
    rw [dots.above]
    exact usedParent
  cases spans with
  | nil => exact absurd more (Nat.not_lt_zero _)
  | cons sound rest =>
  rw [Nat.zero_add] at rest
  cases rest with
  | nil => exact absurd more (Nat.lt_irrefl _)
  | cons soundNext rest =>
  have short : nameLen8At block (recLenAt block 0) = 2 := by
    rw [← length_nameAt, dots.dotDot]
    rfl
  have long := all 0 (by simp)
  have longNext := all (recLenAt block 0) (by simp)
  have longer := @recLenAt_absorbed bs block (recLenAt block 0) (by omega)
  have fitsNext := soundNext.fits
  refine ⟨dots, used, usedParent, by omega, by omega, ⟨by omega, by omega⟩, ?_⟩
  cases rest with
  | nil => exact .inl rfl
  | @cons _ _ offsets soundThird rest =>
  have ends := rest.le
  have longThird := all (recLenAt block 0 + recLenAt block (recLenAt block 0)) (by simp)
  have alone : absorbs bs block (recLenAt block 0) = false := by
    by_contra merges
    rw [Bool.not_eq_false] at merges
    refine fullNext ?_
    rw [absorbed_eq, if_pos merges, recLenAt_resized (by omega)]
    omega
  rw [absorbs, Bool.and_eq_false_iff, Bool.and_eq_false_iff, decide_eq_false_iff_not,
    decide_eq_false_iff_not, decide_eq_false_iff_not] at alone
  have liveThird : inodeAt block (recLenAt block 0 + recLenAt block (recLenAt block 0)) ≠ 0 := by
    rcases alone with (room | live) | room
    · omega
    · exact live
    · omega
  refine .inr ⟨liveThird, fun named => ?_⟩
  rw [liveOf_cons, liveOf_cons, liveOf_cons, if_neg live, if_neg liveThird] at single
  have second : ((direntAt block (recLenAt block 0)).name == dotDotName) = true :=
    beq_iff_eq.mpr dots.dotDot
  have third : ((direntAt block (recLenAt block 0 + recLenAt block (recLenAt block 0))).name ==
    dotDotName) = true :=
    beq_iff_eq.mpr named
  simp only [List.countP_append, List.countP_singleton, second, third, if_true] at single
  omega

section Near

/-- `link_proc` at a live record with room: the entry is made in the record split off behind it. -/
theorem walk_link_room {offsets : List Nat} (bounded : bs ≤ 65536)
    (recordable : Recordable name ino fileType)
    (sound : badRecord bs buf start = false) (live : inodeAt buf start ≠ 0)
    (spans : Spans (absorbed bs buf start) start (start :: offsets) bs)
    (room : EXT2_DIR_REC_LEN (nameLen8At buf start) + EXT2_DIR_REC_LEN name.length ≤
      recLenAt (absorbed bs buf start) start) {bound : Nat} (enough : 2 ≤ bound) (changed : Bool) :
    ∃ buf' offsets', walkRecords bs true (linkProc bs name ino fileType) bound start
        { changed := changed, buf := buf, priv := false } =
          { changed := true, abort := true, buf := buf', priv := true } ∧
      Spans buf' start (start :: (start + EXT2_DIR_REC_LEN (nameLen8At buf start)) :: offsets') bs ∧
      (∀ index < start, buf' index = buf index) ∧ direntAt buf' start = direntAt buf start ∧
      recLenAt buf' start = EXT2_DIR_REC_LEN (nameLen8At buf start) ∧
      direntAt buf' (start + EXT2_DIR_REC_LEN (nameLen8At buf start)) = ⟨name, ino, fileType⟩ ∧
      (absorbed bs buf start = buf → inodeAt buf (start + recLenAt buf start) ≠ 0 →
        recLenAt buf' (start + EXT2_DIR_REC_LEN (nameLen8At buf start)) =
            recLenAt buf start - EXT2_DIR_REC_LEN (nameLen8At buf start) ∧
          ∀ index, start + recLenAt buf start ≤ index → buf' index = buf index) := by
  obtain ⟨long, -, fits, -⟩ := recLen_name (nameLen8At buf start)
  obtain ⟨longName, -, fitsName, -⟩ := recLen_name name.length
  have roomCut : EXT2_DIR_REC_LEN (nameLen8At (absorbed bs buf start) start) + 8 ≤
      recLenAt (absorbed bs buf start) start := by
    rw [nameLen8At_absorbed]
    omega
  have least := @nameLen8At_absorbed bs buf start
  obtain ⟨spansCut, -⟩ := spans_cut roomCut spans
  have lengthCut := recLenAt_cut roomCut
  obtain ⟨restLen, -, restFree⟩ := rest_cut roomCut
  have entryCut := @direntAt_cut (absorbed bs buf start) start
  have applyCut := @cut_apply (absorbed bs buf start) start
  rw [least] at spansCut lengthCut restLen restFree applyCut
  generalize minEq : EXT2_DIR_REC_LEN (nameLen8At buf start) = min at *
  generalize splitEq : cut (absorbed bs buf start) start = split at *
  cases spansCut with
  | cons soundCut restCut =>
  rw [lengthCut] at restCut
  obtain ⟨⟨offsets', kept, -⟩, below⟩ := rewritten_absorbed (by omega) restCut
  have longer := @recLenAt_absorbed bs split (start + min) (by omega)
  have free : inodeAt (absorbed bs split (start + min)) (start + min) = 0 :=
    inodeAt_absorbed.trans restFree
  have roomRest : EXT2_DIR_REC_LEN name.length ≤ recLenAt (absorbed bs split (start + min))
    (start + min) := by
    omega
  have spansFilled : Spans
    (filled (absorbed bs split (start + min)) (start + min) name ino fileType)
      (start + min) ((start + min) :: offsets') bs := spans_filled recordable.short roomRest kept
  have early : ∀ index < start + min,
      filled (absorbed bs split (start + min)) (start + min) name ino fileType
        index = split index :=
    fun index less => (filled_outside (by omega)).trans (below index less)
  have header : ∀ index, start ≤ index → index < start + 8 →
      filled (absorbed bs split (start + min)) (start + min) name ino fileType
        index = split index :=
    fun index _ less => early index (by omega)
  have firstLen := (fields_congr header).2.1.trans lengthCut
  have nameLen : nameLen8At split start = nameLen8At buf start := by
    rw [← length_nameAt, ← least, ← length_nameAt]
    exact congrArg (fun entry => List.length (Dirent.name entry)) entryCut
  have entryAbsorbed : direntAt (absorbed bs buf start) start = direntAt buf start := by
    rw [absorbed_eq]
    split
    · exact direntAt_resized
    · rfl
  refine ⟨filled (absorbed bs split (start + min)) (start + min) name ino fileType,
    offsets', ?_, ?_, ?_, ?_, firstLen, direntAt_filled recordable, ?_⟩
  · obtain ⟨bound, rfl⟩ : ∃ fewer, bound = fewer + 2 := ⟨bound - 2, by omega⟩
    obtain ⟨inside, longRec, -, -⟩ := badRecord_eq_false.mp sound
    have step : linkProc bs name ino fileType buf start false =
      ({ changed := true }, split, false) := by
      rw [linkProc_eq, if_pos (by rw [inodeAt_absorbed]; exact live), least, minEq,
        if_neg (by omega), splitEq]
    have stepNext : linkProc bs name ino fileType split (start + min) false =
      ({ changed := true, abort := true },
        filled (absorbed bs split (start + min)) (start + min) name ino fileType, true) := by
      rw [linkProc_eq, if_neg (not_not.mpr free), if_neg (by omega)]
    obtain ⟨insideNext, soundNext⟩ : start + min < bs ∧
      badRecord bs split (start + min) = false := by
      cases restCut with
      | cons soundRest rest =>
          have ends := rest.le
          have longRest := soundRest.long
          exact ⟨by omega, badRecord_iff_sound.mpr ⟨ends, soundRest⟩⟩
    rw [walkRecords, if_pos (by omega), sound, if_neg (by simp), if_neg (by simp), step]
    dsimp only
    rw [if_neg (by simp), lengthCut, walkRecords, if_pos insideNext, soundNext, if_neg (by simp),
      if_neg (by simp), stepNext]
    simp
  · refine .cons (soundCut.congr header) ?_
    rw [firstLen]
    exact spansFilled
  · intro index less
    rw [early index (by omega), applyCut (.inl (by omega)), absorbed_apply (by omega)]
  · rw [← entryAbsorbed, ← entryCut]
    exact direntAt_congr fun index _ less => early index (by omega)
  · intro same more
    rw [same] at restLen applyCut
    have later : ∀ index, start + recLenAt buf start ≤ index → split index = buf index :=
      fun index low => applyCut (.inr (.inr (by rw [same] at room; omega)))
    have next : start + min + recLenAt split (start + min) = start + recLenAt buf start := by
      rw [same] at room
      omega
    have alone : absorbed bs split (start + min) = split := by
      have inode : inodeAt split (start + recLenAt buf start) =
        inodeAt buf (start + recLenAt buf start) :=
        Bytes.getU32_congr fun index low _ => later index low
      have stays : absorbs bs split (start + min) = false := by
        rw [absorbs, next, inode]
        simp [more]
      rw [absorbed_eq, stays]
      rfl
    rw [alone] at roomRest
    rw [alone, recLenAt_filled, restLen]
    exact ⟨rfl, fun index low => (filled_outside (by omega)).trans (later index low)⟩

theorem Spans.uncons {first second stop : Nat} {offsets : List Nat}
    (spans : Spans buf start (first :: second :: offsets) stop) : SoundRecord buf start ∧
      second = start + recLenAt buf start ∧ Spans buf second (second :: offsets) stop := by
  cases spans with
  | cons sound rest =>
      cases rest with
      | cons soundNext rest => exact ⟨sound, rfl, .cons soundNext rest⟩

/-- Where the last record of the list does not reach the end, there is one more. -/
theorem Spans.more {offsets : List Nat} (spans : Spans buf start (start :: offsets) bs)
    (more : start + recLenAt buf start < bs) : ∃ rest, offsets =
    (start + recLenAt buf start) :: rest := by
  cases spans with
  | cons sound rest =>
      cases rest with
      | nil => exact absurd more (Nat.lt_irrefl _)
      | cons soundNext rest => exact ⟨_, rfl⟩

/-- Between the two steps of the exchange the old and the new `..` follow `.`, in either order. -/
structure TwoDotDots (bs : Nat) (block : Block) (ino parent number second third : Nat)
    (offsets : List Nat) : Prop where
  spans : Spans block 0 (0 :: second :: third :: offsets) bs
  dot : nameAt block 0 = dotName
  self : inodeAt block 0 = ino
  dotDot : nameAt block second = dotDotName ∧ nameAt block third = dotDotName
  above : inodeAt block second = number ∧ inodeAt block third = parent ∨
    inodeAt block second = parent ∧ inodeAt block third = number

/-- Whichever comes first, the old one goes. -/
theorem TwoDotDots.unlink {number second third : Nat} {offsets : List Nat} (bounded : bs ≤ 65536)
    (two : TwoDotDots bs block ino parent number second third offsets) (usedParent : parent ≠ 0)
    (rest : List Block) :
    ∃ block', (dirLib bs).unlink (block :: rest) dotDotName parent = (0, block' :: rest) ∧
      DotRecords bs block' ino number := by
  obtain ⟨spans, dot, self, ⟨dotDot, dotDotNext⟩, above⟩ := two
  have unlinking : ∀ {before after : List Nat} {offset : Nat}, 0 :: second :: third :: offsets =
    before ++ offset :: after →
      (∀ offset ∈ before, selects dotDotName parent block offset = false) →
      selects dotDotName parent block offset = true →
      (dirLib bs).unlink (block :: rest) dotDotName parent =
        (0, removeRecord before.getLast? block offset :: rest) := by
    intro before after offset split missing hit
    rw [split] at spans
    have processed := processDirBlock_unlink spans missing hit none
    rw [Option.or_none] at processed
    simp only [dirLib, dirIterate, processed]
  have passesDot : selects dotDotName parent block 0 = false := by
    rw [← Bool.not_eq_true, selects_iff, dot]
    exact fun same => absurd same.1 (by decide)
  have hits : ∀ offset, nameAt block offset = dotDotName → inodeAt block offset = parent →
      selects dotDotName parent block offset = true := by
    intro offset named same
    rw [selects_iff, if_neg usedParent]
    exact ⟨named, same⟩
  obtain ⟨sound, secondEq, spansNext⟩ := spans.uncons
  obtain ⟨soundNext, thirdEq, spansThird⟩ := spansNext.uncons
  rw [Nat.zero_add] at secondEq
  have long := sound.long
  have fits := sound.fits
  have longNext := soundNext.long
  have fitsNext := soundNext.fits
  have inside : third + recLenAt block third ≤ bs ∧ 8 ≤ recLenAt block third := by
    cases spansThird with
    | cons soundThird last => exact ⟨last.le, soundThird.long⟩
  by_cases first : inodeAt block second = parent
  · refine ⟨_, @unlinking [0] _ _ rfl (by simp [passesDot]) (hits second dotDot first), ?_⟩
    have length : recLenAt (removeRecord (some 0) block second) 0 = third := by
      rw [removeRecord, recLenAt_resized (by omega)]
      omega
    have entry : direntAt (removeRecord (some 0) block second) 0 = direntAt block 0 :=
      direntAt_resized
    have entryThird : direntAt (removeRecord (some 0) block second) third = direntAt block third :=
      direntAt_congr fun index low _ => setU16_apply_outside _ (by omega)
    refine ⟨(congrArg Dirent.name entry).trans dot,
      (congrArg Dirent.inode entry).trans self, ?_, ?_, ?_⟩
    · show recLenAt (removeRecord (some 0) block second) 0 < bs
      rw [length]
      omega
    · show nameAt (removeRecord (some 0) block second)
        (recLenAt (removeRecord (some 0) block second) 0) = _
      rw [length]
      exact (congrArg Dirent.name entryThird).trans dotDotNext
    · show inodeAt (removeRecord (some 0) block second)
        (recLenAt (removeRecord (some 0) block second) 0) = _
      rw [length]
      refine (congrArg Dirent.inode entryThird).trans ?_
      rcases above with ⟨new, old⟩ | ⟨-, new⟩
      · exact old.trans (first.symm.trans new)
      · exact new
  · obtain ⟨new, old⟩ := above.resolve_right fun other => first other.1
    have passesNew : selects dotDotName parent block second = false := by
      rw [← Bool.not_eq_true, selects_iff, if_neg usedParent]
      exact fun same => first same.2
    refine ⟨_, @unlinking [0, second] _ _ rfl (by simp [passesDot, passesNew])
      (hits third dotDotNext old), ?_⟩
    have early : ∀ index < second + 4, removeRecord (some second) block third index = block index :=
      fun index less => setU16_apply_outside _ (by omega)
    have length : recLenAt (removeRecord (some second) block third) 0 = second :=
      (Bytes.getU16_congr fun index _ _ => early index (by omega)).trans secondEq.symm
    have entry : direntAt (removeRecord (some second) block third) 0 = direntAt block 0 :=
      direntAt_congr fun index _ less => early index (by omega)
    have entrySecond : direntAt (removeRecord (some second) block third) second =
      direntAt block second :=
      direntAt_resized
    refine ⟨(congrArg Dirent.name entry).trans dot,
      (congrArg Dirent.inode entry).trans self, ?_, ?_, ?_⟩
    · show recLenAt (removeRecord (some second) block third) 0 < bs
      rw [length]
      omega
    · show nameAt (removeRecord (some second) block third)
        (recLenAt (removeRecord (some second) block third) 0) = _
      rw [length]
      exact (congrArg Dirent.name entrySecond).trans dotDot
    · show inodeAt (removeRecord (some second) block third)
        (recLenAt (removeRecord (some second) block third) 0) = _
      rw [length]
      exact (congrArg Dirent.inode entrySecond).trans new

/-- Where there is room, the new `..` is entered next to the old one. -/
theorem twoDotDots_of_room (bounded : bs ≤ 65536) {number : Nat}
    (recordable : Recordable dotDotName number fileType)
    (chain : Chain bs block 0) (dots : DotRecords bs block ino parent) (used : ino ≠ 0)
    (usedParent : parent ≠ 0) (room : RoomForDotDot bs block) :
    ∃ block' second third offsets,
      processDirBlock bs true (linkProc bs dotDotName number fileType) block false =
        (0, true, block', true) ∧ TwoDotDots bs block' ino parent number second third offsets := by
  obtain ⟨offsets, spans⟩ := chain.spans
  have more := dots.more
  have least : EXT2_DIR_REC_LEN (nameLen8At block 0) = 12 := by
    rw [← length_nameAt, dots.dot]
    rfl
  have leastNext : EXT2_DIR_REC_LEN (nameLen8At block (recLenAt block 0)) = 12 := by
    rw [← length_nameAt, dots.dotDot]
    rfl
  have live : inodeAt block 0 ≠ 0 := by
    rw [dots.self]
    exact used
  have liveNext : inodeAt block (recLenAt block 0) ≠ 0 := by
    rw [dots.above]
    exact usedParent
  have alone : absorbs bs block 0 = false := by
    rw [absorbs, Nat.zero_add]
    simp [liveNext]
  have stays : absorbed bs block 0 = block := by rw [absorbed_eq, alone]; rfl
  have twelve : EXT2_DIR_REC_LEN dotDotName.length = 12 := rfl
  obtain ⟨offsets, rfl⟩ : ∃ rest, offsets = 0 :: recLenAt block 0 :: rest := by
    cases spans with
    | nil => exact absurd more (Nat.not_lt_zero _)
    | cons sound rest =>
        obtain ⟨later, rfl⟩ := (Spans.cons sound rest).more (by omega)
        rw [Nat.zero_add]
        exact ⟨later, rfl⟩
  obtain ⟨sound, -, spansNext⟩ := spans.uncons
  have long := sound.long
  have unbad : badRecord bs block 0 = false := badRecord_iff_sound.mpr ⟨by omega, sound⟩
  have processed : ∀ {block' : Block},
      walkRecords bs true (linkProc bs dotDotName number fileType) bs 0
        { buf := block, priv := false } =
          { changed := true, abort := true, buf := block', priv := true } →
      processDirBlock bs true (linkProc bs dotDotName number fileType) block false =
        (0, true, block', true) := by
    intro block' walk
    rw [processDirBlock, chain.readDirBlockBad_eq, walk]
    rfl
  by_cases roomy : 24 ≤ recLenAt block 0
  · obtain ⟨block', offsets', walk, spans', -, entry, length, entryNew, later⟩ :=
      @walk_link_room bs block number fileType 0 dotDotName _ bounded recordable unbad live
        (by rw [stays]; exact spans) (by rw [stays, least, twelve]; exact roomy) bs (by omega) false
    rw [Nat.zero_add, Nat.zero_add] at later
    rw [Nat.zero_add, least] at spans' entryNew
    rw [least] at later
    obtain ⟨lengthNew, same⟩ := later stays liveNext
    obtain ⟨-, -, spansNew⟩ := spans'.uncons
    have thirdEq : 12 + recLenAt block' 12 = recLenAt block 0 := by omega
    obtain ⟨rest, rfl⟩ := spansNew.more (by omega)
    have entryNext : direntAt block' (recLenAt block 0) = direntAt block (recLenAt block 0) :=
      direntAt_congr fun index low _ => same index low
    rw [thirdEq] at spans'
    refine ⟨block', 12, recLenAt block 0, rest, processed walk, spans',
      (congrArg Dirent.name entry).trans dots.dot, (congrArg Dirent.inode entry).trans dots.self,
      ⟨congrArg Dirent.name entryNew, (congrArg Dirent.name entryNext).trans dots.dotDot⟩,
      .inl ⟨congrArg Dirent.inode entryNew, (congrArg Dirent.inode entryNext).trans dots.above⟩⟩
  · have roomNext := room.resolve_left roomy
    generalize firstEq : recLenAt block 0 = first at *
    have soundNext : SoundRecord block first := by
      cases spansNext with
      | cons soundNext rest => exact soundNext
    have unbadNext : badRecord bs block first = false := by
      cases spansNext with
      | cons soundNext rest =>
          have ends := rest.le
          exact badRecord_iff_sound.mpr ⟨ends, soundNext⟩
    obtain ⟨⟨offsetsNext, spansAbsorbed, -⟩, -⟩ := rewritten_absorbed (by omega) spansNext
    obtain ⟨bound, boundEq⟩ : ∃ bound, bs = bound + 1 := ⟨bs - 1, by omega⟩
    have longNext := soundNext.long
    have ends := spansAbsorbed.bounds (List.mem_cons_self ..)
    obtain ⟨block', offsets', walk, spans', below, entry, length, entryNew, -⟩ :=
      @walk_link_room bs block number fileType first dotDotName _ bounded recordable
        unbadNext liveNext
        spansAbsorbed (by rw [leastNext, twelve]; exact roomNext) bound (by omega) false
    rw [leastNext] at spans' entryNew
    have quiet : linkProc bs dotDotName number fileType block 0 false = ({}, block, false) :=
      linkProc_full false live least (by omega) alone
    have passes : ∀ total, total = bound + 1 →
        walkRecords bs true (linkProc bs dotDotName number fileType) total 0
          { buf := block, priv := false } =
            { changed := true, abort := true, buf := block', priv := true } := by
      rintro _ rfl
      rw [← walk, walkRecords, if_pos (by omega), unbad, if_neg (by simp), if_neg (by simp), quiet]
      simp [firstEq]
    have header : ∀ index, 0 ≤ index → index < 0 + 8 → block' index = block index :=
      fun index _ less => below index (by omega)
    have entryFirst : direntAt block' 0 = direntAt block 0 := by
      have fits := sound.fits
      exact direntAt_congr fun index _ less => below index (by omega)
    have spansAll : Spans block' 0 (0 :: first :: (first + 12) :: offsets') bs := by
      refine .cons (sound.congr header) ?_
      rw [(fields_congr header).2.1, firstEq, Nat.zero_add]
      exact spans'
    exact ⟨block', first, first + 12, offsets', processed (passes bs boundEq), spansAll,
      (congrArg Dirent.name entryFirst).trans dots.dot,
        (congrArg Dirent.inode entryFirst).trans dots.self,
      ⟨(congrArg Dirent.name entry).trans (firstEq ▸ dots.dotDot), congrArg Dirent.name entryNew⟩,
      .inr ⟨(congrArg Dirent.inode entry).trans (firstEq ▸ dots.above),
        congrArg Dirent.inode entryNew⟩⟩

end Near

/-- Where there is room, the exchange ends with the new `..` in the second place. -/
theorem exchange_of_room (bounded : bs ≤ 65536) {number : Nat}
    (recordable : Recordable dotDotName number fileType)
    (chain : Chain bs block 0) (dots : DotRecords bs block ino parent) (used : ino ≠ 0)
    (usedParent : parent ≠ 0) (room : RoomForDotDot bs block) (rest : List Block) :
    ((dirLib bs).link (block :: rest) dotDotName number fileType).1 = 0 ∧
      StartsWithDots bs
        ((dirLib bs).unlink ((dirLib bs).link (block :: rest) dotDotName number fileType).2
        dotDotName parent).2 ino number := by
  obtain ⟨block', second, third, offsets, processed, two⟩ :=
    twoDotDots_of_room bounded recordable chain dots used usedParent room
  have linked : (dirLib bs).link (block :: rest) dotDotName number fileType =
    (0, block' :: rest) := by
    simp only [dirLib, dirIterate, processed]
  obtain ⟨block'', unlinked, exchanged⟩ := two.unlink bounded usedParent rest
  rw [linked, unlinked]
  exact ⟨rfl, block'', rest, rfl, exchanged⟩

end DirBlock

section Moving

open DirBlock

variable {δ : Type} {env : Env δ} {fs fs' linked : Fs δ} {perms : Perms}
    {parent newparent ino target : Nat}
  {name newname : Name} {inode : Inode}

/-- A successful ext2fs_expand_dir appends an empty block. -/
theorem ext2fsExpandDir_contents {dir : Nat} {expanded : Fs δ}
    (outcome : fs.ext2fsExpandDir env dir = (0, expanded)) :
    expanded.super = fs.super ∧ expanded.dirs dir = env.dir.expand (fs.dirs dir) := by
  have super := (ext2fsExpandDir_frame env fs dir dir).1
  rw [outcome] at super
  refine ⟨super, ?_⟩
  obtain ⟨vol, iBlock, -, iterated⟩ := ext2fsBlockIterate2_frame expandDirProc_super fs dir
    false { append := true } {}
  rw [ext2fsExpandDir] at outcome
  generalize fs.ext2fsBlockIterate2 dir false { append := true } expandDirProc {} = result
    at iterated outcome
  have contents : result.2.2.dirs = fs.dirs := by rw [iterated]
  split at outcome
  · dsimp only at outcome
    split at outcome
    · rename_i failed
      exact absurd (Prod.mk.inj outcome).1 failed
    split at outcome
    · exact absurd (Prod.mk.inj outcome).1 (show EXT2_ET_EXPAND_DIR_ERR ≠ 0 by decide)
    · have written := congrArg (fun result => Fs.dirs (Prod.snd result) dir) outcome
      dsimp only at written
      rw [← written, ext2fsWriteInode_dirs]
      exact (Function.update_self _ _ _).trans (by rw [contents])
  · rename_i failed
    exact absurd (Prod.mk.inj outcome).1 failed

/-- What `do_link` leaves in the directory: the name is entered, at the second try where the first
finds no space. -/
theorem doLink_contents {dir flags : Nat}
    (outcome : (doLink dir name target flags).run (lib env) fs = (0, linked)) :
    ((env.dir.link (fs.dirs dir) name target (fs.recordedType flags)).1 = 0 ∧
      linked.dirs dir = (env.dir.link (fs.dirs dir) name target (fs.recordedType flags)).2) ∨
    ((env.dir.link (fs.dirs dir) name target (fs.recordedType flags)).1 ≠ 0 ∧ linked.dirs dir =
      (env.dir.link (env.dir.expand
        (env.dir.link (fs.dirs dir) name target (fs.recordedType flags)).2)
        name target (fs.recordedType flags)).2) := by
  have entering : ∀ {fs next : Fs δ} {rc : Errcode},
    fs.ext2fsLink env dir name target flags = (rc, next) →
      rc = 0 ∨ rc = EXT2_ET_DIR_NO_SPACE → next.super = fs.super ∧
        (env.dir.link (fs.dirs dir) name target (fs.recordedType flags)).1 = rc ∧
        next.dirs dir = (env.dir.link (fs.dirs dir) name target (fs.recordedType flags)).2 := by
    intro fs next rc linking expected
    by_cases checked : fs.ext2fsCheckDirectory dir = 0
    · rw [ext2fsLink_eq checked] at linking
      obtain ⟨same, rfl⟩ := Prod.mk.inj linking
      exact ⟨rfl, same, Function.update_self _ _ _⟩
    · rw [ext2fsLink, if_neg checked] at linking
      obtain ⟨rfl, -⟩ := Prod.mk.inj linking
      refine absurd (expected.resolve_left checked) ?_
      rcases (ext2fsCheckDirectory_code fs dir).resolve_left checked with invalid | notDir
      · rw [invalid]
        decide
      · rw [notDir]
        decide
  rw [doLink, run_bind] at outcome
  generalize first : (lift (.link dir name target flags)).run (lib env) fs = tried at outcome
  obtain ⟨rc, next⟩ := tried
  dsimp only at outcome
  split at outcome
  · rename_i full
    subst full
    obtain ⟨super, refused, contents⟩ := entering first (.inr rfl)
    rw [run_bind] at outcome
    generalize second : (lift (.expandDir dir)).run (lib env) next = grown at outcome
    obtain ⟨rc, expanded⟩ := grown
    dsimp only at outcome
    split at outcome
    · exact absurd (Prod.mk.inj outcome).1 (show EIO ≠ 0 by decide)
    rename_i done
    rw [not_not] at done
    subst done
    obtain ⟨superNext, contentsNext⟩ := ext2fsExpandDir_contents second
    rw [run_bind] at outcome
    generalize third : (lift (.link dir name target flags)).run (lib env) expanded =
      tried at outcome
    obtain ⟨rc, final⟩ := tried
    obtain ⟨done, rfl⟩ := Prod.mk.inj outcome
    split at done
    · exact absurd done (show EIO ≠ 0 by decide)
    rename_i succeeded
    obtain ⟨-, -, contentsLast⟩ := entering third (.inl (not_not.mp succeeded))
    have sameType : expanded.recordedType flags = fs.recordedType flags := by
      rw [recordedType, recordedType, superNext, super]
    rw [contentsNext, contents, sameType] at contentsLast
    exact .inr ⟨by rw [refused]; decide, contentsLast⟩
  · obtain ⟨done, rfl⟩ := Prod.mk.inj outcome
    split at done
    · exact absurd done (show EIO ≠ 0 by decide)
    rename_i succeeded
    rw [not_not] at succeeded
    subst succeeded
    obtain ⟨-, entered, contents⟩ := entering first (.inl rfl)
    exact .inl ⟨entered, contents⟩

/-- Removing a directory writes to none but its parent; what the removed one held is given up. -/
theorem doRmdirOnIno_dirs {dir other : Nat} (apart : other ≠ dir ∧ other ≠ target) (contents : δ) :
    Keeps (lib env) (fun fs : Fs δ => fs.dirs other = contents)
      (doRmdirOnIno perms dir name target) := by
  have reads : ∀ ino, Keeps (lib env)
    (fun fs : Fs δ => fs.dirs other = contents) (readInode ino) := by
    intro ino
    refine keeps_bind (keeps_lift fun _ same => same) fun found => ?_
    cases found <;> exact keeps_pure _
  have writes : ∀ ino inode, Keeps (lib env)
    (fun fs : Fs δ => fs.dirs other = contents) (writeInode ino inode) := by
    intro ino inode
    refine keeps_bind (keeps_lift fun state same => ?_) fun _ => keeps_pure _
    exact (congrFun (ext2fsWriteInode_dirs state ino inode) other).trans same
  refine keeps_bind (reads _) fun found => ?_
  cases found with
  | error rc => exact keeps_pure _
  | ok inode =>
      refine keeps_ite (keeps_pure _) (keeps_ite (keeps_pure _) ?_)
      refine keeps_bind (keeps_lift fun _ same => same) fun listed => ?_
      refine keeps_ite (keeps_pure _) (keeps_ite (keeps_pure _) ?_)
      refine keeps_bind (keeps_lift fun state same => ?_) fun rc => keeps_ite (keeps_pure _) ?_
      · change (state.ext2fsUnlink env dir name target).2.dirs other = contents
        rw [ext2fsUnlink]
        split
        · exact (Function.update_of_ne apart.1 _ _).trans same
        · exact same
      refine keeps_bind (fun state same => ?_) fun _ => keeps_ite (keeps_pure _) ?_
      · refine (keeps_killFileByInode state.dirs inode state rfl).mono fun _ next kept => ?_
        exact (congrFun kept other).trans same
      refine keeps_bind (reads _) fun found => ?_
      cases found with
      | error rc => exact keeps_pure _
      | ok inode => exact writes _ _

/-- The exchange of `..`: the new one is entered, then the old one removed. -/
theorem renameDirOld_contents (recorded : LINUX_S_ISDIR inode.iMode = true) (apart : ino ≠ parent) :
    Leads (lib env) (renameDirOld parent name newparent newname ino inode) (fun rc fs' => rc = 0 →
      ∃ linked, (doLink ino dotDotName (EXT2FS_INO newparent) EXT2_FT_DIR).run
        (lib env) fs = (0, linked) ∧
        env.dir.unlink (linked.dirs ino) dotDotName parent = (0, fs'.dirs ino)) fs := by
  have cleaned : ∀ {ret : Errcode} {state : Fs δ}, ret ≠ 0 → Leads (lib env)
      (renameCleanup newparent newname ino inode ret) (fun rc fs' => rc = 0 → ∃ linked,
        (doLink ino dotDotName (EXT2FS_INO newparent) EXT2_FT_DIR).run (lib env) fs = (0, linked) ∧
          env.dir.unlink (linked.dirs ino) dotDotName parent = (0, fs'.dirs ino)) state := by
    intro ret state failed done
    exact absurd (((ends_renameCleanup_dir recorded ret).run _ _).symm.trans done) failed
  have eio : EIO ≠ 0 := by decide
  rw [renameDirOld]
  refine leads_bind_of fun ret linked outcome => ?_
  split
  · rename_i failed
    exact cleaned failed
  rename_i succeeded
  rw [not_not] at succeeded
  subst succeeded
  refine leads_lift_bind fun rc unlinked unlinking => ?_
  change linked.ext2fsUnlink env ino dotDotName parent = _ at unlinking
  split
  · exact cleaned eio
  rename_i removed
  rw [not_not] at removed
  subst removed
  obtain ⟨-, gone, rfl⟩ := ext2fsUnlink_ok unlinking
  refine leads_lift_bind fun rc last unlinkingOld => ?_
  split
  · exact cleaned eio
  rename_i removedOld
  rw [not_not] at removedOld
  subst removedOld
  obtain ⟨-, -, rfl⟩ := ext2fsUnlink_ok unlinkingOld
  have unlinked : env.dir.unlink (linked.dirs ino) dotDotName parent =
      (0, (env.dir.unlink (linked.dirs ino) dotDotName parent).2) := Prod.ext gone rfl
  have left : ∀ contents, Function.update (Function.update linked.dirs ino
      (env.dir.unlink (linked.dirs ino) dotDotName parent).2) parent contents ino =
        (env.dir.unlink (linked.dirs ino) dotDotName parent).2 :=
    fun contents => (Function.update_of_ne apart _ _).trans (Function.update_self _ _ _)
  refine leads_lift_bind fun read _ reading => ?_
  obtain ⟨-, rfl⟩ := Prod.mk.inj reading
  split
  · refine fun _ => ⟨linked, outcome, unlinked.trans ?_⟩
    exact congrArg (Prod.mk 0) (left _).symm
  · refine fun _ => ⟨linked, outcome, unlinked.trans ?_⟩
    rw [run_lift, lib_writeInode, ext2fsWriteInode_dirs]
    exact congrArg (Prod.mk 0) (left _).symm

/-- A successful `do_rename` of a directory comes to the exchange with the directory as it was. -/
theorem doRename_reaches (found : fs.ext2fsLookup env parent name = .ok ino)
    (valid : fs.validIno ino = true)
    (isDir : LINUX_S_ISDIR (fs.inodeTab ino).iMode = true) (apartNew : ino ≠ newparent)
    (other : fs.ext2fsLookup env newparent newname ≠ .ok ino)
    (renamed : (doRename perms parent name newparent newname).run (lib env) fs = (0, fs')) :
    fs.validIno newparent = true ∧ ∃ reached : Fs δ, reached.dirs ino = fs.dirs ino ∧
      (renameDirOld parent name newparent newname ino (fs.inodeTab ino)).run
      (lib env) reached = (0, fs') := by
  have cleaned : ∀ {ret : Errcode} {state : Fs δ}, ret ≠ 0 →
      (renameCleanup newparent newname ino (fs.inodeTab ino) ret).run
        (lib env) state ≠ (0, fs') := by
    intro ret state failed done
    exact failed ((ends_renameCleanup_dir isDir ret).outcome done).symm
  rw [run_doRename_found perms found valid, run_bind] at renamed
  generalize raising : (renameRaise newparent ino (fs.inodeTab ino)).run (lib env) fs =
    outcome at renamed
  obtain ⟨result, raised⟩ := outcome
  have failing : ∀ rc, result = .error rc → rc ≠ 0 := by
    rintro rc rfl
    by_cases validNew : fs.validIno newparent = true
    · rw [run_renameRaise isDir validNew] at raising
      cases raising
    · rw [renameRaise, if_neg (by simp [isDir]), run_bind, run_lift, lib_readInode, ext2fsReadInode,
        if_neg validNew] at raising
      cases raising
      decide
  cases result with
  | error rc => exact absurd (Prod.mk.inj renamed).1 (failing rc rfl)
  | ok inode =>
  have validNew : fs.validIno newparent = true := by
    by_contra invalid
    rw [renameRaise, if_neg (by simp [isDir]), run_bind, run_lift, lib_readInode, ext2fsReadInode,
      if_neg invalid] at raising
    cases raising
  refine ⟨validNew, ?_⟩
  obtain ⟨rfl, raisedEq⟩ := renameRaise_dir isDir validNew raising
  dsimp only at renamed
  rw [run_bind] at renamed
  generalize linking : (doLink newparent newname ino (ext2FileType (fs.inodeTab ino).iMode)).run
    (lib env) raised =
    outcome at renamed
  obtain ⟨rc, linked⟩ := outcome
  have contents : linked.dirs ino = fs.dirs ino := by
    have kept := (doLink_dirs newparent ino _ apartNew (raised.dirs ino) raised rfl).outcome linking
    rw [kept, raisedEq]
  dsimp only at renamed
  split at renamed
  · rename_i failed
    exact absurd renamed (cleaned failed)
  have apartTarget : ino ≠ (fs.ext2fsLookup env newparent newname).toOption.getD 0 := by
    intro same
    cases hit : fs.ext2fsLookup env newparent newname with
    | error rc =>
        rw [hit] at same
        rw [show ino = 0 from same] at valid
        cases valid
    | ok target =>
        rw [hit] at same
        exact other (by rw [hit, show ino = target from same])
  generalize (fs.ext2fsLookup env newparent newname).toOption.getD 0 = target at renamed apartTarget
  rw [renameLinked] at renamed
  split at renamed
  · rw [run_bind] at renamed
    by_cases validTarget : linked.validIno target = true
    · rw [run_readInode validTarget] at renamed
      dsimp only at renamed
      split at renamed
      · exact absurd renamed (cleaned (show ENOTDIR ≠ 0 by decide))
      rw [run_bind] at renamed
      generalize removing : (doRmdirOnIno perms newparent newname target).run (lib env) linked =
        outcome at renamed
      obtain ⟨rc, removed⟩ := outcome
      dsimp only at renamed
      split at renamed
      · rename_i failed
        exact absurd renamed (cleaned failed)
      have kept :=
        (doRmdirOnIno_dirs ⟨apartNew, apartTarget⟩ (linked.dirs ino) linked rfl).outcome removing
      exact ⟨removed, kept.trans contents, renamed⟩
    · rw [run_readInode_invalid validTarget] at renamed
      exact absurd renamed (cleaned (show EIO ≠ 0 by decide))
  · exact ⟨linked, contents, renamed⟩

end Moving

section Dots

open DirBlock

variable {env : Env (List Block)} {fs fs' : Fs (List Block)} {perms : Perms}
    {bs parent newparent ino : Nat}
  {name newname : Name} {block : Block} {rest : List Block}

/-- However often the new `..` is tried, cramped records stay in front. -/
theorem DirBlock.Cramped.entered (cramped : Cramped bs block ino parent)
    (envDir : env.dir = dirLib bs)
    (bounded : bs ≤ 65536) {linked : Fs (List Block)} {dir target flags : Nat}
    (contents : fs.dirs dir = block :: rest)
    (outcome : (doLink dir dotDotName target flags).run (lib env) fs = (0, linked)) :
    ∃ block' rest', linked.dirs dir = block' :: rest' ∧ Cramped bs block' ino parent := by
  have entered := doLink_contents outcome
  rw [envDir, contents] at entered
  obtain ⟨block', rest', first, still⟩ :=
    @Cramped.link bs block ino parent _ cramped bounded rest target
  rw [first] at entered
  rcases entered with ⟨-, last⟩ | ⟨-, last⟩
  · exact ⟨block', rest', last, still⟩
  · obtain ⟨block'', rest'', second, again⟩ :=
      @Cramped.link bs block' ino parent _ still bounded (rest' ++ [emptyBlock bs]) target
    exact ⟨block'', rest'', last.trans second, again⟩

/-- **A directory that moves keeps `.` and `..` as its first two records if there is room for
another `..` right behind `.`, or right behind `..` and what is free there.** Where there is no room
the new `..` is entered behind another entry, and the old one is removed from the second place. -/
theorem rename_keeps_dots (envDir : env.dir = dirLib bs) (bounded : bs ≤ 65536)
    (few : fs.super.sInodesCount < 2 ^ 32) (found : fs.ext2fsLookup env parent name = .ok ino)
    (valid : fs.validIno ino = true) (isDir : LINUX_S_ISDIR (fs.inodeTab ino).iMode = true)
    (apart : ino ≠ parent)
    (apartNew : ino ≠ newparent) (other : fs.ext2fsLookup env newparent newname ≠ .ok ino)
    (contents : fs.dirs ino = block :: rest) (wellFormed : WellFormed bs (block :: rest))
    (dots : DotRecords bs block ino parent)
    (renamed : (doRename perms parent name newparent newname).run (lib env) fs = (0, fs')) :
    (RoomForDotDot bs block → StartsWithDots bs (fs'.dirs ino) ino (EXT2FS_INO newparent)) ∧
    (Sizeable bs block → (liveEntries bs (block :: rest)).countP
      (fun entry => entry.name == dotDotName) = 1 →
      StartsWithDots bs (fs'.dirs ino) ino (EXT2FS_INO newparent) → RoomForDotDot bs block) := by
  obtain ⟨validNew, reached, same, exchanging⟩ :=
    doRename_reaches found valid isDir apartNew other renamed
  have positive : ∀ {ino : Nat}, fs.validIno ino = true → ino ≠ 0 ∧ ino < 2 ^ 32 := by
    intro ino valid
    rw [validIno, Bool.and_eq_true, decide_eq_true_eq, decide_eq_true_eq] at valid
    omega
  obtain ⟨linked, entering, removing⟩ := (renameDirOld_contents isDir apart).outcome exchanging rfl
  have chain := wellFormed block (List.mem_cons_self ..)
  have used := (positive valid).1
  have usedParent := (positive (lookup_isDir found).1).1
  have here : reached.dirs ino = block :: rest := same.trans contents
  refine ⟨fun room => ?_, fun sizeable single starts => ?_⟩
  · have recordable : Recordable dotDotName (EXT2FS_INO newparent)
      (reached.recordedType EXT2_FT_DIR) := by
      refine ⟨by decide, ?_, ?_, ?_⟩
      · rw [EXT2FS_INO]
        split
        · decide
        · exact (positive validNew).1
      · rw [EXT2FS_INO]
        split
        · decide
        · exact (positive validNew).2
      · rw [recordedType]
        split <;> decide
    obtain ⟨done, exchanged⟩ :=
      exchange_of_room bounded recordable chain dots used usedParent room rest
    have entered := doLink_contents entering
    rw [envDir, here] at entered
    obtain ⟨-, left⟩ := entered.resolve_right fun refused => refused.1 done
    rw [envDir, left] at removing
    rw [removing] at exchanged
    exact exchanged
  · by_contra noRoom
    have firstSingle : (liveFrom bs block bs 0).countP
      (fun entry => entry.name == dotDotName) ≤ 1 := by
      rw [show liveEntries bs (block :: rest) = liveFrom bs block bs 0 ++
        liveEntries bs rest from rfl, List.countP_append] at single
      omega
    have cramped := cramped_of_noRoom bounded chain dots used usedParent sizeable firstSingle noRoom
    obtain ⟨block', rest', left, still⟩ := cramped.entered envDir bounded here entering
    rw [envDir, left] at removing
    exact still.unlink removing _ starts

/-- A root with the directory `d`, inode 13. -/
def nested (contents : List Block) : Fs (List Block) :=
  { smallFs with
    inodeTab := Function.update smallFs.inodeTab 13
      { iMode := LINUX_S_IFDIR ||| 0o755, iLinksCount := 2, iSize := 1024
        iBlock := Function.update (fun _ => 0) 0 18 }
    inodeMap := fun ino => decide (ino < 14)
    dirs := fun ino => if ino =
      13 then contents else (smallEnv.dir.link smallRoot [0x64] 13 EXT2_FT_DIR).2 }

/-- The contents of a directory as `do_mkdir` makes it -/
def freshDir : List Block := [newDirBlock 1024 13 2 EXT2_FT_DIR]

/-- and with the file `a`: the record of `..` is cut behind its name. -/
def usedDir : List Block := (smallEnv.dir.link freshDir [0x61] 11 EXT2_FT_REG_FILE).2

/-- Renaming the empty directory. -/
theorem rename_keeps_dots_fresh :
    StartsWithDots 1024
      (((doRename (some ⟨0, 0⟩) 2 [0x64] 2 [0x65]).run (lib smallEnv) (nested freshDir)).2.dirs 13)
      13 2 := by
  have succeeded : ((doRename (some ⟨0, 0⟩) 2 [0x64] 2 [0x65]).run (lib smallEnv)
    (nested freshDir)).1 = 0 := by
    decide +kernel
  have wellFormed : WellFormed 1024 freshDir := by
    have passed : ∀ block ∈ freshDir, chainFrom 1024 block 8 0 = true := by decide +kernel
    exact fun block member => chain_of_chainFrom (passed block member)
  have dots : DotRecords 1024 (newDirBlock 1024 13 2 EXT2_FT_DIR) 13 2 := by
    constructor <;> decide +kernel
  refine (@rename_keeps_dots smallEnv (nested freshDir) _ (some ⟨0, 0⟩) 1024 2 2 13
    [0x64] [0x65] _ [] rfl
    (by decide) (by decide) ?_ (by decide) (by decide) (by decide)
      (by decide) ?_ rfl wellFormed dots
    (Prod.ext succeeded rfl)).1 (.inr ?_)
  · decide +kernel
  · decide +kernel
  · decide +kernel

/-- Renaming the one with the file: the new `..` comes behind `a`, and the old one goes. -/
theorem rename_loses_dots :
    let outcome := (doRename (some ⟨0, 0⟩) 2 [0x64] 2 [0x65]).run (lib smallEnv) (nested usedDir)
    StartsWithDots 1024 ((nested usedDir).dirs 13) 13 2 ∧ outcome.1 = 0 ∧
      ¬ StartsWithDots 1024 (outcome.2.dirs 13) 13 2 := by
  refine ⟨?_, by decide +kernel, ?_⟩
  · have single : usedDir = [usedDir.headD (emptyBlock 0)] := by
      rfl
    refine ⟨_, [], single, ?_⟩
    constructor <;> decide +kernel
  · rintro ⟨block, rest, contents, dots⟩
    have named : (((doRename (some ⟨0, 0⟩) 2 [0x64] 2 [0x65]).run (lib smallEnv)
      (nested usedDir)).2.dirs 13).all
        (fun block => nameAt block (recLenAt block 0) ≠ dotDotName) = true := by
      decide +kernel
    rw [contents] at named
    simp [dots.dotDot] at named

end Dots

end Ext2Fuse
