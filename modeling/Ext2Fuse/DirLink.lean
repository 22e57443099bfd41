import Ext2Fuse.DirUnlink

/-!
# Adding an entry, and finding it

`link_proc` merges free records on its way, cuts off the unused end of a record and fills
a free record that is large enough. Over well-formed blocks of less than 64 KiB it adds
one entry and keeps all others, or finds no space and keeps them all; `lookup_proc` finds
the first entry with a name.
-/

namespace Ext2Fuse.DirBlock

open Lib

variable {bs : Nat} {buf buf' : Block} {name : Name} {ino fileType : Nat} {start stop offset : Nat}
  {offsets : List Nat}

/-- A name and a number that a record can hold. -/
structure Recordable (name : Name) (ino fileType : Nat) : Prop where
  short : name.length ≤ 255
  used : ino ≠ 0
  small : ino < 2 ^ 32
  typed : fileType < 8

/-- What EXT2_DIR_REC_LEN gives for a name: aligned, enough, and no more than needed. -/
theorem recLen_name (length : Nat) : 8 ≤ EXT2_DIR_REC_LEN length ∧ EXT2_DIR_REC_LEN length % 4 = 0 ∧
    length + 8 ≤ EXT2_DIR_REC_LEN length ∧ EXT2_DIR_REC_LEN length ≤ length + 11 := by
  rw [EXT2_DIR_REC_LEN]
  omega

section Steps

/-- What `link_proc` makes of the record at `offset` before it looks at its size. -/
def absorbed (bs : Nat) (buf : Block) (offset : Nat) : Block :=
  let next := offset + recLenAt buf offset
  if decide (next < bs - 8) && decide (inodeAt buf next = 0) &&
    decide (next + recLenAt buf next ≤ bs) then
    buf.setU16 (offset + 4) (recLenAt buf offset + recLenAt buf next)
  else buf

/-- A free record that follows is absorbed. -/
theorem rewritten_absorbed (bounded : bs < start + 65536)
    (spans : Spans buf start (start :: offsets) bs) :
    (∃ offsets', Spans (absorbed bs buf start) start (start :: offsets') bs ∧
      liveOf (absorbed bs buf start) (start :: offsets') = liveOf buf (start :: offsets)) ∧
      ∀ index < start, absorbed bs buf start index = buf index := by
  rw [absorbed]
  split
  · rename_i merges
    simp only [Bool.and_eq_true, decide_eq_true_eq] at merges
    obtain ⟨⟨more, free⟩, -⟩ := merges
    refine ⟨?_, fun index below => setU16_apply_outside _ (by omega)⟩
    cases spans with
    | cons sound rest =>
        cases rest with
        | nil => omega
        | @cons _ _ offsets soundNext rest =>
            have ends := rest.le
            have whole : Spans buf start
              ([] ++ start :: (start + recLenAt buf start) :: offsets) bs :=
              .cons sound (.cons soundNext rest)
            obtain ⟨kept, live⟩ := removeRecord_some whole (by omega)
            refine ⟨offsets, kept, live.trans ?_⟩
            rw [List.nil_append, liveOf_cons, liveOf_cons, liveOf_cons, if_pos free,
              List.nil_append]
  · exact ⟨⟨offsets, spans, rfl⟩, fun _ _ => rfl⟩

/-- What `link_proc` makes of a live record with room behind its name. -/
def cut (buf : Block) (offset : Nat) : Block :=
  let minRecLen := EXT2_DIR_REC_LEN (nameLen8At buf offset)
  let next := offset + minRecLen
  (((buf.setU16 (offset + 4) minRecLen).setU32 next 0).setU16 (next + 6) 0).setU16 (next + 4)
    (recLenAt buf offset - minRecLen)

/-- The bytes that splitting a record leaves. -/
theorem cut_apply {index : Nat} (apart : index < start + 4 ∨
    start + 6 ≤ index ∧ index < start + EXT2_DIR_REC_LEN (nameLen8At buf start) ∨
    start + EXT2_DIR_REC_LEN
      (nameLen8At buf start) + 8 ≤ index) : cut buf start index = buf index := by
  obtain ⟨long, -⟩ := recLen_name (nameLen8At buf start)
  rw [cut, setU16_apply_outside _ (by omega), setU16_apply_outside _ (by omega),
    Bytes.setU32_apply_of_disjoint _ _ (by omega), setU16_apply_outside _ (by omega)]

section Cut

variable (room : EXT2_DIR_REC_LEN (nameLen8At buf start) + 8 ≤ recLenAt buf start)

/-- The entry of a record that was cut stays. -/
theorem direntAt_cut : direntAt (cut buf start) start = direntAt buf start := by
  obtain ⟨long, -, fits, -⟩ := recLen_name (nameLen8At buf start)
  have inode : inodeAt (cut buf start) start = inodeAt buf start :=
    Bytes.getU32_congr fun index _ _ => cut_apply (by omega)
  have nameLen : nameLenAt (cut buf start) start = nameLenAt buf start :=
    Bytes.getU16_congr fun index _ _ => cut_apply (by omega)
  have named : nameAt (cut buf start) start = nameAt buf start := by
    rw [nameAt, nameAt, nameLen8At, nameLen]
    exact Bytes.read_congr fun index above below => cut_apply (by rw [nameLen8At] at *; omega)
  rw [direntAt, direntAt, named, inode, nameLen]

include room

/-- A cut record is as long as its name needs. -/
theorem recLenAt_cut : recLenAt (cut buf start) start = EXT2_DIR_REC_LEN
    (nameLen8At buf start) := by
  obtain ⟨long, -⟩ := recLen_name (nameLen8At buf start)
  have small : recLenAt buf start < 65536 := Bytes.getU16_lt _ _
  rw [recLenAt, cut, Bytes.getU16_setU16_of_disjoint _ _ (by omega),
    Bytes.getU16_setU16_of_disjoint _ _ (by omega),
    Bytes.getU16_congr fun index _ _ => Bytes.setU32_apply_of_disjoint _ _ (by omega),
    Bytes.getU16_setU16_same, Nat.mod_eq_of_lt (by omega)]

/-- Behind it there is a free record over the rest. -/
theorem rest_cut : recLenAt (cut buf start) (start + EXT2_DIR_REC_LEN (nameLen8At buf start)) =
      recLenAt buf start - EXT2_DIR_REC_LEN (nameLen8At buf start) ∧
    nameLenAt (cut buf start) (start + EXT2_DIR_REC_LEN (nameLen8At buf start)) = 0 ∧
    inodeAt (cut buf start) (start + EXT2_DIR_REC_LEN (nameLen8At buf start)) = 0 := by
  have small : recLenAt buf start < 65536 := Bytes.getU16_lt _ _
  refine ⟨?_, ?_, ?_⟩
  · rw [recLenAt, cut, Bytes.getU16_setU16_same, Nat.mod_eq_of_lt (by omega)]
  · rw [nameLenAt, cut, Bytes.getU16_setU16_of_disjoint _ _ (by omega),
      Bytes.getU16_setU16_same, Nat.zero_mod]
  · rw [inodeAt, cut, Bytes.getU32_congr fun index _ _ => setU16_apply_outside _ (by omega),
      Bytes.getU32_congr fun index _ _ => setU16_apply_outside _ (by omega),
      Bytes.getU32_setU32_same, Nat.zero_mod]

/-- The rest of the record becomes a free one. -/
theorem spans_cut (spans : Spans buf start (start :: offsets) bs) :
    Spans (cut buf start) start
        (start :: (start + EXT2_DIR_REC_LEN (nameLen8At buf start)) :: offsets) bs ∧
      liveOf (cut buf start)
        (start :: (start + EXT2_DIR_REC_LEN (nameLen8At buf start)) :: offsets) =
        liveOf buf (start :: offsets) := by
  obtain ⟨long, aligned, fits, -⟩ := recLen_name (nameLen8At buf start)
  have entry := @direntAt_cut buf start
  have nameLen : nameLen8At (cut buf start) start = nameLen8At buf start := by
    rw [← length_nameAt, ← length_nameAt]
    exact congrArg List.length (congrArg Dirent.name entry)
  have inode : inodeAt (cut buf start) start = inodeAt buf start := congrArg Dirent.inode entry
  obtain ⟨restLen, restName, restFree⟩ := rest_cut room
  have recLen := recLenAt_cut room
  generalize minEq : EXT2_DIR_REC_LEN (nameLen8At buf start) = min at *
  cases spans with
  | cons sound rest =>
      have ends := rest.le
      have alignedAll := sound.aligned
      have after : ∀ index, start + recLenAt buf start ≤ index → index < bs →
          cut buf start index = buf index :=
        fun index above _ => cut_apply (by omega)
      refine ⟨.cons ⟨?_, ?_, ?_⟩ ?_, ?_⟩
      · rw [recLen]
        omega
      · rw [recLen]
        exact aligned
      · rw [nameLen, recLen]
        exact fits
      · rw [recLen]
        refine .cons ⟨?_, ?_, ?_⟩ ?_
        · rw [restLen]
          omega
        · rw [restLen]
          omega
        · rw [nameLen8At, restName, restLen]
          omega
        · rw [restLen, show start + min + (recLenAt buf start - min) = start +
            recLenAt buf start by omega]
          exact rest.congr after
      · rw [liveOf_cons, liveOf_cons, liveOf_cons, inode, entry, restFree, if_pos rfl,
          List.nil_append, rest.liveOf_congr after]

end Cut

/-- What `link_proc` makes of a free record that is large enough. -/
def filled (buf : Block) (offset : Nat) (name : Name) (ino fileType : Nat) : Block :=
  ((buf.setU32 offset ino).setU16 (offset + 6) (name.length ||| fileType <<< 8)).write
    (offset + 8) name

/-- The name length in the low byte, the type in the high one. -/
theorem nameLen_eq (short : name.length ≤ 255) :
    (name.length ||| fileType <<< 8) = name.length + 256 * fileType := by
  have byte : name.length < 2 ^ 8 := by omega
  rw [Nat.or_comm, Nat.shiftLeft_eq, Nat.mul_comm, ← Nat.two_pow_add_eq_or_of_lt byte]
  omega

section Filled

variable (short : name.length ≤ 255) (room : EXT2_DIR_REC_LEN name.length ≤ recLenAt buf start)

/-- Filling a record in changes its header and its name only. -/
theorem filled_outside {index : Nat}
    (apart : index = start + 4 ∨ index = start + 5 ∨ index < start ∨
    start + 8 + name.length ≤ index) : filled buf start name ino fileType index = buf index := by
  rw [filled, Bytes.write_apply_outside _ (by omega), setU16_apply_outside _ (by omega),
    Bytes.setU32_apply_of_disjoint _ _ (by omega)]

include short

/-- The filled record's name length, with the type in its upper byte. -/
theorem nameLenAt_filled (typed : fileType < 8) :
    nameLenAt (filled buf start name ino fileType) start = name.length + 256 * fileType := by
  rw [nameLenAt, filled, Bytes.getU16_congr fun index _ _ => Bytes.write_apply_outside _ (by omega),
    Bytes.getU16_setU16_same, nameLen_eq short, Nat.mod_eq_of_lt (by omega)]

/-- The filled record's name length. -/
theorem nameLen8At_filled : nameLen8At
    (filled buf start name ino fileType) start = name.length := by
  rw [nameLen8At, nameLenAt, filled,
    Bytes.getU16_congr fun index _ _ => Bytes.write_apply_outside _ (by omega),
    Bytes.getU16_setU16_same, nameLen_eq short]
  omega

/-- The filled record's name. -/
theorem nameAt_filled : nameAt (filled buf start name ino fileType) start = name := by
  rw [nameAt, nameLen8At_filled short, filled, Bytes.read_write_same]

include room

/-- Filling a record in leaves the row of records. -/
theorem spans_filled (spans : Spans buf start (start :: offsets) bs) :
    Spans (filled buf start name ino fileType) start (start :: offsets) bs := by
  obtain ⟨-, -, fits, -⟩ := recLen_name name.length
  cases spans with
  | cons sound rest =>
      have recLen : recLenAt (filled buf start name ino fileType) start = recLenAt buf start :=
        Bytes.getU16_congr fun index _ _ => filled_outside (by omega)
      refine .cons ⟨?_, ?_, ?_⟩ ?_
      · rw [recLen]
        exact sound.long
      · rw [recLen]
        exact sound.aligned
      · rw [nameLen8At_filled short, recLen]
        omega
      · rw [recLen]
        exact rest.congr fun index above _ => filled_outside (by omega)

end Filled

/-- Filling a record in leaves its length. -/
theorem recLenAt_filled : recLenAt
    (filled buf start name ino fileType) start = recLenAt buf start :=
  Bytes.getU16_congr fun index _ _ => filled_outside (by omega)

/-- The filled record holds the entry. -/
theorem direntAt_filled (recordable : Recordable name ino fileType) :
    direntAt (filled buf start name ino fileType) start = ⟨name, ino, fileType⟩ := by
  obtain ⟨short, used, small, typed⟩ := recordable
  have inode : inodeAt (filled buf start name ino fileType) start = ino := by
    rw [inodeAt, filled, Bytes.getU32_congr fun index _ _ => Bytes.write_apply_outside _ (by omega),
      Bytes.getU32_congr fun index _ _ => setU16_apply_outside _ (by omega),
      Bytes.getU32_setU32_same, Nat.mod_eq_of_lt small]
  rw [direntAt, nameAt_filled short, inode, nameLenAt_filled short typed,
    show (name.length + 256 * fileType) / 256 = fileType by omega]

/-- The entry is in the record. -/
theorem liveOf_filled (room : EXT2_DIR_REC_LEN name.length ≤ recLenAt buf start)
    (recordable : Recordable name ino fileType) (spans : Spans buf start (start :: offsets) bs)
    (free : inodeAt buf start = 0) :
    liveOf (filled buf start name ino fileType) (start :: offsets) =
      ⟨name, ino, fileType⟩ :: liveOf buf (start :: offsets) := by
  have entry := @direntAt_filled buf name ino fileType start recordable
  have inode : inodeAt (filled buf start name ino fileType) start = ino :=
    congrArg Dirent.inode entry
  obtain ⟨-, used, -, -⟩ := recordable
  obtain ⟨-, -, fits, -⟩ := recLen_name name.length
  cases spans with
  | cons sound rest =>
      rw [liveOf_cons, liveOf_cons, inode, if_neg used, entry, if_pos free,
        rest.liveOf_congr fun index above _ => filled_outside (by omega)]
      rfl

/-- Whether a following record was absorbed. -/
def absorbs (bs : Nat) (buf : Block) (offset : Nat) : Bool :=
  decide (offset + recLenAt buf offset < bs - 8) &&
    decide (inodeAt buf (offset + recLenAt buf offset) = 0) &&
    decide (offset + recLenAt buf offset + recLenAt buf (offset + recLenAt buf offset) ≤ bs)

/-- `link_proc`, by what it makes of the record. -/
theorem linkProc_eq (done : Bool) : linkProc bs name ino fileType buf offset done =
    if inodeAt (absorbed bs buf offset) offset ≠ 0 then
      if recLenAt (absorbed bs buf offset) offset <
          EXT2_DIR_REC_LEN (nameLen8At (absorbed bs buf offset) offset) +
            EXT2_DIR_REC_LEN name.length then
        ({ changed := absorbs bs buf offset }, absorbed bs buf offset, done)
      else ({ changed := true }, cut (absorbed bs buf offset) offset, done)
    else if recLenAt (absorbed bs buf offset) offset < EXT2_DIR_REC_LEN name.length then
      ({ changed := absorbs bs buf offset }, absorbed bs buf offset, done)
    else ({ changed := true, abort := true },
      filled (absorbed bs buf offset) offset name ino fileType, true) := rfl

/-- One turn of `link_proc`: the live entries stay and it goes on, or the entry is added and it
stops. -/
theorem linkProc_step (bounded : bs < 65536) (recordable : Recordable name ino fileType)
    (spans : Spans buf start (start :: offsets) bs) (done : Bool) :
    ∃ flags buf' done' offsets', linkProc bs name ino fileType buf start done =
      (flags, buf', done') ∧
      Spans buf' start (start :: offsets') bs ∧ (∀ index < start, buf' index = buf index) ∧
      ((flags.abort = false ∧ done' = done ∧
          liveOf buf' (start :: offsets') = liveOf buf (start :: offsets)) ∨
        (flags.abort = true ∧ flags.changed = true ∧ done' = true ∧
          liveOf buf' (start :: offsets') =
            ⟨name, ino, fileType⟩ :: liveOf buf (start :: offsets))) := by
  obtain ⟨⟨offsets', kept, live⟩, below⟩ := rewritten_absorbed (by omega) spans
  obtain ⟨long, -, -, -⟩ := recLen_name name.length
  rw [linkProc_eq]
  by_cases inUse : inodeAt (absorbed bs buf start) start ≠ 0
  · rw [if_pos inUse]
    by_cases full : recLenAt (absorbed bs buf start) start <
        EXT2_DIR_REC_LEN (nameLen8At (absorbed bs buf start) start) + EXT2_DIR_REC_LEN name.length
    · rw [if_pos full]
      exact ⟨_, _, _, offsets', rfl, kept, below, .inl ⟨rfl, rfl, live⟩⟩
    · rw [if_neg full]
      obtain ⟨spansCut, liveCut⟩ := spans_cut (by omega) kept
      refine ⟨_, _, _, _ :: offsets', rfl, spansCut, fun index less => ?_, .inl ⟨rfl, rfl, ?_⟩⟩
      · rw [← below index less, cut, setU16_apply_outside _ (by omega),
          setU16_apply_outside _ (by omega), Bytes.setU32_apply_of_disjoint _ _ (by omega),
          setU16_apply_outside _ (by omega)]
      · exact liveCut.trans live
  · rw [if_neg inUse]
    by_cases full : recLenAt (absorbed bs buf start) start < EXT2_DIR_REC_LEN name.length
    · rw [if_pos full]
      exact ⟨_, _, _, offsets', rfl, kept, below, .inl ⟨rfl, rfl, live⟩⟩
    · rw [if_neg full]
      have room : EXT2_DIR_REC_LEN name.length ≤ recLenAt (absorbed bs buf start) start := by omega
      have spansFilled : Spans (filled (absorbed bs buf start) start name ino fileType) start
          (start :: offsets') bs := spans_filled recordable.short room kept
      have liveFilled := liveOf_filled room recordable kept (not_not.mp inUse)
      refine ⟨_, _, _, offsets', rfl, spansFilled, fun index less => ?_, .inr ⟨rfl, rfl, rfl, ?_⟩⟩
      · rw [← below index less, filled, Bytes.write_apply_outside _ (by omega),
          setU16_apply_outside _ (by omega), Bytes.setU32_apply_of_disjoint _ _ (by omega)]
      · rw [liveFilled, live]

/-- What a walk of `link_proc` over the records from `start` on has done. -/
structure Linked (bs : Nat) (entry : Dirent) (buf : Block) (start : Nat) (entries : List Dirent)
    (walk : BlockWalk Bool) : Prop where
  errcode : walk.errcode = 0
  below : ∀ index < start, walk.buf index = buf index
  live : ∃ offsets, Spans walk.buf start offsets bs ∧
    ((walk.abort = false ∧ walk.priv = false ∧ liveOf walk.buf offsets = entries) ∨
      (walk.abort = true ∧ walk.changed = true ∧ walk.priv = true ∧ ∃ before after,
        entries = before ++ after ∧ liveOf walk.buf offsets = before ++ entry :: after))

/-- The records before the one the walk goes on from stay as they are. -/
theorem Linked.cons {entry : Dirent} {walk : BlockWalk Bool} {entries : List Dirent}
    (sound : SoundRecord buf start)
    (linked : Linked bs entry buf (start + recLenAt buf start) entries walk) :
    Linked bs entry buf start
      ((if inodeAt buf start = 0 then [] else [direntAt buf start]) ++ entries) walk := by
  obtain ⟨errcode, below, offsets, spans, result⟩ := linked
  have long := sound.long
  have fits := sound.fits
  have header : ∀ index, start ≤ index → index < start + 8 → walk.buf index = buf index :=
    fun index _ less => below index (by omega)
  have same : direntAt walk.buf start = direntAt buf start :=
    direntAt_congr fun index _ less => below index (by omega)
  obtain ⟨inode, recLen, -⟩ := fields_congr header
  refine ⟨errcode, fun index less => below index (by omega), start :: offsets, ?_, ?_⟩
  · refine .cons (sound.congr header) ?_
    rw [recLen]
    exact spans
  · rw [liveOf_cons, inode, same]
    generalize (if inodeAt buf start = 0 then [] else [direntAt buf start]) = first
    refine result.imp ?_ ?_
    · rintro ⟨goesOn, notDone, kept⟩
      exact ⟨goesOn, notDone, by rw [kept]⟩
    · rintro ⟨stops, changed, done, before, after, split, inserted⟩
      refine ⟨stops, changed, done, first ++ before, after, ?_, ?_⟩
      · rw [split, List.append_assoc]
      · rw [inserted, List.append_assoc]

/-- The walk of link_proc enters the name at the first record with room, or nowhere. -/
theorem walk_linkProc (bounded : bs < 65536)
    (recordable : Recordable name ino fileType) (bound : Nat)
    (spans : Spans buf start offsets bs) (enough : bs ≤ start + bound) (changed : Bool) :
    Linked bs ⟨name, ino, fileType⟩ buf start (liveOf buf offsets)
      (walkRecords bs true (linkProc bs name ino fileType) bound start
        { changed := changed, buf := buf, priv := false }) := by
  induction bound generalizing buf start offsets changed with
  | zero => exact ⟨rfl, fun _ _ => rfl, offsets, spans, .inl ⟨rfl, rfl, rfl⟩⟩
  | succ bound inductionHypothesis =>
      cases spans with
      | nil =>
          rw [walkRecords, if_neg (Nat.lt_irrefl _)]
          exact ⟨rfl, fun _ _ => rfl, [], .nil _, .inl ⟨rfl, rfl, rfl⟩⟩
      | @cons _ _ offsets sound rest =>
          have long := sound.long
          have ends := rest.le
          have unbad : badRecord bs buf start = false := badRecord_iff_sound.mpr ⟨ends, sound⟩
          have inside : start < bs := by omega
          obtain ⟨flags, buf', done, offsets', called, spans', below, outcome⟩ :=
            linkProc_step bounded recordable (.cons sound rest) false
          simp only [walkRecords, inside, if_true, unbad, Bool.false_eq_true,
            if_false, Bool.not_true, Bool.and_false, called]
          rcases outcome with ⟨goesOn, rfl, live⟩ | ⟨stops, changes, rfl, live⟩
          · cases spans' with
            | cons sound' rest' =>
                have long' := sound'.long
                have linked := (inductionHypothesis rest' (by omega)
                  (changed || flags.changed)).cons sound'
                rw [goesOn]
                refine ⟨linked.errcode, fun index less => (linked.below index less).trans
                  (below index less), ?_⟩
                rw [← live, liveOf_cons]
                exact linked.live
          · rw [stops, if_pos rfl]
            exact ⟨rfl, below, start :: offsets', spans',
              .inr ⟨rfl, by simp [changes], rfl, [], _, rfl, live⟩⟩

end Steps

section Directories

variable {blocks : List Block}

/-- `ext2fs_process_dir_block` with `link_proc` on a well-formed block. -/
theorem processDirBlock_link (bounded : bs < 65536) (recordable : Recordable name ino fileType)
    (chain : Chain bs buf 0) :
    ∃ abort buf', processDirBlock bs true (linkProc bs name ino fileType) buf false =
        (0, abort, buf', abort) ∧ Chain bs buf' 0 ∧
      if abort then ∃ before after, liveFrom bs buf bs 0 = before ++ after ∧
        liveFrom bs buf' bs 0 = before ++ ⟨name, ino, fileType⟩ :: after
      else liveFrom bs buf' bs 0 = liveFrom bs buf bs 0 := by
  obtain ⟨offsets, spans⟩ := chain.spans
  obtain ⟨errcode, -, offsets', spans', result⟩ :=
    walk_linkProc bounded recordable bs spans (Nat.le_add_left ..) false
  rw [processDirBlock, chain.readDirBlockBad_eq, spans.liveFrom_eq]
  generalize walkRecords bs true (linkProc bs name ino fileType) bs 0
    { buf := buf, priv := false } = walk at *
  rcases result with ⟨goesOn, notDone, live⟩ | ⟨stops, changed, done, before, after, split, live⟩
  · refine ⟨false, if walk.errcode = 0 && walk.changed then walk.buf else buf, ?_, ?_⟩
    · simp [errcode, goesOn, notDone]
    · split
      · exact ⟨spans'.chain, spans'.liveFrom_eq.trans live⟩
      · exact ⟨chain, spans.liveFrom_eq⟩
  · refine ⟨true, walk.buf, ?_, spans'.chain, before, after, split, spans'.liveFrom_eq.trans live⟩
    simp [errcode, changed, stops, done]

/-- `ext2fs_link` on a well-formed directory adds the entry, or finds no space. -/
theorem WellFormed.dirIterate_link (bounded : bs < 65536)
    (recordable : Recordable name ino fileType) (wellFormed : WellFormed bs blocks) :
    ∃ done blocks', dirIterate bs true (linkProc bs name ino fileType) blocks false =
        (0, blocks', done) ∧ WellFormed bs blocks' ∧
      if done then ∃ before after, liveEntries bs blocks = before ++ after ∧
        liveEntries bs blocks' = before ++ ⟨name, ino, fileType⟩ :: after
      else liveEntries bs blocks' = liveEntries bs blocks := by
  induction blocks with
  | nil => exact ⟨false, [], rfl, wellFormed, rfl⟩
  | cons block blocks inductionHypothesis =>
      have rest : WellFormed bs blocks := fun other member =>
        wellFormed other (List.mem_cons_of_mem _ member)
      obtain ⟨abort, block', processed, chain, live⟩ :=
        processDirBlock_link bounded recordable (wellFormed block (List.mem_cons_self ..))
      have cons : ∀ {first : Block} {others : List Block}, Chain bs first 0 → WellFormed bs others →
          WellFormed bs (first :: others) := by
        intro first others chain all other member
        rcases List.mem_cons.mp member with rfl | later
        · exact chain
        · exact all other later
      have entries : ∀ (first : Block) (others : List Block), liveEntries bs (first :: others) =
          liveFrom bs first bs 0 ++ liveEntries bs others := fun _ _ => rfl
      rw [dirIterate, processed]
      cases abort with
      | true =>
          obtain ⟨before, after, split, inserted⟩ := live
          refine ⟨true, block' :: blocks, rfl, cons chain rest, before,
            after ++ liveEntries bs blocks, ?_, ?_⟩
          · rw [entries, split, List.append_assoc]
          · rw [entries, inserted, List.append_assoc, List.cons_append]
      | false =>
          have live : liveFrom bs block' bs 0 = liveFrom bs block bs 0 := live
          obtain ⟨done, blocks', iterated, wellFormed', result⟩ := inductionHypothesis rest
          refine ⟨done, block' :: blocks', ?_, cons chain wellFormed', ?_⟩
          · simp only [iterated]
          · rw [entries, entries, live]
            cases done with
            | true =>
                obtain ⟨before, after, split, inserted⟩ := result
                exact ⟨liveFrom bs block bs 0 ++ before, after, by rw [split, List.append_assoc],
                  by rw [inserted, List.append_assoc]⟩
            | false => exact congrArg _ result

/-- `lookup_proc` stops at the first live record with the name. -/
theorem Spans.walk_lookup (spans : Spans buf start offsets bs) (bound : Nat)
    (enough : bs ≤ start + bound) (name : Name) :
    walkRecords bs false (lookupProc name) bound start { buf := buf, priv := none } =
      match (liveOf buf offsets).find? fun entry => entry.name == name with
      | some entry => { abort := true, buf := buf, priv := some entry.inode }
      | none => { buf := buf, priv := none } := by
  induction bound generalizing start offsets with
  | zero =>
      cases spans with
      | nil => rfl
      | cons sound rest =>
          have long := sound.long
          have ends := rest.le
          omega
  | succ bound inductionHypothesis =>
      cases spans with
      | nil => simp [walkRecords]
      | @cons _ _ offsets sound rest =>
          have long := sound.long
          have ends := rest.le
          have unbad : badRecord bs buf start = false := badRecord_iff_sound.mpr ⟨ends, sound⟩
          have inside : start < bs := by omega
          have later := inductionHypothesis rest (by omega)
          simp only [walkRecords, inside, if_true, unbad, Bool.false_eq_true,
            if_false, Bool.not_false, Bool.and_true, decide_eq_true_eq]
          rw [liveOf_cons]
          by_cases free : inodeAt buf start = 0
          · rw [if_pos free, if_pos free, later, List.nil_append]
          · rw [if_neg free, if_neg free, List.singleton_append, List.find?_cons]
            by_cases named : nameAt buf start = name
            · have proc : lookupProc name buf start none =
                  ({ abort := true }, buf, some (inodeAt buf start)) :=
                if_pos ⟨by rw [← named, length_nameAt], named⟩
              have hit : ((direntAt buf start).name == name) = true := beq_iff_eq.mpr named
              simp only [proc, hit]
              rfl
            · have proc : lookupProc name buf start none = ({}, buf, none) :=
                if_neg fun both => named both.2
              have miss : ((direntAt buf start).name == name) = false :=
                beq_eq_false_iff_ne.mpr named
              simp only [proc, miss, Bool.or_false]
              exact later

/-- `ext2fs_lookup` on a well-formed directory. -/
theorem WellFormed.lookup_eq (wellFormed : WellFormed bs blocks) (name : Name) :
    (dirLib bs).lookup blocks name =
      match (liveEntries bs blocks).find? fun entry => entry.name == name with
      | some entry => .ok entry.inode
      | none => .error EXT2_ET_FILE_NOT_FOUND := by
  suffices iterated : dirIterate bs false (lookupProc name) blocks none =
      (0, blocks, ((liveEntries bs blocks).find? fun entry => entry.name == name).map
        Dirent.inode) by
    simp only [dirLib, iterated]
    cases (liveEntries bs blocks).find? fun entry => entry.name == name <;> rfl
  induction blocks with
  | nil => rfl
  | cons block blocks inductionHypothesis =>
      have chain := wellFormed block (List.mem_cons_self ..)
      have later := inductionHypothesis fun other member =>
        wellFormed other (List.mem_cons_of_mem _ member)
      obtain ⟨offsets, spans⟩ := chain.spans
      have walk := spans.walk_lookup bs (Nat.le_add_left ..) name
      have entries : liveEntries bs (block :: blocks) =
          liveFrom bs block bs 0 ++ liveEntries bs blocks := rfl
      rw [dirIterate, processDirBlock, chain.readDirBlockBad_eq, entries, spans.liveFrom_eq,
        List.find?_append]
      simp only [walk, Bool.false_eq_true, if_false]
      cases (liveOf block offsets).find? fun entry => entry.name == name with
      | some entry => rfl
      | none => simp [later]

/-- `ext2fs_unlink` of an entry that is not there. -/
theorem WellFormed.unlink_missing (positive : 0 < bs) (wellFormed : WellFormed bs blocks)
    (missing : lacks name ino (liveEntries bs blocks) = true) :
    (dirLib bs).unlink blocks name ino = (EXT2_ET_DIR_NO_SPACE, blocks) := by
  have skipped : ∀ block ∈ blocks, lacks name ino (liveFrom bs block bs 0) = true := by
    intro block member
    rw [lacks, List.all_eq_true] at missing ⊢
    exact fun entry inBlock => missing entry (List.mem_flatMap.mpr ⟨block, member, inBlock⟩)
  obtain ⟨later, -, -, iterated⟩ := dirIterate_unlink_skip [] positive wellFormed skipped none
  rw [List.append_nil] at iterated
  simp [dirLib, iterated, dirIterate]

end Directories

section NewBlocks

variable (bounded : bs < 65536) (aligned : bs % 4 = 0)

include bounded aligned

/-- The block `ext2fs_expand_dir` appends is one free record. -/
theorem spans_emptyBlock (room : 8 ≤ bs) :
    Spans (emptyBlock bs) 0 [0] bs ∧ liveOf (emptyBlock bs) [0] = [] := by
  have recLen : recLenAt (emptyBlock bs) 0 = bs := by
    rw [recLenAt, emptyBlock, Bytes.getU16_setU16_same, Nat.mod_eq_of_lt bounded]
  have nameLen : nameLen8At (emptyBlock bs) 0 = 0 := by
    rw [nameLen8At, nameLenAt, emptyBlock, Bytes.getU16_setU16_of_disjoint _ _ (by omega)]
    rfl
  have free : inodeAt (emptyBlock bs) 0 = 0 := by
    rw [inodeAt, emptyBlock, Bytes.getU32_congr fun index _ _ => setU16_apply_outside _ (by omega)]
    rfl
  constructor
  · refine .cons ⟨?_, ?_, ?_⟩ ?_
    · rw [recLen]
      exact room
    · rw [recLen]
      exact aligned
    · rw [nameLen, recLen]
      omega
    · rw [recLen, Nat.zero_add]
      exact .nil bs
  · rw [liveOf_cons, if_pos free]
    rfl

/-- A new block keeps a directory well formed and adds no entry. -/
theorem WellFormed.expand {blocks : List Block} (room : 8 ≤ bs)
    (wellFormed : WellFormed bs blocks) :
    WellFormed bs ((dirLib bs).expand blocks) ∧
      liveEntries bs ((dirLib bs).expand blocks) = liveEntries bs blocks := by
  obtain ⟨spans, live⟩ := spans_emptyBlock bounded aligned room
  constructor
  · intro block member
    rcases List.mem_append.mp member with old | new
    · exact wellFormed block old
    · rw [List.mem_singleton.mp new]
      exact spans.chain
  · have appended : liveEntries bs (blocks ++ [emptyBlock bs]) =
        liveEntries bs blocks ++ liveFrom bs (emptyBlock bs) bs 0 ++ [] := liveEntries_append ..
    rw [show (dirLib bs).expand blocks = blocks ++ [emptyBlock bs] from rfl, appended,
      spans.liveFrom_eq, live, List.append_nil, List.append_nil]

/-- The block of a new directory, with the records of `.` and `..` -/
theorem spans_newDirBlock (room : 24 ≤ bs) (ino parent fileType : Nat) :
    ∃ block, (dirLib bs).newDirBlock ino parent fileType = [block] ∧ Spans block 0 [0, 12] bs ∧
      nameAt block 0 = dotName ∧ nameAt block 12 = dotDotName := by
  -- the record of `.` is shortened, and what is left of the block becomes the next one
  generalize firstEq : filled (emptyBlock bs) 0 dotName ino fileType = first
  have zero : ∀ index, 9 ≤ index → first index = 0 := by
    intro index above
    rw [← firstEq, filled_outside (.inr (.inr (.inr (by simp [dotName]; omega)))), emptyBlock,
      setU16_apply_outside _ (by omega)]
  have dotName8 : nameLen8At first 0 + 8 ≤ 12 := by
    rw [← firstEq, nameLen8At_filled (by decide)]
    decide
  have short := ((Spans.nil 0).resize (by decide) (by decide) (by decide) dotName8 (Spans.nil 12)).1
  generalize secondEq : (first.setU16 (0 + 4) 12).setU16 (12 + 4) (bs - 12) = second
  have restLen : recLenAt second 12 = bs - 12 := by
    rw [← secondEq]
    exact recLenAt_resized (by omega)
  have restName : nameLen8At second 12 = 0 := by
    have outside : ∀ index, 18 ≤ index → second index = 0 := by
      intro index above
      rw [← secondEq, setU16_apply_outside _ (by omega), setU16_apply_outside _ (by omega),
        zero index (by omega)]
    rw [nameLen8At, nameLenAt, Bytes.getU16, outside (12 + 6) (by omega),
      outside (12 + 6 + 1) (by omega)]
    rfl
  have rest : Spans second 12 [12] bs := by
    refine .cons ⟨?_, ?_, ?_⟩ ?_
    · rw [restLen]
      omega
    · rw [restLen]
      omega
    · rw [restName, restLen]
      omega
    · rw [restLen, show 12 + (bs - 12) = bs by omega]
      exact .nil bs
  have roomUp : EXT2_DIR_REC_LEN dotDotName.length ≤ recLenAt second 12 := by
    rw [restLen, show EXT2_DIR_REC_LEN dotDotName.length = 12 from rfl]
    omega
  have ups : Spans (filled second 12 dotDotName parent fileType) 12 [12] bs :=
    spans_filled (by decide) roomUp rest
  have low : ∀ index, 0 ≤ index → index < 12 →
      filled second 12 dotDotName parent fileType index = first.setU16 (0 + 4) 12 index := by
    intro index _ below
    rw [filled_outside (by omega), ← secondEq, setU16_apply_outside _ (by omega)]
  have block : (dirLib bs).newDirBlock ino parent fileType =
      [filled second 12 dotDotName parent fileType] := by
    rw [← secondEq, ← firstEq]
    rfl
  refine ⟨_, block, (short.congr low).append ups, ?_, nameAt_filled (by decide)⟩
  -- the name of `.` is not touched by what is written after it
  have dot : nameAt first 0 = dotName := by
    rw [← firstEq]
    exact nameAt_filled (by decide)
  have same : ∀ index, index < 9 → index ≠ 4 → index ≠ 5 →
      filled second 12 dotDotName parent fileType index = first index := by
    intro index below _ _
    rw [low index (Nat.zero_le _) (by omega), setU16_apply_outside _ (by omega)]
  have nameLen : nameLen8At (filled second 12 dotDotName parent fileType) 0 = 1 := by
    have short : nameLen8At first 0 = 1 := by
      rw [← firstEq, nameLen8At_filled (by decide)]
      rfl
    rw [← short, nameLen8At, nameLen8At, nameLenAt, nameLenAt,
      Bytes.getU16_congr fun index _ _ => same index (by omega) (by omega) (by omega)]
  have length : nameLen8At first 0 = 1 := by
    rw [← length_nameAt, dot]
    rfl
  rw [← dot, nameAt, nameAt, nameLen, length]
  exact Bytes.read_congr fun index _ _ => same index (by omega) (by omega) (by omega)

/-- The first block of a new directory is well formed. -/
theorem WellFormed.newDirBlock (room : 24 ≤ bs) (ino parent fileType : Nat) :
    WellFormed bs ((dirLib bs).newDirBlock ino parent fileType) := by
  obtain ⟨block, same, spans, -⟩ := spans_newDirBlock bounded aligned room ino parent fileType
  rw [same]
  intro other member
  rw [List.mem_singleton.mp member]
  exact spans.chain

end NewBlocks

end Ext2Fuse.DirBlock
