import Ext2Fuse.DirRecords

/-!
# The records of a block

A stretch of a directory block as the list of the offsets of its records. A callback that
rewrites a record is described by what becomes of the list; the bytes outside the
stretch it writes to keep their records.
-/

namespace Ext2Fuse.DirBlock

open Lib

/-- A record that the iterator accepts, if it ends inside the block. -/
structure SoundRecord (buf : Block) (offset : Nat) : Prop where
  long : 8 ≤ recLenAt buf offset
  aligned : recLenAt buf offset % 4 = 0
  fits : nameLen8At buf offset + 8 ≤ recLenAt buf offset

/-- The records at `offsets` follow each other from `start` to `stop`. -/
inductive Spans (buf : Block) : Nat → List Nat → Nat → Prop
  | nil (start : Nat) : Spans buf start [] start
  | cons {start stop : Nat} {offsets : List Nat} (sound : SoundRecord buf start)
      (rest : Spans buf (start + recLenAt buf start) offsets stop) :
      Spans buf start (start :: offsets) stop

/-- The entries of those of the records that are in use. -/
def liveOf (buf : Block) (offsets : List Nat) : List Dirent :=
  (offsets.filter fun offset => inodeAt buf offset ≠ 0).map (direntAt buf)

variable {bs : Nat} {buf buf' : Block} {start middle stop offset : Nat}
    {offsets before after : List Nat}

@[simp] theorem liveOf_nil : liveOf buf [] = [] := rfl

@[simp] theorem liveOf_append :
    liveOf buf (before ++ after) = liveOf buf before ++ liveOf buf after := by
  simp [liveOf]

/-- The live entries of a row are that of its first record, if it is live, and the rest. -/
theorem liveOf_cons : liveOf buf (offset :: offsets) =
    (if inodeAt buf offset = 0 then [] else [direntAt buf offset]) ++ liveOf buf offsets := by
  by_cases free : inodeAt buf offset = 0 <;> simp [liveOf, free]

/-- The check of a record passes when the record is sound and ends within the block. -/
theorem badRecord_iff_sound : badRecord bs buf offset = false ↔
    offset + recLenAt buf offset ≤ bs ∧ SoundRecord buf offset := by
  rw [badRecord_eq_false]
  constructor
  · rintro ⟨inside, long, aligned, fits⟩
    exact ⟨inside, long, aligned, fits⟩
  · rintro ⟨inside, long, aligned, fits⟩
    exact ⟨inside, long, aligned, fits⟩

/-- The fixed part of a record is its first eight bytes. -/
theorem fields_congr
    (same : ∀ index, offset ≤ index → index < offset + 8 → buf' index = buf index) :
    inodeAt buf' offset = inodeAt buf offset ∧ recLenAt buf' offset = recLenAt buf offset ∧
      nameLenAt buf' offset = nameLenAt buf offset := by
  refine ⟨?_, ?_, ?_⟩
  · exact Bytes.getU32_congr fun index low high => same index low (by omega)
  · exact Bytes.getU16_congr fun index low high => same index (by omega) (by omega)
  · exact Bytes.getU16_congr fun index low high => same index (by omega) (by omega)

/-- An entry is read off its header and its name. -/
theorem direntAt_congr
    (same : ∀ index, offset ≤ index → index < offset + 8 + nameLen8At buf offset →
    buf' index = buf index) : direntAt buf' offset = direntAt buf offset := by
  have header : ∀ index, offset ≤ index → index < offset + 8 → buf' index = buf index :=
    fun index low high => same index low (by omega)
  obtain ⟨inode, -, nameLen⟩ := fields_congr header
  have name : nameAt buf' offset = nameAt buf offset := by
    rw [nameAt, nameAt, nameLen8At, nameLen]
    exact Bytes.read_congr fun index low high => same index (by omega) high
  rw [direntAt, direntAt, name, inode, nameLen]

/-- Whether a record is sound is read off its header. -/
theorem SoundRecord.congr (sound : SoundRecord buf offset)
    (same : ∀ index, offset ≤ index → index < offset + 8 → buf' index = buf index) :
    SoundRecord buf' offset := by
  obtain ⟨-, recLen, nameLen⟩ := fields_congr same
  refine ⟨?_, ?_, ?_⟩
  · rw [recLen]
    exact sound.long
  · rw [recLen]
    exact sound.aligned
  · rw [nameLen8At, nameLen, recLen]
    exact sound.fits

namespace Spans

/-- A row of records ends behind its start. -/
theorem le (spans : Spans buf start offsets stop) : start ≤ stop := by
  induction spans with
  | nil start => exact Nat.le_refl _
  | cons _ _ inductionHypothesis => omega

/-- Two rows that meet are one row. -/
theorem append (first : Spans buf start before middle) (second : Spans buf middle after stop) :
    Spans buf start (before ++ after) stop := by
  induction first with
  | nil start => exact second
  | cons sound _ inductionHypothesis => exact .cons sound (inductionHypothesis second)

/-- A record in the middle cuts the stretch in three. -/
theorem split (spans : Spans buf start (before ++ offset :: after) stop) :
    Spans buf start before offset ∧ SoundRecord buf offset ∧
      Spans buf (offset + recLenAt buf offset) after stop := by
  induction before generalizing start with
  | nil =>
      cases spans with
      | cons sound rest => exact ⟨.nil _, sound, rest⟩
  | cons first before inductionHypothesis =>
      cases spans with
      | cons sound rest =>
          obtain ⟨ahead, found, behind⟩ := inductionHypothesis rest
          exact ⟨.cons sound ahead, found, behind⟩

/-- Records start at multiples of four. -/
theorem aligned (spans : Spans buf start offsets stop) (even : start % 4 = 0)
    (member : offset ∈ offsets) : offset % 4 = 0 := by
  induction spans with
  | nil start => cases member
  | cons sound _ inductionHypothesis =>
      have step := sound.aligned
      rcases List.mem_cons.mp member with rfl | later
      · exact even
      · exact inductionHypothesis (by omega) later

/-- Each record of a row lies within it and is sound. -/
theorem bounds (spans : Spans buf start offsets stop) (member : offset ∈ offsets) :
    start ≤ offset ∧ offset + recLenAt buf offset ≤ stop ∧ SoundRecord buf offset := by
  obtain ⟨before, after, rfl⟩ := List.append_of_mem member
  obtain ⟨ahead, sound, behind⟩ := spans.split
  exact ⟨ahead.le, behind.le, sound⟩

/-- A buffer with the same bytes there has the same records there. -/
theorem congr (spans : Spans buf start offsets stop)
    (same : ∀ index, start ≤ index → index < stop → buf' index = buf index) :
    Spans buf' start offsets stop := by
  induction spans with
  | nil start => exact .nil start
  | @cons start stop offsets sound rest inductionHypothesis =>
      have long := sound.long
      have ends := rest.le
      have header : ∀ index, start ≤ index → index < start + 8 → buf' index = buf index :=
        fun index low high => same index low (by omega)
      have recLen := (fields_congr header).2.1
      refine .cons (sound.congr header) ?_
      rw [recLen]
      exact inductionHypothesis fun index low high => same index (by omega) high

/-- The live entries of a row depend on its bytes alone. -/
theorem liveOf_congr (spans : Spans buf start offsets stop)
    (same : ∀ index, start ≤ index → index < stop → buf' index = buf index) :
    liveOf buf' offsets = liveOf buf offsets := by
  induction spans with
  | nil start => rfl
  | @cons start stop offsets sound rest inductionHypothesis =>
      have long := sound.long
      have fits := sound.fits
      have ends := rest.le
      have header : ∀ index, start ≤ index → index < start + 8 → buf' index = buf index :=
        fun index low high => same index low (by omega)
      have entry : direntAt buf' start = direntAt buf start :=
        direntAt_congr fun index low high => same index low (by omega)
      rw [liveOf_cons, liveOf_cons, (fields_congr header).1, entry,
        inductionHypothesis fun index low high => same index (by omega) high]

/-- The records of a stretch are the ones the lengths lead to. -/
theorem recordOffsets_eq (spans : Spans buf start offsets bs) {bound : Nat}
    (enough : bs ≤ start + bound) : recordOffsets bs buf bound start = offsets := by
  induction bound generalizing start offsets with
  | zero =>
      cases spans with
      | nil => rfl
      | cons sound rest =>
          have long := sound.long
          have ends := rest.le
          omega
  | succ bound inductionHypothesis =>
      cases spans with
      | nil => simp [recordOffsets]
      | cons sound rest =>
          have long := sound.long
          have ends := rest.le
          rw [recordOffsets, if_pos (by omega), inductionHypothesis rest (by omega)]

/-- A row of records up to the block's end is a chain of the walk. -/
theorem chain (spans : Spans buf start offsets bs) : Chain bs buf start := by
  induction spans with
  | nil start => exact .last
  | cons sound rest inductionHypothesis =>
      have long := sound.long
      have ends := rest.le
      exact .record (by omega) (badRecord_iff_sound.mpr ⟨ends, sound⟩) inductionHypothesis

end Spans

/-- A chain of the walk is a row of records. -/
theorem Chain.spans (chain : Chain bs buf start) : ∃ offsets, Spans buf start offsets bs := by
  induction chain with
  | last => exact ⟨[], .nil _⟩
  | record _ sound _ inductionHypothesis =>
      obtain ⟨offsets, rest⟩ := inductionHypothesis
      exact ⟨_, .cons (badRecord_iff_sound.mp sound).2 rest⟩

/-- Walking a block gives the live entries of its row. -/
theorem Spans.liveFrom_eq (spans : Spans buf 0 offsets bs) :
    liveFrom bs buf bs 0 = liveOf buf offsets := by
  rw [liveFrom, spans.recordOffsets_eq (Nat.le_add_left ..), liveOf]

section Resize

variable {length : Nat}

/-- Storing a halfword changes its own two bytes only. -/
theorem setU16_apply_outside (value : Nat) {index : Nat}
    (apart : index < offset ∨ offset + 2 ≤ index) :
    buf.setU16 offset value index = buf index :=
  Bytes.setU16_apply_of_ne _ _ (by omega) (by omega)

/-- The new record length is read back. -/
theorem recLenAt_resized (short : length < 65536) :
    recLenAt (buf.setU16 (offset + 4) length) offset = length := by
  rw [recLenAt, Bytes.getU16_setU16_same, Nat.mod_eq_of_lt short]

/-- The inode number of a resized record stays. -/
theorem inodeAt_resized : inodeAt (buf.setU16 (offset + 4) length) offset = inodeAt buf offset :=
  Bytes.getU32_congr fun _ _ _ => setU16_apply_outside _ (by omega)

/-- The name length of a resized record stays. -/
theorem nameLenAt_resized : nameLenAt
    (buf.setU16 (offset + 4) length) offset = nameLenAt buf offset :=
  Bytes.getU16_congr fun _ _ _ => setU16_apply_outside _ (by omega)

/-- The length of a record is no part of its entry. -/
theorem direntAt_resized : direntAt
    (buf.setU16 (offset + 4) length) offset = direntAt buf offset := by
  have name : nameAt (buf.setU16 (offset + 4) length) offset = nameAt buf offset := by
    rw [nameAt, nameAt, nameLen8At, nameLenAt_resized]
    exact Bytes.read_congr fun _ _ _ => setU16_apply_outside _ (by omega)
  rw [direntAt, direntAt, name, inodeAt_resized, nameLenAt_resized]

/-- A record gets another length, and what follows starts where it ends then. -/
theorem Spans.resize (ahead : Spans buf start before offset) (short : length < 65536)
    (long : 8 ≤ length) (aligned : length % 4 = 0) (fits : nameLen8At buf offset + 8 ≤ length)
    (behind : Spans buf (offset + length) after stop) :
    Spans (buf.setU16 (offset + 4) length) start (before ++ offset :: after) stop ∧
      liveOf (buf.setU16 (offset + 4) length) (before ++ offset :: after) =
        liveOf buf (before ++ offset :: after) := by
  have earlier : ∀ index, start ≤ index → index < offset →
      buf.setU16 (offset + 4) length index = buf index :=
    fun index _ high => setU16_apply_outside _ (by omega)
  have later : ∀ index, offset + length ≤ index → index < stop →
      buf.setU16 (offset + 4) length index = buf index :=
    fun index low _ => setU16_apply_outside _ (by omega)
  have recLen : recLenAt (buf.setU16 (offset + 4) length) offset = length := recLenAt_resized short
  constructor
  · refine (ahead.congr earlier).append (.cons ⟨?_, ?_, ?_⟩ ?_)
    · rw [recLen]
      exact long
    · rw [recLen]
      exact aligned
    · rw [nameLen8At, nameLenAt_resized, recLen]
      exact fits
    · rw [recLen]
      exact behind.congr later
  · rw [liveOf_append, liveOf_append, liveOf_cons, liveOf_cons, ahead.liveOf_congr earlier,
      behind.liveOf_congr later, inodeAt_resized, direntAt_resized]

end Resize

end Ext2Fuse.DirBlock
