import Ext2Fuse.Lib.Bytes

/-!
# What a file is for

A file is a sequence of bytes of a length: it is read at an offset, written at an offset, behind
its end with zeros in between, and cut or filled up to a length. `Shows` says that a stretch of
bytes begins with such a sequence.
-/

namespace Ext2Fuse.Lib

namespace Contents

/-- Zeros up to a length. -/
def fillTo (bytes : List UInt8) (length : Nat) : List UInt8 :=
  bytes ++ List.replicate (length - bytes.length) 0

/-- Cut, or filled up with zeros. -/
def resize (bytes : List UInt8) (length : Nat) : List UInt8 := (fillTo bytes length).take length

/-- Overwrite from an offset on, with zeros before it where there was nothing. -/
def writeAt (bytes : List UInt8) (offset : Nat) (data : List UInt8) : List UInt8 :=
  (fillTo bytes offset).take offset ++ data ++ bytes.drop (offset + data.length)

/-- As many bytes from an offset on as there are. -/
def readAt (bytes : List UInt8) (offset count : Nat) : List UInt8 := (bytes.drop offset).take count

section Lengths

variable (bytes data : List UInt8) (offset length : Nat)

@[simp] theorem length_fillTo : (fillTo bytes length).length = max bytes.length length := by
  rw [fillTo, List.length_append, List.length_replicate]
  omega

@[simp] theorem length_resize : (resize bytes length).length = length := by
  rw [resize, List.length_take, length_fillTo]
  omega

@[simp] theorem length_writeAt :
    (writeAt bytes offset data).length = max bytes.length (offset + data.length) := by
  simp only [writeAt, List.length_append, List.length_take, length_fillTo, List.length_drop]
  omega

variable {bytes data offset length}

/-- A content that is long enough already is not filled. -/
theorem fillTo_of_le (short : length ≤ bytes.length) : fillTo bytes length = bytes := by
  rw [fillTo, Nat.sub_eq_zero_of_le short]
  simp

/-- Resizing to a smaller length cuts the end off. -/
theorem resize_of_le (short : length ≤ bytes.length) : resize bytes length = bytes.take length := by
  rw [resize, fillTo_of_le short]

/-- Resizing to a larger length fills with zeros. -/
theorem resize_of_ge (long : bytes.length ≤ length) :
    resize bytes length = fillTo bytes length := by
  rw [resize, List.take_of_length_le]
  rw [length_fillTo]
  omega

/-- Writing behind the end is writing at the end of the filled sequence. -/
theorem writeAt_fillTo (beyond : bytes.length ≤ offset) :
    writeAt (fillTo bytes offset) offset data = writeAt bytes offset data := by
  have twice : fillTo (fillTo bytes offset) offset = fillTo bytes offset :=
    fillTo_of_le (by rw [length_fillTo]; omega)
  have rest : (fillTo bytes offset).drop (offset + data.length) =
    bytes.drop (offset + data.length) := by
    have short : (fillTo bytes offset).length ≤ offset + data.length := by
      rw [length_fillTo]
      omega
    rw [List.drop_of_length_le short, List.drop_of_length_le (by omega)]
  rw [writeAt, twice, rest, writeAt]

end Lengths

/-- The stretch begins with the sequence. -/
def Shows (view : Bytes) (bytes : List UInt8) : Prop := view.read 0 bytes.length = bytes

section Shows

variable {view view' : Bytes} {bytes data : List UInt8} {offset count length : Nat}

/-- A view shows a content when it gives each of the content's bytes. -/
theorem shows_iff : Shows view bytes ↔
    ∀ index (inside : index < bytes.length), view index = bytes[index] := by
  constructor
  · intro shows index inside
    have here := List.getElem_of_eq shows (by rwa [Bytes.length_read])
    rw [Bytes.getElem_read, Nat.zero_add] at here
    exact here
  · intro same
    apply List.ext_getElem
    · rw [Bytes.length_read]
    · intro index _ inside
      rw [Bytes.getElem_read, Nat.zero_add]
      exact same index inside

/-- A view shows what is read of it from the front. -/
theorem shows_read (view : Bytes) (length : Nat) : Shows view (view.read 0 length) := by
  rw [Shows, Bytes.length_read]

/-- Only the bytes within the content's length matter. -/
theorem Shows.congr (shows : Shows view bytes)
    (same : ∀ index < bytes.length, view' index = view index) :
    Shows view' bytes := by
  rw [Shows, Bytes.read_congr fun index _ inside => same index (by omega)]
  exact shows

/-- Reading. -/
theorem Shows.read (shows : Shows view bytes) :
    view.read offset (min count (bytes.length - offset)) = readAt bytes offset count := by
  rw [shows_iff] at shows
  apply List.ext_getElem
  · rw [Bytes.length_read, readAt, List.length_take, List.length_drop]
  · intro index bound _
    rw [Bytes.length_read] at bound
    rw [Bytes.getElem_read, shows (offset + index) (by omega)]
    simp only [readAt, List.getElem_take, List.getElem_drop]

/-- Writing, where there is no gap before the data. -/
theorem Shows.write (shows : Shows view bytes) (noGap : offset ≤ bytes.length) :
    Shows (view.write offset data) (writeAt bytes offset data) := by
  rw [shows_iff] at shows ⊢
  intro index inside
  rw [length_writeAt] at inside
  have front : ((fillTo bytes offset).take offset).length = offset := by
    rw [List.length_take, length_fillTo]
    omega
  simp only [writeAt, List.append_assoc, List.getElem_append, front]
  by_cases before : index < offset
  · rw [dif_pos before, Bytes.write_apply_outside _ (.inl before), shows index (by omega)]
    simp only [fillTo_of_le noGap, List.getElem_take]
  · rw [dif_neg before]
    by_cases inData : index < offset + data.length
    · rw [dif_pos (by omega), Bytes.write_apply_inside _ (by omega) inData, List.getD,
        List.getElem?_eq_getElem (by omega)]
      rfl
    · rw [dif_neg (by omega), Bytes.write_apply_outside _ (by omega), shows index (by omega)]
      rw [List.getElem_drop]
      congr 1
      omega

/-- Filling up with zeros. -/
theorem Shows.fill (shows : Shows view bytes) :
    Shows (view.write bytes.length (List.replicate (length - bytes.length) 0))
      (fillTo bytes length) := by
  have filled := @Shows.write view bytes (List.replicate (length - bytes.length) 0)
    bytes.length shows le_rfl
  have same : writeAt bytes bytes.length (List.replicate (length - bytes.length) 0) =
    fillTo bytes length := by
    rw [writeAt, fillTo_of_le le_rfl, List.take_length, List.drop_of_length_le (by omega),
      List.append_nil, fillTo]
  rwa [same] at filled

/-- Cutting. -/
theorem Shows.take (shows : Shows view bytes) (length : Nat) : Shows view (bytes.take length) := by
  rw [shows_iff] at shows ⊢
  intro index inside
  rw [List.length_take] at inside
  rw [shows index (by omega), List.getElem_take]

end Shows

end Contents

end Ext2Fuse.Lib
