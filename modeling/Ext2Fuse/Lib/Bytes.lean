import Mathlib.Logic.Function.Basic
import Mathlib.Tactic.Ring

/-!
# Byte buffers with little-endian fields

A buffer is a total map from offsets to bytes; the 16- and 32-bit fields kept in
it are read and written in little-endian order. The lemmas say that a field reads
back what was written to it and is untouched by a write that does not overlap it.
-/

namespace Ext2Fuse.Lib

/-- The bytes of a buffer, by offset. -/
abbrev Bytes := Nat → UInt8

namespace Bytes

/-- The 16-bit field at `offset`. -/
def getU16 (bytes : Bytes) (offset : Nat) : Nat :=
  (bytes offset).toNat + 256 * (bytes (offset + 1)).toNat

/-- The 32-bit field at `offset`. -/
def getU32 (bytes : Bytes) (offset : Nat) : Nat :=
  getU16 bytes offset + 65536 * getU16 bytes (offset + 2)

/-- Store the low 16 bits of `value` at `offset`. -/
def setU16 (bytes : Bytes) (offset value : Nat) : Bytes := fun index =>
  if index = offset then UInt8.ofNat value
  else if index = offset + 1 then UInt8.ofNat (value / 256)
  else bytes index

/-- Store the low 32 bits of `value` at `offset`. -/
def setU32 (bytes : Bytes) (offset value : Nat) : Bytes :=
  setU16 (setU16 bytes offset value) (offset + 2) (value / 65536)

/-- Overwrite the bytes from `offset` on with `data`. -/
def write (bytes : Bytes) (offset : Nat) (data : List UInt8) : Bytes := fun index =>
  if offset ≤ index then (data[index - offset]?).getD (bytes index) else bytes index

/-- The `count` bytes from `offset` on. -/
def read (bytes : Bytes) (offset count : Nat) : List UInt8 :=
  (List.range count).map fun index => bytes (offset + index)

/-- A byte made of a number holds the number's lowest eight bits. -/
theorem toNat_ofNat_mod (value : Nat) : (UInt8.ofNat value).toNat = value % 256 := by
  simp

@[simp] theorem getU16_setU16_same (bytes : Bytes) (offset value : Nat) :
    getU16 (setU16 bytes offset value) offset = value % 65536 := by
  simp only [getU16, setU16, if_true, toNat_ofNat_mod]
  have distinct : ¬ offset + 1 = offset := by omega
  simp only [distinct, if_false, toNat_ofNat_mod]
  omega

/-- Storing a halfword changes its own two bytes only. -/
theorem setU16_apply_of_ne (bytes : Bytes) {offset index : Nat} (value : Nat)
    (below : index ≠ offset) (above : index ≠ offset + 1) :
    setU16 bytes offset value index = bytes index := by
  simp [setU16, below, above]

/-- A halfword is read as before when another one is stored beside it. -/
theorem getU16_setU16_of_disjoint (bytes : Bytes) {offset other : Nat} (value : Nat)
    (apart : offset + 2 ≤ other ∨ other + 2 ≤ offset) :
    getU16 (setU16 bytes offset value) other = getU16 bytes other := by
  simp only [getU16]
  rw [setU16_apply_of_ne _ _ (by omega) (by omega), setU16_apply_of_ne _ _ (by omega) (by omega)]

/-- What a halfword is read as fits sixteen bits. -/
theorem getU16_lt (bytes : Bytes) (offset : Nat) : getU16 bytes offset < 65536 := by
  have low := (bytes offset).toNat_lt
  have high := (bytes (offset + 1)).toNat_lt
  simp only [getU16]
  omega

/-- What a word is read as fits thirty-two bits. -/
theorem getU32_lt (bytes : Bytes) (offset : Nat) : getU32 bytes offset < 2 ^ 32 := by
  have low := getU16_lt bytes offset
  have high := getU16_lt bytes (offset + 2)
  simp only [getU32]
  omega

@[simp] theorem getU32_setU32_same (bytes : Bytes) (offset value : Nat) :
    getU32 (setU32 bytes offset value) offset = value % 2 ^ 32 := by
  simp only [getU32, setU32]
  rw [getU16_setU16_of_disjoint _ _ (Or.inr (by omega)), getU16_setU16_same, getU16_setU16_same]
  omega

/-- Storing a word changes its own four bytes only. -/
theorem setU32_apply_of_disjoint (bytes : Bytes) {offset index : Nat} (value : Nat)
    (apart : index < offset ∨ offset + 4 ≤ index) :
    setU32 bytes offset value index = bytes index := by
  simp only [setU32]
  rw [setU16_apply_of_ne _ _ (by omega) (by omega), setU16_apply_of_ne _ _ (by omega) (by omega)]

/-- A halfword depends on its two bytes alone. -/
theorem getU16_congr {bytes bytes' : Bytes} {offset : Nat}
    (same : ∀ index, offset ≤ index → index < offset + 2 → bytes' index = bytes index) :
    getU16 bytes' offset = getU16 bytes offset := by
  simp only [getU16]
  rw [same offset (by omega) (by omega), same (offset + 1) (by omega) (by omega)]

/-- A word depends on its four bytes alone. -/
theorem getU32_congr {bytes bytes' : Bytes} {offset : Nat}
    (same : ∀ index, offset ≤ index → index < offset + 4 → bytes' index = bytes index) :
    getU32 bytes' offset = getU32 bytes offset := by
  simp only [getU32]
  rw [getU16_congr fun index low high => same index (by omega) (by omega),
    getU16_congr fun index low high => same index (by omega) (by omega)]

/-- A word is read as before when another one is stored beside it. -/
theorem getU32_setU32_of_disjoint (bytes : Bytes) {offset other : Nat} (value : Nat)
    (apart : offset + 4 ≤ other ∨ other + 4 ≤ offset) :
    getU32 (setU32 bytes offset value) other = getU32 bytes other :=
  getU32_congr fun _ _ _ => setU32_apply_of_disjoint _ _ (by omega)

/-- Inside the written range the bytes are those of the data. -/
theorem write_apply_inside (bytes : Bytes) {offset index : Nat} {data : List UInt8}
    (low : offset ≤ index) (high : index < offset + data.length) :
    write bytes offset data index = data.getD (index - offset) 0 := by
  have inside : index - offset < data.length := by omega
  simp [write, low, inside, List.getD]

/-- Outside of the written range nothing changes. -/
theorem write_apply_outside (bytes : Bytes) {offset index : Nat} {data : List UInt8}
    (apart : index < offset ∨ offset + data.length ≤ index) :
    write bytes offset data index = bytes index := by
  simp only [write]
  split
  · rw [List.getElem?_eq_none (by omega)]
    rfl
  · rfl

@[simp] theorem write_nil (bytes : Bytes) (offset : Nat) : write bytes offset [] = bytes := by
  funext index
  exact write_apply_outside _ (by simp only [List.length_nil]; omega)

/-- Two pieces, one behind the other. -/
theorem write_append (bytes : Bytes) (offset : Nat) (first second : List UInt8) :
    write (write bytes offset first) (offset + first.length) second = write bytes offset
      (first ++ second) := by
  funext index
  have total : (first ++ second).length = first.length + second.length := List.length_append
  by_cases inSecond : offset + first.length ≤ index ∧ index < offset + first.length + second.length
  · rw [write_apply_inside _ inSecond.1 inSecond.2,
      write_apply_inside _ (by omega) (by omega), List.getD,
      List.getD, List.getElem?_append_right (by omega)]
    congr 2
    omega
  · rw [write_apply_outside _ (by omega)]
    by_cases inFirst : offset ≤ index ∧ index < offset + first.length
    · rw [write_apply_inside _ inFirst.1 inFirst.2,
        write_apply_inside _ inFirst.1 (by omega), List.getD,
        List.getD, List.getElem?_append_left (by omega)]
    · rw [write_apply_outside _ (by omega), write_apply_outside _ (by omega)]

/-- What is written depends on the bytes around it alone. -/
theorem write_congr {bytes bytes' : Bytes} {index : Nat}
    (same : bytes' index = bytes index) (offset : Nat)
    (data : List UInt8) : write bytes' offset data index = write bytes offset data index := by
  simp only [write, same]

@[simp] theorem length_read (bytes : Bytes) (offset count : Nat) :
    (read bytes offset count).length = count := by
  simp [read]

@[simp] theorem getElem_read (bytes : Bytes) (offset count index : Nat)
    (bound : index < (read bytes offset count).length) :
    (read bytes offset count)[index] = bytes (offset + index) := by
  simp [read]

/-- What is read depends on the bytes of the range alone. -/
theorem read_congr {bytes bytes' : Bytes} {offset count : Nat}
    (same : ∀ index, offset ≤ index → index < offset + count → bytes' index = bytes index) :
    read bytes' offset count = read bytes offset count := by
  apply List.map_congr_left
  intro index inRange
  have bound := List.mem_range.mp inRange
  exact same _ (by omega) (by omega)

/-- A read in two pieces gives what one read gives. -/
theorem read_add (bytes : Bytes) (offset first second : Nat) :
    read bytes offset (first + second) = read bytes offset first ++ read bytes
      (offset + first) second := by
  apply List.ext_getElem
  · simp
  · intro index _ _
    rw [getElem_read, List.getElem_append]
    split
    · rw [getElem_read]
    · rename_i beyond
      rw [length_read] at beyond
      rw [getElem_read, length_read]
      congr 1
      omega

/-- Reading back exactly what was written. -/
@[simp] theorem read_write_same (bytes : Bytes) (offset : Nat) (data : List UInt8) :
    read (write bytes offset data) offset data.length = data := by
  apply List.ext_getElem
  · simp
  · intro index _ inside
    rw [getElem_read, write_apply_inside _ (by omega) (by omega)]
    simp [inside]

/-- Copying from one buffer to another, inside of what is copied. -/
theorem write_read_inside (bytes buf : Bytes) {offset cp count index : Nat} (low : offset ≤ index)
    (high : index < offset + count) : write bytes offset (read buf cp count) index = buf
    (cp + (index - offset)) := by
  have inside : index - offset < (read buf cp count).length := by
    rw [length_read]
    omega
  rw [write_apply_inside _ low (by rw [length_read]; exact high), List.getD,
    List.getElem?_eq_getElem inside, Option.getD_some, getElem_read]

end Bytes

end Ext2Fuse.Lib
