import Mathlib.Data.List.Infix
import Ext2Fuse.Lib.Paging
import Ext2Fuse.Handlers

/-!
# Directory records on the wire

What libfuse writes for a directory entry and how the kernel reads a reply. The
listings are proved over `FuseDir.Protocol`, the part of it both sides agree on;
`wireDir` and `wireParse` are the 64-bit layout of the protocol, a fixed header
before the name and the padding to a multiple of eight, and they keep to it.
-/

namespace Ext2Fuse

open Lib Lib.Paging

/-- What is assumed of libfuse and of the kernel's reading of a reply: a record has the
announced size, and is read back with its name, inode number and offset; a record that
is cut short is ignored. The header holds 64-bit numbers. Empty names are no exception for
`fuse_add_dirent`, though a kernel refuses them. -/
structure FuseDir.Protocol (fuse : FuseDir)
    (parse : List UInt8 → List ((Name × Nat) × Nat)) : Prop where
  direntSize_pos : ∀ length, 0 < fuse.direntSize length
  direntSize_le : ∀ length, fuse.direntSize length ≤ length + 64
  length_addDirent : ∀ name ino offset,
    (fuse.addDirent name ino offset).length = fuse.direntSize name.length
  parse_addDirent : ∀ name ino offset rest, 0 ∉ name → name.length ≤ EXT2_NAME_LEN →
    ino < 2 ^ 32 → offset < 2 ^ 63 →
      parse (fuse.addDirent name ino offset ++ rest) = ((name, ino), offset) :: parse rest
  parse_truncated : ∀ name ino offset count, 0 ∉ name → name.length ≤ EXT2_NAME_LEN →
    ino < 2 ^ 32 → offset < 2 ^ 63 → count < fuse.direntSize name.length →
      parse ((fuse.addDirent name ino offset).take count) = []
  parse_nil : parse [] = []

/-- A directory record as a paging record. -/
def direntCodec (fuse : FuseDir) (parse : List UInt8 → List ((Name × Nat) × Nat)) :
    Codec (Name × Nat) UInt8 where
  size item := fuse.direntSize item.1.length
  encode item offset := fuse.addDirent item.1 item.2 offset
  parse := parse

/-- What a listing shows of an entry. -/
def Dirent.listed (entry : Dirent) : Name × Nat := (entry.name, entry.inode)

/-- Entries as a directory record can hold them: no NUL in the name, at most 255
bytes of it, and a 32-bit inode number. -/
def Listable (entries : List Dirent) : Prop :=
  ∀ entry ∈ entries, 0 ∉ entry.name ∧ entry.name.length ≤ EXT2_NAME_LEN ∧ entry.inode < 2 ^ 32

/-- A protocol that keeps the kernel's promises is a lawful codec for listable entries. -/
theorem FuseDir.Protocol.lawful {fuse : FuseDir} {parse : List UInt8 → List ((Name × Nat) × Nat)}
    (protocol : fuse.Protocol parse) {entries : List Dirent} (listable : Listable entries) :
    (direntCodec fuse parse).Lawful (2 ^ 63 - 1) (entries.map Dirent.listed) where
  size_pos _ _ := protocol.direntSize_pos _
  length_encode _ _ _ := protocol.length_addDirent ..
  parse_encode item member offset bound rest := by
    obtain ⟨entry, inEntries, rfl⟩ := List.mem_map.mp member
    obtain ⟨noNul, short, small⟩ := listable entry inEntries
    exact protocol.parse_addDirent _ _ _ _ noNul short small (by omega)
  parse_partial item member offset bound count cut := by
    obtain ⟨entry, inEntries, rfl⟩ := List.mem_map.mp member
    obtain ⟨noNul, short, small⟩ := listable entry inEntries
    exact protocol.parse_truncated _ _ _ _ noNul short small (by omega) cut
  parse_nil := protocol.parse_nil

section Wire

/-- The `width` low bytes of a number, lowest first. -/
def leBytes : Nat → Nat → List UInt8
  | 0, _ => []
  | width + 1, value => UInt8.ofNat (value % 256) :: leBytes width (value / 256)

/-- The number these bytes stand for. -/
def leValue : List UInt8 → Nat
  | [] => 0
  | byte :: bytes => byte.toNat + 256 * leValue bytes

@[simp] theorem length_leBytes (width value : Nat) : (leBytes width value).length = width := by
  induction width generalizing value with
  | zero => rfl
  | succ width inductionHypothesis => simp [leBytes, inductionHypothesis]

theorem leValue_leBytes {width value : Nat} (fits : value < 256 ^ width) :
    leValue (leBytes width value) = value := by
  induction width generalizing value with
  | zero =>
      have zero : value = 0 := by simpa using fits
      simp [leBytes, leValue, zero]
  | succ width inductionHypothesis =>
      have rest : value / 256 < 256 ^ width := by
        rw [Nat.pow_succ, Nat.mul_comm] at fits
        exact Nat.div_lt_of_lt_mul fits
      simp only [leBytes, leValue, inductionHypothesis rest, UInt8.toNat_ofNat']
      omega

/-- The size of a record: header and name, padded to a multiple of eight. -/
def wireSize (length : Nat) : Nat := (24 + length + 7) / 8 * 8

/-- Header: inode number, offset, name length, type. -/
def wireHeader (name : Name) (ino offset : Nat) : List UInt8 :=
  leBytes 8 ino ++ leBytes 8 offset ++ leBytes 4 name.length ++ leBytes 4 0

/-- The records of the FUSE protocol. -/
def wireDir : FuseDir where
  direntSize := wireSize
  addDirent name ino offset := wireHeader name ino offset ++
    (name ++ List.replicate (wireSize name.length - 24 - name.length) 0)

/-- The loop over the records of a reply. -/
def wireParseLoop : Nat → List UInt8 → List ((Name × Nat) × Nat)
  | 0, _ => []
  | bound + 1, bytes =>
      if bytes.length < 24 then []
      else
        let length := leValue ((bytes.drop 16).take 4)
        if bytes.length < wireSize length then []
        else (((bytes.drop 24).take length, leValue (bytes.take 8)),
          leValue ((bytes.drop 8).take 8)) :: wireParseLoop bound (bytes.drop (wireSize length))

/-- The complete records of a reply. -/
def wireParse (bytes : List UInt8) : List ((Name × Nat) × Nat) :=
  wireParseLoop bytes.length bytes

theorem wireSize_ge (length : Nat) : 24 + length ≤ wireSize length := by
  simp only [wireSize]
  omega

/-- A record is never empty, so the number of bytes bounds the number of turns. -/
theorem wireParseLoop_of_le {bound : Nat} {bytes : List UInt8} (enough : bytes.length ≤ bound) :
    wireParseLoop bound bytes = wireParse bytes := by
  induction bound using Nat.strong_induction_on generalizing bytes with
  | _ bound inductionHypothesis =>
      simp only [wireParse]
      cases bound with
      | zero => rw [Nat.le_zero.mp enough]
      | succ bound =>
          cases empty : bytes.length with
          | zero => simp [wireParseLoop, empty]
          | succ length =>
              have smaller := wireSize_ge (leValue ((bytes.drop 16).take 4))
              simp only [wireParseLoop]
              split
              · rfl
              · split
                · rfl
                · rw [inductionHypothesis bound (by omega) (by simp; omega),
                    inductionHypothesis length (by omega) (by simp; omega)]

@[simp] theorem length_wireHeader (name : Name) (ino offset : Nat) :
    (wireHeader name ino offset).length = 24 := by
  simp [wireHeader]

theorem length_wireDir (name : Name) (ino offset : Nat) :
    (wireDir.addDirent name ino offset).length = wireSize name.length := by
  have := wireSize_ge name.length
  simp [wireDir]
  omega

section Fields

variable {name : Name} {ino offset : Nat} (rest : List UInt8)

theorem take_ino (small : ino < 2 ^ 64) :
    leValue ((wireHeader name ino offset ++ rest).take 8) = ino := by
  have field : (wireHeader name ino offset ++ rest).take 8 = leBytes 8 ino := by
    simp [wireHeader]
  rw [field, leValue_leBytes (by omega)]

theorem take_offset (small : offset < 2 ^ 64) :
    leValue (((wireHeader name ino offset ++ rest).drop 8).take 8) = offset := by
  have field : ((wireHeader name ino offset ++ rest).drop 8).take 8 = leBytes 8 offset := by
    simp [wireHeader]
  rw [field, leValue_leBytes (by omega)]

theorem take_length (short : name.length < 2 ^ 32) :
    leValue (((wireHeader name ino offset ++ rest).drop 16).take 4) = name.length := by
  have field : ((wireHeader name ino offset ++ rest).drop 16).take 4 = leBytes 4 name.length := by
    simp [wireHeader, List.drop_append, List.drop_of_length_le]
  rw [field, leValue_leBytes (by omega)]

end Fields

/-- The wire format keeps to the protocol. -/
theorem wireDir_protocol : wireDir.Protocol wireParse where
  direntSize_pos length := Nat.lt_of_lt_of_le (by omega) (wireSize_ge length)
  direntSize_le length := by
    simp only [wireDir, wireSize]
    omega
  length_addDirent := length_wireDir
  parse_addDirent name ino offset rest _ short smallIno smallOffset := by
    have long := wireSize_ge name.length
    have size := length_wireDir name ino offset
    have brief : name.length < 2 ^ 32 := Nat.lt_of_le_of_lt short (by decide)
    have total : (wireDir.addDirent name ino offset ++ rest).length =
        wireSize name.length + rest.length := by simp [size]
    have body : wireDir.addDirent name ino offset ++ rest = wireHeader name ino offset ++
        (name ++ (List.replicate (wireSize name.length - 24 - name.length) 0 ++ rest)) := by
      simp [wireDir]
    have nameField : ((wireDir.addDirent name ino offset ++ rest).drop 24).take name.length =
        name := by
      rw [body, List.drop_append_of_le_length (by simp),
        List.drop_of_length_le (by simp), List.nil_append, List.take_left]
    have after : (wireDir.addDirent name ino offset ++ rest).drop
      (wireSize name.length) = rest := by
      rw [← size, List.drop_left]
    rw [wireParse, total, show wireSize name.length + rest.length =
      (wireSize name.length + rest.length - 1) + 1 by omega, wireParseLoop]
    have lengthField : leValue (((wireDir.addDirent name ino offset ++ rest).drop 16).take 4) =
        name.length := by rw [body, take_length _ brief]
    simp only [lengthField, total, nameField, after]
    rw [if_neg (by omega), if_neg (by omega), wireParseLoop_of_le (by omega), body,
      take_ino _ (by omega), take_offset _ (by omega)]
  parse_truncated name ino offset count _ short _ _ cut := by
    have size := length_wireDir name ino offset
    have brief : name.length < 2 ^ 32 := Nat.lt_of_le_of_lt short (by decide)
    have length : ((wireDir.addDirent name ino offset).take count).length = count := by
      rw [List.length_take, size]
      exact Nat.min_eq_left (Nat.le_of_lt cut)
    rw [wireParse, length]
    cases count with
    | zero => rfl
    | succ count =>
        simp only [wireParseLoop, length]
        split
        · rfl
        · rename_i header
          -- the header is complete, so the announced size is the right one
          have lengthField : leValue
              ((((wireDir.addDirent name ino offset).take (count + 1)).drop 16).take 4) =
              name.length := by
            have whole : wireHeader name ino offset =
                (wireHeader name ino offset).take (count + 1) := by
              rw [List.take_of_length_le (by simp; omega)]
            simp only [wireDir]
            rw [List.take_append, ← whole, take_length _ brief]
          rw [lengthField]
          exact if_pos cut
  parse_nil := rfl

end Wire

end Ext2Fuse
