import Ext2Fuse.Filesystem

/-!
# Directories as blocks of records

The directory primitives over the bytes of directory blocks: `dir_iterate.c`,
`dirblock.c`, `link.c`, `unlink.c`, `lookup.c` and `newdir.c`. A directory is the list
of its data blocks; a record is addressed by its offset in the iterator's buffer, as
the C code addresses it through a pointer.
-/

namespace Ext2Fuse

open Lib

namespace DirBlock

/-- `dirent->inode` of the record at `offset`. -/
def inodeAt (buf : Block) (offset : Nat) : Nat := buf.getU32 offset

/-- `dirent->rec_len`. -/
def recLenAt (buf : Block) (offset : Nat) : Nat := buf.getU16 (offset + 4)

/-- `dirent->name_len`, with the file type in its high byte. -/
def nameLenAt (buf : Block) (offset : Nat) : Nat := buf.getU16 (offset + 6)

/-- `dirent->name_len & 0xFF` -/
def nameLen8At (buf : Block) (offset : Nat) : Nat := nameLenAt buf offset % 256

/-- The bytes of `dirent->name` the 8-bit length covers. -/
def nameAt (buf : Block) (offset : Nat) : Name := buf.read (offset + 8) (nameLen8At buf offset)

/-- The record at `offset` as an entry. -/
def direntAt (buf : Block) (offset : Nat) : Dirent where
  name := nameAt buf offset
  inode := inodeAt buf offset
  fileType := nameLenAt buf offset / 256

/-- `EXT2_DIR_REC_LEN`. -/
def EXT2_DIR_REC_LEN (nameLen : Nat) : Nat := (nameLen + 11) / 4 * 4

/-- The flag word of a directory callback. -/
structure DirentFlags where
  changed : Bool := false
  abort : Bool := false
deriving DecidableEq

/-- A callback gets the buffer, the offset of the record and its private data. -/
abbrev DirFunc (ρ : Type) := Block → Nat → ρ → DirentFlags × Block × ρ

/-- The sanity test of `ext2fs_process_dir_block` on the record at `offset`. -/
def badRecord (bs : Nat) (buf : Block) (offset : Nat) : Bool :=
  decide (offset + recLenAt buf offset > bs) || decide (recLenAt buf offset < 8) ||
    decide (recLenAt buf offset % 4 ≠ 0) ||
    decide (nameLen8At buf offset + 8 > recLenAt buf offset)

/-- The sanity loop of `ext2fs_read_dir_block2` from `offset` on. -/
def readDirBlockBad (bs : Nat) (buf : Block) : Nat → Nat → Bool
  | 0, _ => false
  | bound + 1, offset =>
      if offset + 8 < bs then
        let recLen := recLenAt buf offset
        let odd := decide (recLen < 8) || decide (recLen % 4 ≠ 0)
        odd || decide (nameLen8At buf offset + 8 > recLen) ||
          readDirBlockBad bs buf bound (offset + if odd then 8 else recLen)
      else false

/-- What the record loop of one block has done: the error, whether a callback
changed the buffer, whether one aborted, the buffer and the private data. -/
structure BlockWalk (ρ : Type) where
  errcode : Errcode := 0
  changed : Bool := false
  abort : Bool := false
  buf : Block
  priv : ρ

/-- The record loop of `ext2fs_process_dir_block`. The length by which it advances is
read after the callback, which may have changed it. -/
def walkRecords {ρ : Type} (bs : Nat) (includeEmpty : Bool) (func : DirFunc ρ) :
    Nat → Nat → BlockWalk ρ → BlockWalk ρ
  | 0, _, walk => walk
  | bound + 1, offset, walk =>
      if offset < bs then
        if badRecord bs walk.buf offset then
          { walk with errcode := EXT2_ET_DIR_CORRUPTED, abort := true }
        else if inodeAt walk.buf offset = 0 && !includeEmpty then
          walkRecords bs includeEmpty func bound (offset + recLenAt walk.buf offset) walk
        else
          let (flags, buf, priv) := func walk.buf offset walk.priv
          let walk := { walk with
            changed := walk.changed || flags.changed, buf := buf, priv := priv }
          if flags.abort then { walk with abort := true }
          else walkRecords bs includeEmpty func bound (offset + recLenAt buf offset) walk
      else walk

/-- `ext2fs_process_dir_block` on one block: the error, whether to stop, the block as
it is on disk afterwards, and the private data. An error in a record leaves the block
unwritten. -/
def processDirBlock {ρ : Type} (bs : Nat) (includeEmpty : Bool) (func : DirFunc ρ)
    (block : Block) (priv : ρ) : Errcode × Bool × Block × ρ :=
  if readDirBlockBad bs block bs 0 then (EXT2_ET_DIR_CORRUPTED, true, block, priv)
  else
    let walk := walkRecords bs includeEmpty func bs 0 { buf := block, priv := priv }
    (walk.errcode, walk.abort,
      if walk.errcode = 0 && walk.changed then walk.buf else block, walk.priv)

/-- `ext2fs_dir_iterate` over the blocks of a directory. -/
def dirIterate {ρ : Type} (bs : Nat) (includeEmpty : Bool) (func : DirFunc ρ) :
    List Block → ρ → Errcode × List Block × ρ
  | [], priv => (0, [], priv)
  | block :: blocks, priv =>
      match processDirBlock bs includeEmpty func block priv with
      | (errcode, true, block, priv) => (errcode, block :: blocks, priv)
      | (_, false, block, priv) =>
          let (errcode, blocks, priv) := dirIterate bs includeEmpty func blocks priv
          (errcode, block :: blocks, priv)

/-- A callback that only looks: collect the entry. -/
def collectProc : DirFunc (List Dirent) := fun buf offset entries =>
  ({}, buf, entries ++ [direntAt buf offset])

/-- `lookup_proc`. -/
def lookupProc (name : Name) : DirFunc (Option Nat) := fun buf offset found =>
  if nameLen8At buf offset = name.length ∧ nameAt buf offset = name then
    ({ abort := true }, buf, some (inodeAt buf offset))
  else ({}, buf, found)

/-- `link_proc`. Private data: whether the entry has been placed. -/
def linkProc (bs : Nat) (name : Name) (ino fileType : Nat) : DirFunc Bool := fun buf offset done =>
  let recLen := EXT2_DIR_REC_LEN name.length
  let next := offset + recLenAt buf offset
  -- absorb a free record that follows
  let merge := decide (next < bs - 8) && decide (inodeAt buf next = 0) &&
    decide (next + recLenAt buf next ≤ bs)
  let buf := if merge then buf.setU16 (offset + 4)
    (recLenAt buf offset + recLenAt buf next) else buf
  if inodeAt buf offset ≠ 0 then
    let minRecLen := EXT2_DIR_REC_LEN (nameLen8At buf offset)
    if recLenAt buf offset < minRecLen + recLen then ({ changed := merge }, buf, done)
    else
      -- split off the slack of a live record; the next turn fills it
      let rest := recLenAt buf offset - minRecLen
      let buf := buf.setU16 (offset + 4) minRecLen
      let next := offset + minRecLen
      let buf := ((buf.setU32 next 0).setU16 (next + 6) 0).setU16 (next + 4) rest
      ({ changed := true }, buf, done)
  else if recLenAt buf offset < recLen then ({ changed := merge }, buf, done)
  else
    let buf := buf.setU32 offset ino
    let buf := buf.setU16 (offset + 6) (name.length ||| fileType <<< 8)
    let buf := buf.write (offset + 8) name
    ({ changed := true, abort := true }, buf, true)

/-- `unlink_proc`. Private data: the offset of the previous record, kept across
blocks as the C code keeps its address, and whether an entry has been removed. -/
def unlinkProc (name : Name) (ino : Nat) : DirFunc (Option Nat × Bool) := fun buf offset ls =>
  let (prev, done) := ls
  let ls := (some offset, done)
  if ¬ (nameLen8At buf offset = name.length ∧ nameAt buf offset = name) then ({}, buf, ls)
  else if (if ino = 0 then inodeAt buf offset = 0 else inodeAt buf offset ≠ ino) then
    ({}, buf, ls)
  else
    let buf := match prev with
      | some prev => buf.setU16 (prev + 4) (recLenAt buf prev + recLenAt buf offset)
      | none => buf.setU32 offset 0
    ({ changed := true, abort := true }, buf, (some offset, true))

/-- `ext2fs_new_dir_block` with no inode: one free record over the whole block. -/
def emptyBlock (bs : Nat) : Block := Bytes.setU16 (fun _ => 0) 4 bs

/-- `ext2fs_new_dir_block`: `.` and `..`. -/
def newDirBlock (bs ino parent fileType : Nat) : Block :=
  let buf := ((emptyBlock bs).setU32 0 ino).setU16 6 (1 ||| fileType <<< 8)
  let buf := buf.write 8 dotName
  let buf := buf.setU16 4 (EXT2_DIR_REC_LEN 1)
  let buf := (buf.setU16 (12 + 4) (bs - EXT2_DIR_REC_LEN 1)).setU32 12 parent
  (buf.setU16 (12 + 6) (2 ||| fileType <<< 8)).write (12 + 8) dotDotName

/-- The directory primitives over blocks of `bs` bytes. -/
def dirLib (bs : Nat) : DirLib (List Block) where
  entries blocks := (dirIterate bs false collectProc blocks []).2.2
  iterate blocks :=
    let (errcode, _, entries) := dirIterate bs false collectProc blocks []
    (errcode, entries)
  lookup blocks name :=
    match dirIterate bs false (lookupProc name) blocks none with
    | (0, _, some ino) => .ok ino
    | (0, _, none) => .error EXT2_ET_FILE_NOT_FOUND
    | (errcode, _, _) => .error errcode
  link blocks name ino fileType :=
    match dirIterate bs true (linkProc bs name ino fileType) blocks false with
    | (0, blocks, true) => (0, blocks)
    | (0, blocks, false) => (EXT2_ET_DIR_NO_SPACE, blocks)
    | (errcode, blocks, _) => (errcode, blocks)
  unlink blocks name ino :=
    match dirIterate bs true (unlinkProc name ino) blocks (none, false) with
    | (0, blocks, _, true) => (0, blocks)
    | (0, blocks, _, false) => (EXT2_ET_DIR_NO_SPACE, blocks)
    | (errcode, blocks, _) => (errcode, blocks)
  expand blocks := blocks ++ [emptyBlock bs]
  newDirBlock ino parent fileType := [newDirBlock bs ino parent fileType]

end DirBlock

end Ext2Fuse
