import Ext2Fuse.Filesystem

/-!
# File handles

`fileio.c`: an open file keeps its own copy of the inode and one block buffer. A
write only fills the buffer; the block behind it is allocated and written when the
position leaves the block, or at a flush. The loops carry a bound on their number of
iterations, which the callers set to the number of bytes: every iteration moves at
least one.
-/

namespace Ext2Fuse

open Lib Volume

/-- `struct ext2_file`. The three flag bits are separate fields. -/
structure File where
  ino : Nat
  inode : Inode
  /-- `EXT2_FILE_WRITE` -/
  writable : Bool
  /-- `EXT2_FILE_BUF_VALID` -/
  bufValid : Bool := false
  /-- `EXT2_FILE_BUF_DIRTY` -/
  bufDirty : Bool := false
  pos : Nat := 0
  blockno : Nat := 0
  physblock : Nat := 0
  buf : Block := fun _ => 0

namespace Fs

variable {δ : Type}

/-- `ext2fs_file_open` on a filesystem mounted read-write. -/
def ext2fsFileOpen (fs : Fs δ) (ino : Nat) (writable : Bool) : Except Errcode File :=
  match fs.ext2fsReadInode ino with
  | .error rc => .error rc
  | .ok inode => .ok { ino := ino, inode := inode, writable := writable }

/-- `ext2fs_file_flush`: write a dirty buffer out, allocating its block first if
there is none yet. -/
def ext2fsFileFlush (fs : Fs δ) (file : File) : Errcode × File × Fs δ :=
  if !file.bufValid || !file.bufDirty then (0, file, fs)
  else if file.physblock = 0 then
    match fs.ext2fsBmap file.ino file.inode (file.ino != 0) file.blockno with
    | (.error rc, inode, fs) => (rc, { file with inode := inode, physblock := 0 }, fs)
    | (.ok blk, inode, fs) =>
        (0, { file with inode := inode, physblock := blk, bufDirty := false },
          { fs with vol := fs.vol.writeBlk blk file.buf })
  else
    (0, { file with bufDirty := false },
      { fs with vol := fs.vol.writeBlk file.physblock file.buf })

/-- `sync_buffer_position`: when the position has left the buffered block, flush the
buffer and forget it. -/
def syncBufferPosition (fs : Fs δ) (file : File) : Errcode × File × Fs δ :=
  let b := file.pos / fs.blocksize
  if b ≠ file.blockno then
    match fs.ext2fsFileFlush file with
    | (0, file, fs) => (0, { file with bufValid := false, blockno := b }, fs)
    | (rc, file, fs) => (rc, file, fs)
  else (0, file, fs)

/-- `load_buffer`: fill the buffer from the block it stands for, or with zeros when
the block is a hole; `dontfill` leaves the contents to the caller. -/
def loadBuffer (fs : Fs δ) (file : File) (dontfill : Bool) : Errcode × File × Fs δ :=
  if file.bufValid then (0, file, fs)
  else
    match fs.ext2fsBmap file.ino file.inode false file.blockno with
    | (.error rc, inode, fs) => (rc, { file with inode := inode, physblock := 0 }, fs)
    | (.ok blk, inode, fs) =>
        let buf := if dontfill then file.buf
          else if blk = 0 then fun _ => 0
          else fs.vol.io blk
        (0, { file with inode := inode, physblock := blk, buf := buf, bufValid := true }, fs)

/-- The loop of `ext2fs_file_read`; `got` is what has been copied so far. -/
def fileReadLoop : Nat → Fs δ → File → Nat → List UInt8 → Errcode × List UInt8 × File × Fs δ
  | 0, fs, file, _, got => (0, got, file, fs)
  | bound + 1, fs, file, wanted, got =>
      if file.pos < file.inode.ext2ISize ∧ 0 < wanted then
        match fs.syncBufferPosition file with
        | (0, file, fs) =>
            match fs.loadBuffer file false with
            | (0, file, fs) =>
                let start := file.pos % fs.blocksize
                let c := min (min (fs.blocksize - start) wanted) (file.inode.ext2ISize - file.pos)
                fileReadLoop bound fs { file with pos := file.pos + c } (wanted - c)
                  (got ++ file.buf.read start c)
            | (rc, file, fs) => (rc, got, file, fs)
        | (rc, file, fs) => (rc, got, file, fs)
      else (0, got, file, fs)

/-- `ext2fs_file_read`. -/
def ext2fsFileRead (fs : Fs δ) (file : File) (wanted : Nat) :
    Errcode × List UInt8 × File × Fs δ :=
  fs.fileReadLoop wanted file wanted []

/-- The loop of `ext2fs_file_write`; `count` is the number of bytes taken so far. -/
def fileWriteLoop : Nat → Fs δ → File → List UInt8 → Nat → Errcode × Nat × File × Fs δ
  | 0, fs, file, _, count => (0, count, file, fs)
  | bound + 1, fs, file, data, count =>
      if data = [] then (0, count, file, fs)
      else
        match fs.syncBufferPosition file with
        | (0, file, fs) =>
            let start := file.pos % fs.blocksize
            let c := min (fs.blocksize - start) data.length
            match fs.loadBuffer file (c == fs.blocksize) with
            | (0, file, fs) =>
                fileWriteLoop bound fs
                  { file with
                    bufDirty := true
                    buf := file.buf.write start (data.take c)
                    pos := file.pos + c }
                  (data.drop c) (count + c)
            | (rc, file, fs) => (rc, count, file, fs)
        | (rc, file, fs) => (rc, count, file, fs)

/-- `ext2fs_file_write`. -/
def ext2fsFileWrite (fs : Fs δ) (file : File) (data : List UInt8) :
    Errcode × Nat × File × Fs δ :=
  if file.writable then fs.fileWriteLoop data.length file data 0
  else (EXT2_ET_FILE_RO, 0, file, fs)

end Fs

end Ext2Fuse
