import Ext2Fuse.Library

/-!
# What file calls leave alone

Reading and writing through a handle changes blocks of the volume and the inode of the
handle. Directories, the inode bitmap and all other inodes stay as they are.
-/

namespace Ext2Fuse

open Lib Program Volume

namespace Fs

variable {δ : Type} {fs fs' fs'' : Fs δ} {ino : Nat} {file : File}

/-- Nothing but the volume and the inode `ino` has changed. -/
structure Confined (ino : Nat) (fs fs' : Fs δ) : Prop where
  super : fs'.super = fs.super
  inodeMap : fs'.inodeMap = fs.inodeMap
  dirs : fs'.dirs = fs.dirs
  others : ∀ other, other ≠ ino → fs'.inodeTab other = fs.inodeTab other

theorem Confined.refl (ino : Nat) (fs : Fs δ) :
    Confined ino fs fs := ⟨rfl, rfl, rfl, fun _ _ => rfl⟩

/-- Two steps confined to one inode are confined together. -/
theorem Confined.trans (first : Confined ino fs fs') (second : Confined ino fs' fs'') :
    Confined ino fs fs'' where
  super := second.super.trans first.super
  inodeMap := second.inodeMap.trans first.inodeMap
  dirs := second.dirs.trans first.dirs
  others other apart := (second.others other apart).trans (first.others other apart)

theorem confined_vol {vol : Volume} (super : vol.super = fs.vol.super) :
    Confined ino fs { fs with vol := vol } :=
  ⟨super, rfl, rfl, fun _ _ => rfl⟩

theorem confined_writeInode (fs : Fs δ) (ino : Nat) (inode : Inode) :
    Confined ino fs (fs.ext2fsWriteInode ino inode).2 := by
  rw [ext2fsWriteInode]
  split
  · exact ⟨rfl, rfl, rfl, fun other apart => Function.update_of_ne apart _ _⟩
  · exact .refl ino fs

theorem confined_bmap (fs : Fs δ) (ino : Nat) (inode : Inode) (alloc : Bool) (block : Nat) :
    Confined ino fs (fs.ext2fsBmap ino inode alloc block).2.2 := by
  have super := fs.vol.bmapBlocks_super alloc inode.iBlock block
  simp only [ext2fsBmap]
  split
  · rename_i mapped
    rw [mapped] at super
    exact confined_vol super
  · rename_i blk allocated iBlock vol mapped
    rw [mapped] at super
    split
    · exact confined_vol super
    · have volume : Confined ino fs { fs with vol := vol } := confined_vol super
      have written : ∀ (copy : Inode) (result : Errcode × Fs δ),
          ({ fs with vol := vol } : Fs δ).ext2fsWriteInode ino copy = result →
            Confined ino fs result.2 := by
        rintro copy result rfl
        exact volume.trans (confined_writeInode _ ino copy)
      split
      all_goals
        rename_i wrote
        exact written _ _ wrote

/-- A call through a handle: what changes is confined to the inode of the handle, which stays
the one it is. -/
structure OnFile (file : File) (fs fs' : Fs δ) (file' : File) : Prop where
  confined : Confined file.ino fs fs'
  ino_eq : file'.ino = file.ino

/-- Two steps on one file are together on it. -/
theorem OnFile.trans {file' file'' : File} (first : OnFile file fs fs' file')
    (second : OnFile file' fs' fs'' file'') : OnFile file fs fs'' file'' := by
  have further := second.confined
  rw [first.ino_eq] at further
  exact ⟨first.confined.trans further, second.ino_eq.trans first.ino_eq⟩

theorem onFile_flush (fs : Fs δ) (file : File) :
    OnFile file fs (fs.ext2fsFileFlush file).2.2 (fs.ext2fsFileFlush file).2.1 := by
  simp only [ext2fsFileFlush]
  split
  · exact ⟨.refl _ fs, rfl⟩
  · split
    · have mapped := confined_bmap fs file.ino file.inode (file.ino != 0) file.blockno
      split
      all_goals
        rename_i outcome
        rw [outcome] at mapped
      · exact ⟨mapped, rfl⟩
      · exact ⟨mapped.trans (confined_vol rfl), rfl⟩
    · exact ⟨confined_vol rfl, rfl⟩

theorem onFile_sync (fs : Fs δ) (file : File) :
    OnFile file fs (fs.syncBufferPosition file).2.2 (fs.syncBufferPosition file).2.1 := by
  have flushed := onFile_flush fs file
  simp only [syncBufferPosition]
  split
  · split
    all_goals
      rename_i outcome
      rw [outcome] at flushed
    · exact ⟨flushed.confined, flushed.ino_eq⟩
    · exact flushed
  · exact ⟨.refl _ fs, rfl⟩

theorem onFile_load (fs : Fs δ) (file : File) (dontfill : Bool) :
    OnFile file fs (fs.loadBuffer file dontfill).2.2 (fs.loadBuffer file dontfill).2.1 := by
  simp only [loadBuffer]
  split
  · exact ⟨.refl _ fs, rfl⟩
  · have mapped := confined_bmap fs file.ino file.inode false file.blockno
    split
    all_goals
      rename_i outcome
      rw [outcome] at mapped
      exact ⟨mapped, rfl⟩

/-- The loop of ext2fs_file_write stays on its file, by induction on the bound. -/
theorem onFile_writeLoop (bound : Nat) (fs : Fs δ) (file : File) (data : List UInt8) (count : Nat) :
    OnFile file fs (fs.fileWriteLoop bound file data count).2.2.2
      (fs.fileWriteLoop bound file data count).2.2.1 := by
  induction bound generalizing fs file data count with
  | zero => exact ⟨.refl _ fs, rfl⟩
  | succ bound inductionHypothesis =>
      simp only [fileWriteLoop]
      split
      · exact ⟨.refl _ fs, rfl⟩
      · have synced := onFile_sync fs file
        split
        · rename_i file₁ fs₁ outcome
          rw [outcome] at synced
          have loaded := onFile_load fs₁ file₁
            (min (fs₁.blocksize - file₁.pos % fs₁.blocksize) data.length == fs₁.blocksize)
          split
          · rename_i file₂ fs₂ inner
            rw [inner] at loaded
            have through := synced.trans loaded
            have rest := inductionHypothesis fs₂
              { file₂ with
                bufDirty := true
                buf := file₂.buf.write (file₁.pos % fs₁.blocksize)
                  (data.take (min (fs₁.blocksize - file₁.pos % fs₁.blocksize) data.length))
                pos := file₂.pos + min (fs₁.blocksize - file₁.pos % fs₁.blocksize) data.length }
              (data.drop (min (fs₁.blocksize - file₁.pos % fs₁.blocksize) data.length))
              (count + min (fs₁.blocksize - file₁.pos % fs₁.blocksize) data.length)
            exact through.trans ⟨rest.confined, rest.ino_eq⟩
          · rename_i inner
            rw [inner] at loaded
            exact synced.trans loaded
        · rename_i outcome
          rw [outcome] at synced
          exact synced

/-- So does ext2fs_file_write itself. -/
theorem onFile_write (fs : Fs δ) (file : File) (data : List UInt8) :
    OnFile file fs (fs.ext2fsFileWrite file data).2.2.2 (fs.ext2fsFileWrite file data).2.2.1 := by
  simp only [ext2fsFileWrite]
  split
  · exact onFile_writeLoop _ fs file data 0
  · exact ⟨.refl _ fs, rfl⟩

end Fs

end Ext2Fuse
