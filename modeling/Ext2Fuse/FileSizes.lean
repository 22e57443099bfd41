import Ext2Fuse.InodeUpdates

/-!
# Sizes of files

A size has 64 bits in two words of the inode. `set_file_size` stores the low word and
clears the high one, and the comparisons of `do_write` and `do_ftruncate` look at the low
word, while the library seeks and reads by both.
-/

namespace Ext2Fuse

open Lib Program Fs

variable {δ : Type}

/-- The two words of the size. -/
def sizeWords (inode : Inode) : Nat × Nat := (inode.iSize, inode.iSizeHigh)

/-- The two words of the size are no matter of the blocks. -/
theorem sizeWords_blockless : Blockless sizeWords := fun _ _ _ => rfl

/-- `part` sees the low word of the size, as `low` finds it, and nothing else that writing and
truncating changes. -/
structure Sized {ν : Type} (part : Inode → ν) (low : ν → Nat) (resize : ν → Nat → ν) : Prop where
  blockless : Blockless part
  word : ∀ inode, inode.iSize = low (part inode)
  resized : ∀ inode now size,
    part { inode with iMtime := now, iSize := size, iSizeHigh := 0 } = resize (part inode) size

/-- Resizing sets the low word and clears the high one. -/
theorem sizeWords_sized : Sized sizeWords Prod.fst fun _ size => (size, 0) :=
  ⟨sizeWords_blockless, fun _ => rfl, fun _ _ _ => rfl⟩

section Parts

variable {ν : Type} {part : Inode → ν} {low : ν → Nat} {resize : ν → Nat → ν} {value : ν}
  {env : Env δ} {fs fs' : Fs δ} {ino length : Nat} {fh : File}

/-- Storing a size stores it in handle and disk. -/
theorem setFileSize_part (sized : Sized part low resize) (carries : Carries fs ino part value fh)
    (desiredSize : Nat) :
    Leads (lib env) (setFileSize ino fh.inode desiredSize) (fun result fs' => result.1 = 0 ∧
      Carries fs' ino part (resize value (desiredSize % 2 ^ 32))
        { fh with inode := result.2 }) fs := by
  have valid : fs.advance.validIno ino = true := carries.valid
  have enters := sized.resized fh.inode (env.time fs.vol.tick) (desiredSize % 2 ^ 32)
  rw [carries.copy] at enters
  rw [Leads, setFileSize]
  simp only [run_bind, run_lift, lib_time, lib_writeInode, ext2fsWriteInode, valid,
    if_true, run_pure]
  exact ⟨trivial, valid, carries.own, enters, by simpa using enters⟩

/-- Lengthening: the gap is written in one call, whose count has 32 bits. -/
theorem doLengthen_part (sized : Sized part low resize) (carries : Carries fs ino part value fh)
    (longer : low value < length) :
    Leads (lib env) (doLengthen fh ino length) (fun result fs' =>
      result.1 = 0 ∧ length - low value < 2 ^ 32 ∧
        Carries fs' ino part (resize value (length % 2 ^ 32)) result.2 ∨
      result.1 ≠ 0 ∧ Carries fs' ino part value result.2) fs := by
  have lowWord : fh.inode.iSize = low value := (sized.word _).trans (congrArg low carries.copy)
  have eio : EIO ≠ 0 := by decide
  rw [doLengthen, lowWord, if_neg (by omega), if_neg (by omega)]
  refine leads_lift_bind fun result later outcome => ?_
  rcases wrote : fs.ext2fsFileWrite { fh with pos := fh.inode.ext2ISize }
    (List.replicate ((length - low value) % 2 ^ 32) 0) with ⟨rc, written, file, fs₁⟩
  rw [lib_fileWrite wrote] at outcome
  cases outcome
  have sought : Carries fs ino part value { fh with pos := fh.inode.ext2ISize } :=
    carries.handle rfl rfl
  obtain ⟨after, counted⟩ := ext2fsFileWrite_carries sized.blockless sought wrote
  have restored : Carries later ino part value { file with pos := fh.pos } :=
    after.handle rfl rfl
  rw [List.length_replicate] at counted
  dsimp only
  split
  · rename_i failed
    exact .inr ⟨failed, restored⟩
  split
  · exact .inr ⟨eio, restored⟩
  · rename_i complete
    rw [leads_bind]
    refine (setFileSize_part sized restored length).mono fun result next resized => ?_
    have small : length - low value < 2 ^ 32 := by
      rw [not_not] at complete
      have below := Nat.mod_lt (length - low value) (Nat.two_pow_pos 32)
      omega
    exact .inl ⟨resized.1, small, resized.2⟩

/-- Shortening stores the new size. -/
theorem doShorten_part (sized : Sized part low resize) (carries : Carries fs ino part value fh)
    (shorter : length < low value) :
    Leads (lib env) (doShorten fh ino length) (fun result fs' =>
      result.1 = 0 ∧ Carries fs' ino part (resize value (length % 2 ^ 32)) result.2) fs := by
  have lowWord : fh.inode.iSize = low value := (sized.word _).trans (congrArg low carries.copy)
  rw [doShorten, lowWord, if_neg (by omega), if_neg (by omega)]
  refine leads_lift_bind fun super later outcome => ?_
  cases outcome
  refine leads_bind_of fun result sizedFs outcome => ?_
  obtain ⟨rc, inode⟩ := result
  obtain ⟨success, resized⟩ := (setFileSize_part sized carries length).outcome outcome
  dsimp only at success resized ⊢
  rw [success, if_neg (not_not.mpr rfl)]
  refine leads_lift_bind fun iterated later outcome => ?_
  obtain ⟨vol, iBlock, super, truncated⟩ := lib_blockIterateTruncate_frame env sizedFs ino
    { lastBlockToKeep := if length = 0 then -1 else ((length - 1) / fs.super.blocksize : Nat)
      numInIndirectBlock := fs.super.addrPerBlock }
  change (lib env).exec (.blockIterateTruncate ino
    { lastBlockToKeep := if length = 0 then -1 else ((length - 1) / fs.super.blocksize : Nat)
      numInIndirectBlock := fs.super.addrPerBlock }) sizedFs = _ at outcome
  rw [outcome] at truncated
  change later = _ at truncated
  have valid : later.validIno ino = true := by
    rw [truncated]
    exact (validIno_congr (by exact super) ino).trans resized.valid
  have disk : part (later.inodeTab ino) = resize value (length % 2 ^ 32) := by
    rw [truncated]
    simpa using (sized.blockless _ _ _).trans resized.disk
  rw [leads_bind, leads_lift, lib_readInode, ext2fsReadInode, if_pos valid]
  rw [leads_bind, leads_lift, lib_writeInode, ext2fsWriteInode, if_pos valid]
  exact ⟨rfl, valid, resized.own, resized.copy,
    by simpa using (sized.blockless _ _ _).trans disk⟩

/-- do_ftruncate stores the new size whichever way it goes. -/
theorem doFtruncate_part (sized : Sized part low resize) (carries : Carries fs ino part value fh)
    (length : Nat) :
    Leads (lib env) (doFtruncate fh ino length) (fun result fs' =>
      result.1 = 0 ∧ length = low value ∧ Carries fs' ino part value result.2 ∨
      result.1 = 0 ∧ length ≠ low value ∧ length - low value < 2 ^ 32 ∧
        Carries fs' ino part (resize value (length % 2 ^ 32)) result.2 ∨
      result.1 ≠ 0 ∧ Carries fs' ino part value result.2) fs := by
  have lowWord : fh.inode.iSize = low value := (sized.word _).trans (congrArg low carries.copy)
  rw [doFtruncate, lowWord]
  rcases Nat.lt_trichotomy length (low value) with shorter | same | longer
  · rw [if_neg (by omega)]
    refine (doShorten_part sized carries shorter).mono fun result later resized => ?_
    exact .inr (.inl ⟨resized.1, by omega, by omega, resized.2⟩)
  · rw [if_neg (by omega), doShorten, if_pos (same.trans lowWord.symm)]
    exact .inl ⟨rfl, same, carries⟩
  · rw [if_pos longer]
    refine (doLengthen_part sized carries longer).mono ?_
    rintro result later (⟨success, small, resized⟩ | failed)
    · exact .inr (.inl ⟨success, by omega, small, resized⟩)
    · exact .inr (.inr failed)

/-- The count of the bytes that are written has 32 bits as well. -/
theorem writeData_part (sized : Sized part low resize) (carries : Carries fs ino part value fh)
    (data : List UInt8) (off : Nat) :
    Leads (lib env) (writeData fh ino data off) (fun result fs' =>
      result.1 = 0 ∧ data.length < 2 ^ 32 ∧ off + data.length ≤ low value ∧
        Carries fs' ino part value result.2.2 ∨
      result.1 = 0 ∧ data.length < 2 ^ 32 ∧ off ≤ low value ∧ low value < off + data.length ∧
        Carries fs' ino part (resize value ((off + data.length) % 2 ^ 32)) result.2.2 ∨
      result.1 ≠ 0 ∧ Carries fs' ino part value result.2.2) fs := by
  have eio : EIO ≠ 0 := by decide
  have sought : Carries fs ino part value { fh with pos := off } := carries.handle rfl rfl
  rw [writeData]
  refine leads_lift_bind fun result later outcome => ?_
  rcases wrote : fs.ext2fsFileWrite { fh with pos := off } (data.take (data.length % 2 ^ 32)) with
    ⟨rc, bytes, file, fs₁⟩
  rw [lib_fileWrite wrote] at outcome
  cases outcome
  obtain ⟨after, counted⟩ := ext2fsFileWrite_carries sized.blockless sought wrote
  have lowWord : file.inode.iSize = low value := (sized.word _).trans (congrArg low after.copy)
  dsimp only
  split
  · exact .inr (.inr ⟨eio, after⟩)
  split
  · exact .inr (.inr ⟨eio, after⟩)
  rename_i complete
  have narrow : data.length < 2 ^ 32 := by
    rw [not_not] at complete
    rw [List.length_take] at counted
    have below := Nat.mod_lt data.length (Nat.two_pow_pos 32)
    omega
  rw [lowWord]
  split
  · rename_i within
    exact .inl ⟨rfl, narrow, within, after⟩
  split
  · exact .inr (.inr ⟨eio, after⟩)
  · rename_i grows inside
    rw [leads_bind]
    refine (setFileSize_part sized after _).mono fun result next resized => ?_
    exact .inr (.inl ⟨resized.1, narrow, by omega, by omega, resized.2⟩)

end Parts

section Words

variable {env : Env δ} {fs fs' : Fs δ} {ino low high length : Nat} {fh file file' : File}

/-- The size of a file that carries two words. -/
theorem Fs.Carries.ext2ISize (carries : Carries fs ino sizeWords (low, high) fh) :
    (fs.inodeTab ino).ext2ISize = low + high * 2 ^ 32 := by
  obtain ⟨lowWord, highWord⟩ := Prod.mk.inj carries.disk
  rw [Inode.ext2ISize, lowWord, highWord]

/-- do_ftruncate in terms of the two words. -/
theorem doFtruncate_words (carries : Carries fs ino sizeWords (low, high) fh) (length : Nat) :
    Leads (lib env) (doFtruncate fh ino length) (fun result fs' =>
      result.1 = 0 ∧ length = low ∧ Carries fs' ino sizeWords (low, high) result.2 ∨
      result.1 = 0 ∧ length ≠ low ∧ length - low < 2 ^ 32 ∧
        Carries fs' ino sizeWords (length % 2 ^ 32, 0) result.2 ∨
      result.1 ≠ 0 ∧ Carries fs' ino sizeWords (low, high) result.2) fs :=
  doFtruncate_part sizeWords_sized carries length

/-- write_data in terms of the two words. -/
theorem writeData_words (carries : Carries fs ino sizeWords (low, high) fh) (data : List UInt8)
    (off : Nat) :
    Leads (lib env) (writeData fh ino data off) (fun result fs' =>
      result.1 = 0 ∧ data.length < 2 ^ 32 ∧ off + data.length ≤ low ∧
        Carries fs' ino sizeWords (low, high) result.2.2 ∨
      result.1 = 0 ∧ data.length < 2 ^ 32 ∧ off ≤ low ∧ low < off + data.length ∧
        Carries fs' ino sizeWords ((off + data.length) % 2 ^ 32, 0) result.2.2 ∨
      result.1 ≠ 0 ∧ Carries fs' ino sizeWords (low, high) result.2.2) fs :=
  writeData_part sizeWords_sized carries data off

/-- The handle's copy has the size the inode has on disk. -/
def Fs.SizeAgrees (fs : Fs δ) (ino : Nat) (fh : File) : Prop :=
  Carries fs ino sizeWords (sizeWords (fs.inodeTab ino)) fh

/-- Carrying the same words is agreeing on the size. -/
theorem Fs.Carries.agrees (carries : Carries fs ino sizeWords (low, high) fh) :
    fs.SizeAgrees ino fh := by
  rw [SizeAgrees, carries.disk]
  exact carries

/-- A write that keeps within the low word, or one to a file without a high word that stays below
4 GiB. -/
def WriteFits (inode : Inode) (off count : Nat) : Prop :=
  off + count ≤ inode.iSize ∨ inode.iSizeHigh = 0 ∧ off + count < 2 ^ 32

/-- A length below 4 GiB, except the one that is the low word of a longer file. -/
def TruncateFits (inode : Inode) (length : Nat) : Prop :=
  length < 2 ^ 32 ∧ ¬ (length = inode.iSize ∧ inode.iSizeHigh ≠ 0)

/-- do_write keeps handle and disk agreed on the size, and says which it is. -/
theorem doWrite_size (agrees : fs.SizeAgrees ino fh) (word : (fs.inodeTab ino).iSize < 2 ^ 32)
    {data : List UInt8} (some : data ≠ []) (off : Nat) :
    Leads (lib env) (doWrite fh ino data off) (fun result fs' => fs'.SizeAgrees ino result.2.2 ∧
      (result.1 = 0 → ((fs'.inodeTab ino).ext2ISize =
        max (fs.inodeTab ino).ext2ISize (off + data.length) ↔
          WriteFits (fs.inodeTab ino) off data.length)) ∧
      (2 ^ 63 ≤ off + data.length → result.1 ≠ 0 ∧ (data.length < 2 ^ 32 →
        (fs'.inodeTab ino).ext2ISize = (fs.inodeTab ino).ext2ISize))) fs := by
  have positive := List.length_pos_iff.mpr some
  have lowWord : fh.inode.iSize = (fs.inodeTab ino).iSize := congrArg Prod.fst agrees.copy
  have old : (fs.inodeTab ino).ext2ISize =
      (fs.inodeTab ino).iSize + (fs.inodeTab ino).iSizeHigh * 2 ^ 32 := rfl
  rw [SizeAgrees, sizeWords] at agrees
  rw [old, doWrite, lowWord, WriteFits]
  generalize (fs.inodeTab ino).iSize = low at *
  generalize (fs.inodeTab ino).iSizeHigh = high at *
  split
  · rename_i beyond
    refine leads_bind_of fun result sizedFs outcome => ?_
    obtain ⟨rc, file⟩ := result
    rcases (doFtruncate_words agrees off).outcome outcome with
      ⟨-, same, -⟩ | ⟨success, -, small, sized⟩ | ⟨failed, sized⟩
    · omega
    · dsimp only at success sized ⊢
      rw [if_neg (not_not.mpr success)]
      refine (writeData_words sized data off).mono ?_
      rintro result later (⟨-, -, within, -⟩ | ⟨done, narrow, inside, -, after⟩ | ⟨failed, after⟩)
      · have below := Nat.mod_le off (2 ^ 32)
        omega
      · refine ⟨after.agrees, fun _ => ?_, by omega⟩
        rw [after.ext2ISize]
        have below := Nat.mod_lt off (Nat.two_pow_pos 32)
        omega
      · exact ⟨after.agrees, fun done => absurd done failed, fun _ => ⟨failed, by omega⟩⟩
    · dsimp only at failed sized ⊢
      rw [if_pos failed]
      exact ⟨sized.agrees, fun done => absurd done failed,
        fun _ => ⟨failed, fun _ => sized.ext2ISize⟩⟩
  · rename_i inside
    refine (writeData_words agrees data off).mono ?_
    rintro result later (⟨-, narrow, within, after⟩ | ⟨-, narrow, -, grows, after⟩ |
      ⟨failed, after⟩)
    · refine ⟨after.agrees, fun _ => ?_, by omega⟩
      rw [after.ext2ISize]
      omega
    · refine ⟨after.agrees, fun _ => ?_, by omega⟩
      rw [after.ext2ISize]
      omega
    · exact ⟨after.agrees, fun done => absurd done failed, fun _ => ⟨failed, by omega⟩⟩

/-- do_ftruncate keeps them agreed and says which size it is. -/
theorem doFtruncate_size (agrees : fs.SizeAgrees ino fh) (word : (fs.inodeTab ino).iSize < 2 ^ 32)
    (length : Nat) :
    Leads (lib env) (doFtruncate fh ino length) (fun result fs' => fs'.SizeAgrees ino result.2 ∧
      (result.1 = 0 → ((fs'.inodeTab ino).ext2ISize = length ↔
        TruncateFits (fs.inodeTab ino) length))) fs := by
  rw [SizeAgrees, sizeWords] at agrees
  rw [TruncateFits]
  generalize (fs.inodeTab ino).iSize = low at *
  generalize (fs.inodeTab ino).iSizeHigh = high at *
  refine (doFtruncate_words agrees length).mono ?_
  rintro result later (⟨-, same, after⟩ | ⟨-, other, -, after⟩ | ⟨failed, after⟩)
  · refine ⟨after.agrees, fun _ => ?_⟩
    rw [after.ext2ISize]
    omega
  · refine ⟨after.agrees, fun _ => ?_⟩
    rw [after.ext2ISize]
    omega
  · exact ⟨after.agrees, fun done => absurd done failed⟩

/-- **A successful write or truncation leaves the exact size exactly when all of it fits the low
word.** The handle agrees with the disk, as a fresh one does, and agrees again afterwards. A write
that would end beyond the largest offset fails and leaves the size. -/
theorem sizes_exact_iff (agrees : fs.SizeAgrees ino fh) (word : (fs.inodeTab ino).iSize < 2 ^ 32) :
    (∀ (data : List UInt8) (off : Nat), data ≠ [] →
      Leads (lib env) (doWrite fh ino data off) (fun result fs' => fs'.SizeAgrees ino result.2.2 ∧
        (result.1 = 0 → ((fs'.inodeTab ino).ext2ISize =
          max (fs.inodeTab ino).ext2ISize (off + data.length) ↔
            WriteFits (fs.inodeTab ino) off data.length)) ∧
        (2 ^ 63 ≤ off + data.length → result.1 ≠ 0 ∧ (data.length < 2 ^ 32 →
          (fs'.inodeTab ino).ext2ISize = (fs.inodeTab ino).ext2ISize))) fs) ∧
    ∀ length, Leads (lib env) (doFtruncate fh ino length) (fun result fs' =>
      fs'.SizeAgrees ino result.2 ∧
      (result.1 = 0 → ((fs'.inodeTab ino).ext2ISize = length ↔
        TruncateFits (fs.inodeTab ino) length))) fs :=
  ⟨fun _ off some => doWrite_size agrees word some off, doFtruncate_size agrees word⟩

end Words

/-- The volume with the two files, where the first one is exactly 4 GiB long and all hole. -/
def fourGiB : Fs (List Dirent) :=
  { twoFiles with
    inodeTab := Function.update twoFiles.inodeTab 11 { twoFiles.inodeTab 11 with iSizeHigh := 1 } }

/-- A handle fresh from `ext2fs_file_open`. -/
def freshHandle (fs : Fs δ) (ino : Nat) : File :=
    { ino := ino, inode := fs.inodeTab ino, writable := true }

/-- A write of two bytes behind the end of an empty file. -/
theorem sizes_exact_iff_small :
    (((doWrite (freshHandle twoFiles 11) 11 [0x68, 0x69] 3).run (lib listEnv) twoFiles).1.1 = 0 ∧
      (((doWrite (freshHandle twoFiles 11) 11 [0x68, 0x69] 3).run (lib listEnv) twoFiles).2.inodeTab
        11).ext2ISize = max (twoFiles.inodeTab 11).ext2ISize (3 + 2)) ∧
    ((doFtruncate (freshHandle twoFiles 11) 11 7).run (lib listEnv) twoFiles).1.1 = 0 ∧
      (((doFtruncate (freshHandle twoFiles 11) 11 7).run (lib listEnv) twoFiles).2.inodeTab
        11).ext2ISize = 7 := by
  have agrees : twoFiles.SizeAgrees 11 (freshHandle twoFiles 11) := ⟨by decide, rfl, rfl, rfl⟩
  obtain ⟨writes, truncates⟩ := sizes_exact_iff agrees (by decide)
  have wrote : ((doWrite (freshHandle twoFiles 11) 11 [0x68, 0x69] 3).run (lib listEnv)
      twoFiles).1.1 = 0 := by decide +kernel
  have truncated : ((doFtruncate (freshHandle twoFiles 11) 11 7).run (lib listEnv)
      twoFiles).1.1 = 0 := by decide +kernel
  exact ⟨⟨wrote, ((writes [0x68, 0x69] 3 (by decide)).2.1 wrote).mpr (.inr (by decide))⟩, truncated,
    ((truncates 7).2 truncated).mpr ⟨by decide, by decide⟩⟩

/-- One byte written at the start of a file of 4 GiB makes it a file of one byte, and truncating it
to nothing succeeds and leaves its 4 GiB. -/
theorem size_lost :
    fourGiB.SizeAgrees 11 (freshHandle fourGiB 11) ∧
    (((doWrite (freshHandle fourGiB 11) 11 [0x68] 0).run (lib listEnv) fourGiB).1.1 = 0 ∧
      (((doWrite (freshHandle fourGiB 11) 11 [0x68] 0).run (lib listEnv) fourGiB).2.inodeTab
        11).ext2ISize = 1 ∧
      max (fourGiB.inodeTab 11).ext2ISize (0 + 1) = 2 ^ 32) ∧
    ((doFtruncate (freshHandle fourGiB 11) 11 0).run (lib listEnv) fourGiB).1.1 = 0 ∧
      (((doFtruncate (freshHandle fourGiB 11) 11 0).run (lib listEnv) fourGiB).2.inodeTab
        11).ext2ISize = 2 ^ 32 :=
  ⟨⟨by decide, rfl, rfl, rfl⟩, by decide +kernel, by decide +kernel⟩

end Ext2Fuse
