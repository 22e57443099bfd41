import Ext2Fuse.Attributes
import Ext2Fuse.FileContents

/-!
# Symbolic links

What `op_symlink` stores and what `op_readlink` makes of it: the symlinks of the format with
their two forms, the form in which a target is stored, and its way from the one handler to
the other.
-/

namespace Ext2Fuse

open Lib Program Fs

variable {δ : Type}

section Readlink

variable {env : Env δ} {fs : Fs δ} {number : Nat} {target behind : List UInt8}

/-- `do_read` through a fresh handle: the bytes of the file, and the access time on disk. -/
theorem run_doRead_fresh {ino size : Nat} (valid : fs.validIno ino = true)
    (inside : size ≤ (fs.inodeTab ino).ext2ISize) (writable : Bool) :
    ∃ file', file'.bufDirty = false ∧
      (doRead { ino := ino, inode := fs.inodeTab ino, writable := writable } ino size 0).run
      (lib env) fs =
        ((0, fs.fileBytes (fs.inodeTab ino).iBlock 0 (size % 2 ^ 32), file'), { fs.advance with
          inodeTab := Function.update fs.inodeTab ino
            { fs.inodeTab ino with iAtime := env.time fs.vol.tick } }) := by
  have fresh : fs.Reads { ino := ino, inode := fs.inodeTab ino, writable :=
    writable } := ⟨rfl, nofun⟩
  have part : 0 + size % 2 ^ 32 ≤ (fs.inodeTab ino).ext2ISize := by
    have least := Nat.mod_le size (2 ^ 32)
    omega
  obtain ⟨file', read, sameInode, -, clean⟩ := fileReadLoop_bytes fresh le_rfl part []
  have outcome := @lib_fileRead δ env fs _ _ _ _ _ _ read
  have validLater : fs.advance.validIno ino = true := valid
  refine ⟨{ file' with inode := { file'.inode with iAtime := env.time fs.vol.tick } }, clean, ?_⟩
  rw [doRead, run_bind, run_lift, outcome]
  simp [ext2fsWriteInode, validLater, sameInode]
  rfl

/-- The bytes `op_readlink` takes for the target: those of `i_block` if the inode has no blocks,
else those of the file. -/
def Fs.linkBytes (fs : Fs δ) (ino : Nat) : List UInt8 :=
  if (fs.inodeTab ino).iBlocks = 0 then (fs.inodeTab ino).blockBytes
  else fs.fileBytes (fs.inodeTab ino).iBlock 0 (fs.inodeTab ino).iSize

/-- The filesystem after `op_readlink`: the access time is set when the file has been read. -/
def Fs.linkRead (env : Env δ) (fs : Fs δ) (ino : Nat) : Fs δ :=
  if (fs.inodeTab ino).iBlocks = 0 then fs
  else { fs.advance with
    inodeTab := Function.update fs.inodeTab ino
      { fs.inodeTab ino with iAtime := env.time fs.vol.tick } }

/-- `op_readlink` replies the C string that the bytes of the link begin; a size that is no 32-bit
number, if there were one, would be an error. -/
theorem run_opReadlink_any (valid : fs.validIno (EXT2FS_INO number) = true) (ctx : FuseCtx)
    (behind : List UInt8) :
    (opReadlink ctx number behind).run (lib env) fs =
      (if (fs.inodeTab (EXT2FS_INO number)).iBlocks = 0 ∨
        (fs.inodeTab (EXT2FS_INO number)).iSize < 2 ^ 32 then
        [.readlink (cString (fs.linkBytes (EXT2FS_INO number) ++ behind))] else [.err EIO],
        fs.linkRead env (EXT2FS_INO number)) := by
  have memory : ∀ size, (lib env).exec (.malloc size) fs = (true, fs) := fun _ => rfl
  rw [opReadlink, run_bind, run_readInode valid]
  dsimp only
  rw [run_bind, run_lift, memory, linkBytes, linkRead]
  by_cases fast : (fs.inodeTab (EXT2FS_INO number)).iBlocks = 0
  · simp [fast]
  · obtain ⟨file, clean, read⟩ := @run_doRead_fresh δ env fs (EXT2FS_INO number) _ valid
      (Nat.le_add_right _ _) false
    have flushed : ∀ fs' : Fs δ, (lib env).exec (.fileFlush file) fs' = ((0, file), fs') := by
      intro fs'
      exact lib_fileFlush (by simp [ext2fsFileFlush, clean])
    have opened : (doOpen (some ctx) (EXT2FS_INO number) {}).run (lib env) fs = _ :=
      run_doOpen valid (some ctx) rfl
    generalize gotEq : (fs.inodeTab (EXT2FS_INO number)).iSize % 2 ^ 32 = got at read
    have fits : (fs.inodeTab (EXT2FS_INO number)).iSize < 2 ^ 32 ↔
        got = (fs.inodeTab (EXT2FS_INO number)).iSize := by omega
    simp only [fast, Bool.not_true, Bool.false_eq_true, if_false, run_bind, opened,
      Bool.or_self, read, doFileClose, false_or, fits]
    by_cases same : got = (fs.inodeTab (EXT2FS_INO number)).iSize <;>
      simp [fileBytes, flushed, same]

/-- The reply to `op_readlink`, the size being a 32-bit number. -/
theorem run_opReadlink (valid : fs.validIno (EXT2FS_INO number) = true)
    (narrow : (fs.inodeTab (EXT2FS_INO number)).iSize < 2 ^ 32) (ctx : FuseCtx)
    (behind : List UInt8) :
    ((opReadlink ctx number behind).run (lib env) fs).1 =
      [.readlink (cString (fs.linkBytes (EXT2FS_INO number) ++ behind))] := by
  rw [run_opReadlink_any valid, if_pos (.inr narrow)]

/-- `ext2fs_inode_data_blocks`: the sectors of an inode without those of its attribute block. -/
def ext2fsInodeDataBlocks (super : Super) (inode : Inode) : Nat :=
  (inode.iBlocks + 2 ^ 32 - if inode.iFileAcl ≠ 0 then super.blocksize / 512 else 0) % 2 ^ 32

/-- A symlink of the format for a target: a fast one keeps it in `i_block`, a slow one in its
data blocks, and both count their attribute block, if there is one, in `i_blocks`. -/
structure ValidSymlink (fs : Fs δ) (ino : Nat) (target : List UInt8) : Prop where
  valid : fs.validIno ino = true
  isLnk : LINUX_S_ISLNK (fs.inodeTab ino).iMode = true
  plain : 0 ∉ target
  size : (fs.inodeTab ino).iSize = target.length
  narrow : (fs.inodeTab ino).iSize < 2 ^ 32 ∧ (fs.inodeTab ino).iBlocks < 2 ^ 32
  attributes : (fs.inodeTab ino).iFileAcl ≠ 0 → fs.blocksize / 512 ≤ (fs.inodeTab ino).iBlocks
  fast : ext2fsInodeDataBlocks fs.super (fs.inodeTab ino) = 0 →
    (fs.inodeTab ino).iSize < EXT2_N_BLOCKS * 4 ∧
      (fs.inodeTab ino).blockBytes.take (fs.inodeTab ino).iSize = target
  slow : ext2fsInodeDataBlocks fs.super (fs.inodeTab ino) ≠ 0 →
    fs.fileBytes (fs.inodeTab ino).iBlock 0 (fs.inodeTab ino).iSize = target

theorem sectors_pos (super : Super) : 0 < super.blocksize / 512 := by
  have least : 1024 * 1 ≤ super.blocksize := Nat.mul_le_mul_left 1024 (Nat.one_le_two_pow)
  exact Nat.div_pos (by omega) (by decide)

theorem ValidSymlink.dataBlocks {ino : Nat} (symlink : ValidSymlink fs ino target) :
    ext2fsInodeDataBlocks fs.super (fs.inodeTab ino) = (fs.inodeTab ino).iBlocks -
      if (fs.inodeTab ino).iFileAcl ≠ 0 then fs.super.blocksize / 512 else 0 := by
  have narrow := symlink.narrow.2
  have counted := symlink.attributes
  rw [Fs.blocksize] at counted
  rw [ext2fsInodeDataBlocks]
  split
  · have counts := counted ‹_›
    omega
  · omega

/-- The call opens a file. -/
def LibCall.opensFile {β : Type} : LibCall δ β → Bool
  | .fileOpen _ _ => true
  | _ => false

/-- `op_readlink` takes its fast branch: it opens no file. -/
def TakesFastBranch (env : Env δ) (fs : Fs δ) (ctx : FuseCtx) (number : Nat)
    (behind : List UInt8) : Prop :=
  Meets (lib env) (fun _ call _ => call.opensFile = false) (opReadlink ctx number behind) fs

/-- The routine takes the fast branch when the inode counts no sectors at all. -/
theorem takesFastBranch_iff (valid : fs.validIno (EXT2FS_INO number) = true) (ctx : FuseCtx) :
    TakesFastBranch env fs ctx number behind ↔ (fs.inodeTab (EXT2FS_INO number)).iBlocks = 0 := by
  have memory : ∀ size, (lib env).exec (.malloc size) fs = (true, fs) := fun _ => rfl
  rw [TakesFastBranch, opReadlink, meets_bind, run_readInode valid]
  dsimp only
  rw [meets_bind, run_lift, memory]
  dsimp only
  rw [if_neg (by simp)]
  by_cases fast : (fs.inodeTab (EXT2FS_INO number)).iBlocks = 0
  · rw [if_pos fast]
    refine iff_of_true ⟨?_, ⟨rfl, trivial⟩, trivial⟩ fast
    refine meets_bind.mpr ⟨⟨rfl, trivial⟩, ?_⟩
    split <;> exact trivial
  · rw [if_neg fast, meets_bind, doOpen, meets_bind, run_checkPerms]
    refine iff_of_false (fun meets => ?_) fast
    have opens := (meets_bind.mp meets.2.2.1.2).1.1
    cases opens

/-- What a C string is read as that begins with bytes other than NUL. -/
theorem cString_append (plain : 0 ∉ target) (rest : List UInt8) :
    cString (target ++ rest) = target ↔ rest.headD 0 = 0 := by
  have all : ∀ byte ∈ target, decide (byte ≠ 0) = true := by
    intro byte inTarget
    rw [decide_eq_true_eq]
    rintro rfl
    exact plain inTarget
  rw [cString, List.takeWhile_append_of_pos all]
  cases rest with
  | nil => simp
  | cons byte rest =>
      rw [List.takeWhile_cons]
      by_cases zero : byte = 0 <;> simp [zero]

/-- What reading a symlink owes: the reply is the target, and the fast branch is taken for the
symlinks without data blocks. -/
structure Decodes (env : Env δ) (fs : Fs δ) (ctx : FuseCtx) (number : Nat)
    (behind target : List UInt8) : Prop where
  reply : ((opReadlink ctx number behind).run (lib env) fs).1 = [.readlink target]
  branch : TakesFastBranch env fs ctx number behind ↔
    ext2fsInodeDataBlocks fs.super (fs.inodeTab (EXT2FS_INO number)) = 0

/-- `op_readlink` decodes a fast symlink if and only if it has no attribute block and a NUL behind
the target, and a slow one if and only if the buffer happens to hold a NUL there. -/
theorem readlink_decodes_iff (symlink : ValidSymlink fs (EXT2FS_INO number) target) (ctx : FuseCtx)
    (behind : List UInt8) :
    Decodes env fs ctx number behind target ↔
      if ext2fsInodeDataBlocks fs.super (fs.inodeTab (EXT2FS_INO number)) = 0 then
        (fs.inodeTab (EXT2FS_INO number)).iFileAcl = 0 ∧
          (fs.inodeTab (EXT2FS_INO number)).blockBytes.getD target.length 0 = 0
      else behind.headD 0 = 0 := by
  have branch := @takesFastBranch_iff δ env fs number behind symlink.valid ctx
  have reply := @run_opReadlink δ env fs number symlink.valid symlink.narrow.1 ctx behind
  generalize inoEq : EXT2FS_INO number = ino at *
  have blocks := symlink.dataBlocks
  have sectors : 0 < fs.super.blocksize / 512 := sectors_pos _
  have equal : Decodes env fs ctx number behind target ↔
      cString (fs.linkBytes ino ++ behind) = target ∧ ((fs.inodeTab ino).iBlocks = 0 ↔
        ext2fsInodeDataBlocks fs.super (fs.inodeTab ino) = 0) := by
    subst inoEq
    rw [← branch]
    constructor
    · intro decodes
      have same := reply.symm.trans decodes.reply
      simp only [List.cons.injEq, Reply.readlink.injEq, and_true] at same
      exact ⟨same, decodes.branch⟩
    · rintro ⟨same, fast⟩
      exact ⟨by rw [reply, same], fast⟩
  rw [equal, linkBytes]
  by_cases none : ext2fsInodeDataBlocks fs.super (fs.inodeTab ino) = 0
  · obtain ⟨short, held⟩ := symlink.fast none
    rw [if_pos none]
    by_cases plain : (fs.inodeTab ino).iFileAcl = 0
    · have empty : (fs.inodeTab ino).iBlocks = 0 := by
        simp only [plain, ne_eq, not_true_eq_false, if_false] at blocks
        omega
      have long : (fs.inodeTab ino).blockBytes.length = EXT2_N_BLOCKS * 4 := by
        simp [Inode.blockBytes]
      have parts : (fs.inodeTab ino).blockBytes =
          target ++ (fs.inodeTab ino).blockBytes.drop target.length := by
        rw [symlink.size] at held
        conv_lhs => rw [← List.take_append_drop target.length (fs.inodeTab ino).blockBytes, held]
      have next : ((fs.inodeTab ino).blockBytes.drop target.length ++ behind).headD 0 =
          (fs.inodeTab ino).blockBytes.getD target.length 0 := by
        have inside : target.length < (fs.inodeTab ino).blockBytes.length := by
          rw [long, ← symlink.size]
          exact short
        rw [List.drop_eq_getElem_cons inside, List.getD, List.getElem?_eq_getElem inside]
        rfl
      rw [if_pos empty, parts, List.append_assoc, cString_append symlink.plain, ← parts, next]
      exact ⟨fun decodes => ⟨plain, decodes.1⟩, fun ends => ⟨ends.2, iff_of_true empty none⟩⟩
    · have some : (fs.inodeTab ino).iBlocks ≠ 0 := by
        have counted := symlink.attributes plain
        rw [Fs.blocksize] at counted
        omega
      exact iff_of_false (fun decodes => some (decodes.2.mpr none)) fun ends => plain ends.1
  · have held := symlink.slow none
    have some : (fs.inodeTab ino).iBlocks ≠ 0 := by omega
    rw [if_neg none, if_neg some, held, cString_append symlink.plain]
    exact and_iff_left (iff_of_false some none)

/-- A volume with one symlink, the inode 11, of which the fields are chosen. The block 20 begins
with the letters a and b. -/
def symlinkFs (inode : Inode) : Fs (List Dirent) :=
  { twoFiles with
    vol := { twoFiles.vol with
      io := Function.update twoFiles.vol.io 20 (Bytes.write (fun _ => 0) 0 [0x61, 0x62]) }
    inodeTab := Function.update twoFiles.inodeTab 11 inode }

/-- A slow symlink to `ab`. -/
def slowSymlink : Inode :=
  { iMode := LINUX_S_IFLNK ||| 0o777, iSize := 2, iLinksCount := 1, iBlocks := 2
    iBlock := Function.update (fun _ => 0) 0 20 }

theorem slowSymlink_valid : ValidSymlink (symlinkFs slowSymlink) (EXT2FS_INO 11) [0x61, 0x62] where
  valid := by decide
  isLnk := by decide
  plain := by decide
  size := by decide
  narrow := by decide
  attributes := by decide
  fast := by decide
  slow := by decide

/-- With a NUL behind the buffer the slow symlink is decoded. -/
theorem readlink_decodes_slow :
    Decodes listEnv (symlinkFs slowSymlink) ⟨0, 0⟩ 11 [0] [0x61, 0x62] :=
  (readlink_decodes_iff slowSymlink_valid ⟨0, 0⟩ [0]).mpr (by decide)

/-- A fast symlink to `ab` with an attribute block. -/
def fastSymlinkAttributes : Inode :=
  { iMode := LINUX_S_IFLNK ||| 0o777, iSize := 2, iLinksCount := 1, iBlocks := 2, iFileAcl := 21
    iBlock := Function.update (fun _ => 0) 0 0x6261 }

theorem fastSymlinkAttributes_valid :
    ValidSymlink (symlinkFs fastSymlinkAttributes) (EXT2FS_INO 11) [0x61, 0x62] where
  valid := by decide
  isLnk := by decide
  plain := by decide
  size := by decide
  narrow := by decide
  attributes := by decide
  fast := by decide
  slow := by decide

/-- Of the slow symlink a byte that was in the buffer before is replied as a part of the target; of
the fast one the target is taken for a block number, and it is not replied. -/
theorem readlink_misreads :
    (ValidSymlink (symlinkFs slowSymlink) 11 [0x61, 0x62] ∧
      ((opReadlink ⟨0, 0⟩ 11 [0x78, 0]).run (lib listEnv) (symlinkFs slowSymlink)).1 =
        [.readlink [0x61, 0x62, 0x78]] ∧
      ¬ Decodes listEnv (symlinkFs slowSymlink) ⟨0, 0⟩ 11 [0x78, 0] [0x61, 0x62]) ∧
    (ValidSymlink (symlinkFs fastSymlinkAttributes) 11 [0x61, 0x62] ∧
      ((opReadlink ⟨0, 0⟩ 11 [0]).run (lib listEnv) (symlinkFs fastSymlinkAttributes)).1 ≠
        [.readlink [0x61, 0x62]] ∧
      ¬ Decodes listEnv (symlinkFs fastSymlinkAttributes) ⟨0, 0⟩ 11 [0] [0x61, 0x62]) := by
  have runsOn : ((opReadlink ⟨0, 0⟩ 11 [0x78, 0]).run (lib listEnv) (symlinkFs slowSymlink)).1 =
      [.readlink [0x61, 0x62, 0x78]] := by
    rw [run_opReadlink slowSymlink_valid.valid slowSymlink_valid.narrow.1]
    exact congrArg (fun name => [Reply.readlink name]) (by decide)
  have misread : ((opReadlink ⟨0, 0⟩ 11 [0]).run (lib listEnv)
    (symlinkFs fastSymlinkAttributes)).1 ≠
      [.readlink [0x61, 0x62]] := by
    rw [run_opReadlink fastSymlinkAttributes_valid.valid fastSymlinkAttributes_valid.narrow.1]
    intro same
    exact absurd (Reply.readlink.inj (List.cons.inj same).1) (by decide)
  refine ⟨⟨slowSymlink_valid, runsOn, fun decodes => ?_⟩, fastSymlinkAttributes_valid, misread,
    fun decodes => misread decodes.reply⟩
  have same := runsOn.symm.trans decodes.reply
  simp at same

end Readlink

section Form

variable {env : Env δ} {fs : Fs δ} {ino generation : Nat} {stat : Stat} {target : Name}

/-- The path `follow_link` hands to `open_namei`: `i_size` bytes of the first block, or of
`i_block`. -/
def Fs.followLinkPath (fs : Fs δ) (ino : Nat) : List UInt8 :=
  if ext2fsInodeDataBlocks fs.super (fs.inodeTab ino) ≠ 0 then
    Bytes.read (fs.vol.io ((fs.inodeTab ino).iBlock 0)) 0 (fs.inodeTab ino).iSize
  else (fs.inodeTab ino).blockBytes.take (fs.inodeTab ino).iSize

/-- The form every reader of a symlink expects: the size is the length of the target, in the inode
and in the attributes, and the library follows the path that `op_readlink` replies. -/
structure ExpectedForm (env : Env δ) (fs : Fs δ) (ino : Nat) (target : Name) : Prop where
  size : (fs.inodeTab ino).iSize = target.length
  getattr : ∀ stat, ((opGetattr ino).run (lib env) fs).1 = [.attr stat] →
    stat.stSize = target.length
  follow : ∀ ctx behind,
    ((opReadlink ctx ino behind).run (lib env) fs).1 = [.readlink (fs.followLinkPath ino)]

/-- `op_symlink` never stores a target in that form: the size counts the NUL it has written. -/
theorem symlink_counts_nul {ctx : FuseCtx} {parent : Nat} {name : Name}
    (replied : Reply.entry ino generation stat ∈
      ((opSymlink ctx target parent name).run (lib env) fs).1) :
    let fs' := ((opSymlink ctx target parent name).run (lib env) fs).2
    (fs'.inodeTab ino).iSize = target.length + 1 ∧ ¬ ExpectedForm env fs' ino target := by
  have cases := @opSymlink_cases δ fs env ctx target parent name
  rw [Leads] at cases
  generalize (opSymlink ctx target parent name).run (lib env) fs = outcome at replied cases
  obtain ⟨rc, -, failed⟩ | ⟨ino', generation', stat', replies, symlink⟩ := cases
  · simp [failed] at replied
  obtain ⟨rfl, rfl, rfl⟩ : ino = ino' ∧ generation = generation' ∧ stat = stat' := by
    rcases replies with only | late
    · simpa [only] using replied
    · simpa [late] using replied
  have size := symlink.sized.2.1
  refine ⟨size, fun expected => ?_⟩
  rw [expected.size] at size
  omega

/-- A symlink to `a` has the size 2. -/
theorem symlink_counts_nul_short :
    ((((opSymlink ⟨0, 0⟩ [0x61] 1 [0x63]).run (lib listEnv) twoFiles).2).inodeTab
      13).iSize = 2 := by
  have replied : ∃ generation stat, Reply.entry 13 generation stat ∈
      ((opSymlink ⟨0, 0⟩ [0x61] 1 [0x63]).run (lib listEnv) twoFiles).1 :=
    ⟨_, _, List.mem_singleton_self _⟩
  obtain ⟨generation, stat, replied⟩ := replied
  exact (symlink_counts_nul replied).1

/-- The library follows the symlink to `a` to a name that ends in NUL. -/
theorem symlink_form_unexpected :
    let fs' := ((opSymlink ⟨0, 0⟩ [0x61] 1 [0x63]).run (lib listEnv) twoFiles).2
    (fs'.inodeTab 13).iSize = 2 ∧ fs'.followLinkPath 13 = [0x61, 0] ∧
      ¬ ExpectedForm listEnv fs' 13 [0x61] := by
  have size : ((((opSymlink ⟨0, 0⟩ [0x61] 1 [0x63]).run (lib listEnv) twoFiles).2).inodeTab
    13).iSize = 2 := by
    decide +kernel
  refine ⟨size, by decide +kernel, fun expected => ?_⟩
  exact absurd (size.symm.trans expected.size) (by decide)

end Form

section RoundTrip

variable {env : Env δ} {fs fs' : Fs δ} {ino : Nat} {inode : Inode} {target : Name}

/-- An inode as `do_create` makes it: nothing is in it. -/
structure Blank (inode : Inode) : Prop where
  size : inode.iSize = 0
  blocks : inode.iBlocks = 0
  block : inode.iBlock = fun _ => 0

/-- A handle of a new file has written nothing. -/
theorem writes_fresh (sound : fs.vol.Sound) (small : fs.blocksize ≤ 65536)
    (valid : fs.validIno ino = true)
    (blank : Blank inode) : fs.Writes ino { ino := ino, inode := inode, writable := true } [] where
  sound := sound
  small := small
  valid := valid
  own := rfl
  pos := rfl
  low := by simp
  high := Nat.zero_le _
  behind := nofun
  ahead block _ _ := by simp [blank.block]
  sectors := by simp [blank.blocks]
  buffer := nofun
  nothing _ := by simp

/-- `do_write` of the first data of a file: the data is behind the handle, and its length is the
size in the handle. -/
theorem doWrite_writes (sound : fs.vol.Sound) (small : fs.blocksize ≤ 65536)
    (valid : fs.validIno ino = true) (recorded : fs.inodeTab ino = inode) (blank : Blank inode)
    {data : List UInt8} (some : data ≠ [])
    (direct : data.length ≤ EXT2_NDIR_BLOCKS * fs.blocksize) :
    Leads (lib env) (doWrite { ino := ino, inode := inode, writable := true } ino data 0)
      (fun result fs' => result.1 = 0 → fs'.Writes ino result.2.2 data ∧
        result.2.2.bufValid = true ∧
        result.2.2.inode.iSize = data.length) fs := by
  have eio : EIO ≠ 0 := by decide
  have narrow : data.length < 2 ^ 32 := by
    have most := Nat.mul_le_mul_left EXT2_NDIR_BLOCKS small
    exact lt_of_le_of_lt (direct.trans most) (by decide)
  have hasSize : HasSize fs ino 0 { ino := ino, inode := inode, writable := true } :=
    ⟨valid, rfl, blank.size, recorded ▸ blank.size⟩
  have fresh := writes_fresh sound small valid blank
  rw [doWrite, if_neg (Nat.not_lt_zero _), writeData]
  dsimp only
  rw [Nat.mod_eq_of_lt narrow, List.take_length]
  refine leads_lift_bind fun result fs₁ outcome => ?_
  rcases wrote : fs.ext2fsFileWrite { ino := ino, inode := inode, writable := true } data with
    ⟨rc, bytes, file₁, fs₁⟩
  rw [lib_fileWrite wrote] at outcome
  cases outcome
  dsimp only
  split
  · exact fun failed => absurd failed eio
  rename_i succeeded
  obtain rfl := not_not.mp succeeded
  split
  · exact fun failed => absurd failed eio
  have after := hasSize_iff.mpr (ext2fsFileWrite_carries
    (fun _ _ _ => rfl) (hasSize_iff.mp hasSize) wrote).1
  obtain ⟨written, held⟩ := fresh.loop le_rfl (by simpa using direct) wrote
  rw [List.nil_append] at written
  have positive := List.length_pos_iff.mpr some
  have validLater : fs₁.advance.validIno ino = true := after.valid
  rw [if_neg (by rw [after.copy]; omega), if_neg (Nat.not_lt_zero _), setFileSize]
  simp only [leads_bind, leads_lift, leads_pure, lib_time, lib_writeInode,
    ext2fsWriteInode, validLater, if_true, Nat.zero_add]
  have later : fs₁.advance.vol.Sound :=
    ⟨written.sound.firstData, written.sound.count, written.sound.reserved⟩
  refine fun _ => ⟨?_, held (.inl some), Nat.mod_eq_of_lt narrow⟩
  exact ⟨later, written.small, written.valid, written.own, written.pos, written.low, written.high,
    written.behind, written.ahead, written.sectors, written.buffer, written.nothing⟩

/-- A symlink as `op_symlink` stores it: the target and a NUL in the data blocks. -/
structure StoredLink (fs : Fs δ) (ino : Nat) (target : Name) : Prop where
  valid : fs.validIno ino = true
  size : (fs.inodeTab ino).iSize = target.length + 1
  blocks : (fs.inodeTab ino).iBlocks ≠ 0
  bytes : fs.fileBytes (fs.inodeTab ino).iBlock 0 (target.length + 1) = target ++ [0]

/-- The data reaches the disk when the handle is closed. -/
theorem storedLink_of_written {created written : Fs δ} {bytes : Nat} {file file' : File}
    (sound : created.vol.Sound) (small : created.blocksize ≤ 65536)
    (valid : created.validIno ino = true)
    (recorded : created.inodeTab ino = inode) (blank : Blank inode) (short : target.length ≤ 4095)
    (writes : (doWrite { ino := ino, inode := inode, writable :=
      true } ino (target ++ [0]) 0).run (lib env)
      created = ((0, bytes, file), written))
    (flush : written.ext2fsFileFlush file = (0, file', fs')) : StoredLink fs' ino target := by
  have some : target ++ [0] ≠ [] := by simp
  have long : (target ++ [0]).length = target.length + 1 := by simp
  have least : ∀ fs : Fs δ, 1024 ≤ fs.blocksize := fun fs =>
    Nat.mul_le_mul_left 1024 (Nat.one_le_two_pow : 1 ≤ 2 ^ fs.super.sLogBlockSize)
  have ndir : EXT2_NDIR_BLOCKS = 12 := rfl
  have direct : (target ++ [0]).length ≤ EXT2_NDIR_BLOCKS * created.blocksize := by
    have size := least created
    rw [ndir]
    omega
  obtain ⟨behind, held, size⟩ : written.Writes ino file (target ++ [0]) ∧ file.bufValid = true ∧
      file.inode.iSize = (target ++ [0]).length :=
    (doWrite_writes sound small valid recorded blank some direct).outcome writes rfl
  have before : file.blockno < EXT2_NDIR_BLOCKS := by
    have low := behind.low
    rw [behind.pos, long] at low
    have size := least written
    by_contra beyond
    have most := Nat.mul_le_mul_right written.blocksize (Nat.le_of_not_lt beyond)
    rw [ndir] at most
    omega
  obtain ⟨blk, flushed⟩ := behind.flush held before flush
  have bytes := flushed.bytes behind held before
  rw [long] at bytes
  have disk := flushed.disk
  rw [flushed.handle] at disk
  refine ⟨?_, ?_, ?_, bytes⟩
  · rw [validIno_congr flushed.super]
    exact behind.valid
  · rw [disk]
    exact size.trans long
  · rw [disk]
    dsimp only
    rw [behind.sectors_next before]
    have sectors := sectors_pos written.super
    have product := Nat.mul_le_mul_right (written.blocksize / 512) (Nat.le_add_left 1 file.blockno)
    rw [Fs.blocksize] at product ⊢
    omega

section Create

/-- Marking a block keeps the volume sound. -/
theorem sound_marked {vol : Volume} (sound : vol.Sound) (blk : Nat) (block : Block) :
    ((vol.writeBlk blk block).ext2fsBlockAllocStats blk true).Sound := by
  refine ⟨sound.firstData, sound.count, fun first => ?_⟩
  rw [Volume.ext2fsBlockAllocStats_blockMap]
  split
  · rw [Function.update_apply]
    split
    · rfl
    · exact sound.reserved first
  · exact sound.reserved first

/-- Giving a directory a block keeps the volume sound. -/
theorem sound_expandDir (sound : fs.vol.Sound) (dir : Nat) :
    (fs.ext2fsExpandDir env dir).2.vol.Sound := by
  have proc : ∀ vol blk count es, vol.Sound → (expandDirProc vol blk count es).2.2.1.Sound := by
    intro vol blk count es sound
    simp only [expandDirProc]
    split
    · exact sound
    · split
      · exact sound
      · exact sound_marked sound _ _
  have iterated : (fs.ext2fsBlockIterate2 dir false { append :=
    true } expandDirProc {}).2.2.vol.Sound := by
    simp only [ext2fsBlockIterate2]
    split
    · exact sound
    · rename_i inode _
      have top := @Volume.iterateBlocks_keeps _ { append := true } expandDirProc
        (fun vol _ => vol.Sound) proc
        (fun _ _ _ _ sound => ⟨sound.firstData, sound.count, sound.reserved⟩) fs.vol
          inode.iBlock {} sound
      split
      · exact sound
      · split
        · simp only [ext2fsWriteInode]
          split <;> exact top
        · exact top
  simp only [ext2fsExpandDir]
  split
  · split
    · exact iterated
    · split
      · exact iterated
      · simp only [ext2fsWriteInode]
        split <;> exact iterated
  · exact sound

/-- The volume is sound and has the superblock. -/
def Grounded (super : Super) (fs : Fs δ) : Prop := fs.vol.Sound ∧ fs.super = super

variable {super : Super}

theorem grounded_writeInode (grounded : Grounded super fs) (ino : Nat) (inode : Inode) :
    Grounded super (fs.ext2fsWriteInode ino inode).2 := by
  rw [ext2fsWriteInode]
  split <;> exact grounded

theorem keeps_grounded_doLink (dir : Nat) (name : Name) (ino filetype : Nat) :
    Keeps (lib env) (Grounded super) (doLink dir name ino filetype) := by
  have link : Keeps (lib env) (Grounded super) (lift (.link dir name ino filetype)) := by
    refine keeps_lift fun fs grounded => ?_
    change Grounded super (fs.ext2fsLink env dir name ino filetype).2
    simp only [ext2fsLink]
    generalize (if fs.super.filetype then filetype % 8 else 0) = fileType
    split
    · split
      · exact grounded
      · split
        · refine grounded_writeInode ?_ _ _
          exact grounded
        · exact grounded
    · exact grounded
  have expand : Keeps (lib env) (Grounded super) (lift (.expandDir dir)) := by
    refine keeps_lift fun fs grounded => ⟨sound_expandDir grounded.1 dir, ?_⟩
    exact (ext2fsExpandDir_frame env fs dir dir).1.trans grounded.2
  rw [doLink]
  refine keeps_bind link fun rc => keeps_ite
    (keeps_bind expand fun rc => keeps_ite (keeps_pure _) ?_)
    (keeps_pure _)
  exact keeps_bind link fun rc => keeps_pure _

/-- What `do_create` makes: a blank inode with a number that is not reserved. -/
theorem doCreate_blank (grounded : Grounded super fs) (perms : Perms) (parent : Nat) (name : Name)
    (mode filetype : Nat) :
    Leads (lib env) (doCreate perms parent name mode filetype) (fun result fs' =>
      Grounded super fs' ∧ ∀ ino inode, result = .ok (ino, inode) →
        Blank inode ∧ super.sFirstIno ≤ ino) fs := by
  have failed : ∀ (rc : Errcode) (fs' : Fs δ), Grounded super fs' →
      Grounded super fs' ∧ ∀ ino inode, (.error rc : Except Errcode (Nat × Inode)) =
        .ok (ino, inode) →
        Blank inode ∧ super.sFirstIno ≤ ino := fun rc fs' kept => ⟨kept, nofun⟩
  rw [doCreate, leads_bind]
  refine leads_readInode (failed _ _ grounded) fun _ => ?_
  dsimp only
  split
  · exact failed _ _ grounded
  refine leads_lift_bind fun found _ outcome => ?_
  obtain ⟨rfl, rfl⟩ := Prod.mk.inj outcome
  split
  · exact failed _ _ grounded
  rename_i new isNew
  have reserved : super.sFirstIno ≤ new := by
    rw [← grounded.2]
    exact newInode_reserved isNew
  refine leads_lift_bind fun now _ outcome => ?_
  obtain ⟨rfl, rfl⟩ := Prod.mk.inj outcome
  have later : Grounded super fs.advance :=
    ⟨⟨grounded.1.firstData, grounded.1.count, grounded.1.reserved⟩, grounded.2⟩
  refine leads_lift_bind fun rc written outcome => ?_
  have keptWritten : Grounded super written := by
    have next := congrArg Prod.snd outcome
    change (fs.advance.ext2fsWriteInode new _).2 = written at next
    rw [← next]
    exact grounded_writeInode later _ _
  split
  · exact failed _ _ keptWritten
  refine leads_lift_bind fun _ taken outcome => ?_
  obtain ⟨-, rfl⟩ := Prod.mk.inj outcome
  refine leads_bind_of fun rc linked outcome => ?_
  have keptTaken : Grounded super (written.ext2fsInodeAllocStats2 new true false) := keptWritten
  have keptLinked : Grounded super linked :=
    (keeps_grounded_doLink parent name new filetype _ keptTaken).outcome outcome
  split
  · exact failed _ _ keptLinked
  refine ⟨keptLinked, fun ino inode same => ?_⟩
  cases same
  refine ⟨?_, reserved⟩
  cases perms <;> exact ⟨rfl, rfl, rfl⟩

end Create

/-- What was stored can be read. -/
theorem StoredLink.reply {number : Nat} (stored : StoredLink fs (EXT2FS_INO number) target)
    (plain : 0 ∉ target) (short : target.length ≤ 4095) (ctx : FuseCtx) (behind : List UInt8) :
    ((opReadlink ctx number behind).run (lib env) fs).1 = [.readlink target] := by
  have narrow : (fs.inodeTab (EXT2FS_INO number)).iSize < 2 ^ 32 := by
    rw [stored.size]
    omega
  have bytes : fs.linkBytes (EXT2FS_INO number) = target ++ [0] := by
    rw [linkBytes, if_neg stored.blocks, stored.size, stored.bytes]
  have ends : cString (target ++ ([0] ++ behind)) = target := (cString_append plain _).mpr rfl
  rw [run_opReadlink stored.valid narrow, bytes, List.append_assoc, ends]

/-- Reading a link changes no size, no pointer and no block. -/
theorem linkRead_kept (fs : Fs δ) (number ino : Nat) :
    ((fs.linkRead env number).inodeTab ino).iSize = (fs.inodeTab ino).iSize ∧
      ((fs.linkRead env number).inodeTab ino).iBlocks = (fs.inodeTab ino).iBlocks ∧
      ((fs.linkRead env number).inodeTab ino).iBlock = (fs.inodeTab ino).iBlock ∧
      (fs.linkRead env number).fileBytes = fs.fileBytes ∧
      (fs.linkRead env number).super = fs.super := by
  rw [linkRead]
  split
  · exact ⟨rfl, rfl, rfl, rfl, rfl⟩
  · refine ⟨?_, ?_, ?_, rfl, rfl⟩
    all_goals
      by_cases same : ino = number
      · subst same
        simp
      · simp [same]

/-- Reading any link leaves the stored one as it is. -/
theorem StoredLink.read (stored : StoredLink fs ino target) (ctx : FuseCtx) (number : Nat)
    (behind : List UInt8) :
    StoredLink ((opReadlink ctx number behind).run (lib env) fs).2 ino target := by
  by_cases valid : fs.validIno (EXT2FS_INO number) = true
  · rw [run_opReadlink_any valid]
    obtain ⟨size, blocks, block, bytes, super⟩ := @linkRead_kept δ env fs (EXT2FS_INO number) ino
    refine ⟨(validIno_congr super ino).trans stored.valid, size.trans stored.size, ?_, ?_⟩
    · rw [blocks]
      exact stored.blocks
    · rw [bytes, block]
      exact stored.bytes
  · have unread : ((opReadlink ctx number behind).run (lib env) fs).2 = fs := by
      simp [opReadlink, readInode, ext2fsReadInode, valid]
    rw [unread]
    exact stored

/-- The filesystem after some `op_readlink` requests, each with its caller, its inode and what is in
memory behind its buffer. -/
def afterReadlinks (env : Env δ) (fs : Fs δ)
    (requests : List (FuseCtx × Nat × List UInt8)) : Fs δ :=
  requests.foldl (fun fs request =>
    ((opReadlink request.1 request.2.1 request.2.2).run (lib env) fs).2) fs

/-- Further readlinks leave the link stored. -/
theorem StoredLink.reads (stored : StoredLink fs ino target)
    (requests : List (FuseCtx × Nat × List UInt8)) :
    StoredLink (afterReadlinks env fs requests) ino target := by
  induction requests generalizing fs with
  | nil => exact stored
  | cons request requests inductionHypothesis =>
      exact inductionHypothesis (stored.read request.1 request.2.1 request.2.2)

/-- A target that `op_symlink` has stored is what `op_readlink` replies, however often links have
been read since. -/
theorem symlink_round_trip (sound : fs.vol.Sound) (small : fs.blocksize ≤ 65536)
    (reserved : EXT2_ROOT_INO < fs.super.sFirstIno) (plain : 0 ∉ target)
    (short : target.length ≤ 4095)
    {ctx : FuseCtx} {parent : Nat} {name : Name} {generation : Nat} {stat : Stat}
    (replied : ((opSymlink ctx target parent name).run (lib env) fs).1 =
      [.entry ino generation stat])
    (requests : List (FuseCtx × Nat × List UInt8)) (reader : FuseCtx) (behind : List UInt8) :
    ((opReadlink reader ino behind).run (lib env) (afterReadlinks env
      ((opSymlink ctx target parent name).run (lib env) fs).2 requests)).1 =
      [.readlink target] := by
  have cases := @opSymlink_cases δ fs env ctx target parent name
  rw [Leads] at cases
  generalize (opSymlink ctx target parent name).run (lib env) fs = outcome at replied cases
  obtain ⟨rc, -, failed⟩ | ⟨ino', generation', stat', replies, symlink⟩ := cases
  · simp [failed] at replied
  obtain rfl : ino = ino' := by
    rcases replies with only | late
    · rw [only] at replied
      cases replied
      rfl
    · simp [late] at replied
  obtain ⟨inode, created, bytes, file, written, file', creates, valid, recorded, -,
    writes, flush, -⟩ :=
    symlink
  have grounded : Grounded fs.super fs := ⟨sound, rfl⟩
  obtain ⟨⟨soundLater, super⟩, made⟩ := (doCreate_blank grounded (some ctx) (EXT2FS_INO parent) name
    (LINUX_S_IFLNK ||| 0o777) EXT2_FT_UNKNOWN).outcome creates
  obtain ⟨blank, first⟩ := made ino inode rfl
  have smallLater : created.blocksize ≤ 65536 := by
    rw [Fs.blocksize, super]
    exact small
  have stored := storedLink_of_written soundLater smallLater valid recorded blank short writes flush
  have number : EXT2FS_INO ino = ino := by
    rw [EXT2FS_INO, if_neg]
    intro root
    omega
  have later : StoredLink (afterReadlinks env outcome.2 requests) (EXT2FS_INO ino) target := by
    rw [number]
    exact stored.reads requests
  exact later.reply plain short reader behind

/-- A target of three blocks. -/
def longTarget : Name := List.replicate 3000 0x61

/-- What a symlink to it is replied with, and what it leaves. -/
def longLink : List Reply × Fs (List Dirent) :=
  (opSymlink ⟨0, 0⟩ longTarget 1 [0x63]).run (lib listEnv) twoFiles

/-- It is read twice. -/
theorem symlink_round_trip_long :
    ∃ ino generation stat, longLink.1 = [.entry ino generation stat] ∧
      ((opReadlink ⟨0, 0⟩ ino [0x78]).run (lib listEnv)
        (afterReadlinks listEnv longLink.2 [(⟨0, 0⟩, ino, [])])).1 = [.readlink longTarget] := by
  have succeeded : longLink.1.all Reply.ok = true := by decide +kernel
  have cases := @opSymlink_cases _ twoFiles listEnv ⟨0, 0⟩ longTarget 1 [0x63]
  rw [Leads, ← longLink] at cases
  obtain ⟨rc, nonzero, failed⟩ | ⟨ino, generation, stat, replied, -⟩ := cases
  · rw [failed] at succeeded
    exact absurd (by simpa [Reply.ok] using succeeded) nonzero
  obtain only | late := replied
  swap
  · rw [late] at succeeded
    cases succeeded
  refine ⟨ino, generation, stat, only, ?_⟩
  exact symlink_round_trip ⟨by decide, by decide, by decide⟩ (by decide) (by decide)
    (fun nul => by cases List.eq_of_mem_replicate nul)
      (by rw [longTarget, List.length_replicate]; decide)
    only [(⟨0, 0⟩, ino, [])] ⟨0, 0⟩ [0x78]

end RoundTrip

end Ext2Fuse
