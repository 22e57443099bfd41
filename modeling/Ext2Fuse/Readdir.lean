import Mathlib.Algebra.Order.BigOperators.Group.List
import Ext2Fuse.FuseDirent
import Ext2Fuse.DirRecords

/-!
# Directory listings

`op_readdir` rebuilds the record stream of the whole directory at every request and
cuts the wanted piece out of it. A listing is a paging session over these requests:
`listing` is the session. Over a directory that stays as it is, the listing is
lossless; between two requests the directory may change, and then it matters whether
the change is behind the point where the listing resumes.
-/

namespace Ext2Fuse

open Lib Lib.Paging Program

/-- The bytes of a reply to `op_readdir`. -/
def replyBytes : List Reply → List UInt8
  | [.buf bytes] => bytes
  | _ => []

/-- The listing of a directory: request `index` is answered in state `states index` and
asks for `sizes index` bytes. -/
def listing {δ : Type} (fuse : FuseDir) (parse : List UInt8 → List ((Name × Nat) × Nat))
    (env : Env δ) (ctx : FuseCtx) (ino : Nat) (states : Nat → Fs δ) (sizes : Nat → Nat) :
    Paging.Session (Name × Nat) UInt8 where
  parse := parse
  replyAt index offset := replyBytes
    ((opReaddir fuse ctx ino (sizes index) offset).run (Fs.lib env) (states index)).1

section Stream

variable {fuse : FuseDir} {parse : List UInt8 → List ((Name × Nat) × Nat)}

theorem cString_of_noNul {name : Name} (noNul : 0 ∉ name) : cString name = name := by
  induction name with
  | nil => rfl
  | cons byte name inductionHypothesis =>
      obtain ⟨first, rest⟩ : byte ≠ 0 ∧ 0 ∉ name := by
        refine ⟨fun zero => noNul (by simp [zero]), fun member => noNul ?_⟩
        exact List.mem_cons_of_mem _ member
      simpa [cString, first] using inductionHypothesis rest

/-- The buffer `op_readdir` builds is the stream of the entries. -/
theorem walked_eq (protocol : fuse.Protocol parse) {entries : List Dirent}
    (listable : Listable entries) (buf : List UInt8) :
    fuse.walked entries buf =
      buf ++ stream (direntCodec fuse parse) buf.length (entries.map Dirent.listed) := by
  induction entries generalizing buf with
  | nil => simp [FuseDir.walked, stream]
  | cons entry entries inductionHypothesis =>
      have noNul := (listable entry (List.mem_cons_self ..)).1
      have rest : Listable entries := fun other member =>
        listable other (List.mem_cons_of_mem _ member)
      have first : fuse.walked (entry :: entries) buf =
          fuse.walked entries (fuse.added buf (cString entry.name) entry.inode) := rfl
      simp [first, FuseDir.added, cString_of_noNul noNul, inductionHypothesis rest, stream,
        direntCodec, Dirent.listed, protocol.length_addDirent]

theorem replyBytes_replyBufLimited (buf : List UInt8) (offset size : Nat) :
    replyBytes [replyBufLimited buf offset size] = page buf offset size := by
  simp only [replyBufLimited, page]
  split
  · simp only [replyBytes]
    rw [Nat.min_comm, ← List.length_drop, ← List.take_take, List.take_length]
  · rw [List.drop_eq_nil_of_le (by omega), List.take_nil]
    rfl

end Stream

variable {δ : Type} {fuse : FuseDir} {parse : List UInt8 → List ((Name × Nat) × Nat)}
  {env : Env δ} {ctx : FuseCtx} {ino : Nat}

/-- There is memory for every name and every record. -/
theorem run_walkEntries (fs : Fs δ) (entries : List Dirent) (buf : List UInt8) :
    (walkEntries fuse entries buf).run (Fs.lib env) fs = (some (fuse.walked entries buf), fs) := by
  induction entries generalizing buf with
  | nil => rfl
  | cons entry entries inductionHypothesis => exact inductionHypothesis _

/-- `op_readdir` on a directory the iterator can read replies with the wanted piece of
its stream, and leaves the filesystem alone. -/
theorem run_opReaddir (fs : Fs δ) (size offset : Nat) {entries : List Dirent}
    (readable : fs.ext2fsDirIterate env (EXT2FS_INO ino) = (0, entries)) :
    (opReaddir fuse ctx ino size offset).run (Fs.lib env) fs =
      ([replyBufLimited (fuse.walked entries []) offset size], fs) := by
  have iterated : (Fs.lib env).exec (.dirIterate (EXT2FS_INO ino)) fs = ((0, entries), fs) :=
    congrArg (·, fs) readable
  simp [opReaddir, checkPerms, doPermissionsChecks, iterated, run_walkEntries]

/-- A listing of readable directories is served from the streams of their entries. -/
theorem listing_serves (protocol : fuse.Protocol parse) {states : Nat → Fs δ}
    {sizes : Nat → Nat} {entries : Nat → List Dirent}
    (readable : ∀ index, (states index).ext2fsDirIterate env (EXT2FS_INO ino) =
      (0, entries index))
    (listable : ∀ index, Listable (entries index))
    (bounded : ∀ index, total (direntCodec fuse parse) ((entries index).map Dirent.listed) <
      2 ^ 63) :
    (listing fuse parse env ctx ino states sizes).Serves (direntCodec fuse parse) (2 ^ 63 - 1)
      (fun index => (entries index).map Dirent.listed) sizes where
  parse_eq := rfl
  replyAt_eq index offset := by
    simp only [listing, run_opReaddir (states index) _ _ (readable index),
      replyBytes_replyBufLimited, walked_eq protocol (listable index), List.nil_append,
      List.length_nil]
  lawful index := protocol.lawful (listable index)
  bounded index := Nat.le_sub_one_of_lt (bounded index)

section Blocks

open DirBlock

theorem length_recordOffsets_le (bs : Nat) (buf : Block) (bound offset : Nat) :
    (recordOffsets bs buf bound offset).length ≤ bound := by
  induction bound generalizing offset with
  | zero => simp [recordOffsets]
  | succ bound inductionHypothesis =>
      simp only [recordOffsets]
      split
      · simpa using inductionHypothesis _
      · simp

theorem length_liveEntries_le (bs : Nat) (blocks : List Block) :
    (liveEntries bs blocks).length ≤ blocks.length * bs := by
  induction blocks with
  | nil => simp [liveEntries]
  | cons block blocks inductionHypothesis =>
      have first : (liveFrom bs block bs 0).length ≤ bs := by
        rw [liveFrom, List.length_map]
        exact (List.length_filter_le ..).trans (length_recordOffsets_le ..)
      simp only [liveEntries, List.flatMap_cons, List.length_append, List.length_cons] at *
      rw [Nat.add_mul]
      omega

/-- A live entry is a record with a name of at most 255 bytes and a 32-bit inode
number. -/
theorem mem_liveEntries {bs : Nat} {blocks : List Block} {entry : Dirent}
    (member : entry ∈ liveEntries bs blocks) :
    entry.name.length < 256 ∧ entry.inode < 2 ^ 32 := by
  simp only [liveEntries, liveFrom, List.mem_flatMap, List.mem_map] at member
  obtain ⟨block, _, offset, _, rfl⟩ := member
  simp only [direntAt, nameAt, Bytes.length_read, nameLen8At, inodeAt]
  exact ⟨Nat.mod_lt _ (by omega), Bytes.getU32_lt _ _⟩

/-- The stream of a directory that fits on a volume stays below 2^63 bytes. -/
theorem total_liveEntries_lt (protocol : fuse.Protocol parse) {bs : Nat} (small : bs ≤ 2 ^ 16)
    {blocks : List Block} (few : blocks.length < 2 ^ 32) :
    total (direntCodec fuse parse) ((liveEntries bs blocks).map Dirent.listed) < 2 ^ 63 := by
  have each :
    ∀ size ∈ ((liveEntries bs blocks).map Dirent.listed).map (direntCodec fuse parse).size,
      size ≤ 320 := by
    intro size member
    simp only [List.map_map, List.mem_map] at member
    obtain ⟨entry, live, rfl⟩ := member
    have length := (mem_liveEntries live).1
    have bound := protocol.direntSize_le entry.name.length
    simp only [Function.comp, direntCodec, Dirent.listed]
    omega
  have sum := List.sum_le_card_nsmul _ _ each
  have count : (liveEntries bs blocks).length < 2 ^ 32 * 2 ^ 16 :=
    calc (liveEntries bs blocks).length ≤ blocks.length * bs := length_liveEntries_le ..
      _ ≤ blocks.length * 2 ^ 16 := Nat.mul_le_mul_left _ small
      _ < 2 ^ 32 * 2 ^ 16 := Nat.mul_lt_mul_of_pos_right few (by norm_num)
  simp only [List.length_map, nsmul_eq_mul, Nat.cast_id] at sum
  simp only [total]
  omega

/-- The directory a listing is about, as a request finds it: sound records in blocks the
volume can hold, with names that are C strings. -/
structure DirSound (super : Super) (ino : Nat) (fs : Fs (List Block)) : Prop where
  super_eq : fs.super = super
  isDirectory : fs.ext2fsCheckDirectory (EXT2FS_INO ino) = 0
  wellFormed : WellFormed super.blocksize (fs.dirs (EXT2FS_INO ino))
  few : (fs.dirs (EXT2FS_INO ino)).length < 2 ^ 32
  noNul : ∀ entry ∈ liveEntries super.blocksize (fs.dirs (EXT2FS_INO ino)), 0 ∉ entry.name

/-- What a listing of the directory is to show: its live entries in directory order. -/
def listed (super : Super) (ino : Nat) (fs : Fs (List Block)) : List (Name × Nat) :=
  (liveEntries super.blocksize (fs.dirs (EXT2FS_INO ino))).map Dirent.listed

variable {env : Env (List Block)} {super : Super} {sizes : Nat → Nat}

/-- A sound directory is read entry for entry. -/
theorem DirSound.readable {fs : Fs (List Block)} (sound : DirSound super ino fs)
    (envDir : env.dir = dirLib super.blocksize) :
    fs.ext2fsDirIterate env (EXT2FS_INO ino) =
      (0, liveEntries super.blocksize (fs.dirs (EXT2FS_INO ino))) := by
  simp [Fs.ext2fsDirIterate, sound.isDirectory, envDir, sound.wellFormed.iterate_eq]

/-- The entries of a sound directory can be listed. -/
theorem DirSound.listable {fs : Fs (List Block)} (sound : DirSound super ino fs) :
    Listable (liveEntries super.blocksize (fs.dirs (EXT2FS_INO ino))) := by
  intro entry member
  obtain ⟨short, small⟩ := mem_liveEntries member
  exact ⟨sound.noNul entry member, Nat.le_of_lt_succ short, small⟩

/-- A listing of sound directories is served from the streams of their entries. -/
theorem listing_serves_blocks (envDir : env.dir = dirLib super.blocksize)
    (blocksizeLe : super.blocksize ≤ 2 ^ 16) (protocol : fuse.Protocol parse)
    {states : Nat → Fs (List Block)} (sound : ∀ index, DirSound super ino (states index)) :
    (listing fuse parse env ctx ino states sizes).Serves (direntCodec fuse parse) (2 ^ 63 - 1)
      (fun index => listed super ino (states index)) sizes :=
  listing_serves protocol (fun index => (sound index).readable envDir)
    (fun index => (sound index).listable) fun index =>
      total_liveEntries_lt protocol blocksizeLe (sound index).few

/-- A volume of one group with blocks of 1024 bytes. -/
def smallSuper : Super where
  sLogBlockSize := 0
  sInodesCount := 16
  sBlocksCount := 64
  sFirstDataBlock := 1
  sFirstIno := 11
  sInodesPerGroup := 16
  sBlocksPerGroup := 64
  filetype := true

/-- The directory primitives over its blocks, with a clock and a cache that stand still. -/
def smallEnv : Env (List Block) where
  dir := dirLib smallSuper.blocksize
  time _ := 0
  cached _ _ := true

/-- A root directory with the files `a` and `b`, inodes 11 and 12. -/
def smallRoot : List Block :=
  let first := smallEnv.dir.newDirBlock 2 2 EXT2_FT_DIR
  let second := (smallEnv.dir.link first [0x61] 11 EXT2_FT_REG_FILE).2
  (smallEnv.dir.link second [0x62] 12 EXT2_FT_REG_FILE).2

/-- The volume with this root directory. -/
def smallFs : Fs (List Block) where
  vol :=
    { super := smallSuper
      blockMap := fun blk => decide (blk < 20)
      sFreeBlocksCount := 44
      bgFreeBlocksCount := fun _ => 44
      io := fun _ _ => 0
      tick := 0 }
  inodeTab ino :=
    if ino = 2 then
      { iMode := LINUX_S_IFDIR ||| 0o755, iLinksCount := 2, iSize := 1024
        iBlock := Function.update (fun _ => 0) 0 19 }
    else if ino = 11 ∨ ino = 12 then { iMode := LINUX_S_IFREG ||| 0o644, iLinksCount := 1 }
    else {}
  inodeMap ino := decide (ino < 13)
  sFreeInodesCount := 4
  bgFreeInodesCount _ := 4
  bgUsedDirsCount _ := 1
  dirs _ := smallRoot

theorem smallFs_sound : DirSound smallSuper 1 smallFs where
  super_eq := rfl
  isDirectory := by decide
  wellFormed := by
    have passed : ∀ block ∈ smallRoot, chainFrom smallSuper.blocksize block 8 0 = true := by
      decide +kernel
    exact fun block member => chain_of_chainFrom (passed block member)
  few := by decide +kernel
  noNul := by decide +kernel

/-- Directory paging is lossless: over a directory that does not change meanwhile,
requests with room for every record end with an empty reply, and the complete records
received are its live entries, each once and in directory order. -/
theorem readdir_lossless (envDir : env.dir = dirLib super.blocksize)
    (blocksizeLe : super.blocksize ≤ 2 ^ 16) (protocol : fuse.Protocol parse)
    {states : Nat → Fs (List Block)} (sound : ∀ index, DirSound super ino (states index))
    {items : List (Name × Nat)} (unchanged : ∀ index, listed super ino (states index) = items)
    (large : ∀ index, ∀ item ∈ items, fuse.direntSize item.1.length ≤ sizes index) :
    ∃ count, (listing fuse parse env ctx ino states sizes).reply count = [] ∧
      (∀ index < count, (listing fuse parse env ctx ino states sizes).reply index ≠ []) ∧
      (listing fuse parse env ctx ino states sizes).received count = items :=
  (listing_serves_blocks envDir blocksizeLe protocol sound).complete_of_constant unchanged large

/-- Listing `smallFs` one record at a time gives its four entries. -/
theorem readdir_lossless_small :
    ∃ count, (listing wireDir wireParse smallEnv ⟨0, 0⟩ 1 (fun _ => smallFs) fun _ => 40).reply
        count = [] ∧
      (∀ index < count, (listing wireDir wireParse smallEnv ⟨0, 0⟩ 1 (fun _ => smallFs)
        fun _ => 40).reply index ≠ []) ∧
      (listing wireDir wireParse smallEnv ⟨0, 0⟩ 1 (fun _ => smallFs) fun _ => 40).received count =
        [([0x2e], 2), ([0x2e, 0x2e], 2), ([0x61], 11), ([0x62], 12)] :=
  readdir_lossless rfl (by decide) wireDir_protocol (fun _ => smallFs_sound)
    (fun _ => by decide +kernel) (fun _ => by decide +kernel)

/-- A request that may come between two requests of a listing. -/
inductive Change where
  | unlink (parent : Nat) (name : Name)
  | create (parent : Nat) (name : Name) (mode : Nat) (flags : OpenFlags)
  | mkdir (parent : Nat) (name : Name)
  | rename (parent : Nat) (name : Name) (newparent : Nat) (newname : Name)

/-- Its handler. -/
def Change.handler (ctx : FuseCtx) : Change → Prog (List Block) (List Reply)
  | .unlink parent name => opUnlink ctx parent name
  | .create parent name mode flags => opCreate ctx parent name mode flags
  | .mkdir parent name => opMkdir ctx parent name
  | .rename parent name newparent newname => opRename ctx parent name newparent newname

/-- The filesystem after one such request. -/
def Change.apply (env : Env (List Block)) (ctx : FuseCtx) (fs : Fs (List Block))
    (change : Change) : Fs (List Block) :=
  ((change.handler ctx).run (Fs.lib env) fs).2

/-- The filesystem each request of a listing finds, when `changes index` are handled
between the requests `index` and `index + 1`. The listing itself changes nothing. -/
def changedStates (env : Env (List Block)) (ctx : FuseCtx) (fs : Fs (List Block))
    (changes : Nat → List Change) : Nat → Fs (List Block)
  | 0 => fs
  | index + 1 =>
      (changes index).foldl (Change.apply env ctx) (changedStates env ctx fs changes index)

/-- Each of `changes`, handled one after the other, leaves the records up to `offset`
where they are. -/
def AllBehind (codec : Codec (Name × Nat) UInt8) (env : Env (List Block)) (ctx : FuseCtx)
    (super : Super) (ino offset : Nat) : Fs (List Block) → List Change → Prop
  | _, [] => True
  | fs, change :: changes =>
      KeepsBefore codec offset (listed super ino fs) (listed super ino (change.apply env ctx fs)) ∧
        AllBehind codec env ctx super ino offset (change.apply env ctx fs) changes

/-- Changes behind the resume offset leave what was listed as the front of the list. -/
theorem AllBehind.isPrefix {codec : Codec (Name × Nat) UInt8}
    (sizePos : ∀ item, 0 < codec.size item)
    {fs : Fs (List Block)} {changes : List Change} {first : List (Name × Nat)}
    (behind : AllBehind codec env ctx super ino (total codec first) fs changes)
    (received : first <+: listed super ino fs) :
    first <+: listed super ino (changes.foldl (Change.apply env ctx) fs) := by
  induction changes generalizing fs with
  | nil => exact received
  | cons change changes inductionHypothesis =>
      obtain ⟨keeps, rest⟩ := behind
      exact inductionHypothesis rest (keeps.isPrefix sizePos received)

/-- A listing whose directory changes only behind the points where it resumes: every
request is made at a record boundary of the stream it is answered from, and when the
listing ends, an entry that was there once at every request has been returned once. -/
theorem readdir_of_allBehind (envDir : env.dir = dirLib super.blocksize)
    (blocksizeLe : super.blocksize ≤ 2 ^ 16) (protocol : fuse.Protocol parse)
    {fs : Fs (List Block)} {changes : Nat → List Change}
    (sound : ∀ index, DirSound super ino (changedStates env ctx fs changes index))
    (large : ∀ index, ∀ item ∈ listed super ino (changedStates env ctx fs changes index),
      fuse.direntSize item.1.length ≤ sizes index)
    (behind : ∀ index, AllBehind (direntCodec fuse parse) env ctx super ino
      ((listing fuse parse env ctx ino (changedStates env ctx fs changes) sizes).offset (index + 1))
      (changedStates env ctx fs changes index) (changes index)) :
    (∀ index, ∃ first, first <+: listed super ino (changedStates env ctx fs changes index) ∧
      (listing fuse parse env ctx ino (changedStates env ctx fs changes) sizes).offset index =
        total (direntCodec fuse parse) first) ∧
    ∀ count, (listing fuse parse env ctx ino (changedStates env ctx fs changes) sizes).reply count =
        [] →
      ∀ item, (∀ index ≤ count,
          (listed super ino (changedStates env ctx fs changes index)).count item = 1) →
        ((listing fuse parse env ctx ino (changedStates env ctx fs changes) sizes).received
          count).count item = 1 := by
  have serves : (listing fuse parse env ctx ino (changedStates env ctx fs changes) sizes).Serves
      (direntCodec fuse parse) (2 ^ 63 - 1)
      (fun index => listed super ino (changedStates env ctx fs changes index)) sizes :=
    listing_serves_blocks envDir blocksizeLe protocol sound
  have coherent := serves.coherent_of_keeps fun index first atEnd received => by
    have kept := behind index
    rw [atEnd] at kept
    exact kept.isPrefix (fun item => protocol.direntSize_pos _) received
  refine ⟨fun index => ⟨_, coherent index, serves.offset_eq coherent index⟩, ?_⟩
  intro count ended item present
  rw [(serves.reply_eq_nil_iff coherent (large count)).mp ended]
  exact present count (Nat.le_refl _)

/-- Removing `b` after `.`, `..` and `a` have been returned. -/
def lateChanges : Nat → List Change
  | 0 => [.unlink 1 [0x62]]
  | _ + 1 => []

theorem lateChanges_states (index : Nat) :
    changedStates smallEnv ⟨0, 0⟩ smallFs lateChanges (index + 1) =
      Change.apply smallEnv ⟨0, 0⟩ smallFs (.unlink 1 [0x62]) := by
  induction index with
  | zero => rfl
  | succ index inductionHypothesis => exact inductionHypothesis

/-- With these changes no offset is inside a record and `a` is returned once. -/
theorem readdir_of_allBehind_late :
    (∀ index, ∃ first,
      first <+: listed smallSuper 1 (changedStates smallEnv ⟨0, 0⟩ smallFs lateChanges index) ∧
      (listing wireDir wireParse smallEnv ⟨0, 0⟩ 1
        (changedStates smallEnv ⟨0, 0⟩ smallFs lateChanges)
        fun _ => 96).offset index = total (direntCodec wireDir wireParse) first) ∧
    ((listing wireDir wireParse smallEnv ⟨0, 0⟩ 1
      (changedStates smallEnv ⟨0, 0⟩ smallFs lateChanges) fun _ => 96).received 1).count
        ([0x61], 11) = 1 := by
  have sound : ∀ index,
      DirSound smallSuper 1 (changedStates smallEnv ⟨0, 0⟩ smallFs lateChanges index) := by
    intro index
    cases index with
    | zero => exact smallFs_sound
    | succ index =>
        rw [lateChanges_states]
        exact
          { super_eq := rfl
            isDirectory := by decide +kernel
            wellFormed := fun block member => chain_of_chainFrom
              ((by decide +kernel : ∀ block ∈ (Change.apply smallEnv ⟨0, 0⟩ smallFs
                (.unlink 1 [0x62])).dirs (EXT2FS_INO 1),
                  chainFrom smallSuper.blocksize block 8 0 = true) block member)
            few := by decide +kernel
            noNul := by decide +kernel }
  have large : ∀ index, ∀ item ∈ listed smallSuper 1
      (changedStates smallEnv ⟨0, 0⟩ smallFs lateChanges index),
      wireDir.direntSize item.1.length ≤ 96 := by
    intro index
    cases index with
    | zero => decide +kernel
    | succ index =>
        rw [lateChanges_states]
        decide +kernel
  obtain ⟨boundaries, once⟩ := readdir_of_allBehind rfl (by decide) wireDir_protocol sound
    large fun index => by
      cases index with
      | zero => exact ⟨by unfold KeepsBefore; decide +kernel, trivial⟩
      | succ index => exact trivial
  refine ⟨boundaries, once 1 (by decide +kernel) _ fun index atMost => ?_⟩
  obtain rfl | rfl : index = 0 ∨ index = 1 := by omega
  · decide +kernel
  · decide +kernel

/-- Removing an entry a listing has already returned makes it skip another: of `.`,
`..`, `a` and `b` the first request returns three, `a` is removed, and the second
request ends the listing though `b` has been there all the time. -/
theorem readdir_skips_after_unlink :
    let states := changedStates smallEnv ⟨0, 0⟩ smallFs fun _ => [.unlink 1 [0x61]]
    let session := listing wireDir wireParse smallEnv ⟨0, 0⟩ 1 states fun _ => 96
    (listed smallSuper 1 (states 0)).count ([0x62], 12) = 1 ∧
      (listed smallSuper 1 (states 1)).count ([0x62], 12) = 1 ∧
      session.reply 1 = [] ∧ (session.received 1).count ([0x62], 12) = 0 := by
  decide +kernel

end Blocks

end Ext2Fuse
