import Ext2Fuse.Callers
import Ext2Fuse.DirLink
import Ext2Fuse.FileFrames
import Ext2Fuse.NsRuns

/-!
# A name and what it stands for

Over directories of blocks: which library calls leave a name of a directory standing for
the inode it stands for, and with it every request that is about other names. The
conditions on the calls are that `ext2fs_unlink` does not come upon the first record of a
later block, and that `ext2fs_link` gets a name a record can hold.
-/

namespace Ext2Fuse

open Lib Program Fs DirBlock

/-- The condition on a library call. -/
def Careful (bs : Nat) : ∀ β, LibCall (List Block) β → Fs (List Block) → Prop
  | _, .unlink dir name ino, fs => ¬ StartsBlock bs (fs.dirs dir) name ino
  | _, .link _ name _ _, _ => name.length ≤ 255
  | _, _, _ => True

/-- The directory `parent` is in use, and `name` stands there for `number`, or for nothing. All
directories are well formed. -/
structure Pinned (super : Super) (parent : Nat) (name : Name) (number : Option Nat)
    (fs : Fs (List Block)) : Prop where
  super_eq : fs.super = super
  few : super.sInodesCount < 2 ^ 32
  wellFormed : ∀ dir, WellFormed super.blocksize (fs.dirs dir)
  valid : fs.validIno parent = true
  isDir : LINUX_S_ISDIR (fs.inodeTab parent).iMode = true
  used : fs.inodeMap parent = true
  number_eq : ((liveEntries super.blocksize (fs.dirs parent)).find?
    fun entry => entry.name == name).map
    Dirent.inode = number

section Calls

variable {super : Super} {bs parent : Nat} {name : Name} {number : Option Nat}
    {env : Env (List Block)}
  {fs fs' : Fs (List Block)} {ino dir : Nat}

/-- Every block size is a multiple of four from 1024 on. -/
theorem blocksize_bounds (super : Super) : 1024 ≤ super.blocksize ∧ super.blocksize % 4 = 0 := by
  have positive := Nat.two_pow_pos super.sLogBlockSize
  rw [Super.blocksize]
  omega

/-- Changes of the volume and of an inode, if that of the directory stays one. -/
theorem Pinned.confined (pinned : Pinned super parent name number fs)
    (confined : Confined ino fs fs')
    (isDir : ino = parent → LINUX_S_ISDIR (fs'.inodeTab parent).iMode = true) :
    Pinned super parent name number fs' where
  super_eq := confined.super.trans pinned.super_eq
  few := pinned.few
  wellFormed := by
    rw [confined.dirs]
    exact pinned.wellFormed
  valid := by
    rw [validIno_congr confined.super]
    exact pinned.valid
  isDir := by
    by_cases same : ino = parent
    · exact isDir same
    · rw [confined.others parent (Ne.symm same)]
      exact pinned.isDir
  used := by
    rw [confined.inodeMap]
    exact pinned.used
  number_eq := by
    rw [confined.dirs]
    exact pinned.number_eq

/-- Replacing one directory by a well-formed one keeps all of them well formed. -/
theorem wellFormed_update {dirs : Nat → List Block} (all : ∀ dir, WellFormed bs (dirs dir))
    {contents : List Block} (wellFormed : WellFormed bs contents) (other : Nat) :
    WellFormed bs (Function.update dirs dir contents other) := by
  by_cases here : other = dir
  · subst here
    simpa using wellFormed
  · simpa [here] using all other

/-- A directory gets other contents, in which the name stands for the same if it is this one. -/
theorem Pinned.setDir (pinned : Pinned super parent name number fs) {contents : List Block}
    (wellFormed : WellFormed super.blocksize contents)
    (same : dir = parent → ((liveEntries super.blocksize contents).find?
      fun entry => entry.name == name).map
      Dirent.inode = number) :
    Pinned super parent name number { fs with dirs := Function.update fs.dirs dir contents } where
  super_eq := pinned.super_eq
  few := pinned.few
  wellFormed := wellFormed_update pinned.wellFormed wellFormed
  valid := pinned.valid
  isDir := pinned.isDir
  used := pinned.used
  number_eq := by
    by_cases here : parent = dir
    · subst here
      simpa using same rfl
    · simpa [here] using pinned.number_eq

/-- Writing an inode leaves the entry when it keeps the directory a directory. -/
theorem Pinned.writeInode (pinned : Pinned super parent name number fs) {inode : Inode}
    (isDir : ino = parent → LINUX_S_ISDIR inode.iMode = true) :
    Pinned super parent name number (fs.ext2fsWriteInode ino inode).2 := by
  refine pinned.confined (confined_writeInode fs ino inode) fun same => ?_
  rw [ext2fsWriteInode]
  split
  · subst same
    simpa using isDir rfl
  · exact pinned.isDir

/-- The bitmap changes, but not for the directory. -/
theorem Pinned.setMap (pinned : Pinned super parent name number fs) {map : Nat → Bool}
    (kept : map parent = true) (count : Nat) (groups groupDirs : Nat → Nat) :
    Pinned super parent name number { fs with
      inodeMap := map
      sFreeInodesCount := count
      bgFreeInodesCount := groups
      bgUsedDirsCount := groupDirs } :=
  ⟨pinned.super_eq, pinned.few, pinned.wellFormed, pinned.valid, pinned.isDir, kept,
    pinned.number_eq⟩

/-- Changing the bitmap leaves the directory in use unless it frees that inode. -/
theorem Pinned.updateMap (pinned : Pinned super parent name number fs) {inuse : Bool}
    (apart : ino = parent → inuse = true) :
    (if fs.validIno ino then Function.update fs.inodeMap ino inuse else fs.inodeMap)
    parent = true := by
  split
  · by_cases here : ino = parent
    · subst here
      simpa using apart rfl
    · simpa [Ne.symm here] using pinned.used
  · exact pinned.used

/-- The inode table has this number. -/
def Numbered (super : Super) (ino : Nat) : Prop := ino ≠ 0 ∧ ino ≤ super.sInodesCount

/-- An inode number in range fits the four bytes of an entry. -/
theorem Pinned.numbered (pinned : Pinned super parent name number fs)
    (valid : fs.validIno ino = true) :
    Numbered super ino := by
  simp only [validIno, pinned.super_eq, Bool.and_eq_true, decide_eq_true_eq] at valid
  exact ⟨by omega, valid.2⟩

section Directories

/-- In a directory of less than 64 KiB per block no two records reach beyond 16 bits. -/
theorem not_fillsBlock {blocks : List Block} (bounded : bs < 65536) (positive : 0 < bs)
    (wellFormed : WellFormed bs blocks) (nm : Name) (number : Nat) :
    ¬ FillsBlock bs blocks nm number := by
  rintro ⟨earlier, block, later, split, -, more, -, -, full⟩
  obtain ⟨after, spans⟩ := wellFormed.first positive block (by simp [split])
  cases spans with
  | cons sound rest =>
      rw [Nat.zero_add] at rest
      cases rest with
      | nil => omega
      | cons soundNext rest =>
          have ends := rest.le
          omega

/-- `ext2fs_unlink` takes the first matching entry out, if there is one. -/
theorem WellFormed.unlink_erases {blocks : List Block} (bounded : bs < 65536) (positive : 0 < bs)
    (wellFormed : WellFormed bs blocks) {nm : Name} {numb : Nat}
    (careful : ¬ StartsBlock bs blocks nm numb) :
    Removes bs blocks nm numb ((dirLib bs).unlink blocks nm numb).2 := by
  by_cases live : ∃ entry ∈ liveEntries bs blocks, entry.matchesEntry nm numb = true
  · exact wellFormed.unlink_removes positive (by omega) live careful
      (not_fillsBlock bounded positive wellFormed nm numb)
  · have none : ∀ entry ∈ liveEntries bs blocks, ¬ entry.matchesEntry nm numb = true :=
      fun entry member hit => live ⟨entry, member, hit⟩
    have missing : lacks nm numb (liveEntries bs blocks) = true := by
      rw [lacks, List.all_eq_true]
      intro entry member
      simpa using none entry member
    rw [wellFormed.unlink_missing positive missing]
    exact ⟨wellFormed, (List.eraseP_of_forall_not none).symm⟩

variable (envDir : env.dir = dirLib super.blocksize) (bounded : super.blocksize < 65536)

include envDir bounded

/-- Removing another name leaves the entry. -/
theorem Pinned.unlink (pinned : Pinned super parent name number fs) {nm : Name} {numb : Nat}
    (careful : ¬ StartsBlock super.blocksize (fs.dirs dir) nm numb)
    (other : dir = parent → nm ≠ name) :
    Pinned super parent name number (fs.ext2fsUnlink env dir nm numb).2 := by
  obtain ⟨large, -⟩ := blocksize_bounds super
  rw [ext2fsUnlink, envDir]
  split
  · obtain ⟨wellFormed, erased⟩ :=
      WellFormed.unlink_erases bounded (by omega) (pinned.wellFormed dir) careful
    refine pinned.setDir wellFormed fun here => ?_
    have apart : ∀ entry : Dirent, entry.matchesEntry nm numb = true →
      (entry.name == name) = false := by
      intro entry matching
      simp only [Dirent.matchesEntry, Bool.and_eq_true, beq_iff_eq] at matching
      rw [matching.1]
      exact beq_eq_false_iff_ne.mpr (other here)
    rw [erased, find_eraseP apart, here]
    exact pinned.number_eq
  · exact pinned

/-- What `ext2fs_link` does to a directory: the entry is added and the code is 0, or nothing
changes; then a flag of the inode may be cleared. -/
theorem link_cases (whole : WellFormed super.blocksize (fs.dirs dir))
    (few : super.sInodesCount < 2 ^ 32)
    {nm : Name} (flags : Nat) (short : nm.length ≤ 255) (numbered : Numbered super ino) :
    ∃ contents fileType, WellFormed super.blocksize contents ∧
      Confined dir { fs with dirs := Function.update fs.dirs dir contents }
        (fs.ext2fsLink env dir nm ino flags).2 ∧
      (∀ other, ((fs.ext2fsLink env dir nm ino flags).2.inodeTab other).iMode =
        (fs.inodeTab other).iMode) ∧
      (((fs.ext2fsLink env dir nm ino flags).1 = 0 ∧ ∃ before after,
          liveEntries super.blocksize (fs.dirs dir) = before ++ after ∧
          liveEntries super.blocksize contents = before ++ ⟨nm, ino, fileType⟩ :: after) ∨
        ((fs.ext2fsLink env dir nm ino flags).1 ≠ 0 ∧
          liveEntries super.blocksize contents = liveEntries super.blocksize (fs.dirs dir))) := by
  have same : { fs with dirs := Function.update fs.dirs dir (fs.dirs dir) } = fs := by
    rw [Function.update_eq_self]
  rw [ext2fsLink]
  by_cases isDirectory : fs.ext2fsCheckDirectory dir = 0
  · rw [if_pos isDirectory]
    generalize typeEq : (if fs.super.filetype then flags % 8 else 0) = fileType
    have typed : fileType < 8 := by
      rw [← typeEq]
      split <;> omega
    obtain ⟨done, contents, iterated, wellFormed, live⟩ :=
      whole.dirIterate_link bounded ⟨short, numbered.1, numbered.2.trans_lt few, typed⟩
    cases done with
    | false =>
        have outcome : env.dir.link (fs.dirs dir) nm ino fileType =
            (EXT2_ET_DIR_NO_SPACE, contents) := by
          rw [envDir]
          simp only [dirLib, iterated]
        have failed : EXT2_ET_DIR_NO_SPACE ≠ 0 := by decide
        simp only [outcome]
        rw [if_pos failed]
        exact ⟨contents, fileType, wellFormed, .refl dir _, fun _ => rfl, .inr ⟨failed, live⟩⟩
    | true =>
        have outcome : env.dir.link (fs.dirs dir) nm ino fileType = (0, contents) := by
          rw [envDir]
          simp only [dirLib, iterated]
        have valid : fs.validIno dir = true := by
          by_contra invalid
          rw [ext2fsCheckDirectory, ext2fsReadInode, if_neg invalid] at isDirectory
          cases isDirectory
        simp only [outcome, ne_eq, not_true_eq_false, if_false]
        refine ⟨contents, fileType, wellFormed, ?_, fun other => ?_, .inl ⟨?_, live⟩⟩
        · split
          · exact confined_writeInode _ dir _
          · exact .refl dir _
        · split
          · rw [ext2fsWriteInode]
            split
            · by_cases here : other = dir
              · simp [here]
              · simp [here]
            · rfl
          · rfl
        · split
          · rw [ext2fsWriteInode]
            split
            · rfl
            · rename_i invalid
              exact absurd valid invalid
          · rfl
  · rw [if_neg isDirectory]
    refine ⟨fs.dirs dir, 0, whole, ?_, fun _ => rfl, .inr ⟨isDirectory, rfl⟩⟩
    rw [same]
    exact .refl dir fs

/-- Entering another name leaves the entry. -/
theorem Pinned.link (pinned : Pinned super parent name number fs) {nm : Name} {flags : Nat}
    (short : nm.length ≤ 255) (numbered : Numbered super ino) (other : dir = parent → nm ≠ name) :
    Pinned super parent name number (fs.ext2fsLink env dir nm ino flags).2 := by
  obtain ⟨contents, fileType, wellFormed, confined, modes, live⟩ :=
    link_cases envDir bounded (pinned.wellFormed dir) pinned.few flags short numbered
  refine Pinned.confined (pinned.setDir wellFormed fun here => ?_) confined fun _ => ?_
  · rw [← pinned.number_eq, ← here]
    rcases live with ⟨-, before, after, split, inserted⟩ | ⟨-, same⟩
    · have fails : ((⟨nm, ino, fileType⟩ : Dirent).name == name) = false :=
        beq_eq_false_iff_ne.mpr (other here)
      rw [split, inserted, find_insert fails]
    · rw [same]
  · rw [modes]
    exact pinned.isDir

/-- A name that stood for nothing stands for what is linked to it. -/
theorem Pinned.link_new (pinned : Pinned super parent name none fs) {flags : Nat}
    (short : name.length ≤ 255) (numbered : Numbered super ino) :
    Pinned super parent name
      (if (fs.ext2fsLink env parent name ino flags).1 = 0 then some ino else none)
      (fs.ext2fsLink env parent name ino flags).2 := by
  obtain ⟨contents, fileType, wellFormed, confined, modes, live⟩ :=
    link_cases envDir bounded (pinned.wellFormed parent) pinned.few flags short numbered
  have absent : (liveEntries super.blocksize (fs.dirs parent)).find?
    (fun entry => entry.name == name) = none :=
    Option.map_eq_none_iff.mp pinned.number_eq
  have isDir : LINUX_S_ISDIR
    ((fs.ext2fsLink env parent name ino flags).2.inodeTab parent).iMode = true := by
    rw [modes]
    exact pinned.isDir
  rcases live with ⟨linked, before, after, split, inserted⟩ | ⟨failed, same⟩
  · rw [if_pos linked]
    have named : Pinned super parent name (some ino)
        { fs with dirs := Function.update fs.dirs parent contents } := by
      refine ⟨pinned.super_eq, pinned.few, ?_, pinned.valid, pinned.isDir, pinned.used, ?_⟩
      · exact wellFormed_update pinned.wellFormed wellFormed
      · rw [split, List.find?_append, Option.or_eq_none_iff] at absent
        dsimp only
        rw [Function.update_self, inserted, List.find?_append, absent.1, Option.none_or,
          List.find?_cons]
        simp
    exact named.confined confined fun _ => isDir
  · rw [if_neg failed]
    refine Pinned.confined (pinned.setDir wellFormed fun _ => ?_) confined fun _ => isDir
    rw [same]
    exact pinned.number_eq

/-- Giving a directory another block leaves the entry. -/
theorem Pinned.expandDir (pinned : Pinned super parent name number fs) :
    Pinned super parent name number (fs.ext2fsExpandDir env dir).2 := by
  obtain ⟨large, aligned⟩ := blocksize_bounds super
  obtain ⟨vol, iBlock, sameSuper, iterated⟩ := ext2fsBlockIterate2_frame expandDirProc_super fs dir
    false { append := true } {}
  simp only [ext2fsExpandDir]
  generalize fs.ext2fsBlockIterate2 dir false { append := true } expandDirProc {} = outcome
    at iterated ⊢
  have modes : ∀ other, (outcome.2.2.inodeTab other).iMode = (fs.inodeTab other).iMode := by
    intro other
    rw [iterated]
    by_cases same : other = dir <;> simp [same]
  have unwritten : Pinned super parent name number outcome.2.2 := by
    have confined : Confined dir fs outcome.2.2 := by
      rw [iterated]
      exact ⟨sameSuper, rfl, rfl, fun other apart => Function.update_of_ne apart _ _⟩
    refine pinned.confined confined fun _ => ?_
    rw [modes]
    exact pinned.isDir
  split
  · split
    · exact unwritten
    · split
      · exact unwritten
      · rw [envDir]
        obtain ⟨wellFormed, live⟩ := (unwritten.wellFormed dir).expand bounded aligned (by omega)
        refine (unwritten.setDir wellFormed fun here => ?_).writeInode fun here => ?_
        · rw [live, here]
          exact unwritten.number_eq
        · subst here
          exact unwritten.isDir
  · exact pinned

end Directories

end Calls

section Rules

variable {super : Super} {parent : Nat} {name : Name} {number : Option Nat}
    {env : Env (List Block)} {ino dir : Nat}

/-- Run from a filesystem in which the name is pinned, with careful calls, the program leaves it
pinned, and `fact` is true of the result. -/
abbrev Pins (env : Env (List Block)) (super : Super) (parent : Nat) (name : Name)
    (number : Option Nat) {α : Type} (program : Prog (List Block) α) (fact : α → Prop) : Prop :=
  Preserves (lib env) (Pinned super parent name number) (Careful super.blocksize) program fact

/-- A call that changes nothing. -/
theorem pins_look {α : Type} {call : LibCall (List Block) α} {fact : α → Prop}
    (same : ∀ fs, ((lib env).exec call fs).2 = fs)
    (holds : ∀ fs, Pinned super parent name number fs → fact ((lib env).exec call fs).1) :
    Pins env super parent name number (lift call) fact := by
  refine preserves_lift fun fs pinned _ => ⟨?_, holds fs pinned⟩
  rw [same]
  exact pinned

/-- Asking for the superblock leaves the entry. -/
theorem pins_super : Pins env super parent name number (lift .super) fun found => found = super :=
  pins_look (fun _ => rfl) fun _ pinned => pinned.super_eq

/-- Calls that only work on the volume and keep the modes leave the entry. -/
theorem pins_volume {α : Type} {call : LibCall (List Block) α}
    (keeps : ∀ fs, Confined 0 fs ((lib env).exec call fs).2) (same : ∀ fs other,
      (((lib env).exec call fs).2.inodeTab other).iMode = (fs.inodeTab other).iMode) :
    Pins env super parent name number (lift call) fun _ => True := by
  refine preserves_lift fun fs pinned _ => ⟨pinned.confined (keeps fs) fun _ => ?_, trivial⟩
  rw [same]
  exact pinned.isDir

/-- So does asking for the time. -/
theorem pins_time : Pins env super parent name number (lift .time) fun _ => True :=
  pins_volume (fun _ => confined_vol rfl) fun _ _ => rfl

/-- So does counting a block. -/
theorem pins_blockAllocStats (blk : Nat) (inuse : Bool) :
    Pins env super parent name number (lift (.blockAllocStats blk inuse)) fun _ => True :=
  pins_volume (fun _ => confined_vol rfl) fun _ _ => rfl

/-- What reading an inode tells. -/
def ReadFact (super : Super) (parent ino : Nat) (inode : Inode) : Prop :=
  Numbered super ino ∧ (ino = parent → LINUX_S_ISDIR inode.iMode = true)

/-- Reading an inode gives what the table has, with the number in range. -/
theorem pins_ext2fsReadInode (ino : Nat) :
    Pins env super parent name number (lift (.readInode ino))
      fun result => ∀ inode, result = .ok inode → ReadFact super parent ino inode := by
  refine pins_look (fun _ => rfl) fun fs pinned inode read => ?_
  rw [lib_readInode, ext2fsReadInode] at read
  dsimp only at read
  split at read
  · rename_i valid
    cases read
    refine ⟨pinned.numbered valid, ?_⟩
    rintro rfl
    exact pinned.isDir
  · cases read

/-- With an inode of zeros in place of one that cannot be read. -/
theorem pins_readInodeOr (ino : Nat) :
    Pins env super parent name number (lift (.readInode ino)) fun result =>
      ino = parent → LINUX_S_ISDIR (result.toOption.getD {}).iMode = true := by
  refine pins_look (fun _ => rfl) fun fs pinned => ?_
  rintro rfl
  rw [lib_readInode, ext2fsReadInode, if_pos pinned.valid]
  exact pinned.isDir

/-- The same of read_inode. -/
theorem pins_readInode (ino : Nat) :
    Pins env super parent name number (readInode ino)
      fun result => ∀ inode, result = .ok inode → ReadFact super parent ino inode := by
  refine preserves_bind (pins_ext2fsReadInode ino) fun result facts => ?_
  cases result with
  | error rc => exact preserves_pure fun _ read => by cases read
  | ok inode => exact preserves_pure facts

/-- Writing an inode leaves the entry when it keeps the directory a directory. -/
theorem pins_ext2fsWriteInode {inode : Inode}
    (isDir : ino = parent → LINUX_S_ISDIR inode.iMode = true) :
    Pins env super parent name number (lift (.writeInode ino inode)) fun _ => True :=
  preserves_lift fun _ pinned _ => ⟨pinned.writeInode isDir, trivial⟩

/-- The same of write_inode. -/
theorem pins_writeInode {inode : Inode} (isDir : ino = parent → LINUX_S_ISDIR inode.iMode = true) :
    Pins env super parent name number (writeInode ino inode) fun _ => True :=
  preserves_bind (pins_ext2fsWriteInode isDir) fun _ _ => preserves_pure trivial

/-- Writing a new inode is writing one that is not the directory's. -/
theorem pins_writeNewInode {inode : Inode} (apart : ino ≠ parent) :
    Pins env super parent name number
      (lift (.writeNewInode ino inode)) fun rc => rc = 0 → Numbered super ino := by
  refine preserves_lift fun fs pinned _ => ⟨pinned.writeInode fun same => absurd same apart,
    fun wrote => ?_⟩
  change (fs.ext2fsWriteInode ino inode).1 = 0 at wrote
  rw [ext2fsWriteInode] at wrote
  split at wrote
  · rename_i valid
    exact pinned.numbered valid
  · cases wrote

/-- What a new inode number tells: it is not that of the directory, or the code is an error. -/
def FreshFact (parent : Nat) : Except Errcode Nat → Prop
  | .ok new => new ≠ parent
  | .error rc => rc ≠ 0

/-- The inode number found is free, so it is not the directory's. -/
theorem pins_newInode (dir : Nat) :
    Pins env super parent name number (lift (.newInode dir)) (FreshFact parent) := by
  refine pins_look (fun _ => rfl) fun fs pinned => ?_
  change FreshFact parent (fs.ext2fsNewInode dir)
  cases outcome : fs.ext2fsNewInode dir with
  | error rc =>
      simp only [ext2fsNewInode] at outcome
      split at outcome
      · cases outcome
      · cases outcome
        exact (by decide : EXT2_ET_INODE_ALLOC_FAIL ≠ 0)
  | ok new =>
      rintro rfl
      have free := newInode_free outcome
      rw [pinned.used] at free
      cases free

/-- Taking an inode, or freeing another one, leaves the entry. -/
theorem pins_inodeAllocStats2 {inuse isdir : Bool} (apart : ino = parent → inuse = true) :
    Pins env super parent name number (lift (.inodeAllocStats2 ino inuse isdir)) fun _ => True :=
  preserves_lift fun _ pinned _ => ⟨pinned.setMap (pinned.updateMap apart) _ _ _, trivial⟩

/-- Freeing another inode leaves the entry. -/
theorem pins_unmarkInodeBitmap (apart : ino ≠ parent) :
    Pins env super parent name number (lift (.unmarkInodeBitmap ino)) fun _ => True :=
  preserves_lift fun _ pinned _ =>
    ⟨pinned.setMap (pinned.updateMap fun same => absurd same apart) _ _ _, trivial⟩

/-- Looking for a free block leaves the entry. -/
theorem pins_newBlock (goal : Nat) :
    Pins env super parent name number (lift (.newBlock goal))
      fun result => ∀ rc, result = .error rc → rc ≠ 0 := by
  refine pins_look (fun _ => rfl) fun fs _ rc failed => ?_
  change fs.vol.ext2fsNewBlock goal = .error rc at failed
  simp only [Volume.ext2fsNewBlock] at failed
  split at failed
  · cases failed
  · cases failed
    exact (by decide : EXT2_ET_BLOCK_ALLOC_FAIL ≠ 0)

/-- Looking a name up leaves the entry. -/
theorem pins_lookup (dir : Nat) (nm : Name) :
    Pins env super parent name number (lift (.lookup dir nm)) fun _ => True :=
  pins_look (fun _ => rfl) fun _ _ => trivial

/-- Walking a path of one name leaves the entry. -/
theorem pins_namei (dir : Nat) (nm : Name) :
    Pins env super parent name number (lift (.namei dir nm)) fun _ => True :=
  pins_look (fun _ => rfl) fun _ _ => trivial

/-- Releasing the blocks of an inode leaves the names. -/
theorem pins_blockIterateRelease (ino : Nat) :
    Pins env super parent name number (lift (.blockIterateRelease ino)) fun _ => True := by
  refine pins_volume (fun fs => ?_) fun fs other => ?_
  · obtain ⟨super, inodes⟩ := lib_blockIterateRelease_frame env fs ino
    obtain ⟨dirs, inodeMap⟩ := lib_blockIterateRelease_kept env fs ino
    exact ⟨super, inodeMap, dirs, fun other _ => congrFun inodes other⟩
  · rw [(lib_blockIterateRelease_frame env fs ino).2]

/-- Shortening another inode leaves the entry. -/
theorem pins_blockIterateTruncate (info : TruncateBlocksInfo) (apart : ino ≠ parent) :
    Pins env super parent name number (lift (.blockIterateTruncate ino info)) fun _ => True := by
  refine preserves_lift fun fs pinned _ => ⟨?_, trivial⟩
  obtain ⟨vol, iBlock, super, iterated⟩ := lib_blockIterateTruncate_frame env fs ino info
  have confined : Confined ino fs ((lib env).exec (.blockIterateTruncate ino info) fs).2 := by
    rw [iterated]
    exact ⟨super, rfl, rfl, fun other different => Function.update_of_ne different _ _⟩
  exact pinned.confined confined fun same => absurd same apart

/-- Checking permissions leaves the entry. -/
theorem pins_checkPerms (perms : Perms) (ino requested : Nat) :
    Pins env super parent name number (checkPerms perms ino requested) fun _ => True :=
  preserves_pure trivial

section Files

variable {fh : File} (apart : ino ≠ parent) (own : fh.ino ≠ parent)

include own

/-- Writing to another inode's data leaves the entry. -/
theorem pins_fileWrite (data : List UInt8) :
    Pins env super parent name number
      (lift (.fileWrite fh data)) fun result => result.2.2.ino ≠ parent := by
  refine preserves_lift fun fs pinned _ => ?_
  have wrote := onFile_write fs fh data
  refine ⟨pinned.confined wrote.confined fun same => absurd same own, ?_⟩
  change (fs.ext2fsFileWrite fh data).2.2.1.ino ≠ parent
  rw [wrote.ino_eq]
  exact own

/-- Closing its handle leaves the entry. -/
theorem pins_doFileClose : Pins env super parent name number (doFileClose fh) fun _ => True := by
  have flushes : Pins env super parent name number (lift (.fileFlush fh)) fun _ => True :=
    preserves_lift fun fs pinned _ =>
      ⟨pinned.confined (onFile_flush fs fh).confined fun same => absurd same own, trivial⟩
  exact preserves_bind flushes fun _ _ => preserves_pure trivial

omit own in
/-- Storing another inode's size leaves the entry. -/
theorem pins_setFileSize (apart : ino ≠ parent) (inode : Inode) (size : Nat) :
    Pins env super parent name number (setFileSize ino inode size) fun _ => True := by
  refine preserves_bind pins_time fun now _ => ?_
  exact preserves_bind (pins_ext2fsWriteInode fun same => absurd same apart) fun _ _ =>
    preserves_pure trivial

include apart

/-- Shortening another inode through its handle leaves the entry. -/
theorem pins_doShorten (length : Nat) :
    Pins env super parent name number
      (doShorten fh ino length) fun result => result.2.ino ≠ parent := by
  rw [doShorten]
  split
  · exact preserves_pure own
  split
  · exact preserves_pure own
  refine preserves_bind pins_super fun super _ => ?_
  refine preserves_bind (pins_setFileSize apart _ _) fun sized _ => ?_
  dsimp only
  split
  · exact preserves_pure own
  refine preserves_bind (pins_blockIterateTruncate _ apart) fun info _ => ?_
  refine preserves_bind (pins_ext2fsReadInode ino) fun read _ => ?_
  cases read with
  | error rc => exact preserves_pure own
  | ok inode =>
      exact preserves_bind (pins_ext2fsWriteInode fun same => absurd same apart) fun _ _ =>
        preserves_pure own

/-- Lengthening it leaves the entry. -/
theorem pins_doLengthen (length : Nat) :
    Pins env super parent name number
      (doLengthen fh ino length) fun result => result.2.ino ≠ parent := by
  rw [doLengthen]
  dsimp only
  split
  · exact preserves_pure own
  split
  · exact preserves_pure own
  refine preserves_bind (pins_fileWrite (by exact own) _) fun written stays => ?_
  split
  · exact preserves_pure stays
  split
  · exact preserves_pure stays
  exact preserves_bind (pins_setFileSize apart _ _) fun _ _ => preserves_pure stays

/-- So does do_ftruncate, whichever of the two it calls. -/
theorem pins_doFtruncate (length : Nat) :
    Pins env super parent name number
      (doFtruncate fh ino length) fun result => result.2.ino ≠ parent := by
  rw [doFtruncate]
  split
  · exact pins_doLengthen apart own length
  · exact pins_doShorten apart own length

/-- So does write_data. -/
theorem pins_writeData (data : List UInt8) (off : Nat) :
    Pins env super parent name number
      (writeData fh ino data off) fun result => result.2.2.ino ≠ parent := by
  rw [writeData]
  dsimp only
  refine preserves_bind (pins_fileWrite (by exact own) _) fun written stays => ?_
  split
  · exact preserves_pure stays
  split
  · exact preserves_pure stays
  split
  · exact preserves_pure stays
  split
  · exact preserves_pure stays
  exact preserves_bind (pins_setFileSize apart _ _) fun _ _ => preserves_pure stays

/-- So does do_write with the lengthening before it. -/
theorem pins_doWrite (data : List UInt8) (off : Nat) :
    Pins env super parent name number
      (doWrite fh ino data off) fun result => result.2.2.ino ≠ parent := by
  rw [doWrite]
  split
  · refine preserves_bind (pins_doFtruncate apart own off) fun resized stays => ?_
    dsimp only
    split
    · exact preserves_pure stays
    · exact pins_writeData apart stays data off
  · exact pins_writeData apart own data off

end Files

/-- What opening a file tells: the handle is not on the directory, or the code is an error. -/
def OpenFact (parent : Nat) : Except Errcode File → Prop
  | .ok file => file.ino ≠ parent
  | .error rc => rc ≠ 0

/-- A handle of another inode is a handle of another inode. -/
theorem pins_fileOpen (apart : ino ≠ parent) (writable : Bool) :
    Pins env super parent name number (lift (.fileOpen ino writable)) (OpenFact parent) := by
  refine pins_look (fun _ => rfl) fun fs _ => ?_
  rw [lib_fileOpen]
  simp only [ext2fsFileOpen, ext2fsReadInode]
  split
  · rename_i failed
    split at failed
    · cases failed
    · cases failed
      exact (by decide : EXT2_ET_BAD_INODE_NUM ≠ 0)
  · exact apart

/-- The same of do_open. -/
theorem pins_doOpen (apart : ino ≠ parent) (perms : Perms) (flags : OpenFlags) :
    Pins env super parent name number (doOpen perms ino flags) (OpenFact parent) := by
  rw [doOpen]
  dsimp only
  refine preserves_bind (pins_checkPerms _ _ _) fun rc _ => ?_
  split
  · rename_i denied
    exact preserves_pure denied
  refine preserves_bind (pins_fileOpen apart _) fun result own => ?_
  cases result with
  | error rc => exact preserves_pure own
  | ok file =>
      refine preserves_ite (preserves_bind (pins_doFtruncate apart own 0) ?_) (preserves_pure own)
      exact fun resized stays => preserves_pure stays

end Rules

end Ext2Fuse
