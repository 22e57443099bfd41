import Ext2Fuse.NsProgram
import Ext2Fuse.NsMoves

/-!
# The operations on names, call by call

One lemma for each routine of `ext2fs.c`, `mkdir.c` and `rename.c`: from a safe name
space, every call leaves a safe one, and the routine ends in one of the name spaces
listed in its postcondition.
-/

namespace Ext2Fuse

open Lib Program

namespace Ns

/-- Link counts are 16-bit words. -/
def Narrow (ns : Ns) : Prop := ∀ ino, ns.links ino < 2 ^ 16

/-- What every call leaves in force. -/
def Good (ns : Ns) : Prop := ns.Narrow ∧ ∃ live, ns.Safe live

/-- Counts stay narrow when the one written is. -/
theorem Narrow.setInode {ns : Ns} (narrow : ns.Narrow) {ino : Nat} (mode : Nat) {links : Nat}
    (bound : links < 2 ^ 16) : (ns.setInode ino mode links).Narrow := by
  intro other
  simp only [setInode_links, Function.update_apply]
  split
  · exact bound
  · exact narrow other

/-- A name of a file has been removed and its count lowered; a file that has lost its
last name may have lost its bit, too. -/
def Dropped (ns : Ns) (dir : Nat) (name : Name) (ino : Nat) (next : Ns) : Prop :=
  let dropped := (ns.setEnts dir ((ns.ents dir).eraseP (Dirent.matchesEntry name ino))).setInode
    ino (ns.mode ino) (ns.links ino - 1)
  next = dropped ∨ (ns.links ino = 1 ∧ next = dropped.setUsed ino false)

/-- For a valid number an entry matches when its name and its inode do. -/
theorem matchesEntry_iff {ns : Ns} {name : Name} {ino : Nat} (valid : ns.valid ino = true)
    (entry : Dirent) :
    Dirent.matchesEntry name ino entry = true ↔ entry.name = name ∧ entry.inode = ino := by
  have positive : ino ≠ 0 := by
    rintro rfl
    simp [Ns.valid] at valid
  simp [Dirent.matchesEntry, positive]

/-- An empty directory has lost its name and its own record, and the count of the
directory it was in has been lowered. -/
def Removed (ns : Ns) (dir : Nat) (name : Name) (ino : Nat) (next : Ns) : Prop :=
  let killed := (ns.setEnts dir ((ns.ents dir).eraseP (Dirent.matchesEntry name ino))).setInode
    ino (ns.mode ino) 0
  (∀ entry ∈ ns.ents ino, entry.proper = false) ∧
    (next = killed.setInode dir (ns.mode dir) (ns.links dir - 1) ∨
      next = (killed.setUsed ino false).setInode dir (ns.mode dir) (ns.links dir - 1))

/-- Where the first match is, and what is left without it. -/
theorem split_of_match {ents : List Dirent} {test : Dirent → Bool}
    (found : ∃ entry ∈ ents, test entry = true) :
    ∃ before entry after, test entry = true ∧ ents = before ++ entry :: after ∧
      ents.eraseP test = before ++ after := by
  obtain ⟨entry, inEnts, matching⟩ := found
  obtain ⟨first, before, after, -, firstMatches, split, erased⟩ :=
    List.exists_of_eraseP inEnts matching
  exact ⟨before, first, after, firstMatches, split, erased⟩

end Ns

open Ns

section Routines

variable {δ : Type} {env : Env δ} {ns : Ns} {live : Finset Nat} {dir ino : Nat} {name : Name}
  (lawful : env.dir.Lawful) (narrow : ns.Narrow) (safe : ns.Safe live)

/-- A count below 65535 is raised without wrapping. -/
theorem raiseLinks_count {inode : Inode} (bound : inode.iLinksCount < 65535) :
    inode.raiseLinks.iLinksCount = inode.iLinksCount + 1 := by
  simp only [Inode.raiseLinks]
  omega

/-- A positive count is lowered without wrapping. -/
theorem lowerLinks_count {inode : Inode} (positive : 0 < inode.iLinksCount)
    (bound : inode.iLinksCount < 2 ^ 16) :
    inode.lowerLinks.iLinksCount = inode.iLinksCount - 1 := by
  simp only [Inode.lowerLinks]
  omega

@[simp] theorem raiseLinks_mode (inode : Inode) : inode.raiseLinks.iMode = inode.iMode := by
  cases inode
  rfl

@[simp] theorem lowerLinks_mode (inode : Inode) : inode.lowerLinks.iMode = inode.iMode := by
  cases inode
  rfl

/-- `read_inode` of an inode number the table has. -/
theorem holds_readInodeWrapper {inv : Ns → Prop} {post : Except Errcode Inode → Ns → Prop}
    (valid : ns.valid ino = true)
    (next : ∀ inode, ns.Agrees ino inode → post (.ok inode) ns) :
    Holds env inv (readInode ino) post ns :=
  holds_bind (holds_readInode valid fun inode agrees => holds_pure (next inode agrees))

/-- The rule of write_inode. -/
theorem holds_writeInodeWrapper {inv : Ns → Prop} {inode : Inode} {post : Errcode → Ns → Prop}
    (valid : ns.valid ino = true)
    (invariant : inv (ns.setInode ino inode.iMode inode.iLinksCount))
    (next : post 0 (ns.setInode ino inode.iMode inode.iLinksCount)) :
    Holds env inv (writeInode ino inode) post ns :=
  holds_bind (holds_writeInode valid invariant (holds_pure (by simpa using next)))

include lawful narrow safe

/-- `do_link` adds one entry, or fails with `EIO`. -/
theorem holds_doLink (member : dir ∈ live) (valid : ns.valid dir = true) {filetype : Nat}
    (inserted : ∀ before after fileType, ns.ents dir = before ++ after →
      (ns.setEnts dir (before ++ ⟨name, ino, fileType⟩ :: after)).Safe live) :
    Holds env Good (doLink dir name ino filetype)
      (fun rc next => (rc = 0 ∧ ∃ before after fileType, ns.ents dir = before ++ after ∧
        next = ns.setEnts dir (before ++ ⟨name, ino, fileType⟩ :: after)) ∨
        (rc = EIO ∧ next = ns)) ns := by
  have isDir := safe.isDir dir member
  refine holds_bind (holds_link lawful valid isDir ?_ ?_)
  · intro before after fileType split
    refine ⟨⟨narrow, live, inserted before after fileType split⟩, holds_pure (.inl ?_)⟩
    exact ⟨rfl, before, after, fileType, split, rfl⟩
  · refine holds_bind (holds_expandDir lawful fun rc => ?_)
    by_cases failed : rc = 0
    · subst failed
      refine holds_bind (holds_link lawful valid isDir ?_ ?_)
      · intro before after fileType split
        refine ⟨⟨narrow, live, inserted before after fileType split⟩, holds_pure (.inl ?_)⟩
        exact ⟨rfl, before, after, fileType, split, rfl⟩
      · exact holds_pure (.inr ⟨rfl, rfl⟩)
    · rw [if_pos failed]
      exact holds_pure (.inr ⟨rfl, rfl⟩)

omit lawful in
/-- `kill_file_by_inode` of an inode nobody names any more: its links are gone, and
unless its block pointers are not block numbers its bit is cleared. -/
theorem holds_killFileByInode (valid : ns.valid ino = true) (untracked : ¬ ns.Tracked live ino)
    {inode : Inode} (mode : inode.iMode = ns.mode ino) :
    Holds env Good (killFileByInode ino inode)
      (fun _ next => next = ns.setInode ino (ns.mode ino) 0 ∨
        next = (ns.setInode ino (ns.mode ino) 0).setUsed ino false) ns := by
  have killed := (SameOn.setInode untracked (ns.mode ino) 0).safe safe
  have narrowed : (ns.setInode ino (ns.mode ino) 0).Narrow := narrow.setInode _ (by decide)
  have stillUntracked : ¬ (ns.setInode ino (ns.mode ino) 0).Tracked live ino := untracked
  have released := (SameOn.setUsed stillUntracked false).safe killed
  refine holds_bind (holds_time fun now => ?_)
  refine holds_bind (holds_writeInodeWrapper valid ?_ ?_)
  · rw [mode]
    exact ⟨narrowed, live, killed⟩
  · rw [mode]
    simp only [ne_eq, not_true_eq_false, if_false]
    split
    · exact holds_pure (.inl rfl)
    · refine holds_bind (holds_blockIterateRelease fun _ => ?_)
      refine holds_bind (holds_inodeAllocStats2 valid ⟨narrowed, live, released⟩ ?_)
      have again : ((ns.setInode ino (ns.mode ino) 0).setUsed ino false).setUsed ino false =
          (ns.setInode ino (ns.mode ino) 0).setUsed ino false := by
        simp [Ns.setUsed]
      refine holds_unmarkInodeBitmap valid ?_ ?_
      · rw [again]
        exact ⟨narrowed, live, released⟩
      · rw [again]
        exact .inr rfl

/-- `do_unlink_on_ino` of a file under one of its names. -/
theorem holds_doUnlinkOnIno (member : dir ∈ live) (validDir : ns.valid dir = true)
    (valid : ns.valid ino = true) (isFile : ns.isDir ino = false)
    (found : ∃ entry ∈ ns.ents dir, Dirent.matchesEntry name ino entry = true) :
    Holds env Good (doUnlinkOnIno dir name ino (-1))
      (fun rc next => rc = 0 ∧ ns.Dropped dir name ino next) ns := by
  have isDir := safe.isDir dir member
  obtain ⟨before, entry, after, matching, split, erased⟩ := split_of_match found
  obtain ⟨-, rfl⟩ := (matchesEntry_iff valid entry).mp matching
  have inEnts : entry ∈ ns.ents dir := by simp [split]
  have covers := safe.file dir member entry inEnts isFile
  have named := refs_pos member inEnts
  have fewer := refs_remove entry.inode member split
  rw [if_pos rfl, ← erased] at fewer
  have bound := narrow entry.inode
  have removed : (ns.setEnts dir ((ns.ents dir).eraseP
      (Dirent.matchesEntry name entry.inode))).Safe live := safe.sublist List.eraseP_sublist
  refine holds_bind (holds_readInodeWrapper valid fun inode agrees => ?_)
  have notDir : LINUX_S_ISDIR inode.iMode = false := by rw [agrees.1]; exact isFile
  have linked : inode.iLinksCount > 0 := by rw [agrees.2]; omega
  have lowered : ((inode.iLinksCount + (-1 : Int)) % 2 ^ 16).toNat = ns.links entry.inode - 1 := by
    rw [agrees.2]
    omega
  simp only [notDir, Bool.false_eq_true, if_false, linked, if_true, lowered]
  refine holds_bind (holds_unlink lawful validDir isDir ?_ fun absent => ?_)
  · rintro - - -
    have stillNarrow : (ns.setEnts dir ((ns.ents dir).eraseP
      (Dirent.matchesEntry name entry.inode))).Narrow := narrow
    refine ⟨⟨stillNarrow, live, removed⟩, ?_⟩
    by_cases last : ns.links entry.inode - 1 < 1
    · have untracked : ¬ (ns.setEnts dir ((ns.ents dir).eraseP
          (Dirent.matchesEntry name entry.inode))).Tracked live entry.inode := by
        have zero : (ns.setEnts dir ((ns.ents dir).eraseP
            (Dirent.matchesEntry name entry.inode))).refs live entry.inode = 0 := by omega
        rintro (isLive | ⟨other, otherMember, found, inOther, same⟩)
        · rw [safe.isDir _ isLive] at isFile
          cases isFile
        · exact unnamed_of_refs zero other otherMember found inOther same
      rw [if_pos last]
      refine holds_bind
        ((holds_killFileByInode stillNarrow removed valid untracked agrees.1).mono ?_)
      rintro - next outcome
      have zero : ns.links entry.inode - 1 = 0 := by omega
      refine holds_pure ⟨rfl, ?_⟩
      simp only [Dropped, zero]
      obtain rfl | rfl := outcome
      · exact .inl rfl
      · exact .inr ⟨by omega, rfl⟩
    · rw [if_neg last]
      refine holds_bind (holds_writeInodeWrapper valid ?_ ?_)
      · simp only [agrees.1]
        refine ⟨stillNarrow.setInode _ (by omega), live, ?_⟩
        exact removed.setLinks (by omega) fun _ => by omega
      · simp only [agrees.1]
        exact holds_pure ⟨rfl, .inl rfl⟩
  · rw [absent entry inEnts] at matching
    cases matching

omit lawful narrow safe in
/-- `do_unlink_on_ino` refuses a directory. -/
theorem holds_doUnlinkOnIno_of_dir (valid : ns.valid ino = true) (isDir : ns.isDir ino = true) :
    Holds env Good (doUnlinkOnIno dir name ino (-1))
      (fun rc next => rc = ENOTDIR ∧ next = ns) ns := by
  refine holds_bind (holds_readInodeWrapper valid fun inode agrees => ?_)
  dsimp only
  rw [if_pos (by rw [agrees.1]; exact isDir)]
  exact holds_pure ⟨rfl, rfl⟩

omit lawful narrow safe in
/-- rmdir_proc finds a directory empty when no entry but the dots is live. -/
theorem foldl_rmdirProc_empty (entries : List Dirent) (rds : RdStruct) :
    (entries.foldl rmdirProc rds).empty =
      (rds.empty && entries.all fun entry => entry.inode == 0 || !entry.proper) := by
  induction entries generalizing rds with
  | nil => simp
  | cons entry entries inductionHypothesis =>
      rw [List.foldl_cons, inductionHypothesis, List.all_cons]
      simp only [rmdirProc]
      split
      · simp [*]
      · split
        · simp [Dirent.proper, *]
        · split
          · simp [Dirent.proper, *]
          · simp [Dirent.proper, *]

omit lawful narrow safe in
/-- It finds the parent where there is a '..'. -/
theorem foldl_rmdirProc_parent (entries : List Dirent) (rds : RdStruct)
    (known : rds.parent ≠ 0 ∨ ∃ entry ∈ entries, entry.name = dotDotName ∧ entry.inode ≠ 0) :
    (entries.foldl rmdirProc rds).parent ≠ 0 := by
  induction entries generalizing rds with
  | nil => simpa using known
  | cons entry entries inductionHypothesis =>
      rw [List.foldl_cons]
      refine inductionHypothesis _ ?_
      by_cases isDotDot : entry.name = dotDotName ∧ entry.inode ≠ 0
      · left
        simp [rmdirProc, isDotDot, dotName, dotDotName]
      · obtain already | ⟨found, inEntries, isFound⟩ := known
        · left
          simp only [rmdirProc]
          split
          · exact already
          · split
            · exact already
            · split
              · assumption
              · exact already
        · obtain rfl | later := List.mem_cons.mp inEntries
          · exact absurd isFound isDotDot
          · exact .inr ⟨found, later, isFound⟩

/-- `do_rmdir_on_ino`: a directory that is empty goes, one that is not stays. -/
theorem holds_doRmdirOnIno {perms : Perms} (member : dir ∈ live) (apart : dir ≠ ino)
    (inoLive : ino ∈ live) (notRoot : ino ≠ EXT2_ROOT_INO)
    (validDir : ns.valid dir = true) (valid : ns.valid ino = true)
    (found : ∃ entry ∈ ns.ents dir, Dirent.matchesEntry name ino entry = true)
    (dotDot : ∃ entry ∈ ns.ents ino, entry.name = dotDotName) (linked : 1 < ns.links dir)
    (unnamed : (∀ entry ∈ ns.ents ino, entry.proper = false) → ∀ other ∈ live, other ≠ ino →
      ∀ entry ∈ (ns.setEnts dir ((ns.ents dir).eraseP (Dirent.matchesEntry name ino))).ents other,
        entry.inode ≠ ino) :
    Holds env Good (doRmdirOnIno perms dir name ino)
      (fun rc next => (rc ≠ 0 ∧ next = ns) ∨ (rc = 0 ∧ ns.Removed dir name ino next)) ns := by
  have isDir := safe.isDir dir member
  have inoDir := safe.isDir ino inoLive
  have bound := narrow dir
  have named : ∀ entry ∈ ns.ents ino, entry.inode ≠ 0 := by
    intro entry inEnts zero
    have alive := (safe.alive ino inoLive entry inEnts).1.1
    simp [Ns.valid, zero] at alive
  refine holds_bind (holds_readInodeWrapper valid fun inode agrees => ?_)
  dsimp only
  split
  · exact holds_pure (.inl ⟨by decide, rfl⟩)
  · have recorded : LINUX_S_ISDIR inode.iMode = true := by rw [agrees.1]; exact inoDir
    rw [if_neg (by simp [recorded])]
    refine holds_bind (holds_dirIterate lawful valid inoDir ?_)
    simp only [ne_eq, not_true_eq_false, if_false]
    split
    · exact holds_pure (.inl ⟨by decide, rfl⟩)
    · rename_i isEmpty
      have empty : ∀ entry ∈ ns.ents ino, entry.proper = false := by
        simp only [foldl_rmdirProc_empty, Bool.true_and, Bool.not_eq_true', Bool.not_eq_false,
          List.all_eq_true, Bool.or_eq_true, beq_iff_eq] at isEmpty
        intro entry inEnts
        simpa [named entry inEnts] using isEmpty entry inEnts
      refine holds_bind (holds_unlink lawful validDir isDir ?_ fun absent => ?_)
      · rintro - - -
        generalize removedEq : ns.setEnts dir ((ns.ents dir).eraseP
          (Dirent.matchesEntry name ino)) = removed
        have removedSafe : removed.Safe live := removedEq ▸ safe.sublist List.eraseP_sublist
        have removedNarrow : removed.Narrow := removedEq ▸ narrow
        have dropped : removed.Safe (live.erase ino) :=
          removedSafe.erase notRoot (removedEq ▸ unnamed empty)
        have untracked : ¬ removed.Tracked (live.erase ino) ino := by
          rintro (isLive | ⟨other, otherMember, entry, inOther, same⟩)
          · exact Finset.notMem_erase _ _ isLive
          · obtain ⟨different, otherLive⟩ := Finset.mem_erase.mp otherMember
            exact (removedEq ▸ unnamed empty) other otherLive different entry inOther same
        have sameMode : inode.iMode = removed.mode ino := by
          rw [agrees.1, ← removedEq]
          rfl
        refine ⟨⟨removedNarrow, live, removedSafe⟩, ?_⟩
        rw [if_neg (by simp)]
        have removedValid : removed.valid ino = true := by rw [← removedEq]; exact valid
        refine holds_bind ((holds_killFileByInode removedNarrow dropped removedValid untracked
          sameMode).mono ?_)
        rintro - killed outcome
        have parentKnown := foldl_rmdirProc_parent (ns.ents ino) {} (.inr (by
          obtain ⟨entry, inEnts, isDotDot⟩ := dotDot
          exact ⟨entry, inEnts, isDotDot, named entry inEnts⟩))
        rw [if_neg parentKnown]
        have killedSafe : killed.Safe (live.erase ino) := by
          have first := (SameOn.setInode untracked (removed.mode ino) 0).safe dropped
          obtain rfl | rfl := outcome
          · exact first
          · have stillUntracked : ¬ (removed.setInode ino (removed.mode ino) 0).Tracked
                (live.erase ino) ino := untracked
            exact (SameOn.setUsed stillUntracked false).safe first
        have killedNarrow : killed.Narrow := by
          have first : (removed.setInode ino (removed.mode ino) 0).Narrow :=
            removedNarrow.setInode _ (by decide)
          obtain rfl | rfl := outcome
          · exact first
          · exact first
        have killedMode : killed.mode dir = ns.mode dir := by
          obtain rfl | rfl := outcome <;> simp [apart, ← removedEq]
        have killedLinks : killed.links dir = ns.links dir := by
          obtain rfl | rfl := outcome <;> simp [apart, ← removedEq]
        have killedValid : killed.valid dir = true := by
          obtain rfl | rfl := outcome <;> simpa [← removedEq] using validDir
        refine holds_bind (holds_readInodeWrapper killedValid fun parentInode parentAgrees => ?_)
        have count : parentInode.iLinksCount = ns.links dir := parentAgrees.2.trans killedLinks
        have lowered : parentInode.lowerLinks.iLinksCount = ns.links dir - 1 := by
          rw [lowerLinks_count (by omega) (by omega), count]
        dsimp only
        rw [if_pos (by omega)]
        have written : killed.setInode dir parentInode.lowerLinks.iMode
            parentInode.lowerLinks.iLinksCount =
            killed.setInode dir (killed.mode dir) (ns.links dir - 1) := by
          rw [lowered, lowerLinks_mode, parentAgrees.1]
        refine holds_writeInodeWrapper killedValid ?_ ?_
        · rw [written]
          refine ⟨killedNarrow.setInode _ (by omega), live.erase ino, ?_⟩
          refine killedSafe.setLinks (by omega) fun isFile => ?_
          rw [killedSafe.isDir dir (Finset.mem_erase.mpr ⟨apart, member⟩)] at isFile
          cases isFile
        · rw [written, killedMode]
          refine .inr ⟨rfl, empty, ?_⟩
          subst removedEq
          obtain rfl | rfl := outcome
          · exact .inl rfl
          · exact .inr rfl
      · obtain ⟨entry, inEnts, matching⟩ := found
        rw [absent entry inEnts] at matching
        cases matching

end Routines

section Lists

/-- The inodes and their modes are those of `base`, and the directories have the entries
`ents`. -/
structure Ns.Lists (base : Ns) (ents : Nat → List Dirent) (ns : Ns) : Prop where
  valid : ns.valid = base.valid
  mode : ns.mode = base.mode
  ents : ns.ents = ents

/-- The entries after the first match has been removed from a directory. -/
def erased (ents : Nat → List Dirent) (dir : Nat) (name : Name) (ino : Nat) : Nat → List Dirent :=
  Function.update ents dir ((ents dir).eraseP (Dirent.matchesEntry name ino))

namespace Ns.Lists

variable {base ns : Ns} {ents : Nat → List Dirent} {dir ino : Nat} {name : Name}

/-- A name space lists its own entries. -/
theorem refl (ns : Ns) : ns.Lists ns.ents ns := ⟨rfl, rfl, rfl⟩

variable (lists : base.Lists ents ns)

include lists

/-- What lists the entries of a name space has its directories. -/
theorem isDir : ns.isDir = base.isDir := by
  funext other
  rw [Ns.isDir, Ns.isDir, lists.mode]

/-- Writing an inode with its mode leaves the lists. -/
theorem setInode {mode : Nat} (same : mode = base.mode ino) (links : Nat) :
    base.Lists ents (ns.setInode ino mode links) where
  valid := lists.valid
  mode := by rw [setInode_mode, lists.mode, same, Function.update_eq_self]
  ents := lists.ents

/-- Marking an inode leaves the lists. -/
theorem setUsed (inuse : Bool) : base.Lists ents (ns.setUsed ino inuse) :=
  ⟨lists.valid, lists.mode, lists.ents⟩

/-- Removing an entry removes it from the lists. -/
theorem erase : base.Lists (erased ents dir name ino)
    (ns.setEnts dir ((ns.ents dir).eraseP (Dirent.matchesEntry name ino))) where
  valid := lists.valid
  mode := lists.mode
  ents := by rw [setEnts_ents, lists.ents, erased]

end Ns.Lists

variable {δ : Type} {env : Env δ} {base ns : Ns} {ents : Nat → List Dirent} {dir ino : Nat}
  {name : Name} (lists : base.Lists ents ns)

include lists

/-- Killing an inode leaves the lists. -/
theorem lists_killFileByInode (valid : base.valid ino = true) {inode : Inode}
    (mode : inode.iMode = base.mode ino) :
    Holds env (fun _ => True) (killFileByInode ino inode)
      (fun _ next => base.Lists ents next) ns := by
  rw [← lists.valid] at valid
  refine holds_bind (holds_time fun now => ?_)
  refine holds_bind (holds_writeInodeWrapper valid trivial ?_)
  rw [if_neg (by simp)]
  have written := lists.setInode mode 0
  split
  · exact holds_pure written
  · refine holds_bind (holds_blockIterateRelease fun _ => ?_)
    refine holds_bind (holds_inodeAllocStats2 valid trivial ?_)
    exact holds_unmarkInodeBitmap valid trivial ((written.setUsed false).setUsed false)

variable (lawful : env.dir.Lawful) (validDir : base.valid dir = true)
  (isDir : base.isDir dir = true)

include lawful validDir isDir

/-- `ext2fs_unlink` removes the first match, if there is one. -/
theorem lists_unlink :
    Holds env (fun _ => True) (lift (.unlink dir name ino))
      (fun rc next => (rc = 0 ↔ ∃ entry ∈ ns.ents dir, Dirent.matchesEntry name ino entry = true) ∧
        next = ns.setEnts dir ((ns.ents dir).eraseP (Dirent.matchesEntry name ino))) ns := by
  refine holds_unlink lawful (lists.valid ▸ validDir) (lists.isDir ▸ isDir) ?_ ?_
  · exact fun entry inEnts matching => ⟨trivial, iff_of_true rfl ⟨entry, inEnts, matching⟩, rfl⟩
  · intro absent
    have none : ∀ entry ∈ ns.ents dir, ¬ Dirent.matchesEntry name ino entry = true := by
      simpa using absent
    refine ⟨iff_of_false (by decide)
      fun ⟨entry, inEnts, matching⟩ => none entry inEnts matching, ?_⟩
    rw [List.eraseP_of_forall_not none, setEnts_self]

/-- `do_unlink_on_ino` removes the first match of a file and reports success, whether there is one
or not. -/
theorem lists_doUnlinkOnIno (valid : base.valid ino = true) (isFile : base.isDir ino = false) :
    Holds env (fun _ => True) (doUnlinkOnIno dir name ino (-1))
      (fun rc next => rc = 0 ∧ base.Lists (erased ents dir name ino) next) ns := by
  have stillValid : ns.valid ino = true := lists.valid ▸ valid
  refine holds_bind (holds_readInodeWrapper stillValid fun inode agrees => ?_)
  have mode : inode.iMode = base.mode ino := by rw [agrees.1, lists.mode]
  dsimp only
  rw [if_neg (by rw [mode]; exact ne_true_of_eq_false isFile)]
  generalize lowered : (if inode.iLinksCount > 0 then _ else _ : Inode) = copy
  have copyMode : copy.iMode = base.mode ino := by
    rw [← lowered]
    split
    · exact mode
    · exact mode
  refine holds_bind ((lists_unlink lists lawful validDir isDir).mono ?_)
  rintro - next ⟨-, rfl⟩
  have fewer := @Ns.Lists.erase base ns ents dir ino name lists
  split
  · refine holds_bind ((lists_killFileByInode fewer valid copyMode).mono ?_)
    rintro - last still
    exact holds_pure ⟨rfl, still⟩
  · refine holds_bind (holds_writeInodeWrapper (fewer.valid ▸ valid) trivial ?_)
    exact holds_pure ⟨rfl, fewer.setInode copyMode _⟩

/-- `do_rmdir_on_ino` removes the first match of a directory, or changes nothing. -/
theorem lists_doRmdirOnIno {perms : Perms} (valid : base.valid ino = true) :
    Holds env (fun _ => True) (doRmdirOnIno perms dir name ino)
      (fun rc next => (rc ≠ 0 ∧ next = ns) ∨ (rc = 0 ∧ base.isDir ino = true ∧
        (∃ entry ∈ ns.ents dir, Dirent.matchesEntry name ino entry = true) ∧
          base.Lists (erased ents dir name ino) next)) ns := by
  have stillValid : ns.valid ino = true := lists.valid ▸ valid
  refine holds_bind (holds_readInodeWrapper stillValid fun inode agrees => ?_)
  have mode : inode.iMode = base.mode ino := by rw [agrees.1, lists.mode]
  dsimp only
  split
  · exact holds_pure (.inl ⟨by decide, rfl⟩)
  split
  · exact holds_pure (.inl ⟨by decide, rfl⟩)
  rename_i recorded
  have inoDir : base.isDir ino = true := by
    rw [Ns.isDir, ← mode]
    simpa using recorded
  refine holds_bind (holds_dirIterate lawful stillValid (lists.isDir ▸ inoDir) ?_)
  simp only [ne_eq, not_true_eq_false, if_false]
  split
  · exact holds_pure (.inl ⟨by decide, rfl⟩)
  refine holds_bind ((lists_unlink lists lawful validDir isDir).mono ?_)
  rintro rc next ⟨found, rfl⟩
  by_cases failed : rc = 0
  swap
  · rw [if_pos failed]
    have none : ∀ entry ∈ ns.ents dir, ¬ Dirent.matchesEntry name ino entry = true :=
      fun entry inEnts matching => failed (found.mpr ⟨entry, inEnts, matching⟩)
    rw [List.eraseP_of_forall_not none, setEnts_self]
    exact holds_pure (.inl ⟨by decide, rfl⟩)
  rw [if_neg (not_not.mpr failed)]
  have fewer := @Ns.Lists.erase base ns ents dir ino name lists
  refine holds_bind ((lists_killFileByInode fewer valid mode).mono ?_)
  rintro - killed still
  split
  · exact holds_pure (.inr ⟨rfl, inoDir, found.mp failed, still⟩)
  · have killedValid : killed.valid dir = true := still.valid ▸ validDir
    refine holds_bind (holds_readInodeWrapper killedValid fun parentInode parentAgrees => ?_)
    refine holds_writeInodeWrapper killedValid trivial
      (.inr ⟨rfl, inoDir, found.mp failed, still.setInode ?_ _⟩)
    rw [← still.mode, ← parentAgrees.1]
    split
    · exact lowerLinks_mode _
    · rfl

end Lists

end Ext2Fuse
