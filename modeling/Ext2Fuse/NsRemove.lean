import Ext2Fuse.NsCreate

/-!
# Removing files and directories

What the tree looks like after a name of a file or an empty directory has been removed,
and `op_unlink` and `op_rmdir`.
-/

namespace Ext2Fuse

open Lib Program Ns

section Outcomes

variable {exact : Bool} {ns next : Ns} {live : Finset Nat} {parent : Nat → Nat} {dir ino : Nat}
  {name : Name} (narrow : ns.Narrow) (tree : ns.Tree live parent)
  (counted : ns.Counted exact none live) (member : dir ∈ live) (valid : ns.valid ino = true)
  (found : ∃ entry ∈ ns.ents dir, Dirent.matchesEntry name ino entry = true)

include narrow tree counted member valid found

/-- Without one of the names of a file the tree is sound again. -/
theorem Ns.Dropped.sound (isFile : ns.isDir ino = false) (dropped : ns.Dropped dir name ino next) :
    next.Narrow ∧ next.Tree live parent ∧ next.Counted exact none live := by
  obtain ⟨before, entry, after, matching, split, erased⟩ := split_of_match found
  obtain ⟨-, rfl⟩ := (matchesEntry_iff valid entry).mp matching
  have inEnts : entry ∈ ns.ents dir := by simp [split]
  have covers := (counted.file dir member entry inEnts isFile).1
  have named := refs_pos member inEnts
  have fewer := refs_remove entry.inode member split
  rw [if_pos rfl] at fewer
  have bound := narrow entry.inode
  simp only [Dropped, erased] at dropped
  generalize plainEq : (ns.setEnts dir (before ++ after)).setInode entry.inode
    (ns.mode entry.inode) (ns.links entry.inode - 1) = plain at dropped
  have plainNarrow : plain.Narrow := by
    have removedNarrow : (ns.setEnts dir (before ++ after)).Narrow := narrow
    rw [← plainEq]
    exact removedNarrow.setInode (ns.mode entry.inode) (by omega)
  have plainTree : plain.Tree live parent := by
    rw [← plainEq]
    exact (tree.removeFile member split isFile).setLinks _
  have plainCounted : plain.Counted exact none live := by
    rw [← plainEq]
    exact (counted.removeFile tree.isDir member split isFile).lower
      (show 0 < ns.links entry.inode by omega)
  obtain rfl | ⟨last, rfl⟩ := dropped
  · exact ⟨plainNarrow, plainTree, plainCounted⟩
  · have untracked : ¬ plain.Tracked live entry.inode := by
      have zero : plain.refs live entry.inode = 0 := by
        rw [← plainEq, refs_setInode]
        omega
      rintro (isLive | ⟨other, otherMember, found, inOther, same⟩)
      · rw [tree.isDir _ isLive] at isFile
        cases isFile
      · exact unnamed_of_refs zero other otherMember found inOther same
    have unmarked := SameOn.setUsed untracked false
    exact ⟨plainNarrow, unmarked.tree plainTree, unmarked.counted plainCounted⟩

/-- Without an empty directory the tree is sound again. -/
theorem Ns.Removed.sound (isDir : ns.isDir ino = true)
    (properName : name ≠ dotName ∧ name ≠ dotDotName) (removed : ns.Removed dir name ino next) :
    next.Narrow ∧ next.Tree (live.erase ino) parent ∧ next.Counted exact none (live.erase ino) := by
  obtain ⟨before, entry, after, matching, split, erased⟩ := split_of_match found
  obtain ⟨rfl, rfl⟩ := (matchesEntry_iff valid entry).mp matching
  have inEnts : entry ∈ ns.ents dir := by simp [split]
  have proper : entry.proper = true := by simp [Dirent.proper, properName]
  obtain ⟨inoLive, notRoot, rfl⟩ := tree.child dir member entry inEnts proper isDir
  have apart := tree.parent_ne inoLive notRoot
  obtain ⟨empty, outcome⟩ := removed
  rw [erased] at outcome
  have bound := narrow (parent entry.inode)
  have covers := (counted.dir _ member).1
  generalize removedEq : ns.setEnts (parent entry.inode) (before ++ after) = removed at outcome
  have removedNarrow : removed.Narrow := removedEq ▸ narrow
  have removedTree : removed.Tree (live.erase entry.inode) parent :=
    removedEq ▸ tree.removeDir inoLive notRoot split proper empty
  have removedCounted : removed.Counted exact (some (parent entry.inode))
      (live.erase entry.inode) := by
    subst removedEq
    refine (counted.removeDir tree.isDir member split isDir proper).erase fun found inFound => ?_
    rw [setEnts_ents, Function.update_of_ne (Ne.symm apart)] at inFound
    have isDots := empty found inFound
    by_cases isDot : found.name = dotName
    · rw [setEnts_isDir, (tree.dot _ inoLive).2 found inFound isDot]
      exact isDir
    · by_cases isDotDot : found.name = dotDotName
      · rw [setEnts_isDir, (tree.dotDot _ inoLive).2 found inFound isDotDot]
        exact tree.isDir _ member
      · simp [Dirent.proper, isDot, isDotDot] at isDots
  have untracked : ¬ removed.Tracked (live.erase entry.inode) entry.inode := by
    rintro (isLive | ⟨other, otherMember, found, inOther, same⟩)
    · exact Finset.notMem_erase _ _ isLive
    · obtain ⟨different, otherLive⟩ := Finset.mem_erase.mp otherMember
      subst removedEq
      exact tree.unnamed_of_removeDir inoLive notRoot split proper empty otherLive different
        inOther same
  have killed := SameOn.setInode untracked (ns.mode entry.inode) 0
  -- the parent's record is the last one written
  have finish : ∀ base : Ns, removed.SameOn base (live.erase entry.inode) → base.Narrow →
      base.mode (parent entry.inode) = ns.mode (parent entry.inode) →
      base.links (parent entry.inode) = ns.links (parent entry.inode) →
      let last := base.setInode (parent entry.inode) (ns.mode (parent entry.inode))
        (ns.links (parent entry.inode) - 1)
      last.Narrow ∧ last.Tree (live.erase entry.inode) parent ∧
        last.Counted exact none (live.erase entry.inode) := by
    intro base same baseNarrow baseMode baseLinks
    rw [← baseMode, ← baseLinks]
    refine ⟨baseNarrow.setInode _ (by omega), (same.tree removedTree).setLinks _, ?_⟩
    exact (same.counted removedCounted).lower (by omega)
  have killedNarrow : (removed.setInode entry.inode (ns.mode entry.inode) 0).Narrow :=
    removedNarrow.setInode _ (by decide)
  obtain rfl | rfl := outcome
  · refine finish _ killed killedNarrow ?_ ?_
    · simp [apart, ← removedEq]
    · simp [apart, ← removedEq]
  · have stillUntracked : ¬ (removed.setInode entry.inode (ns.mode entry.inode) 0).Tracked
      (live.erase entry.inode) entry.inode := untracked
    refine finish _ (killed.trans (SameOn.setUsed stillUntracked false)) killedNarrow ?_ ?_
    · simp [apart, ← removedEq]
    · simp [apart, ← removedEq]

end Outcomes

section Handlers

variable {δ : Type} {env : Env δ} {exact : Bool} {ns : Ns} {live : Finset Nat} {parent : Nat → Nat}
  {dir ino : Nat} {name : Name} (lawful : env.dir.Lawful) (narrow : ns.Narrow)
  (tree : ns.Tree live parent) (counted : ns.Counted exact none live) (member : dir ∈ live)

omit ns live in
/-- What a lookup finds is an entry with the name. -/
theorem mem_of_find {ents : List Dirent} {entry : Dirent}
    (found : ents.find? (fun entry => entry.name == name) = some entry) :
    entry ∈ ents ∧ entry.name = name :=
  ⟨List.mem_of_find?_eq_some found, by simpa using List.find?_some found⟩

include lawful narrow tree counted member

/-- `do_unlink`. -/
theorem holds_doUnlink :
    Holds env Good (doUnlink dir name (-1)) (fun _ next => next.Sound exact) ns := by
  have validDir := (tree.alive_dir member).1
  have sound : ns.Sound exact := ⟨narrow, live, parent, tree, counted⟩
  refine holds_bind (holds_namei lawful validDir (tree.isDir dir member) ?_ ?_)
  · intro entry found
    obtain ⟨inEnts, rfl⟩ := mem_of_find found
    have alive := tree.alive dir member entry inEnts
    cases isDir : ns.isDir entry.inode with
    | true =>
        refine (holds_doUnlinkOnIno_of_dir alive.1 isDir).mono ?_
        rintro rc next ⟨-, rfl⟩
        exact sound
    | false =>
        have matching : ∃ other ∈ ns.ents dir,
            Dirent.matchesEntry entry.name entry.inode other = true :=
          ⟨entry, inEnts, (matchesEntry_iff alive.1 entry).mpr ⟨rfl, rfl⟩⟩
        refine (holds_doUnlinkOnIno lawful narrow (tree.safe counted) member validDir alive.1 isDir
          matching).mono ?_
        rintro rc next ⟨-, dropped⟩
        obtain ⟨nextNarrow, nextTree, nextCounted⟩ :=
          dropped.sound narrow tree counted member alive.1 matching isDir
        exact ⟨nextNarrow, live, parent, nextTree, nextCounted⟩
  · exact fun _ => holds_pure sound

/-- op_unlink keeps a sound name space sound. -/
theorem holds_opUnlink {ctx : FuseCtx} {fuseDir : Nat} (dirEq : EXT2FS_INO fuseDir = dir) :
    Holds env Good (opUnlink ctx fuseDir name) (fun _ next => next.Sound exact) ns := by
  simp only [opUnlink, dirEq, checkPerms, doPermissionsChecks, Bool.not_false, if_true]
  refine holds_bind (holds_pure ?_)
  rw [if_neg (by simp)]
  exact holds_bind ((holds_doUnlink lawful narrow tree counted member).mono
    fun _ _ sound => holds_pure sound)

omit lawful narrow counted in
/-- Without its name, an empty directory is not named by another one. -/
theorem unnamed_of_erased (isDir : ns.isDir ino = true)
    (properName : name ≠ dotName ∧ name ≠ dotDotName)
    (found : ∃ entry ∈ ns.ents dir, Dirent.matchesEntry name ino entry = true)
    (valid : ns.valid ino = true) (empty : ∀ entry ∈ ns.ents ino, entry.proper = false) :
    ∀ other ∈ live, other ≠ ino → ∀ entry ∈
      (ns.setEnts dir ((ns.ents dir).eraseP (Dirent.matchesEntry name ino))).ents other,
        entry.inode ≠ ino := by
  intro other otherMember different entry inOther
  obtain ⟨before, first, after, firstMatches, split, erased⟩ := split_of_match found
  obtain ⟨rfl, rfl⟩ := (matchesEntry_iff valid first).mp firstMatches
  have proper : first.proper = true := by simp [Dirent.proper, properName]
  obtain ⟨isLive, notRoot, rfl⟩ := tree.child dir member first (by simp [split]) proper isDir
  rw [erased] at inOther
  exact tree.unnamed_of_removeDir isLive notRoot split proper empty otherMember different inOther

/-- What `do_rmdir_on_ino` does to a directory of the tree found under a name. -/
theorem holds_doRmdirOnIno_of_tree {perms : Perms} (isDir : ns.isDir ino = true)
    (properName : name ≠ dotName ∧ name ≠ dotDotName) {entry : Dirent}
    (inEnts : entry ∈ ns.ents dir) (nameEq : entry.name = name) (inoEq : entry.inode = ino) :
    Holds env Good (doRmdirOnIno perms dir name ino)
      (fun rc next => (rc ≠ 0 ∧ next = ns) ∨ (rc = 0 ∧ ns.Removed dir name ino next)) ns := by
  subst nameEq inoEq
  have validDir := (tree.alive_dir member).1
  have alive := tree.alive dir member entry inEnts
  have proper : entry.proper = true := by simp [Dirent.proper, properName]
  obtain ⟨inoLive, notRoot, rfl⟩ := tree.child dir member entry inEnts proper isDir
  have matching : ∃ other ∈ ns.ents (parent entry.inode),
      Dirent.matchesEntry entry.name entry.inode other = true :=
    ⟨entry, inEnts, (matchesEntry_iff alive.1 entry).mpr ⟨rfl, rfl⟩⟩
  obtain ⟨dotDot, inOwn, isDotDot⟩ := exists_of_countP_eq_one (tree.dotDot _ inoLive).1
  have covers := (counted.dir _ member).1
  exact holds_doRmdirOnIno lawful narrow (tree.safe counted) member
    (tree.parent_ne inoLive notRoot) inoLive notRoot validDir alive.1 matching
    ⟨dotDot, inOwn, by simpa using isDotDot⟩ (by omega)
    (unnamed_of_erased tree member isDir properName matching alive.1)

omit lawful narrow tree counted member in
/-- `do_rmdir_on_ino` refuses a file. -/
theorem holds_doRmdirOnIno_of_file {perms : Perms} (valid : ns.valid ino = true)
    (isFile : ns.isDir ino = false) :
    Holds env Good (doRmdirOnIno perms dir name ino) (fun rc next => rc ≠ 0 ∧ next = ns) ns := by
  refine holds_bind (holds_readInodeWrapper valid fun inode agrees => ?_)
  dsimp only
  split
  · exact holds_pure ⟨by decide, rfl⟩
  · have recorded : LINUX_S_ISDIR inode.iMode = false := by rw [agrees.1]; exact isFile
    rw [if_pos (by simp [recorded])]
    exact holds_pure ⟨by decide, rfl⟩

/-- `op_rmdir` keeps the tree sound, whether it succeeds or not. -/
theorem holds_opRmdir {ctx : FuseCtx} {fuseDir : Nat} (dirEq : EXT2FS_INO fuseDir = dir)
    (properName : name ≠ dotName ∧ name ≠ dotDotName) :
    Holds env Good (opRmdir ctx fuseDir name) (fun _ next => next.Sound exact) ns := by
  have validDir := (tree.alive_dir member).1
  have sound : ns.Sound exact := ⟨narrow, live, parent, tree, counted⟩
  simp only [opRmdir, doRmdir, dirEq, checkPerms, doPermissionsChecks, Bool.not_false, if_true]
  refine holds_bind (holds_pure ?_)
  rw [if_neg (by simp)]
  refine holds_bind (holds_bind (holds_namei lawful validDir (tree.isDir dir member) ?_ ?_))
  · intro entry found
    obtain ⟨inEnts, nameEq⟩ := mem_of_find found
    have alive := tree.alive dir member entry inEnts
    cases isDir : ns.isDir entry.inode with
    | true =>
        refine (holds_doRmdirOnIno_of_tree lawful narrow tree counted member isDir properName
          inEnts nameEq rfl).mono ?_
        rintro rc next (⟨-, rfl⟩ | ⟨-, removed⟩)
        · exact holds_pure sound
        · have matching : ∃ other ∈ ns.ents dir,
            Dirent.matchesEntry name entry.inode other = true :=
            ⟨entry, inEnts, (matchesEntry_iff alive.1 entry).mpr ⟨nameEq, rfl⟩⟩
          obtain ⟨nextNarrow, nextTree, nextCounted⟩ :=
            removed.sound narrow tree counted member alive.1 matching isDir properName
          exact holds_pure ⟨nextNarrow, _, parent, nextTree, nextCounted⟩
    | false =>
        refine (holds_doRmdirOnIno_of_file alive.1 isDir).mono ?_
        rintro rc next ⟨-, rfl⟩
        exact holds_pure sound
  · exact fun _ => holds_pure (holds_pure sound)

end Handlers

end Ext2Fuse
