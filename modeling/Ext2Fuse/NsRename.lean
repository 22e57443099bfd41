import Ext2Fuse.NsRemove

/-!
# Renaming

`do_rename` enters the new name before it removes the old one. In between a file has one
more name, which its count covers; a directory that moves has two, and the tree is not a
tree until the old name and the old `..` are gone.
-/

namespace Ext2Fuse

open Lib Program Ns

section Lists

variable {before after : List Dirent} {entry : Dirent} {test : Dirent → Bool}

/-- Removing a match and adding an entry that is none may be exchanged. -/
theorem eraseP_insert (before after : List Dirent) (fails : test entry = false) :
    ∃ before' after', (before ++ after).eraseP test = before' ++ after' ∧
      (before ++ entry :: after).eraseP test = before' ++ entry :: after' := by
  by_cases early : ∃ found ∈ before, test found = true
  · obtain ⟨found, inBefore, matching⟩ := early
    refine ⟨before.eraseP test, after, ?_, ?_⟩
    · rw [List.eraseP_append_left matching _ inBefore]
    · rw [List.eraseP_append_left matching _ inBefore]
  · have noneBefore : ∀ found ∈ before, ¬ test found = true := by
      intro found inBefore matching
      exact early ⟨found, inBefore, matching⟩
    refine ⟨before, after.eraseP test, ?_, ?_⟩
    · rw [List.eraseP_append_right _ noneBefore]
    · rw [List.eraseP_append_right _ noneBefore, List.eraseP_cons_of_neg (by simp [fails])]

/-- An entry that fails the test does not change what is found. -/
theorem find_insert (fails : test entry = false) :
    (before ++ entry :: after).find? test = (before ++ after).find? test := by
  simp [List.find?_append, fails]

/-- The first match of one test is not touched by removing a match of another. -/
theorem find_eraseP {other : Dirent → Bool} {ents : List Dirent}
    (apart : ∀ entry, other entry = true → test entry = false) :
    (ents.eraseP other).find? test = ents.find? test := by
  by_cases found : ∃ entry ∈ ents, other entry = true
  · obtain ⟨before, entry, after, matching, split, erased⟩ := split_of_match found
    rw [erased, split, find_insert (apart entry matching)]
  · have none : ∀ entry ∈ ents, ¬ other entry = true := by simpa using found
    rw [List.eraseP_of_forall_not none]

end Lists

section States

variable {exact : Bool} {ns : Ns} {live : Finset Nat} {parent : Nat → Nat} {ino : Nat}
  {before after : List Dirent}

/-- Beside a new `..` the old one is still found. -/
theorem dotDot_found (tree : ns.Tree live parent) (isLive : ino ∈ live)
    (split : ns.ents ino = before ++ after) (new : Dirent) :
    ∃ entry ∈ before ++ new :: after,
      Dirent.matchesEntry dotDotName (parent ino) entry = true := by
  have valid := (tree.alive_dir (tree.parent_mem isLive)).1
  obtain ⟨one, names⟩ := tree.dotDot ino isLive
  obtain ⟨old, inEnts, isDotDot⟩ := exists_of_countP_eq_one one
  have oldName : old.name = dotDotName := by simpa using isDotDot
  refine ⟨old, ?_, (matchesEntry_iff valid old).mpr ⟨oldName, names old inEnts oldName⟩⟩
  rw [split] at inEnts
  simp only [List.mem_append, List.mem_cons] at inEnts ⊢
  tauto

/-- `..` has been entered anew and the old one removed. -/
theorem reparented (tree : ns.Tree live parent) (isLive : ino ∈ live)
    (split : ns.ents ino = before ++ after) {newParent fileType : Nat} :
    Tree.Reparented (ns.ents ino) ((before ++ ⟨dotDotName, newParent, fileType⟩ :: after).eraseP
      (Dirent.matchesEntry dotDotName (parent ino))) newParent := by
  have valid := (tree.alive_dir (tree.parent_mem isLive)).1
  obtain ⟨one, names⟩ := tree.dotDot ino isLive
  obtain ⟨front, removed, back, removedMatches, whole, erased⟩ := split_of_match
    (dotDot_found tree isLive split ⟨dotDotName, newParent, fileType⟩)
  obtain ⟨removedName, removedInode⟩ := (matchesEntry_iff valid removed).mp removedMatches
  rw [erased]
  -- counting the entries that pass a test on both sides of the exchange
  have balance : ∀ test : Dirent → Bool,
      (ns.ents ino).countP test + (if test ⟨dotDotName, newParent, fileType⟩ then 1 else 0) =
        (front ++ back).countP test + if test removed then 1 else 0 := by
    intro test
    have same := congrArg (List.countP test) whole
    rw [split]
    simp only [List.countP_append, List.countP_cons] at same ⊢
    omega
  have dotDots := balance fun entry => entry.name == dotDotName
  refine ⟨?_, ?_, ?_, ?_⟩
  · simp only [removedName, beq_self_eq_true, if_true, one] at dotDots
    omega
  · intro entry inEnts isDotDot
    by_cases newEntry : entry.inode = newParent
    · exact newEntry
    · -- it would be a second old `..`
      exfalso
      have olds := balance fun entry => entry.name == dotDotName && !(entry.inode == newParent)
      have some : 0 < (front ++ back).countP
          fun entry => entry.name == dotDotName && !(entry.inode == newParent) :=
        List.countP_pos_iff.mpr ⟨entry, inEnts, by simp [isDotDot, newEntry]⟩
      have few : (ns.ents ino).countP
          (fun entry => entry.name == dotDotName && !(entry.inode == newParent)) ≤
          (ns.ents ino).countP fun entry => entry.name == dotDotName :=
        List.countP_mono_left fun entry _ both => by
          rw [Bool.and_eq_true] at both
          exact both.1
      by_cases sameParent : parent ino = newParent
      · have zero : (ns.ents ino).countP
            (fun entry => entry.name == dotDotName && !(entry.inode == newParent)) = 0 := by
          refine List.countP_eq_zero.mpr fun found inOwn both => ?_
          rw [Bool.and_eq_true, beq_iff_eq] at both
          have := names found inOwn both.1
          simp [this, sameParent] at both
        simp only [zero, removedName, removedInode, sameParent, beq_self_eq_true, Bool.not_true,
          Bool.and_false, Bool.false_eq_true, if_false] at olds
        omega
      · simp only [removedName, removedInode, beq_self_eq_true, Bool.not_true, Bool.and_false,
          Bool.false_eq_true, if_false, beq_eq_false_iff_ne.mpr sameParent,
          Bool.not_false, Bool.and_self, if_true] at olds
        omega
  · intro entry inEnts notDotDot
    have inWhole : entry ∈ before ++ ⟨dotDotName, newParent, fileType⟩ :: after := by
      rw [whole]
      simp only [List.mem_append, List.mem_cons] at inEnts ⊢
      tauto
    rw [split]
    simp only [List.mem_append, List.mem_cons] at inWhole ⊢
    obtain inBefore | rfl | inAfter := inWhole
    · exact .inl inBefore
    · exact absurd rfl notDotDot
    · exact .inr inAfter
  · intro test fails
    have same := balance test
    rw [fails _ rfl, fails _ removedName] at same
    simpa using same.symm

end States

/-- The first entry with a name is the one an unlink by name alone takes away. -/
theorem split_of_find {ents : List Dirent} {name : Name} {entry : Dirent}
    (found : ents.find? (fun entry => entry.name == name) = some entry) :
    ∃ before after, ents = before ++ entry :: after ∧
      ents.eraseP (Dirent.matchesEntry name 0) = before ++ after := by
  obtain ⟨named, before, after, split, none⟩ := List.find?_eq_some_iff_append.mp found
  refine ⟨before, after, split, ?_⟩
  rw [split, List.eraseP_append_right _ ?_, List.eraseP_cons_of_pos]
  · simpa [Dirent.matchesEntry] using named
  · intro earlier inBefore
    simpa [Dirent.matchesEntry] using none earlier inBefore

/-- Removing the target's name does not touch the entries with another name. -/
theorem find_of_removed {ns next : Ns} {dir newDir target : Nat} {name newName : Name}
    (ents : next.ents = Function.update ns.ents newDir
      ((ns.ents newDir).eraseP (Dirent.matchesEntry newName target)))
    (valid : ns.valid target = true) (apart : dir = newDir → name ≠ newName) :
    (next.ents dir).find? (fun entry => entry.name == name) =
      (ns.ents dir).find? fun entry => entry.name == name := by
  rw [ents]
  by_cases same : dir = newDir
  · subst same
    rw [Function.update_self]
    refine find_eraseP fun other otherMatches => ?_
    have otherName := ((matchesEntry_iff valid other).mp otherMatches).1
    simp [otherName, Ne.symm (apart rfl)]
  · rw [Function.update_of_ne same]

theorem matchesEntry_of_ne {ns : Ns} (name : Name) {ino : Nat} {entry : Dirent}
    (valid : ns.valid ino = true) (different : entry.inode ≠ ino) :
    Dirent.matchesEntry name ino entry = false := by
  cases entryMatches : Dirent.matchesEntry name ino entry with
  | true => exact absurd ((matchesEntry_iff valid entry).mp entryMatches).2 different
  | false => rfl

/-- What is left to prove of a request that has failed. -/
theorem Ns.Sound.weaken {exact : Bool} {ns : Ns} (sound : ns.Sound exact) (success : Bool) :
    ns.Sound (exact && success) := by
  cases success with
  | true => simpa using sound
  | false =>
      obtain ⟨narrow, live, parent, tree, counted⟩ := sound
      exact ⟨narrow, live, parent, tree, by simpa using counted.weaken⟩

section Ends

namespace Ns

/-- The inode a name leads to, or 0. -/
def lookup (ns : Ns) (dir : Nat) (name : Name) : Nat :=
  (((ns.ents dir).find? fun entry => entry.name == name).map Dirent.inode).getD 0

/-- A file's own count has been raised and its new name entered: where `do_rename` ends from
there. A directory that is in the way ends it with everything left as it is; otherwise the
target's name goes, if there is a target, and then the old one. -/
def FileLinked (ns : Ns) (dir : Nat) (name : Name) (newDir : Nat) (newName : Name)
    (ino target : Nat) (rc : Errcode) (next : Ns) : Prop :=
  (rc = EISDIR ∧ target ≠ 0 ∧ ns.isDir target = true ∧ next = ns) ∨
    (rc = 0 ∧ ∃ mid, ((target = 0 ∧ mid = ns) ∨
      (target ≠ 0 ∧ ns.isDir target = false ∧ ns.Dropped newDir newName target mid)) ∧
        mid.Dropped dir name ino next)

/-- The new parent of a moving directory has one more link, and the new name is
entered. -/
def entered (ns : Ns) (newDir : Nat) (ents : List Dirent) : Ns :=
  (ns.raised newDir).setEnts newDir ents

/-- The new name is entered and `..` names the new parent. -/
def turned (ns : Ns) (ino newDir : Nat) (ents dots : List Dirent) : Ns :=
  (ns.entered newDir ents).setEnts ino dots

/-- The old name of the directory is gone, too, and the old parent has a link less. -/
def moved (ns : Ns) (dir : Nat) (name : Name) (ino newDir : Nat) (ents dots : List Dirent) : Ns :=
  let turned := ns.turned ino newDir ents dots
  let gone := turned.setEnts dir ((turned.ents dir).eraseP (Dirent.matchesEntry name 0))
  gone.setInode dir (gone.mode dir) (gone.links dir - 1)

/-- Where `do_rename` of a directory ends from the exchange of `..` on, when the new name would
stand between `before` and `after` in the new parent: everything is taken back, or the
directory is moved. -/
def DirTurned (ns : Ns) (dir : Nat) (name : Name) (newDir : Nat) (new : Dirent)
    (before after : List Dirent) (rc : Errcode) (next : Ns) : Prop :=
  (rc ≠ 0 ∧ next = ns) ∨
    (rc = 0 ∧ ∃ dots dots' fileType, ns.ents new.inode = dots ++ dots' ∧
      next = ns.moved dir name new.inode newDir (before ++ new :: after)
        ((dots ++ ⟨dotDotName, newDir, fileType⟩ :: dots').eraseP
          (Dirent.matchesEntry dotDotName dir)))

/-- Where `do_rename` of a directory ends from the new link on. Without a target the
directory is moved or everything taken back; a target is refused, or it is removed first. -/
def DirLinked (ns : Ns) (dir : Nat) (name : Name) (newDir : Nat) (new : Dirent) (target : Nat)
    (before after : List Dirent) (rc : Errcode) (next : Ns) : Prop :=
  (target = 0 ∧ ns.DirTurned dir name newDir new before after rc next) ∨
    (target ≠ 0 ∧ rc ≠ 0 ∧ next = ns) ∨
    (target ≠ 0 ∧ ns.isDir target = true ∧
      ∃ base front back, ns.Removed newDir new.name target base ∧
      base.ents newDir = front ++ back ∧ base.DirTurned dir name newDir new front back rc next)

/-- Where `do_rename` ends. -/
inductive RenameEnds (ns : Ns) (dir : Nat) (name : Name) (newDir : Nat) (newName : Name) :
    Errcode → Ns → Prop where
  /-- There is no such name. -/
  | absent (none : (ns.ents dir).find? (fun entry => entry.name == name) = none) :
      RenameEnds ns dir name newDir newName ENOENT ns
  /-- The new name could not be entered; the count that was raised for it stays so. -/
  | full (old : Dirent)
      (found : (ns.ents dir).find? (fun entry => entry.name == name) = some old) :
      RenameEnds ns dir name newDir newName EIO
        (ns.raised (if ns.isDir old.inode then newDir else old.inode))
  | file {rc : Errcode} {next : Ns} (old : Dirent)
      (found : (ns.ents dir).find? (fun entry => entry.name == name) = some old)
      (isFile : ns.isDir old.inode = false) (before after : List Dirent) (fileType : Nat)
      (split : ns.ents newDir = before ++ after)
      (linked : ((ns.raised old.inode).setEnts newDir
        (before ++ ⟨newName, old.inode, fileType⟩ :: after)).FileLinked dir name newDir newName
          old.inode (ns.lookup newDir newName) rc next) :
      RenameEnds ns dir name newDir newName rc next
  | directory {rc : Errcode} {next : Ns} (old : Dirent)
      (found : (ns.ents dir).find? (fun entry => entry.name == name) = some old)
      (isDir : ns.isDir old.inode = true) (before after : List Dirent) (fileType : Nat)
      (split : ns.ents newDir = before ++ after)
      (linked : ns.DirLinked dir name newDir ⟨newName, old.inode, fileType⟩
        (ns.lookup newDir newName) before after rc next) :
      RenameEnds ns dir name newDir newName rc next

end Ns

end Ends

section Files

variable {δ : Type} {env : Env δ} {exact : Bool} {ns : Ns} {live : Finset Nat} {parent : Nat → Nat}
  {dir newDir ino : Nat} {name newName : Name} {perms : Perms} {inode : Inode}
  (lawful : env.dir.Lawful) (narrow : ns.Narrow) (tree : ns.Tree live parent)
  (counted : ns.Counted exact none live) (member : dir ∈ live)

include lawful narrow tree counted member

/-- The old name of a file goes. -/
theorem holds_renameFileOld {old : Dirent}
    (found : (ns.ents dir).find? (fun entry => entry.name == name) = some old)
    (isFile : ns.isDir old.inode = false) :
    Holds env Good (renameFileOld dir name newDir newName ino inode)
      (fun rc next => next.Sound exact ∧ rc = 0 ∧ ns.Dropped dir name old.inode next) ns := by
  have validDir := (tree.alive_dir member).1
  obtain ⟨inEnts, rfl⟩ := mem_of_find found
  have alive := tree.alive dir member old inEnts
  have matching : ∃ other ∈ ns.ents dir, Dirent.matchesEntry old.name old.inode other = true :=
    ⟨old, inEnts, (matchesEntry_iff alive.1 old).mpr ⟨rfl, rfl⟩⟩
  refine holds_bind (holds_bind (holds_namei lawful validDir (tree.isDir dir member) ?_ ?_))
  · intro entry foundEntry
    obtain rfl : old = entry := by simpa [found] using foundEntry
    refine (holds_doUnlinkOnIno lawful narrow (tree.safe counted) member validDir alive.1 isFile
      matching).mono ?_
    rintro rc next ⟨rfl, dropped⟩
    obtain ⟨nextNarrow, nextTree, nextCounted⟩ :=
      dropped.sound narrow tree counted member alive.1 matching isFile
    rw [if_neg (by simp)]
    exact holds_pure ⟨⟨nextNarrow, live, parent, nextTree, nextCounted⟩, rfl, dropped⟩
  · intro none
    rw [none] at found
    cases found

/-- `do_rename` of a file from the new link on. A target that is a directory is left
alone and the new name stays; otherwise the target's name and the old name go. -/
theorem holds_renameLinked_file (newMember : newDir ∈ live) (old : Dirent) {target : Nat}
    (found : (ns.ents dir).find? (fun entry => entry.name == name) = some old)
    (isFile : ns.isDir old.inode = false) (recorded : LINUX_S_ISDIR inode.iMode = false)
    (targetEntry : target ≠ 0 → ∃ entry ∈ ns.ents newDir, entry.name = newName ∧
      entry.inode = target)
    (apart : dir = newDir → name ≠ newName) :
    Holds env Good (renameLinked perms dir name newDir newName ino target inode)
      (fun rc next => next.Sound exact ∧
        ns.FileLinked dir name newDir newName old.inode target rc next) ns := by
  have sound : ns.Sound exact := ⟨narrow, live, parent, tree, counted⟩
  have validNew := (tree.alive_dir newMember).1
  simp only [renameLinked]
  by_cases noTarget : target = 0
  · rw [if_neg (by simp [noTarget]), recorded, if_neg (by simp)]
    refine (holds_renameFileOld lawful narrow tree counted member found isFile).mono ?_
    rintro rc next ⟨nextSound, rfl, dropped⟩
    exact ⟨nextSound, .inr ⟨rfl, ns, .inl ⟨noTarget, rfl⟩, dropped⟩⟩
  · rw [if_pos noTarget]
    obtain ⟨entry, inEnts, rfl, rfl⟩ := targetEntry noTarget
    have alive := tree.alive newDir newMember entry inEnts
    refine holds_bind (holds_readInodeWrapper alive.1 fun targetInode agrees => ?_)
    have targetRecorded : LINUX_S_ISDIR targetInode.iMode = ns.isDir entry.inode := by
      rw [agrees.1, isDir]
    simp only [recorded, Bool.false_eq_true, if_false, targetRecorded]
    cases targetDir : ns.isDir entry.inode with
    | true => exact holds_pure ⟨sound, .inl ⟨rfl, noTarget, targetDir, rfl⟩⟩
    | false =>
        rw [if_neg (by simp)]
        have matching : ∃ other ∈ ns.ents newDir,
            Dirent.matchesEntry entry.name entry.inode other = true :=
          ⟨entry, inEnts, (matchesEntry_iff alive.1 entry).mpr ⟨rfl, rfl⟩⟩
        refine holds_bind ((holds_doUnlinkOnIno lawful narrow (tree.safe counted) newMember validNew
          alive.1 targetDir matching).mono ?_)
        rintro rc next ⟨rfl, dropped⟩
        obtain ⟨nextNarrow, nextTree, nextCounted⟩ :=
          dropped.sound narrow tree counted newMember alive.1 matching targetDir
        rw [if_neg (by simp)]
        have sameDirs : next.isDir = ns.isDir := by
          obtain rfl | ⟨-, rfl⟩ := dropped
          · exact setInode_isDir_of_mode (ns.setEnts newDir _) _ _
          · exact setInode_isDir_of_mode (ns.setEnts newDir _) _ (ns.links entry.inode - 1)
        have nextEnts : next.ents = Function.update ns.ents newDir ((ns.ents newDir).eraseP
            (Dirent.matchesEntry entry.name entry.inode)) := by
          obtain rfl | ⟨-, rfl⟩ := dropped <;> rfl
        refine (holds_renameFileOld lawful nextNarrow nextTree nextCounted member
          ((find_of_removed nextEnts alive.1 apart).trans found)
            (by rw [sameDirs]; exact isFile)).mono ?_
        rintro rc last ⟨lastSound, rfl, lastDropped⟩
        exact ⟨lastSound, .inr ⟨rfl, next, .inr ⟨noTarget, targetDir, dropped⟩, lastDropped⟩⟩

end Files

section Directories

variable {δ : Type} {env : Env δ} {exact : Bool} {ns : Ns} {live : Finset Nat} {parent : Nat → Nat}
  {newDir : Nat} {name : Name} {perms : Perms} {inode : Inode} {before after : List Dirent}
  {old new : Dirent}

/-- With the new name in, all counts are exact but for the moved directory's new parent. -/
theorem entered_counted (tree : ns.Tree live parent) (counted : ns.Counted exact none live)
    (newMember : newDir ∈ live) (split : ns.ents newDir = before ++ after)
    (isDir : ns.isDir new.inode = true) (proper : new.proper = true) :
    (ns.entered newDir (before ++ new :: after)).Counted exact none live := by
  have raised : (ns.raised newDir).Counted exact
    (some newDir) live := counted.raise
  exact raised.insertDir (by simpa using tree.isDir) newMember split (by simpa using isDir) proper

/-- With the new name in, every link is safe. -/
theorem entered_safe (new : Dirent) (tree : ns.Tree live parent)
    (counted : ns.Counted exact none live)
    (newMember : newDir ∈ live) (split : ns.ents newDir = before ++ after)
    (isLive : new.inode ∈ live) : (ns.entered newDir (before ++ new :: after)).Safe live := by
  have raised := (raised_tree newDir tree).safe counted.raise
  have positive := (raised_counted newDir counted).dir _ isLive
  have isDir := tree.isDir _ isLive
  refine raised.insert newMember split ?_ ?_ (fun _ => isLive) ?_
  · simpa [Alive] using tree.alive_dir isLive
  · have covers := positive.1
    omega
  · intro isFile
    rw [raised_isDir, isDir] at isFile
    cases isFile

/-- `cleanup:` for a directory whose new name has been entered: the name space is again
what it was before. -/
theorem holds_renameCleanup_dir (lawful : env.dir.Lawful) (narrow : ns.Narrow)
    (tree : ns.Tree live parent) (counted : ns.Counted exact none live) (newMember : newDir ∈ live)
    (split : ns.ents newDir = before ++ after) (isLive : new.inode ∈ live)
    (fresh : ∀ entry ∈ ns.ents newDir, entry.name = new.name → entry.inode ≠ new.inode)
    (recorded : LINUX_S_ISDIR inode.iMode = true) (ret : Errcode)
    (below : ns.links newDir < 65535) :
    Holds env Good (renameCleanup newDir new.name new.inode inode ret)
      (fun rc next => rc = ret ∧ next = ns) (ns.entered newDir (before ++ new :: after)) := by
  have valid := (tree.alive_dir isLive).1
  have validNew := (tree.alive_dir newMember).1
  have safe := tree.safe counted
  have bound := narrow newDir
  have linked : 2 ≤ ns.links newDir := by
    have covers := (counted.dir newDir newMember).1
    omega
  have matching : Dirent.matchesEntry new.name new.inode new = true :=
    (matchesEntry_iff valid new).mpr ⟨rfl, rfl⟩
  -- the entry that is removed is the new one: no other has both its name and its inode
  have erased : (before ++ new :: after).eraseP (Dirent.matchesEntry new.name new.inode) =
      ns.ents newDir := by
    rw [List.eraseP_append_right _ ?_, List.eraseP_cons_of_pos matching, split]
    intro entry inBefore entryMatches
    obtain ⟨sameName, sameInode⟩ := (matchesEntry_iff valid entry).mp entryMatches
    exact fresh entry (by simp [split, inBefore]) sameName sameInode
  have restored : (ns.entered newDir (before ++ new :: after)).setEnts newDir (ns.ents newDir) =
      ns.raised newDir := by
    ext : 1 <;> simp [entered]
  have raisedSafe : (ns.raised newDir).Safe live :=
    (tree.setLinks _).safe counted.raise
  have isDir : (ns.entered newDir (before ++ new :: after)).isDir newDir = true := by
    simpa [entered] using tree.isDir newDir newMember
  have entsEq : (ns.entered newDir (before ++ new :: after)).ents newDir =
      before ++ new :: after := by simp [entered]
  have stillValid : (ns.entered newDir (before ++ new :: after)).valid newDir = true := validNew
  refine holds_bind (holds_unlink lawful stillValid isDir ?_ fun absent => ?_)
  · rintro - - -
    rw [entsEq, erased, restored]
    refine ⟨⟨narrow.setInode _ (by omega), live, raisedSafe⟩, ?_⟩
    simp only [ne_eq, not_true_eq_false, if_false, recorded, Bool.not_true, Bool.false_eq_true]
    refine holds_bind (holds_readInode validNew fun newInode agrees => ?_)
    have count : newInode.iLinksCount = ns.links newDir + 1 := by simpa using agrees.2
    have mode : newInode.iMode = ns.mode newDir := by simpa using agrees.1
    have written : (ns.raised newDir).setInode newDir
        newInode.lowerLinks.iMode newInode.lowerLinks.iLinksCount = ns := by
      rw [lowerLinks_mode, lowerLinks_count (by omega) (by omega), mode, count]
      ext : 1 <;> simp
    refine holds_bind (holds_writeInode validNew ?_ ?_)
    · rw [written]
      exact ⟨narrow, live, safe⟩
    · rw [written]
      exact holds_pure ⟨rfl, rfl⟩
  · rw [absent new (by simp [entsEq])] at matching
    cases matching

section Moved

variable {dots dots' : List Dirent} {fileType : Nat} (tree : ns.Tree live parent)
  (isLive : old.inode ∈ live) (notRoot : old.inode ≠ EXT2_ROOT_INO) (newMember : newDir ∈ live)
  (outside : ¬ Under parent old.inode newDir)
  (split : ns.ents newDir = before ++ after) (sameInode : new.inode = old.inode)
  (proper : new.proper = true) (dotsSplit : ns.ents old.inode = dots ++ dots')
  (found : (ns.ents (parent old.inode)).find? (fun entry => entry.name == name) = some old)
  (properName : name ≠ dotName ∧ name ≠ dotDotName)
  (apart : parent old.inode = newDir → name ≠ new.name)

include tree isLive notRoot split found apart

/-- The old name is still the first one, and removing it leaves the new one. -/
theorem turned_parent (ownDots : List Dirent) (newApart : newDir ≠ old.inode) :
    ∃ front back, (ns.turned old.inode newDir (before ++ new :: after) ownDots).ents
        (parent old.inode) = front ++ old :: back ∧
      (front ++ old :: back).eraseP (Dirent.matchesEntry name 0) = front ++ back ∧
      ∃ oldFront oldBack, ns.ents (parent old.inode) = oldFront ++ old :: oldBack ∧
        ∃ newBefore newAfter, (ns.setEnts (parent old.inode) (oldFront ++ oldBack)).ents newDir =
            newBefore ++ newAfter ∧
          ((ns.turned old.inode newDir (before ++ new :: after) ownDots).setEnts
              (parent old.inode) (front ++ back)).ents =
            (((ns.setEnts (parent old.inode) (oldFront ++ oldBack)).setEnts newDir
              (newBefore ++ new :: newAfter)).setEnts old.inode ownDots).ents := by
  have parentApart := tree.parent_ne isLive notRoot
  obtain ⟨oldFront, oldBack, oldSplit, oldErased⟩ := split_of_find found
  by_cases same : parent old.inode = newDir
  · -- within one directory the two names stand in the same list
    have fails : (new.name == name) = false := by simp [Ne.symm (apart same)]
    have stillFound : (before ++ new :: after).find? (fun entry => entry.name == name) =
        some old := by
      rw [find_insert fails, ← split, ← same]
      exact found
    obtain ⟨front, back, newSplit, newErased⟩ := split_of_find stillFound
    obtain ⟨newBefore, newAfter, plain, inserted⟩ := eraseP_insert before after
      (show Dirent.matchesEntry name 0 new = false by simpa [Dirent.matchesEntry] using fails)
    refine ⟨front, back, ?_, newSplit ▸ newErased, oldFront, oldBack, oldSplit, newBefore, newAfter,
      ?_, ?_⟩
    · simp [turned, entered, same, newApart, newSplit]
    · rw [same, split] at oldErased
      simp [same, ← oldErased, plain]
    · rw [← newErased, inserted]
      simp only [turned, entered, setEnts_ents, raised_ents, same]
      rw [Function.update_comm newApart, Function.update_idem, Function.update_idem,
        Function.update_comm newApart.symm]
  · refine ⟨oldFront, oldBack, ?_, oldSplit ▸ oldErased, oldFront, oldBack, oldSplit, before, after,
      ?_, ?_⟩
    · simp [turned, entered, same, parentApart, oldSplit]
    · simpa [Ne.symm same] using split
    · simp only [turned, entered, setEnts_ents, raised_ents]
      rw [Function.update_comm parentApart.symm, Function.update_comm (Ne.symm same)]

include newMember outside sameInode proper dotsSplit properName

/-- The directory has moved and its old parent has a link to spare. -/
theorem moved_sound (counted : ns.Counted exact none live) {ents : List Dirent}
    (entsEq : (dots ++ ⟨dotDotName, newDir, fileType⟩ :: dots').eraseP
      (Dirent.matchesEntry dotDotName (parent old.inode)) = ents) :
    let turned := ns.turned old.inode newDir (before ++ new :: after) ents
    let moved := turned.setEnts (parent old.inode)
      ((turned.ents (parent old.inode)).eraseP (Dirent.matchesEntry name 0))
    moved.Tree live (Function.update parent old.inode newDir) ∧
      moved.Counted exact (some (parent old.inode)) live := by
  have newApart : newDir ≠ old.inode := fun same => outside (same ▸ Under.refl _ _)
  have parentMember := tree.parent_mem isLive
  have parentValid := (tree.alive_dir parentMember).1
  have isDir := tree.isDir _ isLive
  have oldProper : old.proper = true := by
    have nameEq := (mem_of_find found).2
    simp [Dirent.proper, nameEq, properName]
  obtain ⟨front, back, parentEnts, erased, oldFront, oldBack, oldSplit, newBefore, newAfter,
    newSplit, movedEnts⟩ := turned_parent tree isLive notRoot split found apart ents newApart
  dsimp only
  rw [parentEnts, erased]
  refine ⟨?_, ?_⟩
  · have moved := (raised_tree newDir tree).moveDir isLive notRoot
      newMember outside oldSplit oldProper sameInode proper newSplit
      (entsEq ▸ reparented tree isLive dotsSplit)
    convert moved using 1
    ext : 1
    · rfl
    · rfl
    · rfl
    · rfl
    · exact movedEnts
  · have entered := entered_counted tree counted newMember split (by rwa [sameInode]) proper
    have enteredDots : (ns.entered newDir (before ++ new :: after)).ents old.inode =
        dots ++ dots' := by
      simpa [Ns.entered, Ne.symm newApart] using dotsSplit
    have enteredDir : (ns.entered newDir (before ++ new :: after)).isDir = ns.isDir := by
      simp [Ns.entered]
    have inserted : (ns.turned old.inode newDir (before ++ new :: after)
        (dots ++ ⟨dotDotName, newDir, fileType⟩ :: dots')).Counted exact none live :=
      entered.insertDots isLive enteredDots (by rw [enteredDir]; exact tree.isDir newDir newMember)
        (by simp [Dirent.proper])
    obtain ⟨upper, removed, lower, removedMatches, whole, dotsErased⟩ := split_of_match
      (dotDot_found tree isLive dotsSplit ⟨dotDotName, newDir, fileType⟩)
    obtain ⟨removedName, removedInode⟩ := (matchesEntry_iff parentValid removed).mp removedMatches
    have settled : (ns.turned old.inode newDir (before ++ new :: after) ents).Counted exact none
        live := by
      rw [whole] at inserted
      have removedDir : (ns.turned old.inode newDir (before ++ new :: after)
          (upper ++ removed :: lower)).isDir removed.inode = true := by
        rw [turned, setEnts_isDir, enteredDir, removedInode]
        exact tree.isDir _ parentMember
      have ownEnts : (ns.turned old.inode newDir (before ++ new :: after)
          (upper ++ removed :: lower)).ents old.inode = upper ++ removed :: lower := by
        simp [turned]
      have counts := inserted.removeDots isLive ownEnts removedDir
        (by simp [Dirent.proper, removedName])
      rw [← dotsErased, entsEq] at counts
      simpa [turned, setEnts] using counts
    refine settled.removeDir ?_ parentMember parentEnts ?_ oldProper
    · rw [turned, setEnts_isDir, enteredDir]
      exact tree.isDir
    · rw [turned, setEnts_isDir, enteredDir]
      exact isDir

include tree isLive newMember outside split sameInode dotsSplit

omit notRoot found properName apart proper in
/-- With '..' turned to the new parent, every link is safe. -/
theorem turned_safe (fileType : Nat) (counted : ns.Counted exact none live) :
    (ns.turned old.inode newDir (before ++ new :: after)
      (dots ++ ⟨dotDotName, newDir, fileType⟩ :: dots')).Safe live := by
  have newApart : newDir ≠ old.inode := fun same => outside (same ▸ Under.refl _ _)
  have newIsDir := tree.isDir _ newMember
  have entered := entered_safe new tree counted newMember split (sameInode ▸ isLive)
  refine entered.insert isLive (by simpa [Ns.entered, Ne.symm newApart] using dotsSplit) ?_ ?_
    (fun _ => newMember) ?_
  · simpa [Alive, Ns.entered] using tree.alive_dir newMember
  · simp [Ns.entered]
  · intro isFile
    simp [Ns.entered, newIsDir] at isFile

end Moved

/-- A directory with a link to spare gives it up: its record is written with one link less. -/
theorem lowered_spare {dir : Nat} (narrow : ns.Narrow) (tree : ns.Tree live parent)
    (counted : ns.Counted exact (some dir) live) (member : dir ∈ live)
    (agrees : ns.Agrees dir inode) :
    ns.setInode dir inode.lowerLinks.iMode inode.lowerLinks.iLinksCount =
        ns.setInode dir (ns.mode dir) (ns.links dir - 1) ∧
      (ns.setInode dir (ns.mode dir) (ns.links dir - 1)).Narrow ∧
      (ns.setInode dir (ns.mode dir) (ns.links dir - 1)).Tree live parent ∧
      (ns.setInode dir (ns.mode dir) (ns.links dir - 1)).Counted exact none live := by
  have covers := (counted.dir dir member).1
  rw [if_pos rfl] at covers
  have bound := narrow dir
  refine ⟨?_, narrow.setInode _ (by omega), tree.setLinks _, counted.lower (by omega)⟩
  rw [lowerLinks_mode, lowerLinks_count (by rw [agrees.2]; omega) (by rw [agrees.2]; omega),
    agrees.1, agrees.2]

section Dropped

variable {dots dots' : List Dirent} {fileType : Nat} (lawful : env.dir.Lawful)
  (tree : ns.Tree live parent) (isLive : old.inode ∈ live)

include lawful tree isLive

/-- The old `..` is unlinked: of the two that the moved directory has, it is still found. -/
theorem holds_dropDotDot (dotsSplit : ns.ents old.inode = dots ++ dots')
    (narrow : (ns.entered newDir (before ++ new :: after)).Narrow)
    (safe : (ns.turned old.inode newDir (before ++ new :: after)
      (dots ++ ⟨dotDotName, newDir, fileType⟩ :: dots')).Safe live) :
    Holds env Good (lift (.unlink old.inode dotDotName (parent old.inode)))
      (fun rc next => rc = 0 ∧ next.Safe live ∧
        next = ns.turned old.inode newDir (before ++ new :: after)
          ((dots ++ ⟨dotDotName, newDir, fileType⟩ :: dots').eraseP
            (Dirent.matchesEntry dotDotName (parent old.inode))))
      (ns.turned old.inode newDir (before ++ new :: after)
        (dots ++ ⟨dotDotName, newDir, fileType⟩ :: dots')) := by
  have ownEnts : (ns.turned old.inode newDir (before ++ new :: after)
      (dots ++ ⟨dotDotName, newDir, fileType⟩ :: dots')).ents old.inode =
        dots ++ ⟨dotDotName, newDir, fileType⟩ :: dots' := by
    simp [turned]
  have exchange : ∀ ents, (ns.turned old.inode newDir (before ++ new :: after)
      (dots ++ ⟨dotDotName, newDir, fileType⟩ :: dots')).setEnts old.inode ents =
        ns.turned old.inode newDir (before ++ new :: after) ents := by
    intro ents
    simp [turned, setEnts]
  refine holds_unlink lawful
    (show Ns.valid (ns.turned _ _ _ _) _ = true from (tree.alive_dir isLive).1)
    (by simpa [turned, entered] using tree.isDir _ isLive) ?_ fun absent => ?_
  · rintro - - -
    have fewer : ((dots ++ ⟨dotDotName, newDir, fileType⟩ :: dots').eraseP
        (Dirent.matchesEntry dotDotName (parent old.inode))).Sublist
          ((ns.turned old.inode newDir (before ++ new :: after)
            (dots ++ ⟨dotDotName, newDir, fileType⟩ :: dots')).ents old.inode) := by
      rw [ownEnts]
      exact List.eraseP_sublist
    have exchangedSafe := safe.sublist fewer
    rw [ownEnts]
    rw [exchange] at exchangedSafe ⊢
    exact ⟨⟨narrow, live, exchangedSafe⟩, rfl, exchangedSafe, rfl⟩
  · obtain ⟨entry, inEnts, entryMatches⟩ := dotDot_found tree isLive dotsSplit
      ⟨dotDotName, newDir, fileType⟩
    rw [absent entry (by rwa [ownEnts])] at entryMatches
    cases entryMatches

/-- The old name is unlinked from the old parent. -/
theorem holds_dropOld (notRoot : old.inode ≠ EXT2_ROOT_INO)
    (newApart : newDir ≠ old.inode) (split : ns.ents newDir = before ++ after)
    (found : (ns.ents (parent old.inode)).find? (fun entry => entry.name == name) = some old)
    (apart : parent old.inode = newDir → name ≠ new.name) (ownDots : List Dirent)
    (narrow : (ns.entered newDir (before ++ new :: after)).Narrow)
    (safe : (ns.turned old.inode newDir (before ++ new :: after) ownDots).Safe live) :
    Holds env Good (lift (.unlink (parent old.inode) name 0))
      (fun rc next => rc = 0 ∧
        next = (ns.turned old.inode newDir (before ++ new :: after) ownDots).setEnts
          (parent old.inode) (((ns.turned old.inode newDir (before ++ new :: after) ownDots).ents
            (parent old.inode)).eraseP (Dirent.matchesEntry name 0)))
      (ns.turned old.inode newDir (before ++ new :: after) ownDots) := by
  have parentMember := tree.parent_mem isLive
  obtain ⟨front, back, parentEnts, -, -⟩ :=
    turned_parent tree isLive notRoot split found apart ownDots newApart
  refine holds_unlink lawful
    (show Ns.valid (ns.turned _ _ _ _) _ = true from (tree.alive_dir parentMember).1)
    (by simpa [turned, entered] using tree.isDir _ parentMember) ?_ fun absent => ?_
  · rintro - - -
    exact ⟨⟨narrow, live, safe.sublist List.eraseP_sublist⟩, rfl, rfl⟩
  · have oldMatches : Dirent.matchesEntry name 0 old = true := by
      simp [Dirent.matchesEntry, (mem_of_find found).2]
    rw [absent old (by simp [parentEnts])] at oldMatches
    cases oldMatches

end Dropped

/-- `do_rename` of a directory from the exchange of `..` on. If `..` cannot be entered
the name space is again what it was. -/
theorem holds_renameDirOld (lawful : env.dir.Lawful) (narrow : ns.Narrow)
    (tree : ns.Tree live parent) (counted : ns.Counted exact none live)
    (isLive : old.inode ∈ live) (notRoot : old.inode ≠ EXT2_ROOT_INO) (newMember : newDir ∈ live)
    (outside : ¬ Under parent old.inode newDir) (split : ns.ents newDir = before ++ after)
    (sameInode : new.inode = old.inode) (proper : new.proper = true)
    (found : (ns.ents (parent old.inode)).find? (fun entry => entry.name == name) = some old)
    (properName : name ≠ dotName ∧ name ≠ dotDotName)
    (fresh : ∀ entry ∈ ns.ents newDir, entry.name = new.name → entry.inode ≠ new.inode)
    (recorded : LINUX_S_ISDIR inode.iMode = true) (below : ns.links newDir < 65535)
    (notOne : EXT2FS_INO newDir = newDir) :
    Holds env Good (renameDirOld (parent old.inode) name newDir new.name old.inode inode)
      (fun rc next => next.Sound exact ∧
        ns.DirTurned (parent old.inode) name newDir new before after rc next)
      (ns.entered newDir (before ++ new :: after)) := by
  have newApart : newDir ≠ old.inode := fun same => outside (same ▸ Under.refl _ _)
  have apart : parent old.inode = newDir → name ≠ new.name := by
    rintro same rfl
    obtain ⟨inEnts, nameEq⟩ := mem_of_find found
    rw [same] at inEnts
    exact fresh old inEnts nameEq sameInode.symm
  have enteredNarrow : (ns.entered newDir (before ++ new :: after)).Narrow :=
    show (ns.raised newDir).Narrow from narrow.setInode _ (by omega)
  have enteredSafe := entered_safe new tree counted newMember split (sameInode ▸ isLive)
  have enteredDots : (ns.entered newDir (before ++ new :: after)).ents old.inode =
      ns.ents old.inode := by
    simp [Ns.entered, Ne.symm newApart]
  simp only [renameDirOld, notOne]
  refine holds_bind ((holds_doLink lawful enteredNarrow enteredSafe isLive
    (tree.alive_dir isLive).1 ?_).mono ?_)
  · intro dots dots' fileType dotsSplit
    exact turned_safe tree isLive newMember outside split sameInode
      (enteredDots ▸ dotsSplit) fileType counted
  rintro rc next (⟨rfl, dots, dots', fileType, dotsSplit, rfl⟩ | ⟨rfl, rfl⟩)
  · rw [enteredDots] at dotsSplit
    rw [if_neg (by simp)]
    refine holds_bind ((holds_dropDotDot lawful tree isLive dotsSplit enteredNarrow
      (turned_safe tree isLive newMember outside split sameInode dotsSplit fileType
        counted)).mono ?_)
    rintro rc next ⟨rfl, turnedSafe, rfl⟩
    rw [if_neg (by simp)]
    refine holds_bind ((holds_dropOld lawful tree isLive notRoot newApart split found apart _
      enteredNarrow turnedSafe).mono ?_)
    rintro rc next ⟨rfl, rfl⟩
    rw [if_neg (by simp)]
    obtain ⟨movedTree, movedCounted⟩ := moved_sound tree isLive notRoot newMember outside split
      sameInode proper dotsSplit found properName apart counted rfl
    have movedNarrow : ∀ ents ents', ((ns.turned old.inode newDir (before ++ new :: after)
        ents).setEnts (parent old.inode) ents').Narrow := fun _ _ => enteredNarrow
    have parentMember := tree.parent_mem isLive
    have movedValid := (movedTree.alive_dir parentMember).1
    refine holds_bind (holds_readInode movedValid fun parentInode agrees => ?_)
    obtain ⟨lowered, finalNarrow, finalTree, finalCounted⟩ :=
      lowered_spare (movedNarrow _ _) movedTree movedCounted parentMember agrees
    refine holds_writeInode movedValid ?_ ?_
    · rw [lowered]
      exact ⟨finalNarrow, live, finalTree.safe finalCounted⟩
    · rw [lowered]
      refine ⟨⟨finalNarrow, live, _, finalTree, finalCounted⟩,
        .inr ⟨rfl, dots, dots', fileType, ?_, ?_⟩⟩
      · rw [sameInode]
        exact dotsSplit
      · rw [sameInode]
        rfl
  · rw [if_pos (by decide)]
    rw [← sameInode] at isLive ⊢
    refine (holds_renameCleanup_dir lawful narrow tree counted newMember split isLive fresh recorded
      _ below).mono ?_
    rintro rc next ⟨rfl, rfl⟩
    exact ⟨⟨narrow, live, parent, tree, counted⟩, .inl ⟨by decide, rfl⟩⟩

/-- Removing the target after the new name has been entered is entering the new name
after the target has been removed. -/
theorem removed_entered {newName : Name} {target : Nat} {next : Ns} (valid : ns.valid target = true)
    (apart : target ≠ newDir) (different : new.inode ≠ target) (positive : 0 < ns.links newDir)
    (split : ns.ents newDir = before ++ after)
    (removed : (ns.entered newDir (before ++ new :: after)).Removed newDir newName target next) :
    ∃ base front back, ns.Removed newDir newName target base ∧
      base.ents = Function.update ns.ents newDir
        ((ns.ents newDir).eraseP (Dirent.matchesEntry newName target)) ∧
      base.ents newDir = front ++ back ∧ next = base.entered newDir (front ++ new :: back) := by
  obtain ⟨front, back, plain, inserted⟩ := eraseP_insert before after
    (matchesEntry_of_ne newName valid different)
  obtain ⟨empty, outcome⟩ := removed
  have emptied : ∀ entry ∈ ns.ents target, entry.proper = false := by
    intro entry inEnts
    exact empty entry (by simpa [Ns.entered, apart] using inEnts)
  have back' : ns.links newDir - 1 + 1 = ns.links newDir := by omega
  rw [show (ns.entered newDir (before ++ new :: after)).ents newDir = before ++ new :: after by
    simp [Ns.entered], inserted] at outcome
  obtain rfl | rfl := outcome
  · refine ⟨_, front, back, ⟨emptied, .inl rfl⟩, rfl, ?_, ?_⟩
    · simp [split, plain]
    · ext : 1
      · rfl
      · simp [Ns.entered]
      · simp [Ns.entered, Function.update_comm apart, back']
      · rfl
      · simp [Ns.entered]
  · refine ⟨_, front, back, ⟨emptied, .inr rfl⟩, rfl, ?_, ?_⟩
    · simp [split, plain]
    · ext : 1
      · rfl
      · simp [Ns.entered]
      · simp [Ns.entered, Function.update_comm apart, back']
      · rfl
      · simp [Ns.entered]

/-- `do_rmdir_on_ino` of the target, after the new name has been entered. -/
theorem holds_doRmdirOnIno_target (lawful : env.dir.Lawful) (narrow : ns.Narrow)
    (tree : ns.Tree live parent) (counted : ns.Counted exact none live)
    (newMember : newDir ∈ live) (split : ns.ents newDir = before ++ after)
    (isLive : new.inode ∈ live) (proper : new.proper = true) (below : ns.links newDir < 65535)
    {target : Dirent} (inEnts : target ∈ ns.ents newDir) (sameName : target.name = new.name)
    (different : new.inode ≠ target.inode) (targetDir : ns.isDir target.inode = true) :
    Holds env Good (doRmdirOnIno perms newDir new.name target.inode)
      (fun rc next => (rc ≠ 0 ∧ next = ns.entered newDir (before ++ new :: after)) ∨
        (rc = 0 ∧ ∃ base front back, ns.Removed newDir new.name target.inode base ∧
          base.ents = Function.update ns.ents newDir
            ((ns.ents newDir).eraseP (Dirent.matchesEntry new.name target.inode)) ∧
          base.ents newDir = front ++ back ∧ next = base.entered newDir (front ++ new :: back)))
      (ns.entered newDir (before ++ new :: after)) := by
  obtain ⟨notDot, notDotDot⟩ := Tree.not_dots proper
  have properName : new.name ≠ dotName ∧ new.name ≠ dotDotName := by
    simpa using And.intro notDot notDotDot
  have targetProper : target.proper = true := by simp [Dirent.proper, sameName, properName]
  have alive := tree.alive newDir newMember target inEnts
  obtain ⟨targetLive, targetNotRoot, isParent⟩ :=
    tree.child newDir newMember target inEnts targetProper targetDir
  have targetApart : target.inode ≠ newDir := by
    rw [← isParent]
    exact (tree.parent_ne targetLive targetNotRoot).symm
  have linked := (counted.dir newDir newMember).1
  obtain ⟨dotDot, inOwn, isDotDot⟩ := exists_of_countP_eq_one (tree.dotDot _ targetLive).1
  have matching : ∃ other ∈ ns.ents newDir,
      Dirent.matchesEntry new.name target.inode other = true :=
    ⟨target, inEnts, (matchesEntry_iff alive.1 target).mpr ⟨sameName, rfl⟩⟩
  have enteredNarrow : (ns.entered newDir (before ++ new :: after)).Narrow := by
    have raised : (ns.raised newDir).Narrow :=
      narrow.setInode _ (by omega)
    exact raised
  have enteredSafe := entered_safe new tree counted newMember split isLive
  have enteredValid : ∀ ino,
    (ns.entered newDir (before ++ new :: after)).valid ino = ns.valid ino :=
    fun _ => rfl
  have enteredEnts : ∀ other, other ≠ newDir →
      (ns.entered newDir (before ++ new :: after)).ents other = ns.ents other := by
    intro other otherApart
    simp [Ns.entered, otherApart]
  have newEnts : (ns.entered newDir (before ++ new :: after)).ents newDir =
      before ++ new :: after := by
    simp [Ns.entered]
  have stillMatching : ∃ other ∈ (ns.entered newDir (before ++ new :: after)).ents newDir,
      Dirent.matchesEntry new.name target.inode other = true := by
    obtain ⟨other, inOther, otherMatches⟩ := matching
    refine ⟨other, ?_, otherMatches⟩
    rw [split] at inOther
    simp only [newEnts, List.mem_append, List.mem_cons] at inOther ⊢
    tauto
  refine (holds_doRmdirOnIno lawful enteredNarrow enteredSafe newMember targetApart.symm targetLive
    targetNotRoot (by rw [enteredValid]; exact (tree.alive_dir newMember).1)
    (by rw [enteredValid]; exact alive.1) stillMatching
    ⟨dotDot, by rwa [enteredEnts _ targetApart], by simpa using isDotDot⟩ ?_ ?_).mono ?_
  · simp only [Ns.entered, setEnts_links, raised_links, Function.update_self]
    omega
  · intro empty other otherMember otherApart entry inOther
    rw [enteredEnts _ targetApart] at empty
    have unnamed := unnamed_of_erased tree newMember targetDir properName matching alive.1 empty
      other otherMember otherApart
    by_cases atNew : other = newDir
    · subst atNew
      simp only [setEnts_ents, Function.update_self, newEnts] at inOther
      obtain ⟨front, back, plain, inserted⟩ := eraseP_insert before after
        (matchesEntry_of_ne new.name alive.1 different)
      rw [inserted] at inOther
      obtain inFront | rfl | inBack := List.mem_append.mp inOther |>.imp_right List.mem_cons.mp
      · exact unnamed entry (by simp [split, plain, inFront])
      · exact different
      · exact unnamed entry (by simp [split, plain, inBack])
    · simp only [setEnts_ents, Function.update_of_ne atNew, enteredEnts _ atNew] at inOther
      exact unnamed entry (by simpa [atNew] using inOther)
  · rintro rc next (⟨failed, rfl⟩ | ⟨rfl, removed⟩)
    · exact .inl ⟨failed, rfl⟩
    · exact .inr ⟨rfl, removed_entered alive.1 targetApart different (by omega) split removed⟩

/-- `do_rename` of a directory from the new link on. -/
theorem holds_renameLinked_dir (new : Dirent) (lawful : env.dir.Lawful) (narrow : ns.Narrow)
    (tree : ns.Tree live parent) (counted : ns.Counted exact none live)
    (isLive : old.inode ∈ live) (notRoot : old.inode ≠ EXT2_ROOT_INO) (newMember : newDir ∈ live)
    (outside : ¬ Under parent old.inode newDir) (split : ns.ents newDir = before ++ after)
    (sameInode : new.inode = old.inode) (proper : new.proper = true)
    (found : (ns.ents (parent old.inode)).find? (fun entry => entry.name == name) = some old)
    (properName : name ≠ dotName ∧ name ≠ dotDotName)
    (fresh : ∀ entry ∈ ns.ents newDir, entry.name = new.name → entry.inode ≠ new.inode)
    (recorded : LINUX_S_ISDIR inode.iMode = true) (below : ns.links newDir < 65535)
    (notOne : EXT2FS_INO newDir = newDir) {target : Nat}
    (targetEntry : target ≠ 0 →
      ∃ entry ∈ ns.ents newDir, entry.name = new.name ∧ entry.inode = target) :
    Holds env Good
      (renameLinked perms (parent old.inode) name newDir new.name old.inode target inode)
      (fun rc next => next.Sound exact ∧
        ns.DirLinked (parent old.inode) name newDir new target before after rc next)
      (ns.entered newDir (before ++ new :: after)) := by
  have sound : ns.Sound exact := ⟨narrow, live, parent, tree, counted⟩
  have cleanup : ∀ ret : Errcode, target ≠ 0 → ret ≠ 0 →
      Holds env Good (renameCleanup newDir new.name old.inode inode ret)
        (fun rc next => next.Sound exact ∧
          ns.DirLinked (parent old.inode) name newDir new target before after rc next)
        (ns.entered newDir (before ++ new :: after)) := by
    intro ret noTarget failed
    have newLive := isLive
    rw [← sameInode] at newLive
    have holds := holds_renameCleanup_dir lawful narrow tree counted newMember split newLive fresh
      recorded ret below
    rw [sameInode] at holds
    refine holds.mono ?_
    rintro rc next ⟨rfl, rfl⟩
    exact ⟨sound, .inr (.inl ⟨noTarget, failed, rfl⟩)⟩
  simp only [renameLinked]
  by_cases noTarget : target = 0
  · rw [if_neg (by simp [noTarget]), if_pos recorded]
    refine (holds_renameDirOld lawful narrow tree counted isLive notRoot newMember outside split
      sameInode proper found properName fresh recorded below notOne).mono ?_
    exact fun rc next turned => ⟨turned.1, .inl ⟨noTarget, turned.2⟩⟩
  · rw [if_pos noTarget]
    obtain ⟨entry, inEnts, sameName, rfl⟩ := targetEntry noTarget
    have alive := tree.alive newDir newMember entry inEnts
    have different : new.inode ≠ entry.inode := (fresh entry inEnts sameName).symm
    have enteredValid : (ns.entered newDir (before ++ new :: after)).valid
      entry.inode = true := alive.1
    refine holds_bind (holds_readInodeWrapper enteredValid fun targetInode agrees => ?_)
    have targetRecorded : LINUX_S_ISDIR targetInode.iMode = ns.isDir entry.inode := by
      rw [agrees.1, isDir]
      simp [Ns.entered]
    simp only [recorded, if_true, targetRecorded]
    cases targetDir : ns.isDir entry.inode with
    | false =>
        rw [if_pos (by simp)]
        exact cleanup _ noTarget (by decide)
    | true =>
        rw [if_neg (by simp)]
        refine holds_bind ((holds_doRmdirOnIno_target lawful narrow tree counted newMember split
          (sameInode ▸ isLive) proper below inEnts sameName different targetDir).mono ?_)
        rintro rc next (⟨failed, rfl⟩ | ⟨rfl, base, front, back, removed, baseEnts, baseSplit, rfl⟩)
        · rw [if_pos failed]
          exact cleanup _ noTarget failed
        · rw [if_neg (by simp)]
          obtain ⟨notDot, notDotDot⟩ := Tree.not_dots proper
          have newProper : new.name ≠ dotName ∧ new.name ≠ dotDotName := by
            simpa using And.intro notDot notDotDot
          have targetProper : entry.proper = true := by simp [Dirent.proper, sameName, newProper]
          obtain ⟨targetLive, targetNotRoot, targetParent⟩ :=
            tree.child newDir newMember entry inEnts targetProper targetDir
          have matching : ∃ other ∈ ns.ents newDir,
              Dirent.matchesEntry new.name entry.inode other = true :=
            ⟨entry, inEnts, (matchesEntry_iff alive.1 entry).mpr ⟨sameName, rfl⟩⟩
          obtain ⟨baseNarrow, baseTree, baseCounted⟩ :=
            removed.sound narrow tree counted newMember alive.1 matching targetDir newProper
          have baseLinks : base.links newDir = ns.links newDir - 1 := by
            obtain ⟨-, rfl | rfl⟩ := removed <;> simp
          have newApart : newDir ≠ entry.inode := by
            rw [← targetParent]
            exact tree.parent_ne targetLive targetNotRoot
          refine (holds_renameDirOld lawful baseNarrow baseTree baseCounted
            (Finset.mem_erase.mpr ⟨sameInode ▸ different, isLive⟩) notRoot
            (Finset.mem_erase.mpr ⟨newApart, newMember⟩) outside baseSplit sameInode proper ?_
            properName ?_ recorded (by omega) notOne).mono fun rc next turned =>
              ⟨turned.1, .inr (.inr ⟨noTarget, targetDir, base, front, back, removed,
                baseSplit, turned.2⟩)⟩
          · rw [find_of_removed baseEnts alive.1, found]
            rintro same rfl
            obtain ⟨oldMember, oldName⟩ := mem_of_find found
            rw [same] at oldMember
            exact fresh old oldMember oldName sameInode.symm
          · intro other inOther
            rw [baseEnts, Function.update_self] at inOther
            exact fresh other (List.mem_of_mem_eraseP inOther)

end Directories

section Rename

variable {δ : Type} {env : Env δ} {exact : Bool} {ns : Ns} {live : Finset Nat} {parent : Nat → Nat}
  {dir newDir : Nat} {name newName : Name} {perms : Perms}
  (lawful : env.dir.Lawful) (narrow : ns.Narrow) (tree : ns.Tree live parent)
  (counted : ns.Counted exact none live) (member : dir ∈ live) (newMember : newDir ∈ live)

/-- What the kernel checks of a rename: it moves no `.` or `..`, what has the new name is
not what is moved, and a directory does not move into itself. -/
structure Renamable (ns : Ns) (parent : Nat → Nat) (dir newDir : Nat)
    (name newName : Name) : Prop where
  properName : name ≠ dotName ∧ name ≠ dotDotName
  properNew : newName ≠ dotName ∧ newName ≠ dotDotName
  different : ∀ old ∈ ns.ents dir, old.name = name → ∀ target ∈ ns.ents newDir,
    target.name = newName → target.inode ≠ old.inode
  outside : ∀ old ∈ ns.ents dir, old.name = name → ns.isDir old.inode = true →
    ¬ Under parent old.inode newDir
  fileBelow : ∀ old ∈ ns.ents dir, old.name = name → ns.isDir old.inode = false →
    ns.links old.inode < 65535
  dirBelow : ∀ old ∈ ns.ents dir, old.name = name → ns.isDir old.inode = true →
    ns.links newDir < 65535

include lawful tree newMember

omit counted in
/-- The target `do_rename` looks up: the inode of an entry, or 0. -/
theorem holds_getTarget {post : Except Errcode Nat → Ns → Prop}
    (next : ∀ result : Except Errcode Nat, result.toOption.getD 0 = ns.lookup newDir newName →
      (ns.lookup newDir newName ≠ 0 →
        ∃ entry ∈ ns.ents newDir, entry.name = newName ∧ entry.inode = ns.lookup newDir newName) →
      post result ns) :
    Holds env Good (getInoByName newDir newName) post ns := by
  refine holds_namei lawful (tree.alive_dir newMember).1 (tree.isDir newDir newMember) ?_ ?_
  · intro entry found
    obtain ⟨inEnts, nameEq⟩ := mem_of_find found
    have target : ns.lookup newDir newName = entry.inode := by simp [Ns.lookup, found]
    exact next _ target.symm fun _ => ⟨entry, inEnts, nameEq, target.symm⟩
  · intro absent
    have target : ns.lookup newDir newName = 0 := by simp [Ns.lookup, absent]
    exact next _ target.symm fun noTarget => absurd target noTarget

/-- `cleanup:` when the new name has not been entered. -/
theorem holds_renameCleanup_absent {ino : Nat} {inode : Inode} (valid : ns.valid ino = true)
    (fresh : ∀ entry ∈ ns.ents newDir, entry.name = newName → entry.inode ≠ ino) (ret : Errcode) :
    Holds env Good (renameCleanup newDir newName ino inode ret)
      (fun rc next => rc = ret ∧ next = ns) ns := by
  refine holds_bind (holds_unlink lawful (tree.alive_dir newMember).1 (tree.isDir newDir newMember)
    ?_ fun _ => ?_)
  · intro entry inEnts entryMatches
    obtain ⟨sameName, sameInode⟩ := (matchesEntry_iff valid entry).mp entryMatches
    exact absurd sameInode (fresh entry inEnts sameName)
  · rw [if_pos (by decide)]
    exact holds_pure ⟨rfl, rfl⟩

include narrow counted member

/-- `do_rename` keeps the tree; the counts stay exact if it succeeds. -/
theorem holds_doRename (renamable : Renamable ns parent dir newDir name newName)
    (notOne : EXT2FS_INO newDir = newDir) :
    Holds env Good (doRename perms dir name newDir newName)
      (fun rc next => next.Sound (exact && rc == 0) ∧ ns.RenameEnds dir name newDir newName rc next)
      ns := by
  have sound : ns.Sound exact := ⟨narrow, live, parent, tree, counted⟩
  have validDir := (tree.alive_dir member).1
  have validNew := (tree.alive_dir newMember).1
  refine holds_bind (holds_namei lawful validDir (tree.isDir dir member) ?_ ?_)
  · intro old found
    obtain ⟨inEnts, rfl⟩ := mem_of_find found
    have alive := tree.alive dir member old inEnts
    have fresh := renamable.different old inEnts rfl
    have apart : dir = newDir → old.name ≠ newName := by
      rintro rfl sameName
      exact fresh old inEnts sameName rfl
    refine holds_bind (holds_getTarget lawful tree newMember fun result isTarget targetEntry => ?_)
    rw [isTarget]
    refine holds_bind (holds_readInodeWrapper alive.1 fun inode agrees => ?_)
    dsimp only
    have recorded : LINUX_S_ISDIR inode.iMode = ns.isDir old.inode := by rw [agrees.1, isDir]
    simp only [renameRaise, recorded]
    cases kind : ns.isDir old.inode with
    | false =>
        have below := renamable.fileBelow old inEnts rfl kind
        have raise := setInode_raiseLinks agrees below
        have raisedNarrow := raised_narrow narrow below
        have raisedTree := raised_tree old.inode tree
        have raisedCounted := raised_counted old.inode counted
        rw [if_pos (by simp)]
        refine holds_bind (holds_bind (holds_writeInodeWrapper alive.1 ?_ ?_))
        · rw [raise]
          exact ⟨raisedNarrow, live, raisedTree.safe raisedCounted⟩
        rw [raise, if_neg (by simp)]
        refine holds_pure (holds_bind ((holds_doLink_raised lawful narrow tree counted newMember
          renamable.properNew ⟨dir, member, old, inEnts, rfl⟩ kind below).mono ?_))
        rintro rc next (⟨rfl, nextNarrow, nextTree, nextCounted, before, after,
          fileType, split, rfl⟩ |
          ⟨rfl, rfl⟩)
        · rw [if_neg (by simp)]
          refine (holds_renameLinked_file lawful nextNarrow nextTree nextCounted member newMember
            old ?_ ?_ ?_ ?_ apart).mono fun rc last ends => ⟨ends.1.weaken _,
              .file old found kind before after fileType split ends.2⟩
          · by_cases same : dir = newDir
            · subst same
              rw [setEnts_ents, Function.update_self, find_insert (by simp [Ne.symm (apart rfl)]),
                ← split]
              exact found
            · rw [setEnts_ents, Function.update_of_ne same]
              exact found
          · rw [setEnts_isDir, raised_isDir]
            exact kind
          · rw [raiseLinks_mode, recorded]
            exact kind
          · intro noTarget
            obtain ⟨entry, inTarget, isTarget⟩ := targetEntry noTarget
            refine ⟨entry, ?_, isTarget⟩
            rw [split] at inTarget
            simp only [setEnts_ents, Function.update_self, List.mem_append,
              List.mem_cons] at inTarget ⊢
            tauto
        · rw [if_pos (by decide)]
          refine (holds_renameCleanup_absent lawful raisedTree newMember alive.1 fresh _).mono ?_
          rintro rc last ⟨rfl, rfl⟩
          have ends : ns.RenameEnds dir old.name newDir newName EIO _ := .full old found
          simp only [kind, Bool.false_eq_true, if_false] at ends
          refine ⟨⟨raisedNarrow, live, parent, raisedTree, ?_⟩, ends⟩
          simpa [ EIO] using raisedCounted.forget
    | true =>
        have below := renamable.dirBelow old inEnts rfl kind
        obtain ⟨isLive, notRoot, rfl⟩ := tree.child dir member old inEnts
          (by simp [Dirent.proper, renamable.properName]) kind
        have raisedNarrow := raised_narrow narrow below
        have raisedTree := raised_tree newDir tree
        have raisedCounted := raised_counted newDir counted
        have raisedSafe := raisedTree.safe raisedCounted
        rw [if_neg (by simp)]
        refine holds_bind (holds_bind (holds_readInode validNew fun newInode newAgrees => ?_))
        have raise := setInode_raiseLinks newAgrees below
        refine holds_bind (holds_writeInode validNew ?_ ?_)
        · rw [raise]
          exact ⟨raisedNarrow, live, raisedSafe⟩
        rw [raise, if_neg (by simp)]
        refine holds_pure (holds_bind
          ((holds_doLink lawful raisedNarrow raisedSafe newMember validNew
          ?_).mono ?_))
        · intro before after fileType split
          exact entered_safe ⟨newName, old.inode, fileType⟩ tree counted newMember split isLive
        rintro rc next (⟨rfl, before, after, fileType, split, rfl⟩ | ⟨rfl, rfl⟩)
        · rw [if_neg (by simp)]
          exact (holds_renameLinked_dir ⟨newName, old.inode, fileType⟩ lawful narrow tree
            counted isLive notRoot newMember (renamable.outside old inEnts rfl kind) split rfl
            (by simp [Dirent.proper, renamable.properNew]) found renamable.properName fresh
            (recorded.trans kind) below notOne targetEntry).mono
              fun rc last ends => ⟨ends.1.weaken _,
                .directory old found kind before after fileType split ends.2⟩
        · rw [if_pos (by decide)]
          refine (holds_renameCleanup_absent lawful raisedTree newMember alive.1 fresh _).mono ?_
          rintro rc last ⟨rfl, rfl⟩
          have ends : ns.RenameEnds (parent old.inode) old.name newDir newName EIO
            _ := .full old found
          simp only [kind, if_true] at ends
          refine ⟨⟨raisedNarrow, live, parent, raisedTree, ?_⟩, ends⟩
          simpa [ EIO] using raisedCounted.forget
  · exact fun none => holds_pure ⟨sound.weaken _, .absent none⟩

/-- `op_rename`. -/
theorem holds_opRename (renamable : Renamable ns parent dir newDir name newName) {ctx : FuseCtx}
    {fuseDir fuseNew : Nat} (dirEq : EXT2FS_INO fuseDir = dir)
    (newEq : EXT2FS_INO fuseNew = newDir) :
    Holds env Good (opRename ctx fuseDir name fuseNew newName)
      (fun replies next => next.Sound (exact && replies.all Reply.ok)) ns := by
  have notOne : EXT2FS_INO newDir = newDir := by
    rw [← newEq]
    simp only [EXT2FS_INO]
    grind
  simp only [opRename, dirEq, newEq, checkPerms, doPermissionsChecks, Bool.not_false, if_true]
  refine holds_bind (holds_pure (holds_bind (holds_pure ?_)))
  rw [if_neg (by simp)]
  refine holds_bind ((holds_doRename lawful narrow tree counted member newMember renamable
    notOne).mono fun rc next ends => holds_pure ?_)
  simpa [Reply.ok] using ends.1

end Rename

end Ext2Fuse
