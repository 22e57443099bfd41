import Ext2Fuse.NsTree

/-!
# Changes of the directory tree

What one step of an operation does to the link counts, and how the tree looks after a
file has been entered or removed and after a directory has been made, removed or moved.
-/

namespace Ext2Fuse.Ns

open Lib

variable {ns : Ns} {live : Finset Nat} {parent : Nat → Nat} {exact : Bool}
  {dir ino : Nat} {name : Name} {before after : List Dirent} {entry : Dirent}

theorem exists_of_countP_eq_one {ents : List Dirent} {test : Dirent → Bool}
    (one : ents.countP test = 1) : ∃ entry ∈ ents, test entry = true :=
  List.countP_pos_iff.mp (by omega)

namespace Tree

variable (tree : ns.Tree live parent)

include tree

/-- A directory of the tree is in use itself: it has a `.` -/
theorem alive_dir (member : dir ∈ live) : ns.Alive dir := by
  obtain ⟨one, names⟩ := tree.dot dir member
  obtain ⟨entry, inEnts, isDot⟩ := exists_of_countP_eq_one one
  rw [← names entry inEnts (by simpa using isDot)]
  exact tree.alive dir member entry inEnts

theorem parent_mem (member : dir ∈ live) : parent dir ∈ live := by
  by_cases isRoot : dir = EXT2_ROOT_INO
  · rw [isRoot, tree.parent_root]
    exact tree.root_mem
  · exact (tree.named dir member isRoot).1

/-- Every directory that is named belongs to the tree. -/
theorem closed (member : dir ∈ live) (inEnts : entry ∈ ns.ents dir)
    (isDir : ns.isDir entry.inode = true) : entry.inode ∈ live := by
  by_cases isDot : entry.name = dotName
  · rw [(tree.dot dir member).2 entry inEnts isDot]
    exact member
  · by_cases isDotDot : entry.name = dotDotName
    · rw [(tree.dotDot dir member).2 entry inEnts isDotDot]
      exact tree.parent_mem member
    · exact (tree.child dir member entry inEnts (by simp [Dirent.proper, isDot, isDotDot]) isDir).1

/-- An entry for a file is not `.` or `..` -/
theorem proper_of_file (member : dir ∈ live) (inEnts : entry ∈ ns.ents dir)
    (isFile : ns.isDir entry.inode = false) : entry.proper = true := by
  have notDot : entry.name ≠ dotName := by
    intro isDot
    rw [(tree.dot dir member).2 entry inEnts isDot, tree.isDir dir member] at isFile
    cases isFile
  have notDotDot : entry.name ≠ dotDotName := by
    intro isDotDot
    rw [(tree.dotDot dir member).2 entry inEnts isDotDot,
      tree.isDir _ (tree.parent_mem member)] at isFile
    cases isFile
  simp [Dirent.proper, notDot, notDotDot]

/-- A tree whose counts cover its names is safe. -/
theorem safe {spare : Option Nat} (counted : ns.Counted exact spare live) : ns.Safe live where
  root_mem := tree.root_mem
  isDir := tree.isDir
  alive dir member entry inEnts := by
    refine ⟨tree.alive dir member entry inEnts, ?_⟩
    cases isDir : ns.isDir entry.inode with
    | true =>
        have covers := (counted.dir _ (tree.closed member inEnts isDir)).1
        omega
    | false =>
        have covers := (counted.file dir member entry inEnts isDir).1
        have named := refs_pos member inEnts
        omega
  closed dir member entry inEnts := tree.closed member inEnts
  file dir member entry inEnts isFile :=
    (Nat.le_add_right _ _).trans (counted.file dir member entry inEnts isFile).1

/-- A name that a directory does not have is not `.` or `..` -/
theorem proper_of_absent (member : dir ∈ live) (absent : ∀ entry ∈ ns.ents dir, entry.name ≠ name) :
    name ≠ dotName ∧ name ≠ dotDotName := by
  obtain ⟨dot, inEnts, isDot⟩ := exists_of_countP_eq_one (tree.dot dir member).1
  obtain ⟨dotDot, inEnts', isDotDot⟩ := exists_of_countP_eq_one (tree.dotDot dir member).1
  refine ⟨?_, ?_⟩
  · rintro rfl
    exact absent dot inEnts (by simpa using isDot)
  · rintro rfl
    exact absent dotDot inEnts' (by simpa using isDotDot)

/-- A number that is not in use is not tracked. -/
theorem untracked (free : ns.used ino = false) : ¬ ns.Tracked live ino := by
  rintro (isLive | ⟨dir, member, entry, inEnts, rfl⟩)
  · rw [(tree.alive_dir isLive).2.1] at free
    cases free
  · rw [(tree.alive dir member entry inEnts).2.1] at free
    cases free

end Tree

namespace Counted

variable {spare : Option Nat}

/-- The exactness of the counts may be given up. -/
theorem weaken (counted : ns.Counted exact spare live) : ns.Counted false spare live :=
  ⟨fun dir member entry inEnts isFile => (counted.file dir member entry inEnts isFile).weaken,
    fun dir member => (counted.dir dir member).weaken⟩

/-- Forgetting a spare link only loses exactness. -/
theorem forget (counted : ns.Counted exact (some ino) live) : ns.Counted false none live := by
  refine ⟨fun dir member entry inEnts isFile => ?_, fun dir member => ?_⟩
  · have covers := (counted.file dir member entry inEnts isFile).1
    exact ⟨by simp; omega, by simp⟩
  · have covers := (counted.dir dir member).1
    exact ⟨by simp; omega, by simp⟩

/-- An inode that is not tracked may be said to have a link to spare. -/
theorem spare_of_untracked (counted : ns.Counted exact none live)
    (untracked : ¬ ns.Tracked live ino) : ns.Counted exact (some ino) live := by
  refine ⟨fun dir member entry inEnts isFile => ?_, fun dir member => ?_⟩
  · have different : ino ≠ entry.inode := by
      rintro rfl
      exact untracked (.inr ⟨dir, member, entry, inEnts, rfl⟩)
    simpa [different] using counted.file dir member entry inEnts isFile
  · have different : ino ≠ dir := by
      rintro rfl
      exact untracked (.inl member)
    simpa [different] using counted.dir dir member

/-- A count goes up by one: a link to spare. -/
theorem raise (counted : ns.Counted exact none live) :
    (ns.setInode ino (ns.mode ino) (ns.links ino + 1)).Counted exact (some ino) live := by
  refine ⟨?_, ?_⟩
  · intro dir member entry inEnts isFile
    rw [setInode_isDir_of_mode] at isFile
    have covers := counted.file dir member entry inEnts isFile
    simp only [reduceCtorEq, if_false, Nat.add_zero] at covers
    rw [refs_setInode]
    by_cases same : entry.inode = ino
    · simpa [same] using (same ▸ covers).add 1
    · simpa [same, Ne.symm same] using covers
  · intro dir member
    have covers := counted.dir dir member
    simp only [reduceCtorEq, if_false, Nat.add_zero] at covers
    rw [subdirs_setInode_of_mode]
    by_cases same : dir = ino
    · simpa [same] using (same ▸ covers).add 1
    · simpa [same, Ne.symm same] using covers

/-- The spare link is given back. -/
theorem lower (counted : ns.Counted exact (some ino) live) (positive : 0 < ns.links ino) :
    (ns.setInode ino (ns.mode ino) (ns.links ino - 1)).Counted exact none live := by
  have back : ns.links ino - 1 + 1 = ns.links ino := by omega
  refine ⟨?_, ?_⟩
  · intro dir member entry inEnts isFile
    rw [setInode_isDir_of_mode] at isFile
    have covers := counted.file dir member entry inEnts isFile
    rw [refs_setInode]
    by_cases same : entry.inode = ino
    · simp only [same, if_true] at covers
      rw [← back] at covers
      simpa [same] using covers.of_add
    · simpa [same, Ne.symm same] using covers
  · intro dir member
    have covers := counted.dir dir member
    rw [subdirs_setInode_of_mode]
    by_cases same : dir = ino
    · simp only [same, if_true] at covers
      rw [← back] at covers
      simpa [same] using covers.of_add
    · simpa [same, Ne.symm same] using covers

variable (isDir : ∀ dir ∈ live, ns.isDir dir = true) (member : dir ∈ live)

include isDir member

/-- A file with a link to spare gets the name for it. -/
theorem insertFile (counted : ns.Counted exact (some entry.inode) live)
    (split : ns.ents dir = before ++ after) (isFile : ns.isDir entry.inode = false)
    (own : Covers exact (ns.refs live entry.inode + 1) (ns.links entry.inode)) :
    (ns.setEnts dir (before ++ entry :: after)).Counted exact none live := by
  refine ⟨?_, ?_⟩
  · intro other otherMember found inEnts foundFile
    rw [refs_insert member split]
    by_cases same : entry.inode = found.inode
    · simpa [same] using same ▸ own
    · obtain ⟨-, rfl⟩ | old := mem_ents_insert split inEnts
      · exact absurd rfl same
      · simpa [same] using counted.file other otherMember found old foundFile
  · intro other otherMember
    have different : entry.inode ≠ other := by
      rintro rfl
      rw [isDir _ otherMember] at isFile
      cases isFile
    rw [subdirs_insert split]
    simpa [isFile, different] using counted.dir other otherMember

/-- A file loses a name: a link to spare. -/
theorem removeFile (counted : ns.Counted exact none live)
    (split : ns.ents dir = before ++ entry :: after) (isFile : ns.isDir entry.inode = false) :
    (ns.setEnts dir (before ++ after)).Counted exact (some entry.inode) live := by
  refine ⟨?_, ?_⟩
  · intro other otherMember found inEnts foundFile
    have covers := counted.file other otherMember found (mem_ents_remove split inEnts) foundFile
    rw [refs_remove _ member split] at covers
    simpa using covers
  · intro other otherMember
    have different : entry.inode ≠ other := by
      rintro rfl
      rw [isDir _ otherMember] at isFile
      cases isFile
    have covers := counted.dir other otherMember
    rw [subdirs_remove split] at covers
    simpa [isFile, different] using covers

/-- A directory with a link to spare gets a subdirectory for it. -/
theorem insertDir (counted : ns.Counted exact (some dir) live)
    (split : ns.ents dir = before ++ after) (isSubdir : ns.isDir entry.inode = true)
    (proper : entry.proper = true) :
    (ns.setEnts dir (before ++ entry :: after)).Counted exact none live := by
  refine ⟨?_, ?_⟩
  · intro other otherMember found inEnts foundFile
    have different : entry.inode ≠ found.inode := by
      intro same
      rw [setEnts_isDir, ← same, isSubdir] at foundFile
      cases foundFile
    have notDir : dir ≠ found.inode := by
      rintro same
      rw [setEnts_isDir, ← same, isDir dir member] at foundFile
      cases foundFile
    obtain ⟨-, rfl⟩ | old := mem_ents_insert split inEnts
    · exact absurd rfl different
    · rw [refs_insert member split]
      simpa [different, notDir] using counted.file other otherMember found old foundFile
  · intro other otherMember
    rw [subdirs_insert split]
    have covers := counted.dir other otherMember
    by_cases same : other = dir
    · subst same
      simpa [proper, isSubdir, Nat.add_assoc] using covers
    · simpa [same, Ne.symm same] using covers

/-- A directory loses a subdirectory: a link to spare. -/
theorem removeDir (counted : ns.Counted exact none live)
    (split : ns.ents dir = before ++ entry :: after) (isSubdir : ns.isDir entry.inode = true)
    (proper : entry.proper = true) :
    (ns.setEnts dir (before ++ after)).Counted exact (some dir) live := by
  refine ⟨?_, ?_⟩
  · intro other otherMember found inEnts foundFile
    have different : entry.inode ≠ found.inode := by
      intro same
      rw [setEnts_isDir, ← same, isSubdir] at foundFile
      cases foundFile
    have notDir : dir ≠ found.inode := by
      rintro same
      rw [setEnts_isDir, ← same, isDir dir member] at foundFile
      cases foundFile
    have covers := counted.file other otherMember found (mem_ents_remove split inEnts) foundFile
    rw [refs_remove _ member split] at covers
    simpa [different, notDir] using covers
  · intro other otherMember
    have covers := counted.dir other otherMember
    rw [subdirs_remove split] at covers
    by_cases same : other = dir
    · subst same
      simpa [proper, isSubdir, Nat.add_assoc] using covers
    · simpa [same, Ne.symm same] using covers

omit isDir in
/-- `.` and `..` are not counted. -/
theorem insertDots (counted : ns.Counted exact spare live)
    (split : ns.ents dir = before ++ after) (isSubdir : ns.isDir entry.inode = true)
    (dots : entry.proper = false) :
    (ns.setEnts dir (before ++ entry :: after)).Counted exact spare live := by
  refine ⟨?_, ?_⟩
  · intro other otherMember found inEnts foundFile
    have different : entry.inode ≠ found.inode := by
      intro same
      rw [setEnts_isDir, ← same, isSubdir] at foundFile
      cases foundFile
    obtain ⟨-, rfl⟩ | old := mem_ents_insert split inEnts
    · exact absurd rfl different
    · rw [refs_insert member split, if_neg different]
      exact counted.file other otherMember found old foundFile
  · intro other otherMember
    rw [subdirs_insert split]
    simpa [dots] using counted.dir other otherMember

omit isDir in
/-- Removing a dot entry leaves the counts as exact as they were. -/
theorem removeDots (counted : ns.Counted exact spare live)
    (split : ns.ents dir = before ++ entry :: after) (isSubdir : ns.isDir entry.inode = true)
    (dots : entry.proper = false) :
    (ns.setEnts dir (before ++ after)).Counted exact spare live := by
  refine ⟨?_, ?_⟩
  · intro other otherMember found inEnts foundFile
    have different : entry.inode ≠ found.inode := by
      intro same
      rw [setEnts_isDir, ← same, isSubdir] at foundFile
      cases foundFile
    have covers := counted.file other otherMember found (mem_ents_remove split inEnts) foundFile
    rwa [refs_remove _ member split, if_neg different] at covers
  · intro other otherMember
    have covers := counted.dir other otherMember
    rw [subdirs_remove split] at covers
    simpa [dots] using covers

omit isDir member

/-- Dropping a directory that only names directories. -/
theorem erase (counted : ns.Counted exact spare live)
    (entries : ∀ entry ∈ ns.ents ino, ns.isDir entry.inode = true) :
    ns.Counted exact spare (live.erase ino) := by
  refine ⟨?_, fun dir member => counted.dir dir (Finset.mem_of_mem_erase member)⟩
  intro dir member entry inEnts isFile
  have covers := counted.file dir (Finset.mem_of_mem_erase member) entry inEnts isFile
  have same : ns.refs (live.erase ino) entry.inode = ns.refs live entry.inode := by
    by_cases inside : ino ∈ live
    · have none : (ns.ents ino).countP (fun other => other.inode == entry.inode) = 0 := by
        refine List.countP_eq_zero.mpr fun other inOther equal => ?_
        rw [beq_iff_eq] at equal
        have isSubdir := entries other inOther
        rw [equal, isFile] at isSubdir
        cases isSubdir
      rw [refs, refs, ← Finset.add_sum_erase live _ inside, none, Nat.zero_add]
    · rw [Finset.erase_eq_of_notMem inside]
  rwa [same]

/-- Taking in a directory that only names directories. -/
theorem adopt (counted : ns.Counted exact spare live) (outside : ino ∉ live)
    (entries : ∀ entry ∈ ns.ents ino, ns.isDir entry.inode = true)
    (own : Covers exact (2 + ns.subdirs ino + if spare = some ino then 1 else 0) (ns.links ino)) :
    ns.Counted exact spare (Insert.insert ino live) := by
  refine ⟨?_, ?_⟩
  · intro dir member entry inEnts isFile
    have same : ns.refs (Insert.insert ino live) entry.inode = ns.refs live entry.inode := by
      have none : (ns.ents ino).countP (fun other => other.inode == entry.inode) = 0 := by
        refine List.countP_eq_zero.mpr fun other inOther equal => ?_
        rw [beq_iff_eq] at equal
        have isSubdir := entries other inOther
        rw [equal, isFile] at isSubdir
        cases isSubdir
      rw [refs, Finset.sum_insert outside, none, Nat.zero_add, refs]
    rw [same]
    obtain rfl | old := Finset.mem_insert.mp member
    · exact absurd (entries entry inEnts) (by simp [isFile])
    · exact counted.file dir old entry inEnts isFile
  · intro dir member
    obtain rfl | old := Finset.mem_insert.mp member
    · exact own
    · exact counted.dir dir old

end Counted

namespace Tree

/-- Link counts are not part of the tree. -/
theorem setLinks (tree : ns.Tree live parent) (links : Nat) :
    (ns.setInode ino (ns.mode ino) links).Tree live parent where
  root_mem := tree.root_mem
  parent_root := tree.parent_root
  isDir := by simpa using tree.isDir
  rooted := tree.rooted
  alive dir member entry inEnts := by
    simpa [Alive] using tree.alive dir member entry inEnts
  dot := tree.dot
  dotDot := tree.dotDot
  child := by simpa using tree.child
  named := tree.named

/-- The names `.` and `..` are not those of a proper entry. -/
theorem not_dots (proper : entry.proper = true) :
    (entry.name == dotName) = false ∧ (entry.name == dotDotName) = false := by
  simpa [Dirent.proper] using proper

/-- An entry for a file keeps the tree. -/
theorem insertFile (tree : ns.Tree live parent) (split : ns.ents dir = before ++ after)
    (proper : entry.proper = true) (alive : ns.Alive entry.inode)
    (isFile : ns.isDir entry.inode = false) :
    (ns.setEnts dir (before ++ entry :: after)).Tree live parent := by
  obtain ⟨notDot, notDotDot⟩ := not_dots proper
  refine ⟨tree.root_mem, tree.parent_root, tree.isDir, tree.rooted, ?_, ?_, ?_, ?_, ?_⟩
  · intro other otherMember found inEnts
    obtain ⟨-, rfl⟩ | old := mem_ents_insert split inEnts
    · exact alive
    · exact tree.alive other otherMember found old
  · intro other otherMember
    rw [countP_ents_insert split notDot]
    refine ⟨(tree.dot other otherMember).1, fun found inEnts isDot => ?_⟩
    obtain ⟨-, rfl⟩ | old := mem_ents_insert split inEnts
    · simp [isDot] at notDot
    · exact (tree.dot other otherMember).2 found old isDot
  · intro other otherMember
    rw [countP_ents_insert split notDotDot]
    refine ⟨(tree.dotDot other otherMember).1, fun found inEnts isDotDot => ?_⟩
    obtain ⟨-, rfl⟩ | old := mem_ents_insert split inEnts
    · simp [isDotDot] at notDotDot
    · exact (tree.dotDot other otherMember).2 found old isDotDot
  · intro other otherMember found inEnts foundProper isDir
    obtain ⟨-, rfl⟩ | old := mem_ents_insert split inEnts
    · rw [setEnts_isDir, isFile] at isDir
      cases isDir
    · exact tree.child other otherMember found old foundProper isDir
  · intro other otherMember notRoot
    have different : entry.inode ≠ other := by
      rintro rfl
      rw [tree.isDir _ otherMember] at isFile
      cases isFile
    rw [countP_ents_insert split (by simp [different])]
    exact tree.named other otherMember notRoot

/-- Removing an entry for a file keeps the tree. -/
theorem removeFile (tree : ns.Tree live parent) (member : dir ∈ live)
    (split : ns.ents dir = before ++ entry :: after) (isFile : ns.isDir entry.inode = false) :
    (ns.setEnts dir (before ++ after)).Tree live parent := by
  have proper := tree.proper_of_file member (by simp [split] : entry ∈ ns.ents dir) isFile
  obtain ⟨notDot, notDotDot⟩ := not_dots proper
  refine ⟨tree.root_mem, tree.parent_root, tree.isDir, tree.rooted, ?_, ?_, ?_, ?_, ?_⟩
  · exact fun other otherMember found inEnts =>
      tree.alive other otherMember found (mem_ents_remove split inEnts)
  · intro other otherMember
    rw [countP_ents_remove split notDot]
    exact ⟨(tree.dot other otherMember).1, fun found inEnts =>
      (tree.dot other otherMember).2 found (mem_ents_remove split inEnts)⟩
  · intro other otherMember
    rw [countP_ents_remove split notDotDot]
    exact ⟨(tree.dotDot other otherMember).1, fun found inEnts =>
      (tree.dotDot other otherMember).2 found (mem_ents_remove split inEnts)⟩
  · exact fun other otherMember found inEnts =>
      tree.child other otherMember found (mem_ents_remove split inEnts)
  · intro other otherMember notRoot
    have different : entry.inode ≠ other := by
      rintro rfl
      rw [tree.isDir _ otherMember] at isFile
      cases isFile
    rw [countP_ents_remove split (by simp [different])]
    exact tree.named other otherMember notRoot

/-- The way up from a directory of the tree stays in the tree. -/
theorem not_under_outside (tree : ns.Tree live parent) {other ino : Nat}
    (otherMember : other ∈ live) (outside : ino ∉ live) : ¬ Under parent ino other := by
  rintro ⟨steps, reaches⟩
  have stays : ∀ steps, parent^[steps] other ∈ live := by
    intro steps
    induction steps with
    | zero => exact otherMember
    | succ steps inductionHypothesis =>
        rw [Function.iterate_succ_apply']
        exact tree.parent_mem inductionHypothesis
  exact outside (reaches ▸ stays steps)

/-- A new directory, filled with its `.` and `..`, gets its name. -/
theorem makeDir (tree : ns.Tree live parent) (member : dir ∈ live)
    (split : ns.ents dir = before ++ after) (proper : entry.proper = true)
    (alive : ns.Alive entry.inode) (isDir : ns.isDir entry.inode = true)
    (untracked : ¬ ns.Tracked live entry.inode) {fileType : Nat}
    (dots : ns.ents entry.inode =
      [⟨dotName, entry.inode, fileType⟩, ⟨dotDotName, dir, fileType⟩]) :
    (ns.setEnts dir (before ++ entry :: after)).Tree (Insert.insert entry.inode live)
      (Function.update parent entry.inode dir) := by
  obtain ⟨notDot, notDotDot⟩ := not_dots proper
  have outside : entry.inode ∉ live := fun isLive => untracked (.inl isLive)
  have unnamed : ∀ other ∈ live, ∀ found ∈ ns.ents other, found.inode ≠ entry.inode :=
    fun other otherMember found inEnts same => untracked
      (.inr ⟨other, otherMember, found, inEnts, same⟩)
  have apart : ∀ other ∈ live, other ≠ entry.inode := fun other otherMember same =>
    outside (same ▸ otherMember)
  have newEnts : (ns.setEnts dir (before ++ entry :: after)).ents entry.inode =
      [⟨dotName, entry.inode, fileType⟩, ⟨dotDotName, dir, fileType⟩] := by
    simp [Ne.symm (apart dir member), dots]
  have dirAlive := tree.alive_dir member
  have rooted : ∀ other ∈ live,
      Rooted (Function.update parent entry.inode dir) EXT2_ROOT_INO other :=
    fun other otherMember => (tree.rooted other otherMember).update_of_not_under
      (tree.not_under_outside otherMember outside)
  refine ⟨Finset.mem_insert_of_mem tree.root_mem, ?_, ?_, ?_, ?_, ?_, ?_, ?_, ?_⟩
  · rw [Function.update_of_ne (apart _ tree.root_mem), tree.parent_root]
  · intro other otherMember
    obtain rfl | old := Finset.mem_insert.mp otherMember
    · exact isDir
    · exact tree.isDir other old
  · intro other otherMember
    obtain rfl | old := Finset.mem_insert.mp otherMember
    · refine Under.of_parent ?_
      rw [Function.update_self]
      exact rooted dir member
    · exact rooted other old
  · intro other otherMember found inEnts
    obtain rfl | old := Finset.mem_insert.mp otherMember
    · rw [newEnts] at inEnts
      simp only [List.mem_cons, List.not_mem_nil, or_false] at inEnts
      obtain rfl | rfl := inEnts
      · exact alive
      · exact dirAlive
    · obtain ⟨-, rfl⟩ | inOld := mem_ents_insert split inEnts
      · exact alive
      · exact tree.alive other old found inOld
  · intro other otherMember
    obtain rfl | old := Finset.mem_insert.mp otherMember
    · rw [newEnts]
      exact ⟨rfl, by simp [dotName, dotDotName]⟩
    · rw [countP_ents_insert split notDot]
      refine ⟨(tree.dot other old).1, fun found inEnts isDot => ?_⟩
      obtain ⟨-, rfl⟩ | inOld := mem_ents_insert split inEnts
      · simp [isDot] at notDot
      · exact (tree.dot other old).2 found inOld isDot
  · intro other otherMember
    obtain rfl | old := Finset.mem_insert.mp otherMember
    · rw [newEnts, Function.update_self]
      exact ⟨rfl, by simp [dotName, dotDotName]⟩
    · rw [countP_ents_insert split notDotDot, Function.update_of_ne (apart other old)]
      refine ⟨(tree.dotDot other old).1, fun found inEnts isDotDot => ?_⟩
      obtain ⟨-, rfl⟩ | inOld := mem_ents_insert split inEnts
      · simp [isDotDot] at notDotDot
      · exact (tree.dotDot other old).2 found inOld isDotDot
  · intro other otherMember found inEnts foundProper foundDir
    obtain rfl | old := Finset.mem_insert.mp otherMember
    · rw [newEnts] at inEnts
      simp only [List.mem_cons, List.not_mem_nil, or_false] at inEnts
      obtain rfl | rfl := inEnts
      · simp [Dirent.proper] at foundProper
      · simp [Dirent.proper] at foundProper
    · obtain ⟨rfl, rfl⟩ | inOld := mem_ents_insert split inEnts
      · refine ⟨Finset.mem_insert_self _ _, Ne.symm (apart _ tree.root_mem), ?_⟩
        rw [Function.update_self]
      · obtain ⟨isLive, notRoot, isParent⟩ :=
          tree.child other old found inOld foundProper foundDir
        refine ⟨Finset.mem_insert_of_mem isLive, notRoot, ?_⟩
        rw [Function.update_of_ne (apart _ isLive), isParent]
  · intro other otherMember notRoot
    obtain rfl | old := Finset.mem_insert.mp otherMember
    · rw [Function.update_self]
      refine ⟨Finset.mem_insert_of_mem member, ?_⟩
      have none : (before ++ after).countP
          (fun found => found.proper && found.inode == entry.inode) = 0 := by
        refine List.countP_eq_zero.mpr fun found inEnts => ?_
        have different := unnamed dir member found (by rwa [split])
        simp [different]
      simp only [setEnts_ents, Function.update_self, List.countP_append, List.countP_cons] at none ⊢
      simp only [proper, beq_self_eq_true, Bool.and_self, if_true]
      omega
    · obtain ⟨parentMem, once⟩ := tree.named other old notRoot
      rw [Function.update_of_ne (apart other old),
        countP_ents_insert split (by simp [Ne.symm (apart other old)])]
      exact ⟨Finset.mem_insert_of_mem parentMem, once⟩

/-- In its parent, a directory has no name besides the one that is taken away. -/
theorem unnamed_of_remove (tree : ns.Tree live parent) (isLive : entry.inode ∈ live)
    (notRoot : entry.inode ≠ EXT2_ROOT_INO)
    (split : ns.ents (parent entry.inode) = before ++ entry :: after) (proper : entry.proper = true)
    {other : Nat} (otherMember : other ∈ live) {found : Dirent}
    (inEnts : found ∈ (ns.setEnts (parent entry.inode) (before ++ after)).ents other)
    (foundProper : found.proper = true) : found.inode ≠ entry.inode := by
  intro same
  have old := mem_ents_remove split inEnts
  have isDir : ns.isDir found.inode = true := same ▸ tree.isDir _ isLive
  obtain ⟨-, -, isParent⟩ := tree.child other otherMember found old foundProper isDir
  obtain ⟨-, once⟩ := tree.named _ isLive notRoot
  rw [same] at isParent
  subst isParent
  simp only [setEnts_ents, Function.update_self] at inEnts
  have more : 0 < (before ++ after).countP
      fun found => found.proper && found.inode == entry.inode :=
    List.countP_pos_iff.mpr ⟨found, inEnts, by simp [foundProper, same]⟩
  rw [split] at once
  simp only [List.countP_append, List.countP_cons, proper, beq_self_eq_true, Bool.and_self,
    if_true] at once more
  omega

/-- An empty directory that has lost its name is not named by another one. -/
theorem unnamed_of_removeDir (tree : ns.Tree live parent) (isLive : entry.inode ∈ live)
    (notRoot : entry.inode ≠ EXT2_ROOT_INO)
    (split : ns.ents (parent entry.inode) = before ++ entry :: after) (proper : entry.proper = true)
    (empty : ∀ found ∈ ns.ents entry.inode, found.proper = false)
    {other : Nat} (otherMember : other ∈ live) (different : other ≠ entry.inode) {found : Dirent}
    (inEnts : found ∈ (ns.setEnts (parent entry.inode) (before ++ after)).ents other) :
    found.inode ≠ entry.inode := by
  have old := mem_ents_remove split inEnts
  by_cases isDot : found.name = dotName
  · rw [(tree.dot other otherMember).2 found old isDot]
    exact different
  · by_cases isDotDot : found.name = dotDotName
    · rw [(tree.dotDot other otherMember).2 found old isDotDot]
      intro isParent
      by_cases atRoot : other = EXT2_ROOT_INO
      · rw [atRoot, tree.parent_root] at isParent
        exact notRoot isParent.symm
      · obtain ⟨-, once⟩ := tree.named other otherMember atRoot
        obtain ⟨child, inParent, isChild⟩ := exists_of_countP_eq_one once
        rw [isParent] at inParent
        simp [empty child inParent] at isChild
    · exact tree.unnamed_of_remove isLive notRoot split proper otherMember inEnts
        (by simp [Dirent.proper, isDot, isDotDot])

/-- An empty directory loses its name and leaves the tree. -/
theorem removeDir (tree : ns.Tree live parent) (isLive : entry.inode ∈ live)
    (notRoot : entry.inode ≠ EXT2_ROOT_INO)
    (split : ns.ents (parent entry.inode) = before ++ entry :: after) (proper : entry.proper = true)
    (empty : ∀ found ∈ ns.ents entry.inode, found.proper = false) :
    (ns.setEnts (parent entry.inode) (before ++ after)).Tree (live.erase entry.inode) parent := by
  obtain ⟨notDot, notDotDot⟩ := not_dots proper
  have old : ∀ {other}, other ∈ live.erase entry.inode → other ∈ live := Finset.mem_of_mem_erase
  refine ⟨Finset.mem_erase.mpr ⟨notRoot.symm, tree.root_mem⟩, tree.parent_root, ?_, ?_, ?_, ?_, ?_,
    ?_, ?_⟩
  · exact fun other otherMember => tree.isDir other (old otherMember)
  · exact fun other otherMember => tree.rooted other (old otherMember)
  · exact fun other otherMember found inEnts =>
      tree.alive other (old otherMember) found (mem_ents_remove split inEnts)
  · intro other otherMember
    rw [countP_ents_remove split notDot]
    exact ⟨(tree.dot other (old otherMember)).1, fun found inEnts =>
      (tree.dot other (old otherMember)).2 found (mem_ents_remove split inEnts)⟩
  · intro other otherMember
    rw [countP_ents_remove split notDotDot]
    exact ⟨(tree.dotDot other (old otherMember)).1, fun found inEnts =>
      (tree.dotDot other (old otherMember)).2 found (mem_ents_remove split inEnts)⟩
  · intro other otherMember found inEnts foundProper isDir
    obtain ⟨foundLive, foundNotRoot, isParent⟩ := tree.child other (old otherMember) found
      (mem_ents_remove split inEnts) foundProper isDir
    have different := tree.unnamed_of_remove isLive notRoot split proper (old otherMember) inEnts
      foundProper
    exact ⟨Finset.mem_erase.mpr ⟨different, foundLive⟩, foundNotRoot, isParent⟩
  · intro other otherMember otherNotRoot
    obtain ⟨different, otherLive⟩ := Finset.mem_erase.mp otherMember
    obtain ⟨parentMem, once⟩ := tree.named other otherLive otherNotRoot
    have parentDifferent : parent other ≠ entry.inode := by
      intro isParent
      obtain ⟨child, inParent, isChild⟩ := exists_of_countP_eq_one once
      rw [isParent] at inParent
      simp [empty child inParent] at isChild
    rw [countP_ents_remove split (by simp [Ne.symm different])]
    exact ⟨Finset.mem_erase.mpr ⟨parentDifferent, parentMem⟩, once⟩

theorem parent_ne (tree : ns.Tree live parent) (isLive : ino ∈ live)
    (notRoot : ino ≠ EXT2_ROOT_INO) :
    parent ino ≠ ino := by
  intro fixed
  obtain ⟨steps, reaches⟩ := tree.rooted ino isLive
  rw [Function.iterate_fixed fixed] at reaches
  exact notRoot reaches

/-- The contents of a directory whose `..` has been made to name another one. -/
structure Reparented (ents ents' : List Dirent) (newParent : Nat) : Prop where
  one : ents'.countP (fun entry => entry.name == dotDotName) = 1
  names : ∀ entry ∈ ents', entry.name = dotDotName → entry.inode = newParent
  old : ∀ entry ∈ ents', entry.name ≠ dotDotName → entry ∈ ents
  rest : ∀ test : Dirent → Bool, (∀ entry : Dirent, entry.name = dotDotName → test entry = false) →
    ents'.countP test = ents.countP test

/-- What moving the directory `ino` from its name `entry` to the name `newEntry` in `newParent`
makes of the entries; its `..` names `newParent` then. -/
structure Relocated (ns ns' : Ns) (live : Finset Nat) (ino newParent : Nat)
    (entry newEntry : Dirent) : Prop where
  isDir : ns'.isDir = ns.isDir
  alive : ∀ other, ns'.Alive other ↔ ns.Alive other
  own : Reparented (ns.ents ino) (ns'.ents ino) newParent
  found : ∀ other, other ≠ ino → ∀ found ∈ ns'.ents other, (other = newParent ∧ found = newEntry) ∨
    (found ∈ ns.ents other ∧ (other ∈ live → found.proper = true → found.inode ≠ ino))
  count : ∀ other, other ≠ ino → ∀ test : Dirent → Bool, test entry = false →
    test newEntry = false → (ns'.ents other).countP test = (ns.ents other).countP test
  once : (ns'.ents newParent).countP (fun found => found.proper && found.inode == ino) = 1

/-- Removing the old name, entering the new one and rewriting `..` relocates the directory. -/
theorem relocated_setEnts (tree : ns.Tree live parent) (isLive : entry.inode ∈ live)
    (notRoot : entry.inode ≠ EXT2_ROOT_INO) {newParent : Nat} (newLive : newParent ∈ live)
    (apart : newParent ≠ entry.inode)
    (split : ns.ents (parent entry.inode) = before ++ entry :: after) (proper : entry.proper = true)
    {newEntry : Dirent} (sameInode : newEntry.inode = entry.inode)
    (newProper : newEntry.proper = true) {newBefore newAfter ents : List Dirent}
    (newSplit : (ns.setEnts (parent entry.inode) (before ++ after)).ents newParent =
      newBefore ++ newAfter)
    (reparented : Reparented (ns.ents entry.inode) ents newParent) :
    Relocated ns (((ns.setEnts (parent entry.inode) (before ++ after)).setEnts newParent
      (newBefore ++ newEntry :: newAfter)).setEnts entry.inode ents) live entry.inode newParent
      entry newEntry := by
  have elsewhere : ∀ other, other ≠ entry.inode →
      (((ns.setEnts (parent entry.inode) (before ++ after)).setEnts newParent
        (newBefore ++ newEntry :: newAfter)).setEnts entry.inode ents).ents other =
      ((ns.setEnts (parent entry.inode) (before ++ after)).setEnts newParent
        (newBefore ++ newEntry :: newAfter)).ents other :=
    fun other different => Function.update_of_ne different _ _
  have unnamed : ∀ other ∈ live,
      ∀ found ∈ (ns.setEnts (parent entry.inode) (before ++ after)).ents other,
      found.proper = true → found.inode ≠ entry.inode :=
    fun other otherMember found => tree.unnamed_of_remove isLive notRoot split proper otherMember
  refine ⟨rfl, fun _ => Iff.rfl, by simpa using reparented, ?_, ?_, ?_⟩
  · intro other different found inEnts
    rw [elsewhere other different] at inEnts
    obtain isNew | inOld := mem_ents_insert newSplit inEnts
    · exact .inl isNew
    · exact .inr ⟨mem_ents_remove split inOld,
        fun otherMember => unnamed other otherMember found inOld⟩
  · intro other different test fails newFails
    rw [elsewhere other different, countP_ents_insert newSplit newFails,
      countP_ents_remove split fails]
  · have none : (newBefore ++ newAfter).countP
        (fun found => found.proper && found.inode == entry.inode) = 0 := by
      refine List.countP_eq_zero.mpr fun found inEnts isFound => ?_
      rw [Bool.and_eq_true, beq_iff_eq] at isFound
      rw [← newSplit] at inEnts
      exact unnamed newParent newLive found inEnts isFound.1 isFound.2
    rw [elsewhere newParent apart]
    simp only [setEnts_ents, Function.update_self, List.countP_append, List.countP_cons] at none ⊢
    simp only [newProper, sameInode, beq_self_eq_true, Bool.and_self, if_true]
    omega

section Relocated

variable {ns' : Ns} {ino newParent : Nat} {newEntry : Dirent} (tree : ns.Tree live parent)
  (relocated : Relocated ns ns' live ino newParent entry newEntry)

include tree relocated

/-- After the move every entry still names an inode in use. -/
theorem Relocated.names_alive (newLive : newParent ∈ live) (isLive : ino ∈ live)
    (sameInode : newEntry.inode = ino) (other : Nat) (otherMember : other ∈ live)
    (found : Dirent) (inEnts : found ∈ ns'.ents other) : ns'.Alive found.inode := by
  rw [relocated.alive]
  by_cases isMoved : other = ino
  · subst isMoved
    by_cases isDotDot : found.name = dotDotName
    · rw [relocated.own.names found inEnts isDotDot]
      exact tree.alive_dir newLive
    · exact tree.alive other otherMember found (relocated.own.old found inEnts isDotDot)
  · obtain ⟨-, rfl⟩ | ⟨inOld, -⟩ := relocated.found other isMoved found inEnts
    · rw [sameInode]
      exact tree.alive_dir isLive
    · exact tree.alive other otherMember found inOld

/-- The moved name and the new one are no dots, so every directory keeps its `.`. -/
theorem Relocated.dot (proper : entry.proper = true) (newProper : newEntry.proper = true)
    (other : Nat) (otherMember : other ∈ live) :
    (ns'.ents other).countP (fun found => found.name == dotName) = 1 ∧
      ∀ found ∈ ns'.ents other, found.name = dotName → found.inode = other := by
  obtain ⟨notDot, -⟩ := not_dots proper
  obtain ⟨newNotDot, -⟩ := not_dots newProper
  by_cases isMoved : other = ino
  · subst isMoved
    rw [relocated.own.rest _ (by rintro found isDotDot; simp [isDotDot, dotName, dotDotName])]
    refine ⟨(tree.dot other otherMember).1, fun found inEnts isDot => ?_⟩
    exact (tree.dot other otherMember).2 found (relocated.own.old found inEnts
      (by simp [isDot, dotName, dotDotName])) isDot
  · rw [relocated.count other isMoved _ notDot newNotDot]
    refine ⟨(tree.dot other otherMember).1, fun found inEnts isDot => ?_⟩
    obtain ⟨-, rfl⟩ | ⟨inOld, -⟩ := relocated.found other isMoved found inEnts
    · simp [isDot] at newNotDot
    · exact (tree.dot other otherMember).2 found inOld isDot

/-- Every `..` names the parent, which is the new one for the moved directory. -/
theorem Relocated.dotDot (proper : entry.proper = true) (newProper : newEntry.proper = true)
    (other : Nat) (otherMember : other ∈ live) :
    (ns'.ents other).countP (fun found => found.name == dotDotName) = 1 ∧
      ∀ found ∈ ns'.ents other, found.name = dotDotName →
        found.inode = Function.update parent ino newParent other := by
  obtain ⟨-, notDotDot⟩ := not_dots proper
  obtain ⟨-, newNotDotDot⟩ := not_dots newProper
  by_cases isMoved : other = ino
  · subst isMoved
    rw [Function.update_self]
    exact ⟨relocated.own.one, relocated.own.names⟩
  · rw [relocated.count other isMoved _ notDotDot newNotDotDot, Function.update_of_ne isMoved]
    refine ⟨(tree.dotDot other otherMember).1, fun found inEnts isDotDot => ?_⟩
    obtain ⟨-, rfl⟩ | ⟨inOld, -⟩ := relocated.found other isMoved found inEnts
    · simp [isDotDot] at newNotDotDot
    · exact (tree.dotDot other otherMember).2 found inOld isDotDot

/-- Every subdirectory has the directory as its parent. -/
theorem Relocated.child (isLive : ino ∈ live) (notRoot : ino ≠ EXT2_ROOT_INO)
    (sameInode : newEntry.inode = ino) (other : Nat) (otherMember : other ∈ live)
    (found : Dirent) (inEnts : found ∈ ns'.ents other) (foundProper : found.proper = true)
    (foundDir : ns'.isDir found.inode = true) :
    found.inode ∈ live ∧ found.inode ≠ EXT2_ROOT_INO ∧
      Function.update parent ino newParent found.inode = other := by
  rw [relocated.isDir] at foundDir
  by_cases isMoved : other = ino
  · subst isMoved
    have inOld := relocated.own.old found inEnts (by simpa using (not_dots foundProper).2)
    obtain ⟨foundLive, foundNotRoot, isParent⟩ :=
      tree.child other otherMember found inOld foundProper foundDir
    refine ⟨foundLive, foundNotRoot, ?_⟩
    rw [Function.update_of_ne, isParent]
    -- a directory is not its own child
    intro same
    rw [same] at isParent
    exact tree.parent_ne isLive notRoot isParent
  · obtain ⟨rfl, rfl⟩ | ⟨inOld, removed⟩ := relocated.found other isMoved found inEnts
    · rw [sameInode, Function.update_self]
      exact ⟨isLive, notRoot, rfl⟩
    · rw [Function.update_of_ne (removed otherMember foundProper)]
      exact tree.child other otherMember found inOld foundProper foundDir

/-- Every directory has one name in its parent. -/
theorem Relocated.named (newLive : newParent ∈ live) (isInode : entry.inode = ino)
    (sameInode : newEntry.inode = ino) (other : Nat) (otherMember : other ∈ live)
    (otherNotRoot : other ≠ EXT2_ROOT_INO) :
    Function.update parent ino newParent other ∈ live ∧
      (ns'.ents (Function.update parent ino newParent other)).countP
        (fun found => found.proper && found.inode == other) = 1 := by
  by_cases isMoved : other = ino
  · subst isMoved
    rw [Function.update_self]
    exact ⟨newLive, relocated.once⟩
  · obtain ⟨parentMem, once⟩ := tree.named other otherMember otherNotRoot
    rw [Function.update_of_ne isMoved]
    refine ⟨parentMem, ?_⟩
    by_cases inMoved : parent other = ino
    · rw [inMoved, relocated.own.rest _ (by
        rintro found isDotDot
        simp [Dirent.proper, isDotDot]), ← inMoved]
      exact once
    · rw [relocated.count _ inMoved _ (by simp [isInode, Ne.symm isMoved])
        (by simp [sameInode, Ne.symm isMoved])]
      exact once

end Relocated

/-- A directory loses its name in its parent, gets one in a directory that is not inside
it, and its `..` is made to name that one. -/
theorem moveDir (tree : ns.Tree live parent) (isLive : entry.inode ∈ live)
    (notRoot : entry.inode ≠ EXT2_ROOT_INO) {newParent : Nat} (newLive : newParent ∈ live)
    (outside : ¬ Under parent entry.inode newParent)
    (split : ns.ents (parent entry.inode) = before ++ entry :: after) (proper : entry.proper = true)
    {newEntry : Dirent} (sameInode : newEntry.inode = entry.inode)
    (newProper : newEntry.proper = true) {newBefore newAfter ents : List Dirent}
    (newSplit : (ns.setEnts (parent entry.inode) (before ++ after)).ents newParent =
      newBefore ++ newAfter)
    (reparented : Reparented (ns.ents entry.inode) ents newParent) :
    (((ns.setEnts (parent entry.inode) (before ++ after)).setEnts newParent
      (newBefore ++ newEntry :: newAfter)).setEnts entry.inode ents).Tree live
        (Function.update parent entry.inode newParent) := by
  have apart : newParent ≠ entry.inode := fun same => outside (same ▸ Under.refl _ _)
  have relocated := relocated_setEnts tree isLive notRoot newLive apart split proper sameInode
    newProper newSplit reparented
  exact {
    root_mem := tree.root_mem
    parent_root := by rw [Function.update_of_ne (Ne.symm notRoot), tree.parent_root]
    isDir := tree.isDir
    rooted := fun other otherMember =>
      (tree.rooted other otherMember).update (tree.rooted newParent newLive) outside
    alive := Relocated.names_alive tree relocated newLive isLive sameInode
    dot := Relocated.dot tree relocated proper newProper
    dotDot := Relocated.dotDot tree relocated proper newProper
    child := Relocated.child tree relocated isLive notRoot sameInode
    named := Relocated.named tree relocated newLive rfl sameInode }

end Tree

end Ext2Fuse.Ns
