import Mathlib.Algebra.Order.BigOperators.Group.Finset
import Mathlib.Logic.Relation
import Ext2Fuse.Lib.Rooted
import Ext2Fuse.Namespace

/-!
# The directory tree

When the name space is a tree with right link counts (`Tree`, `Counted`), and what has
to hold of it even in the middle of an operation (`Safe`). The directories of the tree
are kept as an explicit finite set with their parents; `Reachable` is what these stand
for.
-/

namespace Ext2Fuse

open Lib

/-- An entry other than `.` and `..` -/
def Dirent.proper (entry : Dirent) : Bool := entry.name != dotName && entry.name != dotDotName

/-- The link count covers the number of names; when the counts are exact it is that
number. -/
def Covers (exact : Bool) (names count : Nat) : Prop :=
  names ≤ count ∧ (exact = true → count ≤ names)

/-- More names and a count raised by as many. -/
theorem Covers.add {exact : Bool} {names count : Nat} (covers : Covers exact names count)
    (more : Nat) : Covers exact (names + more) (count + more) :=
  ⟨Nat.add_le_add_right covers.1 _, fun isExact => Nat.add_le_add_right (covers.2 isExact) _⟩

/-- Fewer names and a count lowered by as many. -/
theorem Covers.of_add {exact : Bool} {names count more : Nat}
    (covers : Covers exact (names + more) (count + more)) : Covers exact names count :=
  ⟨Nat.le_of_add_le_add_right covers.1,
    fun isExact => Nat.le_of_add_le_add_right (covers.2 isExact)⟩

/-- An exact count covers. -/
theorem Covers.weaken {exact : Bool} {names count : Nat} (covers : Covers exact names count) :
    Covers false names count :=
  ⟨covers.1, fun isExact => absurd isExact Bool.false_ne_true⟩

namespace Ns

/-- The inode may be named by an entry: it exists, is marked in use and has a mode. -/
def Alive (ns : Ns) (ino : Nat) : Prop :=
  ns.valid ino = true ∧ ns.used ino = true ∧ ns.mode ino ≠ 0

/-- The entries of the directories `live` that name an inode. -/
def refs (ns : Ns) (live : Finset Nat) (ino : Nat) : Nat :=
  ∑ dir ∈ live, (ns.ents dir).countP fun entry => entry.inode == ino

/-- The entries of a directory that name its subdirectories. -/
def subdirs (ns : Ns) (dir : Nat) : Nat :=
  (ns.ents dir).countP fun entry => entry.proper && ns.isDir entry.inode

/-- One of the directories `live` or named by one of them. -/
def Tracked (ns : Ns) (live : Finset Nat) (ino : Nat) : Prop :=
  ino ∈ live ∨ ∃ dir ∈ live, ∃ entry ∈ ns.ents dir, entry.inode = ino

/-- The two name spaces do not differ in the directories `live` and in what these name,
except that more may be marked in use. -/
structure SameOn (ns ns' : Ns) (live : Finset Nat) : Prop where
  valid : ns'.valid = ns.valid
  ents : ∀ dir ∈ live, ns'.ents dir = ns.ents dir
  mode : ∀ ino, ns.Tracked live ino → ns'.mode ino = ns.mode ino
  links : ∀ ino, ns.Tracked live ino → ns'.links ino = ns.links ino
  used : ∀ ino, ns.Tracked live ino → ns.used ino = true → ns'.used ino = true

/-- The directories `live` form a tree below the root, with `parent` as the parents:
each has one `.` and one `..` that name what they should, each but the root has one
name, in its parent, and every entry names an inode in use. -/
structure Tree (ns : Ns) (live : Finset Nat) (parent : Nat → Nat) : Prop where
  root_mem : EXT2_ROOT_INO ∈ live
  parent_root : parent EXT2_ROOT_INO = EXT2_ROOT_INO
  isDir : ∀ dir ∈ live, ns.isDir dir = true
  rooted : ∀ dir ∈ live, Rooted parent EXT2_ROOT_INO dir
  alive : ∀ dir ∈ live, ∀ entry ∈ ns.ents dir, ns.Alive entry.inode
  dot : ∀ dir ∈ live, (ns.ents dir).countP (fun entry => entry.name == dotName) = 1 ∧
    ∀ entry ∈ ns.ents dir, entry.name = dotName → entry.inode = dir
  dotDot : ∀ dir ∈ live, (ns.ents dir).countP (fun entry => entry.name == dotDotName) = 1 ∧
    ∀ entry ∈ ns.ents dir, entry.name = dotDotName → entry.inode = parent dir
  child : ∀ dir ∈ live, ∀ entry ∈ ns.ents dir, entry.proper = true → ns.isDir entry.inode = true →
    entry.inode ∈ live ∧ entry.inode ≠ EXT2_ROOT_INO ∧ parent entry.inode = dir
  named : ∀ dir ∈ live, dir ≠ EXT2_ROOT_INO → parent dir ∈ live ∧
    (ns.ents (parent dir)).countP (fun entry => entry.proper && entry.inode == dir) = 1

/-- The link counts cover the names: the entries that name a file, and for a directory
its own entry, `.` and the `..` of its subdirectories. In the middle of an operation one
inode, `spare`, has a link more than that. -/
structure Counted (ns : Ns) (exact : Bool) (spare : Option Nat) (live : Finset Nat) : Prop where
  file : ∀ dir ∈ live, ∀ entry ∈ ns.ents dir, ns.isDir entry.inode = false →
    Covers exact (ns.refs live entry.inode + if spare = some entry.inode then 1 else 0)
      (ns.links entry.inode)
  dir : ∀ dir ∈ live,
    Covers exact (2 + ns.subdirs dir + if spare = some dir then 1 else 0) (ns.links dir)

/-- What must hold after every call: the directories `live`, which include the root and
every directory they name, only name inodes in use that have been initialised, and no
file has fewer links than names. -/
structure Safe (ns : Ns) (live : Finset Nat) : Prop where
  root_mem : EXT2_ROOT_INO ∈ live
  isDir : ∀ dir ∈ live, ns.isDir dir = true
  alive : ∀ dir ∈ live, ∀ entry ∈ ns.ents dir, ns.Alive entry.inode ∧ ns.links entry.inode ≠ 0
  closed : ∀ dir ∈ live, ∀ entry ∈ ns.ents dir, ns.isDir entry.inode = true → entry.inode ∈ live
  file : ∀ dir ∈ live, ∀ entry ∈ ns.ents dir, ns.isDir entry.inode = false →
    ns.refs live entry.inode ≤ ns.links entry.inode

variable {ns : Ns} {live : Finset Nat} {parent : Nat → Nat} {exact : Bool}

section Counting

variable {dir ino : Nat} {before after : List Dirent} {entry : Dirent}

/-- Writing an inode changes no name. -/
theorem refs_setInode (other mode links : Nat) :
    (ns.setInode other mode links).refs live ino = ns.refs live ino := rfl

/-- Other contents of one directory change the number of names by its own. -/
theorem refs_setEnts (ns : Ns) (ino : Nat) (member : dir ∈ live) (ents : List Dirent) :
    (ns.setEnts dir ents).refs live ino +
        (ns.ents dir).countP (fun entry => entry.inode == ino) =
      ns.refs live ino + ents.countP fun entry => entry.inode == ino := by
  have rest : ∀ other ∈ live.erase dir,
      ((ns.setEnts dir ents).ents other).countP (fun entry => entry.inode == ino) =
        (ns.ents other).countP fun entry => entry.inode == ino := by
    intro other inRest
    simp [Finset.ne_of_mem_erase inRest]
  simp only [refs]
  rw [← Finset.add_sum_erase _ _ member, ← Finset.add_sum_erase live (fun dir =>
    (ns.ents dir).countP fun entry => entry.inode == ino) member, Finset.sum_congr rfl rest]
  simp only [setEnts_ents, Function.update_self]
  omega

/-- One more entry names its inode once more. -/
theorem refs_insert (member : dir ∈ live) (split : ns.ents dir = before ++ after) :
    (ns.setEnts dir (before ++ entry :: after)).refs live ino =
      ns.refs live ino + if entry.inode = ino then 1 else 0 := by
  have total := refs_setEnts ns ino member (before ++ entry :: after)
  rw [split] at total
  simp only [List.countP_append, List.countP_cons, beq_iff_eq] at total
  omega

/-- With entries removed no inode has more names. -/
theorem refs_mono {ents : List Dirent} (member : dir ∈ live) (sub : ents.Sublist (ns.ents dir)) :
    (ns.setEnts dir ents).refs live ino ≤ ns.refs live ino := by
  have total := refs_setEnts ns ino member ents
  have fewer := List.Sublist.countP_le (p := fun entry : Dirent => entry.inode == ino) sub
  omega

/-- The removed entry was one of its inode's names. -/
theorem refs_remove (ino : Nat) (member : dir ∈ live)
    (split : ns.ents dir = before ++ entry :: after) :
    ns.refs live ino = (ns.setEnts dir (before ++ after)).refs live ino +
      if entry.inode = ino then 1 else 0 := by
  have total := refs_setEnts ns ino member (before ++ after)
  rw [split] at total
  simp only [List.countP_append, List.countP_cons, beq_iff_eq] at total
  omega

/-- Writing an inode with its mode leaves the subdirectories. -/
theorem subdirs_setInode_of_mode (other links : Nat) :
    (ns.setInode other (ns.mode other) links).subdirs dir = ns.subdirs dir := by
  simp [subdirs]

/-- An entry for a directory adds a subdirectory, '.' and '..' aside. -/
theorem subdirs_insert (split : ns.ents dir = before ++ after) (other : Nat) :
    (ns.setEnts dir (before ++ entry :: after)).subdirs other = ns.subdirs other +
      if other = dir ∧ entry.proper = true ∧ ns.isDir entry.inode = true then 1 else 0 := by
  by_cases same : other = dir
  · subst same
    simp only [subdirs, setEnts_ents, Function.update_self, setEnts_isDir, split,
      List.countP_append, List.countP_cons, Bool.and_eq_true, true_and]
    omega
  · simp [subdirs, same]

/-- Removing an entry for a directory takes a subdirectory away. -/
theorem subdirs_remove (split : ns.ents dir = before ++ entry :: after) (other : Nat) :
    ns.subdirs other = (ns.setEnts dir (before ++ after)).subdirs other +
      if other = dir ∧ entry.proper = true ∧ ns.isDir entry.inode = true then 1 else 0 := by
  by_cases same : other = dir
  · subst same
    simp only [subdirs, setEnts_ents, Function.update_self, setEnts_isDir, split,
      List.countP_append, List.countP_cons, Bool.and_eq_true, true_and]
    omega
  · simp [subdirs, same]

/-- Who is named is counted. -/
theorem refs_pos (member : dir ∈ live) (inEnts : entry ∈ ns.ents dir) :
    0 < ns.refs live entry.inode := by
  have own : 0 < (ns.ents dir).countP fun other => other.inode == entry.inode :=
    List.countP_pos_iff.mpr ⟨entry, inEnts, by simp⟩
  exact Nat.lt_of_lt_of_le own (Finset.single_le_sum
    (f := fun dir => (ns.ents dir).countP fun other => other.inode == entry.inode)
    (fun _ _ => Nat.zero_le _) member)

/-- An inode without a name has no reference. -/
theorem refs_eq_zero (unnamed : ∀ dir ∈ live, ∀ entry ∈ ns.ents dir, entry.inode ≠ ino) :
    ns.refs live ino = 0 := by
  refine Finset.sum_eq_zero fun dir member => List.countP_eq_zero.mpr fun entry inEnts => ?_
  simpa using unnamed dir member entry inEnts

/-- An inode with no more than one name that loses a name is not named any more. -/
theorem unnamed_of_refs (zero : ns.refs live ino = 0) :
    ∀ dir ∈ live, ∀ entry ∈ ns.ents dir, entry.inode ≠ ino := by
  rintro dir member entry inEnts rfl
  exact Nat.lt_irrefl 0 (zero ▸ refs_pos member inEnts)

/-- After an entry is added, an entry is the new one or an old one. -/
theorem mem_ents_insert (split : ns.ents dir = before ++ after) {other : Nat} {found : Dirent}
    (inEnts : found ∈ (ns.setEnts dir (before ++ entry :: after)).ents other) :
    (other = dir ∧ found = entry) ∨ found ∈ ns.ents other := by
  by_cases same : other = dir
  · subst same
    simp only [setEnts_ents, Function.update_self, List.mem_append, List.mem_cons] at inEnts
    simp only [split, List.mem_append]
    tauto
  · exact .inr (by simpa [same] using inEnts)

/-- An entry that fails a test does not change a count. -/
theorem countP_ents_insert (split : ns.ents dir = before ++ after) {test : Dirent → Bool}
    (fails : test entry = false) (other : Nat) :
    ((ns.setEnts dir (before ++ entry :: after)).ents other).countP test =
      (ns.ents other).countP test := by
  by_cases same : other = dir
  · subst same
    simp [split, List.countP_append, fails]
  · simp [same]

/-- Removing an entry that fails a test leaves the number of those that pass. -/
theorem countP_ents_remove (split : ns.ents dir = before ++ entry :: after)
    {test : Dirent → Bool} (fails : test entry = false) (other : Nat) :
    ((ns.setEnts dir (before ++ after)).ents other).countP test =
      (ns.ents other).countP test := by
  by_cases same : other = dir
  · subst same
    simp [split, List.countP_append, fails]
  · simp [same]

/-- After an entry is removed, an entry is an old one. -/
theorem mem_ents_remove (split : ns.ents dir = before ++ entry :: after) {other : Nat}
    {found : Dirent} (inEnts : found ∈ (ns.setEnts dir (before ++ after)).ents other) :
    found ∈ ns.ents other := by
  by_cases same : other = dir
  · subst same
    simp only [setEnts_ents, Function.update_self, List.mem_append] at inEnts
    simp only [split, List.mem_append, List.mem_cons]
    tauto
  · simpa [same] using inEnts

end Counting

namespace SameOn

variable {ns' : Ns} {dir ino : Nat} {entry : Dirent}

/-- A name space is the same as itself on the live directories. -/
theorem refl : ns.SameOn ns live :=
  ⟨rfl, fun _ _ => rfl, fun _ _ => rfl, fun _ _ => rfl, fun _ _ used => used⟩

/-- Marking an inode used changes nothing on the live directories. -/
theorem mark : ns.SameOn (ns.setUsed ino true) live where
  valid := rfl
  ents _ _ := rfl
  mode _ _ := rfl
  links _ _ := rfl
  used other _ used := by
    simp only [setUsed_used, Function.update_apply]
    split
    · rfl
    · exact used

/-- Nor does changing the bit of an inode that is not tracked. -/
theorem setUsed (untracked : ¬ ns.Tracked live ino) (inuse : Bool) :
    ns.SameOn (ns.setUsed ino inuse) live where
  valid := rfl
  ents _ _ := rfl
  mode _ _ := rfl
  links _ _ := rfl
  used other tracked used := by
    have different : other ≠ ino := fun same => untracked (same ▸ tracked)
    simpa [different] using used

/-- Nor does writing an inode that is not tracked. -/
theorem setInode (untracked : ¬ ns.Tracked live ino) (mode links : Nat) :
    ns.SameOn (ns.setInode ino mode links) live where
  valid := rfl
  ents _ _ := rfl
  mode other tracked := by
    have different : other ≠ ino := fun same => untracked (same ▸ tracked)
    simp [different]
  links other tracked := by
    have different : other ≠ ino := fun same => untracked (same ▸ tracked)
    simp [different]
  used _ _ used := used

/-- Nor do the entries of a directory outside. -/
theorem setEnts (outside : dir ∉ live) (ents : List Dirent) :
    ns.SameOn (ns.setEnts dir ents) live where
  valid := rfl
  ents other member := by
    have different : other ≠ dir := fun same => outside (same ▸ member)
    simp [different]
  mode _ _ := rfl
  links _ _ := rfl
  used _ _ used := used

/-- Being the same on the live directories is transitive. -/
theorem trans {ns'' : Ns} (first : ns.SameOn ns' live) (second : ns'.SameOn ns'' live) :
    ns.SameOn ns'' live := by
  have tracked : ∀ ino, ns.Tracked live ino → ns'.Tracked live ino := by
    rintro ino (isLive | ⟨dir, member, entry, inEnts, rfl⟩)
    · exact .inl isLive
    · exact .inr ⟨dir, member, entry, by rwa [first.ents dir member], rfl⟩
  exact
    { valid := second.valid.trans first.valid
      ents := fun dir member => (second.ents dir member).trans (first.ents dir member)
      mode := fun ino isTracked =>
        (second.mode ino (tracked ino isTracked)).trans (first.mode ino isTracked)
      links := fun ino isTracked =>
        (second.links ino (tracked ino isTracked)).trans (first.links ino isTracked)
      used := fun ino isTracked used =>
        second.used ino (tracked ino isTracked) (first.used ino isTracked used) }

/-- What is a directory stays one. -/
theorem isDir_eq (same : ns.SameOn ns' live) (tracked : ns.Tracked live ino) :
    ns'.isDir ino = ns.isDir ino := by
  rw [isDir, same.mode ino tracked, isDir]

/-- Every inode has the same number of names. -/
theorem refs_eq (same : ns.SameOn ns' live) : ns'.refs live ino = ns.refs live ino :=
  Finset.sum_congr rfl fun dir member => by rw [same.ents dir member]

/-- Every live directory has the same subdirectories. -/
theorem subdirs_eq (same : ns.SameOn ns' live) (member : dir ∈ live) :
    ns'.subdirs dir = ns.subdirs dir := by
  rw [subdirs, same.ents dir member]
  refine List.countP_congr fun entry inEnts => ?_
  rw [same.isDir_eq (.inr ⟨dir, member, entry, inEnts, rfl⟩)]

/-- A tracked inode stays alive. -/
theorem alive (same : ns.SameOn ns' live) (tracked : ns.Tracked live ino) (alive : ns.Alive ino) :
    ns'.Alive ino :=
  ⟨by rw [same.valid]; exact alive.1, same.used ino tracked alive.2.1,
    by rw [same.mode ino tracked]; exact alive.2.2⟩

/-- Safety carries over. -/
theorem safe (same : ns.SameOn ns' live) (safe : ns.Safe live) : ns'.Safe live := by
  have named : ∀ dir ∈ live, ∀ entry ∈ ns.ents dir, ns.Tracked live entry.inode :=
    fun dir member entry inEnts => .inr ⟨dir, member, entry, inEnts, rfl⟩
  refine ⟨safe.root_mem, ?_, ?_, ?_, ?_⟩
  · intro dir member
    rw [same.isDir_eq (.inl member)]
    exact safe.isDir dir member
  · intro dir member entry inEnts
    rw [same.ents dir member] at inEnts
    have tracked := named dir member entry inEnts
    obtain ⟨alive, linked⟩ := safe.alive dir member entry inEnts
    exact ⟨same.alive tracked alive, by rwa [same.links _ tracked]⟩
  · intro dir member entry inEnts isDir
    rw [same.ents dir member] at inEnts
    rw [same.isDir_eq (named dir member entry inEnts)] at isDir
    exact safe.closed dir member entry inEnts isDir
  · intro dir member entry inEnts isFile
    rw [same.ents dir member] at inEnts
    have tracked := named dir member entry inEnts
    rw [same.isDir_eq tracked] at isFile
    rw [same.refs_eq, same.links _ tracked]
    exact safe.file dir member entry inEnts isFile

/-- The tree carries over. -/
theorem tree (same : ns.SameOn ns' live) (tree : ns.Tree live parent) : ns'.Tree live parent := by
  have named : ∀ dir ∈ live, ∀ entry ∈ ns.ents dir, ns.Tracked live entry.inode :=
    fun dir member entry inEnts => .inr ⟨dir, member, entry, inEnts, rfl⟩
  refine ⟨tree.root_mem, tree.parent_root, ?_, tree.rooted, ?_, ?_, ?_, ?_, ?_⟩
  · intro dir member
    rw [same.isDir_eq (.inl member)]
    exact tree.isDir dir member
  · intro dir member entry inEnts
    rw [same.ents dir member] at inEnts
    exact same.alive (named dir member entry inEnts) (tree.alive dir member entry inEnts)
  · intro dir member
    rw [same.ents dir member]
    exact tree.dot dir member
  · intro dir member
    rw [same.ents dir member]
    exact tree.dotDot dir member
  · intro dir member entry inEnts proper isDir
    rw [same.ents dir member] at inEnts
    rw [same.isDir_eq (named dir member entry inEnts)] at isDir
    exact tree.child dir member entry inEnts proper isDir
  · intro dir member notRoot
    obtain ⟨parentMem, once⟩ := tree.named dir member notRoot
    refine ⟨parentMem, ?_⟩
    rw [same.ents _ parentMem]
    exact once

/-- The counts carry over. -/
theorem counted {spare : Option Nat} (same : ns.SameOn ns' live)
    (counted : ns.Counted exact spare live) : ns'.Counted exact spare live := by
  refine ⟨?_, ?_⟩
  · intro dir member entry inEnts isFile
    rw [same.ents dir member] at inEnts
    have tracked : ns.Tracked live entry.inode := .inr ⟨dir, member, entry, inEnts, rfl⟩
    rw [same.isDir_eq tracked] at isFile
    rw [same.refs_eq, same.links _ tracked]
    exact counted.file dir member entry inEnts isFile
  · intro dir member
    rw [same.subdirs_eq member, same.links dir (.inl member)]
    exact counted.dir dir member

end SameOn

namespace Safe

variable {dir ino mode links : Nat}

/-- Another link count, as long as it is not 0 and covers the names. -/
theorem setLinks (safe : ns.Safe live) (positive : links ≠ 0)
    (covers : ns.isDir ino = false → ns.refs live ino ≤ links) :
    (ns.setInode ino (ns.mode ino) links).Safe live := by
  refine ⟨safe.root_mem, ?_, ?_, ?_, ?_⟩
  · simpa using safe.isDir
  · intro dir member entry inEnts
    obtain ⟨⟨valid, used, hasMode⟩, linked⟩ := safe.alive dir member entry inEnts
    refine ⟨⟨valid, used, ?_⟩, ?_⟩
    · simpa using hasMode
    · simp only [setInode_links, Function.update_apply]
      split
      · exact positive
      · exact linked
  · simpa using safe.closed
  · intro dir member entry inEnts isFile
    rw [setInode_isDir_of_mode] at isFile
    rw [refs_setInode]
    simp only [setInode_links, Function.update_apply]
    split
    · rename_i same
      rw [same] at isFile ⊢
      exact covers isFile
    · exact safe.file dir member entry inEnts isFile

/-- Fewer entries. -/
theorem sublist (safe : ns.Safe live) {ents : List Dirent} (sub : ents.Sublist (ns.ents dir)) :
    (ns.setEnts dir ents).Safe live := by
  by_cases isLive : dir ∈ live
  · have old : ∀ other, ∀ entry ∈ (ns.setEnts dir ents).ents other, entry ∈ ns.ents other := by
      intro other entry inEnts
      by_cases same : other = dir
      · subst same
        simp only [setEnts_ents, Function.update_self] at inEnts
        exact sub.subset inEnts
      · simpa [same] using inEnts
    refine ⟨safe.root_mem, safe.isDir, ?_, ?_, ?_⟩
    · exact fun other member entry inEnts => safe.alive other member entry (old other entry inEnts)
    · exact fun other member entry inEnts => safe.closed other member entry (old other entry inEnts)
    · intro other member entry inEnts isFile
      exact (refs_mono isLive sub).trans
        (safe.file other member entry (old other entry inEnts) isFile)
  · exact (SameOn.setEnts isLive ents).safe safe

/-- One more entry, for an inode that is in use, initialised, and has a link to spare. -/
theorem insert (safe : ns.Safe live) (isLive : dir ∈ live) {before after : List Dirent}
    {entry : Dirent} (split : ns.ents dir = before ++ after) (alive : ns.Alive entry.inode)
    (linked : ns.links entry.inode ≠ 0) (closed : ns.isDir entry.inode = true → entry.inode ∈ live)
    (spare : ns.isDir entry.inode = false → ns.refs live entry.inode + 1 ≤ ns.links entry.inode) :
    (ns.setEnts dir (before ++ entry :: after)).Safe live := by
  refine ⟨safe.root_mem, safe.isDir, ?_, ?_, ?_⟩
  · intro other member found inEnts
    obtain ⟨-, rfl⟩ | old := mem_ents_insert split inEnts
    · exact ⟨alive, linked⟩
    · exact safe.alive other member found old
  · intro other member found inEnts
    obtain ⟨-, rfl⟩ | old := mem_ents_insert split inEnts
    · exact closed
    · exact safe.closed other member found old
  · intro other member found inEnts isFile
    rw [refs_insert isLive split]
    by_cases same : entry.inode = found.inode
    · rw [if_pos same]
      rw [← same] at isFile ⊢
      exact spare isFile
    · rw [if_neg same]
      obtain ⟨-, rfl⟩ | old := mem_ents_insert split inEnts
      · exact absurd rfl same
      · exact safe.file other member found old isFile

/-- A directory that no other one names may be dropped. -/
theorem erase (safe : ns.Safe live) (notRoot : ino ≠ EXT2_ROOT_INO)
    (unnamed : ∀ dir ∈ live, dir ≠ ino → ∀ entry ∈ ns.ents dir, entry.inode ≠ ino) :
    ns.Safe (live.erase ino) := by
  have fewer : ∀ other, ns.refs (live.erase ino) other ≤ ns.refs live other := fun other =>
    Finset.sum_le_sum_of_subset (Finset.erase_subset _ _)
  refine ⟨Finset.mem_erase.mpr ⟨notRoot.symm, safe.root_mem⟩, ?_, ?_, ?_, ?_⟩
  · exact fun dir member => safe.isDir dir (Finset.mem_of_mem_erase member)
  · exact fun dir member => safe.alive dir (Finset.mem_of_mem_erase member)
  · intro dir member entry inEnts isDir
    obtain ⟨different, isLive⟩ := Finset.mem_erase.mp member
    exact Finset.mem_erase.mpr ⟨unnamed dir isLive different entry inEnts,
      safe.closed dir isLive entry inEnts isDir⟩
  · intro dir member entry inEnts isFile
    exact (fewer _).trans (safe.file dir (Finset.mem_of_mem_erase member) entry inEnts isFile)

/-- A directory may be added whose entries name directories that are already there, or
itself. -/
theorem adopt (safe : ns.Safe live) (isDir : ns.isDir ino = true)
    (entries : ∀ entry ∈ ns.ents ino, (ns.Alive entry.inode ∧ ns.links entry.inode ≠ 0) ∧
      ns.isDir entry.inode = true ∧ (entry.inode = ino ∨ entry.inode ∈ live)) :
    ns.Safe (Insert.insert ino live) := by
  have same : ∀ other, ns.isDir other = false →
      ns.refs (Insert.insert ino live) other = ns.refs live other := by
    intro other isFile
    by_cases inside : ino ∈ live
    · rw [Finset.insert_eq_of_mem inside]
    · rw [refs, Finset.sum_insert inside]
      have none : (ns.ents ino).countP (fun entry => entry.inode == other) = 0 := by
        refine List.countP_eq_zero.mpr fun entry inEnts => ?_
        have isSubdir := (entries entry inEnts).2.1
        intro equal
        rw [beq_iff_eq] at equal
        rw [equal, isFile] at isSubdir
        cases isSubdir
      rw [none, Nat.zero_add]
      rfl
  refine ⟨Finset.mem_insert_of_mem safe.root_mem, ?_, ?_, ?_, ?_⟩
  · intro dir member
    obtain rfl | old := Finset.mem_insert.mp member
    · exact isDir
    · exact safe.isDir dir old
  · intro dir member entry inEnts
    obtain rfl | old := Finset.mem_insert.mp member
    · exact (entries entry inEnts).1
    · exact safe.alive dir old entry inEnts
  · intro dir member entry inEnts isSubdir
    obtain rfl | old := Finset.mem_insert.mp member
    · exact Finset.mem_insert.mpr (entries entry inEnts).2.2
    · exact Finset.mem_insert_of_mem (safe.closed dir old entry inEnts isSubdir)
  · intro dir member entry inEnts isFile
    rw [same _ isFile]
    obtain rfl | old := Finset.mem_insert.mp member
    · exact absurd (entries entry inEnts).2.1 (by simp [isFile])
    · exact safe.file dir old entry inEnts isFile

end Safe

end Ns

end Ext2Fuse
