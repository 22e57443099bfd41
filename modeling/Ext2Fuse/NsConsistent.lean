import Ext2Fuse.NsRename

/-!
# Consistent filesystems

What a consistent filesystem is, said in terms of what can be reached from the root.
`Sound`, which the operations are proved to keep, is the same with the reachable
directories and their parents given explicitly.
-/

namespace Ext2Fuse

open Lib Program

namespace Ns

/-- A directory has an entry, other than `.` and `..`, for another one. -/
def Edge (ns : Ns) (dir sub : Nat) : Prop :=
  ns.isDir sub = true ∧ ∃ entry ∈ ns.ents dir, entry.proper = true ∧ entry.inode = sub

/-- The second directory is the first one or somewhere below it. -/
def Inside (ns : Ns) : Nat → Nat → Prop := Relation.ReflTransGen ns.Edge

/-- The directories below the root. -/
def Reachable (ns : Ns) (dir : Nat) : Prop := ns.Inside EXT2_ROOT_INO dir

open Classical in
/-- The reachable directories the inode table has, which are all of them when every
entry names an inode of the table. -/
noncomputable def reachableDirs (ns : Ns) : Finset Nat :=
  (Finset.range (ns.inodesCount + 1)).filter ns.Reachable

theorem mem_reachableDirs {ns : Ns} {dir : Nat} :
    dir ∈ ns.reachableDirs ↔ dir ≤ ns.inodesCount ∧ ns.Reachable dir := by
  simp only [reachableDirs, Finset.mem_filter, Finset.mem_range, Nat.lt_succ_iff]

/-- The directories form a tree of which every entry names an inode that is in use and
has a mode, `.` and `..` are what they should be, a file has as many links as it has
names and a directory has two links and one for each subdirectory. -/
structure Consistent (ns : Ns) : Prop where
  narrow : ns.Narrow
  root : ns.isDir EXT2_ROOT_INO = true
  alive : ∀ dir, ns.Reachable dir → ∀ entry ∈ ns.ents dir, ns.Alive entry.inode
  dot : ∀ dir, ns.Reachable dir → (ns.ents dir).countP (fun entry => entry.name == dotName) = 1 ∧
    ∀ entry ∈ ns.ents dir, entry.name = dotName → entry.inode = dir
  dotDot : ∀ dir, ns.Reachable dir →
    (ns.ents dir).countP (fun entry => entry.name == dotDotName) = 1
  rootDotDot : ∀ entry ∈ ns.ents EXT2_ROOT_INO, entry.name = dotDotName →
    entry.inode = EXT2_ROOT_INO
  subDotDot : ∀ dir sub, ns.Reachable dir → ns.Edge dir sub →
    ∀ entry ∈ ns.ents sub, entry.name = dotDotName → entry.inode = dir
  once : ∀ dir sub, ns.Reachable dir → ns.Edge dir sub → sub ≠ EXT2_ROOT_INO ∧
    (ns.ents dir).countP (fun entry => entry.proper && entry.inode == sub) = 1
  fileLinks : ∀ dir, ns.Reachable dir → ∀ entry ∈ ns.ents dir, ns.isDir entry.inode = false →
    ns.links entry.inode = ns.refs ns.reachableDirs entry.inode
  dirLinks : ∀ dir, ns.Reachable dir → ns.links dir = 2 + ns.subdirs dir

/-- No reachable entry names an inode that is not in use, has not been initialised or
has no links left, and no file has fewer links than names. -/
def Intact (ns : Ns) : Prop :=
  ∀ dir, ns.Reachable dir → ∀ entry ∈ ns.ents dir,
    ns.Alive entry.inode ∧ ns.links entry.inode ≠ 0 ∧
      (ns.isDir entry.inode = false → ns.refs ns.reachableDirs entry.inode ≤ ns.links entry.inode)

variable {ns : Ns} {live : Finset Nat} {parent : Nat → Nat} {exact : Bool} {dir : Nat}

namespace Tree

variable (tree : ns.Tree live parent)

include tree

theorem edge_parent (member : dir ∈ live) (notRoot : dir ≠ EXT2_ROOT_INO) :
    ns.Edge (parent dir) dir := by
  obtain ⟨-, once⟩ := tree.named dir member notRoot
  obtain ⟨entry, inEnts, isNamed⟩ := exists_of_countP_eq_one once
  rw [Bool.and_eq_true, beq_iff_eq] at isNamed
  exact ⟨tree.isDir dir member, entry, inEnts, isNamed⟩

/-- The directories of the tree are those that can be reached. -/
theorem reachable_iff : ns.Reachable dir ↔ dir ∈ live := by
  constructor
  · intro reachable
    induction reachable with
    | refl => exact tree.root_mem
    | tail _ edge inductionHypothesis =>
        obtain ⟨isDir, entry, inEnts, proper, rfl⟩ := edge
        exact (tree.child _ inductionHypothesis entry inEnts proper isDir).1
  · intro member
    refine (tree.rooted dir member).induct (motive := fun dir => dir ∈ live → ns.Reachable dir)
      (fun _ => .refl) ?_ member
    intro dir notRoot _ inductionHypothesis member
    exact .tail (inductionHypothesis (tree.parent_mem member)) (tree.edge_parent member notRoot)

theorem reachableDirs_eq : ns.reachableDirs = live := by
  ext dir
  rw [mem_reachableDirs, tree.reachable_iff, and_iff_right_iff_imp]
  intro member
  have valid := (tree.alive_dir member).1
  simp only [Ns.valid, Bool.and_eq_true, decide_eq_true_eq] at valid
  exact valid.2

/-- Who is below a directory is inside it. -/
theorem inside_of_under {above : Nat} (member : dir ∈ live) (under : Under parent above dir) :
    ns.Inside above dir := by
  obtain ⟨steps, reaches⟩ := under
  induction steps generalizing dir with
  | zero =>
      obtain rfl : dir = above := reaches
      exact .refl
  | succ steps inductionHypothesis =>
      rw [Function.iterate_succ_apply] at reaches
      by_cases atRoot : dir = EXT2_ROOT_INO
      · subst atRoot
        rw [tree.parent_root] at reaches
        exact inductionHypothesis member reaches
      · exact .tail (inductionHypothesis (tree.parent_mem member) reaches)
          (tree.edge_parent member atRoot)

end Tree

/-- A sound name space is consistent. -/
theorem Sound.consistent (sound : ns.Sound true) : ns.Consistent := by
  obtain ⟨narrow, live, parent, tree, counted⟩ := sound
  have edge : ∀ dir sub, ns.Reachable dir → ns.Edge dir sub →
      sub ∈ live ∧ sub ≠ EXT2_ROOT_INO ∧ parent sub = dir := by
    rintro dir sub reachable ⟨isDir, entry, inEnts, proper, rfl⟩
    exact tree.child dir (tree.reachable_iff.mp reachable) entry inEnts proper isDir
  refine ⟨narrow, tree.isDir _ tree.root_mem, ?_, ?_, ?_, ?_, ?_, ?_, ?_, ?_⟩
  · exact fun dir reachable => tree.alive dir (tree.reachable_iff.mp reachable)
  · exact fun dir reachable => tree.dot dir (tree.reachable_iff.mp reachable)
  · exact fun dir reachable => (tree.dotDot dir (tree.reachable_iff.mp reachable)).1
  · intro entry inEnts isDotDot
    rw [(tree.dotDot _ tree.root_mem).2 entry inEnts isDotDot, tree.parent_root]
  · intro dir sub reachable isEdge entry inEnts isDotDot
    obtain ⟨isLive, -, isParent⟩ := edge dir sub reachable isEdge
    rw [(tree.dotDot sub isLive).2 entry inEnts isDotDot, isParent]
  · intro dir sub reachable isEdge
    obtain ⟨isLive, notRoot, rfl⟩ := edge dir sub reachable isEdge
    exact ⟨notRoot, (tree.named sub isLive notRoot).2⟩
  · intro dir reachable entry inEnts isFile
    have covers := counted.file dir (tree.reachable_iff.mp reachable) entry inEnts isFile
    rw [tree.reachableDirs_eq]
    exact Nat.le_antisymm (covers.2 rfl) covers.1
  · intro dir reachable
    have covers := counted.dir dir (tree.reachable_iff.mp reachable)
    exact Nat.le_antisymm (covers.2 rfl) covers.1

/-- The directory that `..` names. -/
def dotDotOf (ns : Ns) (dir : Nat) : Nat :=
  (((ns.ents dir).find? fun entry => entry.name == dotDotName).map Dirent.inode).getD 0

/-- A consistent name space is sound: its directories form a tree with the parents that '..'
names. -/
theorem Consistent.sound (consistent : ns.Consistent) : ns.Sound true := by
  have inTable : ∀ dir, ns.Reachable dir → dir ∈ ns.reachableDirs := by
    intro dir reachable
    obtain ⟨one, names⟩ := consistent.dot dir reachable
    obtain ⟨entry, inEnts, isDot⟩ := exists_of_countP_eq_one one
    have alive := (consistent.alive dir reachable entry inEnts).1
    rw [names entry inEnts (by simpa using isDot)] at alive
    simp only [Ns.valid, Bool.and_eq_true, decide_eq_true_eq] at alive
    exact mem_reachableDirs.mpr ⟨alive.2, reachable⟩
  have reachable : ∀ dir ∈ ns.reachableDirs, ns.Reachable dir :=
    fun dir member => (mem_reachableDirs.mp member).2
  -- all `..` of a directory name the same one
  have parentOf : ∀ dir above, ns.Reachable dir →
      (∀ entry ∈ ns.ents dir, entry.name = dotDotName → entry.inode = above) →
      ns.dotDotOf dir = above := by
    intro dir above isReachable names
    obtain ⟨entry, inEnts, isDotDot⟩ := exists_of_countP_eq_one (consistent.dotDot dir isReachable)
    cases found : (ns.ents dir).find? fun entry => entry.name == dotDotName with
    | none => exact absurd isDotDot (List.find?_eq_none.mp found entry inEnts)
    | some first =>
        obtain ⟨inFirst, firstName⟩ := mem_of_find found
        simp [dotDotOf, found, names first inFirst firstName]
  have rootParent := parentOf _ _ .refl consistent.rootDotDot
  have subParent : ∀ dir sub, ns.Reachable dir → ns.Edge dir sub → ns.dotDotOf sub = dir :=
    fun dir sub isReachable edge =>
      parentOf sub dir (.tail isReachable edge) (consistent.subDotDot dir sub isReachable edge)
  -- a directory other than the root has been reached from its parent
  have reached : ∀ dir, ns.Reachable dir → dir ≠ EXT2_ROOT_INO →
      ns.Reachable (ns.dotDotOf dir) ∧ ns.Edge (ns.dotDotOf dir) dir := by
    intro dir isReachable notRoot
    obtain same | ⟨above, aboveReachable, edge⟩ := Relation.ReflTransGen.cases_tail isReachable
    · exact absurd same notRoot
    · rw [subParent above dir aboveReachable edge]
      exact ⟨aboveReachable, edge⟩
  refine ⟨consistent.narrow, ns.reachableDirs, ns.dotDotOf,
    ⟨inTable _ .refl, rootParent, ?_, ?_, ?_, ?_, ?_, ?_, ?_⟩, ?_, ?_⟩
  · intro dir member
    by_cases atRoot : dir = EXT2_ROOT_INO
    · rw [atRoot]
      exact consistent.root
    · exact (reached dir (reachable dir member) atRoot).2.1
  · intro dir member
    have isReachable := reachable dir member
    induction isReachable with
    | refl => exact Under.refl _ _
    | tail aboveReachable edge inductionHypothesis =>
        refine Under.of_parent ?_
        rw [subParent _ _ aboveReachable edge]
        exact inductionHypothesis (inTable _ aboveReachable)
  · exact fun dir member => consistent.alive dir (reachable dir member)
  · exact fun dir member => consistent.dot dir (reachable dir member)
  · intro dir member
    have isReachable := reachable dir member
    refine ⟨consistent.dotDot dir isReachable, fun entry inEnts isDotDot => ?_⟩
    by_cases atRoot : dir = EXT2_ROOT_INO
    · subst atRoot
      rw [rootParent]
      exact consistent.rootDotDot entry inEnts isDotDot
    · obtain ⟨aboveReachable, edge⟩ := reached dir isReachable atRoot
      exact consistent.subDotDot _ dir aboveReachable edge entry inEnts isDotDot
  · intro dir member entry inEnts proper isDir
    have isReachable := reachable dir member
    have edge : ns.Edge dir entry.inode := ⟨isDir, entry, inEnts, proper, rfl⟩
    exact ⟨inTable _ (.tail isReachable edge), (consistent.once dir _ isReachable edge).1,
      subParent dir _ isReachable edge⟩
  · intro dir member notRoot
    obtain ⟨aboveReachable, edge⟩ := reached dir (reachable dir member) notRoot
    exact ⟨inTable _ aboveReachable, (consistent.once _ dir aboveReachable edge).2⟩
  · intro dir member entry inEnts isFile
    rw [consistent.fileLinks dir (reachable dir member) entry inEnts isFile]
    simp [Covers]
  · intro dir member
    rw [consistent.dirLinks dir (reachable dir member)]
    simp [Covers]

/-- A safe name space is intact: what can be reached is among the directories it is safe
for. -/
theorem Good.intact (good : ns.Good) : ns.Intact := by
  obtain ⟨-, live, safe⟩ := good
  have inLive : ∀ dir, ns.Reachable dir → dir ∈ live := by
    intro dir reachable
    induction reachable with
    | refl => exact safe.root_mem
    | tail _ edge inductionHypothesis =>
        obtain ⟨isDir, entry, inEnts, -, rfl⟩ := edge
        exact safe.closed _ inductionHypothesis entry inEnts isDir
  intro dir reachable entry inEnts
  obtain ⟨alive, linked⟩ := safe.alive dir (inLive dir reachable) entry inEnts
  refine ⟨alive, linked, fun isFile => ?_⟩
  have fewer : ns.reachableDirs ⊆ live :=
    fun other member => inLive other (mem_reachableDirs.mp member).2
  exact (Finset.sum_le_sum_of_subset fewer).trans
    (safe.file dir (inLive dir reachable) entry inEnts isFile)

/-- A sound name space is good for its requests. -/
theorem Sound.good (sound : ns.Sound exact) : ns.Good := by
  obtain ⟨narrow, live, parent, tree, counted⟩ := sound
  exact ⟨narrow, live, tree.safe counted⟩

end Ns

end Ext2Fuse
