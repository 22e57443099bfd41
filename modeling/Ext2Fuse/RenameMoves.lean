import Ext2Fuse.LastLink
import Ext2Fuse.InodeUpdates

/-!
# What a successful rename moves

While `do_rename` is at work the new parent may have two entries with the new name, and a
directory that moves has two `..`. The entries are looked at name by name here: a link adds to one
name of one directory, an unlink takes from one, and at the end one name has gone and another leads
to what it led to.
-/

namespace Ext2Fuse

open Lib Program Fs

namespace Ns

/-- The entries of a directory with a name. -/
def named (ns : Ns) (dir : Nat) (name : Name) : List Dirent :=
  (ns.ents dir).filter fun entry => entry.name == name

/-- No directory has two entries with one name. -/
def Distinct (ns : Ns) : Prop :=
  ∀ dir, ns.Reachable dir → ((ns.ents dir).map Dirent.name).Nodup

/-- Where names are distinct a name stands for one entry at most. -/
theorem Distinct.few {ns : Ns} (distinct : ns.Distinct) {dir : Nat} (reachable : ns.Reachable dir)
    (name : Name) : (ns.named dir name).length ≤ 1 := by
  have once := List.nodup_iff_count_le_one.mp (distinct dir reachable) name
  rwa [List.count, List.countP_map, List.countP_eq_length_filter] at once

section Named

variable {ns next : Ns} {dir other ino : Nat} {name otherName : Name} {before after : List Dirent}
  {entry : Dirent}

/-- The entries of a name are read off the entries. -/
theorem named_congr (same : next.ents = ns.ents) : next.named = ns.named := by
  funext dir name
  rw [named, named, same]

/-- An entry has a name when it stands there with that name. -/
theorem mem_named : entry ∈ ns.named dir name ↔ entry ∈ ns.ents dir ∧ entry.name = name := by
  simp [named]

/-- The entry that is entered is one more with its name. -/
theorem named_insert (split : ns.ents dir = before ++ after) (entry : Dirent) :
    ((ns.setEnts dir (before ++ entry :: after)).named dir entry.name).Perm
      (entry :: ns.named dir entry.name) := by
  simp only [named, setEnts_ents, Function.update_self, split]
  rw [List.filter_append, List.filter_cons_of_pos (by simp), List.filter_append]
  exact List.perm_middle

/-- An entry of another name changes nothing about this one's. -/
theorem named_insert_of_ne (split : ns.ents dir = before ++ after)
    (different : (other, otherName) ≠ (dir, entry.name)) :
    (ns.setEnts dir (before ++ entry :: after)).named other otherName =
    ns.named other otherName := by
  by_cases same : other = dir
  · subst same
    have apart : otherName ≠ entry.name := by simpa using different
    have fails : (entry.name == otherName) = false := by simp [apart.symm]
    simp [named, split, fails]
  · simp [named, same]

/-- Removing a name's entry from the directory removes it from the name's. -/
theorem named_erase :
    (ns.setEnts dir ((ns.ents dir).eraseP (Dirent.matchesEntry name ino))).named dir name =
      (ns.named dir name).eraseP (Dirent.matchesEntry name ino) := by
  simp only [named, setEnts_ents, Function.update_self, List.eraseP_filter]
  congr 2
  funext entry
  simp only [Dirent.matchesEntry]
  cases entry.name == name <;> simp

/-- Removing another name's entry changes nothing about this one's. -/
theorem named_erase_of_ne (different : (other, otherName) ≠ (dir, name)) :
    (ns.setEnts dir ((ns.ents dir).eraseP (Dirent.matchesEntry name ino))).named other otherName =
      ns.named other otherName := by
  by_cases same : other = dir
  · subst same
    have apart : otherName ≠ name := by simpa using different
    by_cases found : ∃ entry ∈ ns.ents other, Dirent.matchesEntry name ino entry = true
    · obtain ⟨before, entry, after, matching, split, erased⟩ := split_of_match found
      have isName : entry.name = name := by
        simp only [Dirent.matchesEntry, Bool.and_eq_true, beq_iff_eq] at matching
        exact matching.1
      have fails : (entry.name == otherName) = false := by simp [isName, apart.symm]
      rw [erased, named, named, setEnts_ents, Function.update_self, split]
      simp [fails]
    · have none : ∀ entry ∈ ns.ents other, ¬ Dirent.matchesEntry name ino entry = true := by
        simpa using found
      rw [List.eraseP_of_forall_not none, setEnts_self]
  · simp [named, same]

/-- What a dropped name leaves in the directories. -/
theorem Dropped.ents (dropped : ns.Dropped dir name ino next) :
    next.ents = (ns.setEnts dir ((ns.ents dir).eraseP (Dirent.matchesEntry name ino))).ents := by
  obtain rfl | ⟨-, rfl⟩ := dropped <;> rfl

/-- What a dropped name leaves of the counts. -/
theorem Dropped.links (dropped : ns.Dropped dir name ino next) :
    next.links = Function.update ns.links ino (ns.links ino - 1) := by
  obtain rfl | ⟨-, rfl⟩ := dropped <;> rfl

/-- What a removed directory leaves in the directories. -/
theorem Removed.ents (removed : ns.Removed dir name ino next) :
    next.ents = (ns.setEnts dir ((ns.ents dir).eraseP (Dirent.matchesEntry name ino))).ents := by
  obtain ⟨-, rfl | rfl⟩ := removed <;> rfl

/-- What a removed directory leaves of the counts, its own aside. -/
theorem Removed.links (removed : ns.Removed dir name ino next) (other : Nat) (apart : other ≠ ino) :
    next.links other = if other = dir then ns.links dir - 1 else ns.links other := by
  obtain ⟨-, rfl | rfl⟩ := removed <;> simp [Function.update_apply, apart]

/-- The only entry with a name is the one that is found. -/
theorem named_of_find (few : (ns.named dir name).length ≤ 1)
    (found : (ns.ents dir).find? (fun entry => entry.name == name) = some entry) :
    ns.named dir name = [entry] := by
  obtain ⟨inEnts, isName⟩ := mem_of_find found
  have member : entry ∈ ns.named dir name := mem_named.mpr ⟨inEnts, isName⟩
  have one : (ns.named dir name).length = 1 := by
    have some := List.length_pos_of_mem member
    omega
  obtain ⟨only, isOnly⟩ := List.length_eq_one_iff.mp one
  rw [isOnly] at member ⊢
  rw [List.mem_singleton.mp member]

/-- A name that is not found has no entries. -/
theorem named_of_find_none
    (none : (ns.ents dir).find? (fun entry => entry.name == name) = none) :
    ns.named dir name = [] := by
  rw [named, List.filter_eq_nil_iff]
  exact List.find?_eq_none.mp none

end Named

/-- One name has been moved: the new one leads to what the old one led to, the old one is gone and
no other has changed, save `..` in a directory that was moved. A file replaces a file, which has a
link less, and a directory one that was empty, and the old and the new parent of a
directory have the links they lose and gain with it. -/
structure NameMoved (ns : Ns) (dir : Nat) (name : Name) (newDir : Nat) (newName : Name) (ino : Nat)
    (next : Ns) : Prop where
  entered : ∃ fileType, next.named newDir newName = [⟨newName, ino, fileType⟩]
  gone : next.named dir name = []
  others : ∀ other otherName, (other, otherName) ≠ (dir, name) →
    (other, otherName) ≠ (newDir, newName) →
    (ns.isDir ino = true → (other, otherName) ≠ (ino, dotDotName)) →
      next.named other otherName = ns.named other otherName
  kinds : ∀ target ∈ ns.ents newDir, target.name = newName → ns.isDir target.inode = ns.isDir ino
  fileLinks : ∀ target ∈ ns.ents newDir, target.name = newName → ns.isDir target.inode = false →
    next.links target.inode + 1 = ns.links target.inode
  empty : ∀ target ∈ ns.ents newDir, target.name = newName → ns.isDir target.inode = true →
    ∀ entry ∈ ns.ents target.inode, entry.proper = false
  dotDot : ns.isDir ino = true →
    ∃ fileType, next.named ino dotDotName = [⟨dotDotName, newDir, fileType⟩]
  counts : ns.isDir ino = true → ∀ parent, parent = dir ∨ parent = newDir →
    next.links parent + (if parent = dir then 1 else 0) +
        (if parent = newDir ∧ ns.lookup newDir newName ≠ 0 then 1 else 0) =
      ns.links parent + if parent = newDir then 1 else 0

/-- Of two entries, the one that passes the test goes. -/
theorem eraseP_pair {ents : List Dirent} {first second : Dirent} {test : Dirent → Bool}
    (perm : ents.Perm [first, second]) (fails : test first = false) (passes : test second = true) :
    ents.eraseP test = [first] := by
  have apart : [first, second].Pairwise fun one two => test one = true →
    test two = true → False := by
    simp [fails]
  have erased := List.Perm.eraseP test apart perm.symm
  rw [List.eraseP_cons_of_neg (by simp [fails]), List.eraseP_cons_of_pos passes] at erased
  exact List.singleton_perm.mp erased |>.symm

section Files

variable {ns next : Ns} {dir newDir : Nat} {name newName : Name} {old : Dirent}
  {before after : List Dirent} {fileType : Nat}
  (valid : ∀ entry ∈ ns.ents newDir, ns.valid entry.inode = true ∧ ns.links entry.inode ≠ 0)
  (found : (ns.ents dir).find? (fun entry => entry.name == name) = some old)
  (few : (ns.named dir name).length ≤ 1) (fewNew : (ns.named newDir newName).length ≤ 1)
  (apart : (newDir, newName) ≠ (dir, name))
  (different : ∀ target ∈ ns.ents newDir, target.name = newName → target.inode ≠ old.inode)
  (split : ns.ents newDir = before ++ after)

include valid fewNew in
/-- What has the new name is the target, if there is one. -/
theorem target_cases : (ns.lookup newDir newName = 0 ∧ ns.named newDir newName = []) ∨
    ∃ target ∈ ns.ents newDir, target.name = newName ∧ ns.lookup newDir newName = target.inode ∧
      ns.lookup newDir newName ≠ 0 ∧ ns.named newDir newName = [target] := by
  cases found : (ns.ents newDir).find? fun entry => entry.name == newName with
  | none =>
      left
      refine ⟨?_, named_of_find_none found⟩
      simp [Ns.lookup, found]
  | some target =>
      right
      obtain ⟨inEnts, isName⟩ := mem_of_find found
      have isTarget : ns.lookup newDir newName = target.inode := by simp [Ns.lookup, found]
      refine ⟨target, inEnts, isName, isTarget, ?_, named_of_find fewNew found⟩
      intro zero
      have positive := (valid target inEnts).1
      rw [← isTarget, zero] at positive
      simp [Ns.valid] at positive

include valid found few fewNew apart different split

/-- A file has been moved. -/
theorem FileLinked.moved (isFile : ns.isDir old.inode = false)
    (linked : ((ns.raised old.inode).setEnts newDir
      (before ++ ⟨newName, old.inode, fileType⟩ :: after)).FileLinked dir name newDir newName
        old.inode (ns.lookup newDir newName) 0 next) :
    ns.NameMoved dir name newDir newName old.inode next := by
  obtain ⟨isDirectory, -⟩ | ⟨-, mid, overwritten, dropped⟩ := linked
  · cases isDirectory
  have oldName := (mem_of_find found).2
  have raisedSplit : (ns.raised old.inode).ents newDir = before ++ after := split
  generalize linkedEq : (ns.raised old.inode).setEnts newDir
    (before ++ ⟨newName, old.inode, fileType⟩ :: after) = linked at *
  have inserted : (linked.named newDir newName).Perm
      (⟨newName, old.inode, fileType⟩ :: ns.named newDir newName) := by
    rw [← linkedEq]
    exact named_insert raisedSplit ⟨newName, old.inode, fileType⟩
  have untouched : ∀ other otherName, (other, otherName) ≠ (newDir, newName) →
      linked.named other otherName = ns.named other otherName := by
    intro other otherName elsewhere
    rw [← linkedEq]
    exact named_insert_of_ne raisedSplit elsewhere
  have linkedLinks : ∀ other, other ≠ old.inode → linked.links other = ns.links other := by
    intro other otherwise
    rw [← linkedEq]
    exact Function.update_of_ne otherwise _ _
  have linkedDir : linked.isDir = ns.isDir := by rw [← linkedEq, setEnts_isDir, raised_isDir]
  -- whether there was a target or not, only the new entry has the new name now
  obtain ⟨midNew, midOthers, midLinks⟩ : mid.named newDir newName =
    [⟨newName, old.inode, fileType⟩] ∧
      (∀ other otherName, (other, otherName) ≠ (newDir, newName) →
        mid.named other otherName = ns.named other otherName) ∧
      ∀ target ∈ ns.ents newDir, target.name = newName →
        ns.isDir target.inode = false ∧ mid.links target.inode + 1 = ns.links target.inode := by
    obtain ⟨noTarget, unnamed⟩ | ⟨target, inEnts, isName, isTarget, some, only⟩ :=
      target_cases valid fewNew
    · obtain ⟨-, rfl⟩ | ⟨some, -⟩ := overwritten
      · refine ⟨?_, untouched, fun target inEnts isName => ?_⟩
        · rw [unnamed] at inserted
          exact List.perm_singleton.mp inserted
        · have member := mem_named.mpr ⟨inEnts, isName⟩
          rw [unnamed] at member
          cases member
      · exact absurd noTarget some
    · obtain ⟨noTarget, -⟩ | ⟨-, isFileTarget, removed⟩ := overwritten
      · exact absurd noTarget some
      rw [isTarget] at removed isFileTarget
      have matching :=
        fun entry => @matchesEntry_iff ns newName target.inode (valid target inEnts).1 entry
      refine ⟨?_, ?_, ?_⟩
      · rw [only] at inserted
        rw [named_congr removed.ents, named_erase]
        refine eraseP_pair inserted ?_ ((matching target).mpr ⟨isName, rfl⟩)
        exact matchesEntry_of_ne newName (valid target inEnts).1
          (different target inEnts isName).symm
      · intro other otherName elsewhere
        rw [named_congr removed.ents, named_erase_of_ne elsewhere]
        exact untouched other otherName elsewhere
      · intro other inOther otherName
        have member := mem_named.mpr ⟨inOther, otherName⟩
        rw [only, List.mem_singleton] at member
        subst member
        have linksBefore := linkedLinks _ (different other inEnts isName)
        have positive := (valid other inEnts).2
        refine ⟨linkedDir ▸ isFileTarget, ?_⟩
        rw [removed.links, Function.update_self]
        omega
  have oldMatches : Dirent.matchesEntry name old.inode old = true := by
    simp [Dirent.matchesEntry, oldName]
  refine ⟨⟨fileType, ?_⟩, ?_, ?_, ?_, ?_, ?_, ?_, ?_⟩
  · rw [named_congr dropped.ents, named_erase_of_ne apart]
    exact midNew
  · rw [named_congr dropped.ents, named_erase, midOthers dir name apart.symm,
      named_of_find few found, List.eraseP_cons_of_pos oldMatches]
  · intro other otherName notOld notNew _
    rw [named_congr dropped.ents, named_erase_of_ne notOld]
    exact midOthers other otherName notNew
  · intro target inEnts isName
    rw [(midLinks target inEnts isName).1, isFile]
  · intro target inEnts isName _
    rw [dropped.links, Function.update_of_ne (different target inEnts isName)]
    exact (midLinks target inEnts isName).2
  · intro target inEnts isName isDirectory
    rw [(midLinks target inEnts isName).1] at isDirectory
    cases isDirectory
  · intro isDirectory
    rw [isFile] at isDirectory
    cases isDirectory
  · intro isDirectory
    rw [isFile] at isDirectory
    cases isDirectory

end Files

section Directories

variable {base : Ns} {dir newDir ino : Nat} {name : Name} {new : Dirent}
    {front back dots dots' : List Dirent}
  {fileType : Nat}

/-- The entries after the move, call by call. -/
theorem moved_ents {dots : List Dirent} :
    (base.moved dir name ino newDir (front ++ new :: back) dots).ents =
      (((base.setEnts newDir (front ++ new :: back)).setEnts ino dots).setEnts dir
        ((((base.setEnts newDir (front ++ new :: back)).setEnts ino dots).ents dir).eraseP
          (Dirent.matchesEntry name 0))).ents := rfl

/-- The exchange of `..` is entering one and removing one. -/
theorem setEnts_exchange (ns : Ns) (dots : List Dirent) (test : Dirent → Bool) :
    ns.setEnts ino (dots.eraseP test) =
      (ns.setEnts ino dots).setEnts ino (((ns.setEnts ino dots).ents ino).eraseP test) := by
  simp [setEnts]

/-- Names other than `..` of the directory, while `..` is exchanged. -/
theorem named_turned {other : Nat} {otherName : Name} (newApart : newDir ≠ ino)
    (dotsSplit : base.ents ino = dots ++ dots') (notDots : (other, otherName) ≠ (ino, dotDotName)) :
    ((base.setEnts newDir (front ++ new :: back)).setEnts ino
      ((dots ++ ⟨dotDotName, newDir, fileType⟩ :: dots').eraseP
        (Dirent.matchesEntry dotDotName dir))).named other otherName =
      (base.setEnts newDir (front ++ new :: back)).named other otherName := by
  have ownDots : (base.setEnts newDir (front ++ new :: back)).ents ino = dots ++ dots' := by
    rw [setEnts_ents, Function.update_of_ne newApart.symm]
    exact dotsSplit
  rw [setEnts_exchange, named_erase_of_ne notDots, named_insert_of_ne ownDots notDots]

/-- A directory has been moved, from a name space in which nothing has the new name. -/
theorem DirTurned.moved {live : Finset Nat} {parent : Nat → Nat} {next : Ns} {old : Dirent}
    (tree : base.Tree live parent) (isLive : new.inode ∈ live) (isParent : parent new.inode = dir)
    (newApart : newDir ≠ new.inode) (dirApart : dir ≠ new.inode)
    (apart : (newDir, new.name) ≠ (dir, name)) (only : base.named dir name = [old])
    (unnamed : base.named newDir new.name = []) (split : base.ents newDir = front ++ back)
    (linked : 0 < base.links dir)
    (turned : base.DirTurned dir name newDir new front back 0 next) :
    next.named newDir new.name = [new] ∧ next.named dir name = [] ∧
      (∀ other otherName, (other, otherName) ≠ (dir, name) →
        (other, otherName) ≠ (newDir, new.name) → (other, otherName) ≠ (new.inode, dotDotName) →
          next.named other otherName = base.named other otherName) ∧
      (∃ fileType, next.named new.inode dotDotName = [⟨dotDotName, newDir, fileType⟩]) ∧
      ∀ other, other = dir ∨ other = newDir →
        next.links other + (if other = dir then 1 else 0) =
          base.links other + if other = newDir then 1 else 0 := by
  obtain ⟨failed, -⟩ | ⟨-, dots, dots', fileType, dotsSplit, rfl⟩ := turned
  · exact absurd rfl failed
  have inserted := named_insert split new
  refine ⟨?_, ?_, ?_, ?_, ?_⟩
  · rw [named_congr moved_ents, named_erase_of_ne apart,
      named_turned newApart dotsSplit (by simp [newApart])]
    rw [unnamed] at inserted
    exact List.perm_singleton.mp inserted
  · rw [named_congr moved_ents, named_erase, named_turned newApart dotsSplit (by simp [dirApart]),
      named_insert_of_ne split apart.symm, only]
    have oldName : old.name = name := by
      have member : old ∈ base.named dir name := by simp [only]
      exact (mem_named.mp member).2
    rw [List.eraseP_cons_of_pos (by simp [Dirent.matchesEntry, oldName])]
  · intro other otherName notOld notNew notDots
    rw [named_congr moved_ents, named_erase_of_ne notOld, named_turned newApart dotsSplit notDots,
      named_insert_of_ne split notNew]
  · have exchanged := @reparented base live parent new.inode dots dots' tree isLive dotsSplit newDir
      fileType
    rw [isParent] at exchanged
    generalize (dots ++ ⟨dotDotName, newDir, fileType⟩ :: dots').eraseP
      (Dirent.matchesEntry dotDotName dir) = ents at exchanged
    have ownEnts : (base.moved dir name new.inode newDir
      (front ++ new :: back) ents).ents new.inode =
        ents := by
      rw [moved_ents, setEnts_ents, Function.update_of_ne dirApart.symm, setEnts_ents,
        Function.update_self]
    have one := exchanged.one
    rw [List.countP_eq_length_filter] at one
    obtain ⟨entry, isOnly⟩ := List.length_eq_one_iff.mp one
    have member : entry ∈ ents.filter fun entry => entry.name == dotDotName := by simp [isOnly]
    obtain ⟨inEnts, isDotDot⟩ := List.mem_filter.mp member
    rw [beq_iff_eq] at isDotDot
    refine ⟨entry.fileType, ?_⟩
    rw [named, ownEnts, isOnly, ← exchanged.names entry inEnts isDotDot, ← isDotDot]
  · intro other parents
    have links : ∀ dots, (base.moved dir name new.inode newDir (front ++ new :: back) dots).links =
        Function.update (Function.update base.links newDir (base.links newDir + 1)) dir
          (Function.update base.links newDir (base.links newDir + 1) dir - 1) := fun _ => rfl
    rw [links]
    by_cases same : dir = newDir
    · subst same
      obtain rfl | rfl := parents <;> simp
    · obtain rfl | rfl := parents
      · simp only [Function.update_self, Function.update_of_ne same, if_true, if_neg same]
        omega
      · simp [Ne.symm same]

/-- A directory has been moved, over an empty one if there was one with the new name. -/
theorem DirLinked.moved {ns next : Ns} {live : Finset Nat} {parent : Nat → Nat} {exact : Bool}
    {dir newDir : Nat} {name newName : Name} {old : Dirent} {before after : List Dirent}
    {fileType : Nat}
    (narrow : ns.Narrow) (tree : ns.Tree live parent) (counted : ns.Counted exact none live)
    (member : dir ∈ live) (newMember : newDir ∈ live)
    (found : (ns.ents dir).find? (fun entry => entry.name == name) = some old)
    (few : (ns.named dir name).length ≤ 1) (fewNew : (ns.named newDir newName).length ≤ 1)
    (renamable : Renamable ns parent dir newDir name newName) (isDir : ns.isDir old.inode = true)
    (split : ns.ents newDir = before ++ after)
    (linked : ns.DirLinked dir name newDir ⟨newName, old.inode, fileType⟩ (ns.lookup newDir newName)
      before after 0 next) :
    ns.NameMoved dir name newDir newName old.inode next := by
  obtain ⟨inEnts, oldName⟩ := mem_of_find found
  have proper : old.proper = true := by simp [Dirent.proper, oldName, renamable.properName]
  obtain ⟨isLive, notRoot, isParent⟩ := tree.child dir member old inEnts proper isDir
  have dirApart : dir ≠ old.inode := isParent ▸ tree.parent_ne isLive notRoot
  have newApart : newDir ≠ old.inode := by
    rintro rfl
    exact renamable.outside old inEnts oldName isDir (Under.refl _ _)
  have different := renamable.different old inEnts oldName
  have apart : (newDir, newName) ≠ (dir, name) := by
    intro same
    obtain ⟨rfl, rfl⟩ := Prod.mk.inj same
    exact different old inEnts oldName rfl
  have alive : ∀ entry ∈ ns.ents newDir, ns.valid entry.inode = true ∧ ns.links entry.inode ≠ 0 :=
    fun entry inNew => ⟨(tree.alive newDir newMember entry inNew).1,
      ((tree.safe counted).alive newDir newMember entry inNew).2⟩
  have only := named_of_find few found
  have newLive : (⟨newName, old.inode, fileType⟩ : Dirent).inode ∈ live := isLive
  obtain ⟨noTarget, turned⟩ | ⟨-, failed, -⟩ |
    ⟨some, targetDir, base, front, back, removed, baseSplit, turned⟩ := linked
  · obtain ⟨-, unnamed⟩ | ⟨-, -, -, -, some, -⟩ := target_cases alive fewNew
    · have linked := (counted.dir dir member).1
      obtain ⟨entered, gone, others, dotDot, counts⟩ := turned.moved tree newLive isParent newApart
        dirApart apart only unnamed split (by omega)
      have absent : ∀ target ∈ ns.ents newDir, target.name ≠ newName := by
        intro target inNew isName
        have named := mem_named.mpr ⟨inNew, isName⟩
        rw [unnamed] at named
        cases named
      refine ⟨⟨fileType, entered⟩, gone, ?_, ?_, ?_, ?_, fun _ => dotDot, ?_⟩
      · exact fun other otherName notOld notNew notDots =>
          others other otherName notOld notNew (notDots isDir)
      · exact fun target inNew isName => absurd isName (absent target inNew)
      · exact fun target inNew isName => absurd isName (absent target inNew)
      · exact fun target inNew isName => absurd isName (absent target inNew)
      · intro _ other parents
        simpa [noTarget] using counts other parents
    · exact absurd noTarget some
  · exact absurd rfl failed
  · obtain ⟨noTarget, -⟩ | ⟨target, inNew, isName, isTarget, -, onlyTarget⟩ :=
      target_cases alive fewNew
    · exact absurd noTarget some
    rw [isTarget] at removed targetDir
    have targetProper : target.proper = true := by simp [Dirent.proper, isName, renamable.properNew]
    obtain ⟨targetLive, targetNotRoot, targetParent⟩ :=
      tree.child newDir newMember target inNew targetProper targetDir
    have newNotTarget : newDir ≠ target.inode :=
      targetParent ▸ tree.parent_ne targetLive targetNotRoot
    -- the old parent is not empty
    have dirNotTarget : dir ≠ target.inode := by
      rintro rfl
      have improper := removed.1 old inEnts
      rw [proper] at improper
      cases improper
    have matching : ∃ other ∈ ns.ents newDir,
      Dirent.matchesEntry newName target.inode other = true :=
      ⟨target, inNew, (matchesEntry_iff (alive target inNew).1 target).mpr ⟨isName, rfl⟩⟩
    obtain ⟨-, baseTree, baseCounted⟩ := removed.sound narrow tree counted newMember
      (alive target inNew).1 matching targetDir renamable.properNew
    have baseOthers : ∀ other otherName, (other, otherName) ≠ (newDir, newName) →
        base.named other otherName = ns.named other otherName := by
      intro other otherName elsewhere
      rw [named_congr removed.ents, named_erase_of_ne elsewhere]
    have unnamed : base.named newDir newName = [] := by
      rw [named_congr removed.ents, named_erase, onlyTarget, List.eraseP_cons_of_pos]
      simp [Dirent.matchesEntry, isName]
    have linked := (baseCounted.dir dir (Finset.mem_erase.mpr ⟨dirNotTarget, member⟩)).1
    have baseLive : (⟨newName, old.inode, fileType⟩ : Dirent).inode ∈ live.erase target.inode :=
      Finset.mem_erase.mpr ⟨(different target inNew isName).symm, newLive⟩
    obtain ⟨entered, gone, others, dotDot, counts⟩ :=
      turned.moved baseTree baseLive isParent newApart
      dirApart apart ((baseOthers dir name apart.symm).trans only) unnamed baseSplit (by omega)
    have isOnly : ∀ other ∈ ns.ents newDir, other.name = newName → other = target := by
      intro other inOther otherName
      have named := mem_named.mpr ⟨inOther, otherName⟩
      rwa [onlyTarget, List.mem_singleton] at named
    refine ⟨⟨fileType, entered⟩, gone, ?_, ?_, ?_, ?_, fun _ => dotDot, ?_⟩
    · intro other otherName notOld notNew notDots
      rw [others other otherName notOld notNew (notDots isDir)]
      exact baseOthers other otherName notNew
    · intro other inOther otherName
      rw [isOnly other inOther otherName, targetDir, isDir]
    · intro other inOther otherName isFile
      rw [isOnly other inOther otherName, targetDir] at isFile
      cases isFile
    · intro other inOther otherName _
      rw [isOnly other inOther otherName]
      exact removed.1
    · intro _ other parents
      have otherApart : other ≠ target.inode := by
        obtain rfl | rfl := parents
        · exact dirNotTarget
        · exact newNotTarget
      have before := counts other parents
      have positive := (counted.dir newDir newMember).1
      rw [removed.links other otherApart] at before
      simp only [some, ne_eq, not_false_eq_true, and_true]
      by_cases atNew : other = newDir
      · subst atNew
        simp only [if_true] at before ⊢
        omega
      · simp only [atNew, if_false] at before ⊢
        omega

end Directories

end Ns

section Release

variable {δ : Type} {env : Env δ} {fs fs' : Fs δ} {target ino dir : Nat}
    {blocks : Bool} {name : Name}

/-- The bit of a file is clear exactly if its count is 0 and its block pointers are block numbers,
which they are as long as the file has links. -/
structure ReleaseKnown (target : Nat) (blocks : Bool) (fs : Fs δ) : Prop where
  valid : fs.validIno target = true
  narrow : (fs.inodeTab target).iLinksCount < 2 ^ 16
  unused : fs.inodeMap target = false ↔ blocks = true ∧ (fs.inodeTab target).iLinksCount = 0
  kind : blocks = false ∨ (fs.inodeTab target).iLinksCount ≠ 0 →
    ext2fsInodeHasValidBlocks (fs.inodeTab target) = blocks

/-- It is known from the target's inode and bit alone. -/
theorem ReleaseKnown.frame (known : ReleaseKnown target blocks fs) (super : fs'.super = fs.super)
    (inode : fs'.inodeTab target = fs.inodeTab target)
    (bit : fs'.inodeMap target = fs.inodeMap target) : ReleaseKnown target blocks fs' where
  valid := by rw [validIno_congr super]; exact known.valid
  narrow := by rw [inode]; exact known.narrow
  unused := by rw [inode, bit]; exact known.unused
  kind := by rw [inode]; exact known.kind

/-- Releasing an inode clears its bit and no other. -/
theorem releasedIno_inodeMap (valid : fs.validIno ino = true) (isdir : Bool) :
    (fs.releasedIno ino isdir).inodeMap = Function.update fs.inodeMap ino false := by
  have later : (fs.ext2fsInodeAllocStats2 ino false isdir).validIno ino = true := valid
  rw [releasedIno, ext2fsUnmarkInodeBitmap]
  dsimp only
  rw [if_pos later, ext2fsInodeAllocStats2]
  dsimp only
  rw [if_pos valid, Function.update_idem]

/-- `kill_file_by_inode` of another inode. -/
theorem ReleaseKnown.kill_other (known : ReleaseKnown target blocks fs)
    (valid : fs.validIno ino = true) (apart : target ≠ ino) (inode : Inode) :
    ReleaseKnown target blocks ((killFileByInode ino inode).run (lib env) fs).2 := by
  obtain ⟨vol, now, super, killed⟩ := @run_killFileByInode δ env fs ino valid inode
  rw [killed]
  split
  · refine known.frame super (Function.update_of_ne apart _ _) ?_
    rw [releasedIno_inodeMap ((validIno_congr (by exact super) ino).trans valid),
      Function.update_of_ne apart]
  · exact known.frame super (Function.update_of_ne apart _ _) rfl

/-- `kill_file_by_inode` of the file itself. -/
theorem ReleaseKnown.kill (known : ReleaseKnown target blocks fs) {inode : Inode}
    (same : ext2fsInodeHasValidBlocks inode = ext2fsInodeHasValidBlocks (fs.inodeTab target)) :
    ReleaseKnown target blocks ((killFileByInode target inode).run (lib env) fs).2 := by
  obtain ⟨vol, now, super, killed⟩ := @run_killFileByInode δ env fs target known.valid inode
  have noLinks : ext2fsInodeHasValidBlocks { inode with iLinksCount := 0, iDtime := now } =
      ext2fsInodeHasValidBlocks inode := rfl
  generalize deadEq : ({ inode with iLinksCount := 0, iDtime := now } : Inode) =
    dead at killed noLinks
  have deadLinks : dead.iLinksCount = 0 := by rw [← deadEq]
  rw [killed, same]
  generalize writtenEq : ({ fs with
    vol := vol
    inodeTab := Function.update fs.inodeTab target dead } : Fs δ) = written
  have inode : written.inodeTab target = dead := by rw [← writtenEq]; exact Function.update_self ..
  have valid : written.validIno target = true := by
    rw [← writtenEq]
    exact (validIno_congr (by exact super) target).trans known.valid
  have bit : written.inodeMap = fs.inodeMap := by rw [← writtenEq]
  by_cases released : ext2fsInodeHasValidBlocks (fs.inodeTab target) = true
  · have isTrue : blocks = true := by
      cases blocks with
      | true => rfl
      | false =>
          have kind := known.kind (.inl rfl)
          rw [released] at kind
          cases kind
    have still : ∀ isdir, (written.releasedIno target isdir).inodeTab target =
      dead := fun _ => inode
    rw [if_pos released]
    refine ⟨valid, ?_, ?_, ?_⟩
    · rw [still, deadLinks]
      exact Nat.two_pow_pos 16
    · rw [still, deadLinks, releasedIno_inodeMap valid, Function.update_self]
      simp [isTrue]
    · rw [still, deadLinks, isTrue]
      simp
  · rw [if_neg released]
    refine ⟨valid, ?_, ?_, ?_⟩
    · rw [inode, deadLinks]
      exact Nat.two_pow_pos 16
    · rw [inode, deadLinks, bit, known.unused]
      refine and_congr_right fun isTrue => ⟨fun _ => rfl, fun _ => ?_⟩
      by_contra some
      exact released ((known.kind (.inr some)).trans isTrue)
    · rw [inode, deadLinks, noLinks, same]
      rintro (isFalse | some)
      · exact known.kind (.inl isFalse)
      · exact absurd rfl some

/-- The file is written with links left. -/
theorem ReleaseKnown.write (known : ReleaseKnown target blocks fs) {inode : Inode}
    (linked : (fs.inodeTab target).iLinksCount ≠ 0) (left : inode.iLinksCount ≠ 0)
    (bound : inode.iLinksCount < 2 ^ 16)
    (same : ext2fsInodeHasValidBlocks inode = ext2fsInodeHasValidBlocks (fs.inodeTab target)) :
    ReleaseKnown target blocks
      { fs with inodeTab := Function.update fs.inodeTab target inode } where
  valid := known.valid
  narrow := by
    dsimp only
    rw [Function.update_self]
    exact bound
  unused := by
    have unused := known.unused
    simp only [linked, and_false] at unused
    simp [left, unused]
  kind _ := by
    dsimp only
    rw [Function.update_self, same]
    exact known.kind (.inr linked)

/-- `do_unlink_on_ino`, of the file or of another one. -/
theorem ReleaseKnown.doUnlinkOnIno (known : ReleaseKnown target blocks fs) :
    ReleaseKnown target blocks ((doUnlinkOnIno dir name ino (-1)).run (lib env) fs).2 := by
  change Leads (lib env) (Ext2Fuse.doUnlinkOnIno dir name ino (-1))
    (fun _ => ReleaseKnown target blocks) fs
  rw [Ext2Fuse.doUnlinkOnIno, leads_bind]
  refine leads_readInode known fun valid => ?_
  dsimp only
  split
  · exact known
  rw [leads_bind, leads_lift]
  have unlinked : ((lib env).exec (.unlink dir name ino) fs).2 = { fs with
      dirs := (fs.ext2fsUnlink env dir name ino).2.dirs } := by
    change (fs.ext2fsUnlink env dir name ino).2 = _
    rw [ext2fsUnlink]
    split <;> rfl
  rw [unlinked]
  generalize (fs.ext2fsUnlink env dir name ino).2.dirs = dirs
  have still : ReleaseKnown target blocks { fs with dirs := dirs } := known.frame rfl rfl rfl
  have stillValid : ({ fs with dirs := dirs } : Fs δ).validIno ino = true := valid
  generalize copyEq : (if (fs.inodeTab ino).iLinksCount > 0 then _ else _ : Inode) = copy
  have copyKind : ext2fsInodeHasValidBlocks copy = ext2fsInodeHasValidBlocks (fs.inodeTab ino) := by
    rw [← copyEq]
    split <;> rfl
  by_cases own : target = ino
  · subst own
    split
    · rw [leads_bind]
      exact still.kill copyKind
    · rename_i left
      -- a link is left, so that there was more than one before
      have linked : (fs.inodeTab target).iLinksCount ≠ 0 := by
        intro zero
        rw [if_neg (by omega)] at copyEq
        rw [← copyEq] at left
        omega
      have bound : copy.iLinksCount < 2 ^ 16 := by
        have narrow := known.narrow
        rw [← copyEq]
        split
        · change (_ % 2 ^ 16 : Int).toNat < 2 ^ 16
          omega
        · exact narrow
      rw [leads_bind, Leads, run_writeInode stillValid]
      exact still.write linked (by omega) bound copyKind
  · split
    · rw [leads_bind]
      exact still.kill_other stillValid own _
    · rw [leads_bind, Leads, run_writeInode stillValid]
      exact still.frame rfl (Function.update_of_ne own _ _) rfl

/-- Entering a name leaves the inode bitmap. -/
theorem ext2fsLink_inodeMap (fs : Fs δ) (flags : Nat) :
    (fs.ext2fsLink env dir name ino flags).2.inodeMap = fs.inodeMap := by
  simp only [ext2fsLink, ext2fsWriteInode]
  generalize (if fs.super.filetype then flags % 8 else 0) = fileType
  split
  · split
    · rfl
    · split
      · split <;> rfl
      · rfl
  · rfl

/-- So does do_link. -/
theorem doLink_inodeMap (lawful : env.dir.Lawful) (fs : Fs δ) (filetype : Nat) :
    ((doLink dir name ino filetype).run (lib env) fs).2.inodeMap = fs.inodeMap := by
  have linked : ∀ fs : Fs δ,
      ((lib env).exec (.link dir name ino filetype) fs).2.inodeMap = fs.inodeMap :=
    fun fs => ext2fsLink_inodeMap fs filetype
  have expanded : ∀ fs : Fs δ, ((lib env).exec (.expandDir dir) fs).2.inodeMap = fs.inodeMap :=
    fun fs => congrArg Ns.used (@ns_expandDir δ env fs dir lawful)
  rw [doLink, run_bind, run_lift, run_ite]
  split
  · rw [run_bind, run_lift, run_ite]
    split
    · exact (expanded _).trans (linked fs)
    · exact ((linked _).trans (expanded _)).trans (linked fs)
  · exact linked fs

/-- Removing a name says nothing new about the target. -/
theorem ReleaseKnown.unlink (known : ReleaseKnown target blocks fs) (dir : Nat) (name : Name)
    (ino : Nat) : ReleaseKnown target blocks ((lib env).exec (.unlink dir name ino) fs).2 := by
  change ReleaseKnown target blocks (fs.ext2fsUnlink env dir name ino).2
  rw [ext2fsUnlink]
  split
  · exact known.frame rfl rfl rfl
  · exact known

section Rename

variable {newDir : Nat} {newName : Name} {inode : Inode} {perms : Perms}
  (known : ReleaseKnown target blocks fs) (apart : target ≠ ino)

include known apart

/-- Writing another inode than the target's leaves the release known, failing or not. -/
theorem ReleaseKnown.writeInode {post : Errcode → Fs δ → Prop}
    (next : ∀ rc fs', ReleaseKnown target blocks fs' → post rc fs') :
    Leads (lib env) (writeInode ino inode) post fs :=
  leads_writeInode (next _ _ known)
    fun _ => next _ _ (known.frame rfl (Function.update_of_ne apart _ _) rfl)

variable (isFile : LINUX_S_ISDIR inode.iMode = false)

include isFile

/-- The cleanup of a rename leaves the release known. -/
theorem ReleaseKnown.renameCleanup (ret : Errcode) :
    Leads (lib env) (renameCleanup newDir newName ino inode ret)
      (fun _ => ReleaseKnown target blocks) fs := by
  rw [Ext2Fuse.renameCleanup, leads_bind, leads_lift]
  have unlinked : ReleaseKnown target blocks ((lib env).exec (.unlink newDir newName ino) fs).2 :=
    known.unlink newDir newName ino
  split
  · exact unlinked
  · rw [isFile, if_pos (by simp), leads_bind]
    exact unlinked.writeInode apart fun _ _ written => written

/-- So does the rest of a file's rename. -/
theorem ReleaseKnown.renameFileOld :
    Leads (lib env) (renameFileOld dir name newDir newName ino inode)
      (fun _ => ReleaseKnown target blocks) fs := by
  rw [Ext2Fuse.renameFileOld, leads_bind]
  have unlinked : Leads (lib env) (doUnlink dir name (-1))
    (fun _ => ReleaseKnown target blocks) fs := by
    rw [doUnlink, leads_bind, leads_lift]
    split
    · exact known
    · exact known.doUnlinkOnIno
  refine unlinked.mono fun rc next still => ?_
  split
  · exact still.renameCleanup apart isFile rc
  · exact still

/-- `do_rename` of a file from the new link on. -/
theorem ReleaseKnown.renameLinked (toRemove : Nat) :
    Leads (lib env) (renameLinked perms dir name newDir newName ino toRemove inode)
      (fun _ => ReleaseKnown target blocks) fs := by
  rw [Ext2Fuse.renameLinked]
  split
  · rw [leads_bind]
    refine leads_readInode (known.renameCleanup apart isFile _) fun _ => ?_
    dsimp only
    rw [isFile, if_neg (by simp)]
    split
    · exact known
    · rw [leads_bind]
      refine Leads.mono (show Leads (lib env) _ (fun _ => ReleaseKnown target blocks) fs from
        known.doUnlinkOnIno) fun rc next still => ?_
      split
      · exact still.renameCleanup apart isFile rc
      · exact still.renameFileOld apart isFile
  · rw [isFile, if_neg (by simp)]
    exact known.renameFileOld apart isFile

end Rename

/-- `do_rename` of a file: whether another one is released follows from its count. -/
theorem ReleaseKnown.doRename (lawful : env.dir.Lawful) (known : ReleaseKnown target blocks fs)
    {newDir : Nat} {newName : Name} {perms : Perms}
    (resolves : fs.ext2fsLookup env dir name = .ok ino)
    (apart : target ≠ ino) (newApart : target ≠ newDir)
    (isFile : LINUX_S_ISDIR (fs.inodeTab ino).iMode = false) :
    Leads (lib env) (doRename perms dir name newDir newName)
      (fun _ => ReleaseKnown target blocks) fs := by
  have raisedFile : LINUX_S_ISDIR (fs.inodeTab ino).raiseLinks.iMode = false := by
    rw [raiseLinks_mode]
    exact isFile
  have found : (lib env).exec (.namei dir name) fs = (.ok ino, fs) := by
    change (fs.ext2fsLookup env dir name, fs) = _
    rw [resolves]
  have newLookup : (lib env).exec (.namei newDir newName) fs =
      (fs.ext2fsLookup env newDir newName, fs) := rfl
  rw [Ext2Fuse.doRename, leads_bind, getInoByName, leads_lift, found]
  dsimp only
  rw [leads_bind, getInoByName, leads_lift, newLookup, leads_bind]
  refine leads_readInode known fun _ => ?_
  dsimp only
  rw [renameRaise, isFile, if_pos (by simp), leads_bind, leads_bind]
  refine known.writeInode apart fun rc raised still => ?_
  rw [leads_pure]
  by_cases failed : rc ≠ 0
  · rw [if_pos failed]
    exact still
  · rw [if_neg failed]
    refine leads_bind_of fun rc next outcome => ?_
    have entered := doLink_enters env raised newDir newName ino
      (ext2FileType (fs.inodeTab ino).raiseLinks.iMode) target
    have bits := @doLink_inodeMap δ env ino newDir newName lawful raised
      (ext2FileType (fs.inodeTab ino).raiseLinks.iMode)
    rw [outcome] at entered bits
    have linked := still.frame entered.resizes.super (entered.apart newApart) (congrFun bits target)
    split
    · exact linked.renameCleanup apart raisedFile rc
    · exact linked.renameLinked apart raisedFile _

end Release

section Results

variable {δ : Type} {env : Env δ} {fs fs' : Fs δ} {parent newparent ino : Nat} {name newname : Name}
  {perms : Perms}

/-- One name has been moved, and a file that was in the way is released if and only if that was
its last link. -/
structure RenameMoved (env : Env δ) (fs : Fs δ) (dir : Nat) (name : Name) (newDir : Nat)
    (newName : Name) (ino : Nat) (fs' : Fs δ) : Prop where
  names : (fs.ns env).NameMoved dir name newDir newName ino (fs'.ns env)
  released : ∀ target ∈ (fs.ns env).ents newDir, target.name = newName →
    (fs.ns env).isDir target.inode = false →
      (fs'.inodeMap target.inode = false ↔ (fs'.inodeTab target.inode).iLinksCount = 0)

section

variable (lawful : env.dir.Lawful) (consistent : (fs.ns env).Consistent)
  (admissible : (NameOp.rename parent name newparent newname).Admissible (fs.ns env))
  (below : (NameOp.rename parent name newparent newname).Below 65535 (fs.ns env))
  (resolves : fs.ext2fsLookup env (EXT2FS_INO parent) name = .ok ino)
  (outcome : (doRename perms (EXT2FS_INO parent) name (EXT2FS_INO newparent) newname).run
    (lib env) fs = (0, fs'))

include lawful consistent admissible below resolves outcome

/-- A rename that succeeds has moved one name. -/
theorem nameMoved_of_success (distinct : (fs.ns env).Distinct) :
    (fs.ns env).NameMoved (EXT2FS_INO parent) name (EXT2FS_INO newparent) newname ino
      (fs'.ns env) := by
  obtain ⟨narrow, live, above, tree, counted⟩ := consistent.sound
  have renamable := NameOp.renamable tree admissible below
  obtain ⟨reachable, newReachable, -⟩ := id admissible
  have member := tree.reachable_iff.mp reachable
  have newMember := tree.reachable_iff.mp newReachable
  have notOne : EXT2FS_INO (EXT2FS_INO newparent) = EXT2FS_INO newparent := by
    simp only [EXT2FS_INO]
    grind
  have held := @holds_doRename δ env true _ live above _ _ name newname perms lawful narrow tree
    counted member newMember renamable notOne
  have ends := (held ⟨narrow, live, tree.safe counted⟩ fs rfl).run
  rw [outcome] at ends
  obtain ⟨entry, foundEntry, rfl⟩ := find_of_lookup lawful (tree.alive_dir member).1
    (tree.isDir _ member) resolves
  have few := distinct.few reachable name
  have fewNew := distinct.few newReachable newname
  have alive : ∀ other ∈ (fs.ns env).ents (EXT2FS_INO newparent),
      (fs.ns env).valid other.inode = true ∧ (fs.ns env).links other.inode ≠ 0 :=
    fun other inNew => ⟨(tree.alive _ newMember other inNew).1,
      ((tree.safe counted).alive _ newMember other inNew).2⟩
  have ended : (fs.ns env).RenameEnds (EXT2FS_INO parent) name (EXT2FS_INO newparent) newname 0
    (fs'.ns env) := ends.2
  generalize fs'.ns env = next at ended ⊢
  generalize rcEq : (0 : Errcode) = rc at ended
  cases ended with
  | absent none =>
      rw [foundEntry] at none
      cases none
  | full old found => cases rcEq
  | file old found isFile before after fileType split linked =>
      subst rcEq
      obtain rfl : entry = old := Option.some.inj (foundEntry.symm.trans found)
      obtain ⟨inEnts, isName⟩ := mem_of_find found
      have different := renamable.different entry inEnts isName
      have apart : (EXT2FS_INO newparent, newname) ≠ (EXT2FS_INO parent, name) := by
        intro same
        obtain ⟨sameDir, sameName⟩ := Prod.mk.inj same
        exact different entry (sameDir ▸ inEnts) (isName.trans sameName.symm) rfl
      exact linked.moved alive found few fewNew apart different split isFile
  | directory old found isDir before after fileType split linked =>
      subst rcEq
      obtain rfl : entry = old := Option.some.inj (foundEntry.symm.trans found)
      exact linked.moved narrow tree counted member newMember found few fewNew renamable isDir split

end

/-- A rename that succeeds has moved exactly one name, if and only if a file that it takes the last
link from is one whose block pointers are block numbers. -/
theorem rename_moves_iff (lawful : env.dir.Lawful) (consistent : (fs.ns env).Consistent)
    (distinct : (fs.ns env).Distinct)
    (admissible : (NameOp.rename parent name newparent newname).Admissible (fs.ns env))
    (below : (NameOp.rename parent name newparent newname).Below 65535 (fs.ns env))
    (resolves : fs.ext2fsLookup env (EXT2FS_INO parent) name = .ok ino)
    (outcome : (doRename perms (EXT2FS_INO parent) name (EXT2FS_INO newparent) newname).run
      (lib env) fs = (0, fs')) :
    RenameMoved env fs (EXT2FS_INO parent) name (EXT2FS_INO newparent) newname ino fs' ↔
      ∀ target ∈ (fs.ns env).ents (EXT2FS_INO newparent), target.name = newname →
        (fs.ns env).isDir target.inode = false → (fs.inodeTab target.inode).iLinksCount = 1 →
          ext2fsInodeHasValidBlocks (fs.inodeTab target.inode) = true := by
  have names := nameMoved_of_success lawful consistent admissible below resolves outcome distinct
  obtain ⟨reachable, newReachable, -, -, sources⟩ := id admissible
  obtain ⟨narrow, live, above, tree, counted⟩ := consistent.sound
  have member := tree.reachable_iff.mp reachable
  have newMember := tree.reachable_iff.mp newReachable
  obtain ⟨entry, found, rfl⟩ :=
    find_of_lookup lawful (tree.alive_dir member).1 (tree.isDir _ member)
    resolves
  obtain ⟨inEnts, isName⟩ := mem_of_find found
  -- for each file in the way, its bit is known from its count
  have known : ∀ target ∈ (fs.ns env).ents (EXT2FS_INO newparent), target.name = newname →
      (fs.ns env).isDir target.inode = false →
        ReleaseKnown target.inode (ext2fsInodeHasValidBlocks (fs.inodeTab target.inode)) fs' := by
    intro target inNew targetName isFile
    have alive := tree.alive _ newMember target inNew
    have linked := ((tree.safe counted).alive _ newMember target inNew).2
    have used : fs.inodeMap target.inode = true := alive.2.1
    have start : ReleaseKnown target.inode
      (ext2fsInodeHasValidBlocks (fs.inodeTab target.inode)) fs := by
      refine ⟨alive.1, narrow target.inode, ?_, fun _ => rfl⟩
      rw [used]
      exact iff_of_false (by simp) fun zero => linked zero.2
    have newApart : target.inode ≠ EXT2FS_INO newparent := by
      intro same
      rw [same, tree.isDir _ newMember] at isFile
      cases isFile
    have kind := names.kinds target inNew targetName
    have moves : Leads (lib env)
      (doRename perms (EXT2FS_INO parent) name (EXT2FS_INO newparent) newname)
        (fun _ => ReleaseKnown target.inode
          (ext2fsInodeHasValidBlocks (fs.inodeTab target.inode))) fs :=
      start.doRename lawful resolves
        ((sources entry inEnts isName).1 target inNew targetName) newApart
        (kind.symm.trans isFile)
    exact moves.outcome outcome
  constructor
  · intro moved target inNew targetName isFile last
    have fewer : (fs'.inodeTab target.inode).iLinksCount + 1 =
      (fs.inodeTab target.inode).iLinksCount :=
      names.fileLinks target inNew targetName isFile
    have released := (moved.released target inNew targetName isFile).mpr (by omega)
    exact ((known target inNew targetName isFile).unused.mp released).1
  · intro blocks
    refine ⟨names, fun target inNew targetName isFile => ?_⟩
    have fewer : (fs'.inodeTab target.inode).iLinksCount + 1 =
      (fs.inodeTab target.inode).iLinksCount :=
      names.fileLinks target inNew targetName isFile
    rw [(known target inNew targetName isFile).unused, and_iff_right_iff_imp]
    exact fun zero => blocks target inNew targetName isFile (by omega)

/-- The root with two files of one mode is flat. -/
theorem twoFilesOf_flat {mode : Nat} (isFile : LINUX_S_ISDIR mode = false) (nonzero : mode ≠ 0) :
    ((twoFilesOf mode).ns listEnv).Flat
      [⟨[0x61], 11, EXT2_FT_REG_FILE⟩, ⟨[0x62], 12, EXT2_FT_REG_FILE⟩] := by
  have rootMode : ((twoFilesOf mode).ns listEnv).mode 2 = LINUX_S_IFDIR ||| 0o755 := rfl
  have first : ((twoFilesOf mode).ns listEnv).mode 11 = mode := rfl
  have second : ((twoFilesOf mode).ns listEnv).mode 12 = LINUX_S_IFREG ||| 0o644 := rfl
  refine ⟨fun ino => ?_, ⟨⟨rfl, rfl, ?_⟩, ?_, rfl⟩, rfl, fun entry inFiles => ?_⟩
  · by_cases atFirst : ino = 11
    · subst atFirst
      exact show 1 < 2 ^ 16 by decide
    · have same : ((twoFilesOf mode).ns listEnv).links ino = (twoFiles.ns listEnv).links ino := by
        simp [Fs.ns, twoFilesOf, atFirst]
      rw [same]
      exact twoFiles_narrow ino
  · rw [rootMode]
    decide
  · rw [Ns.isDir, rootMode]
    decide
  · simp only [List.mem_cons, List.not_mem_nil, or_false] at inFiles
    obtain rfl | rfl := inFiles
    · refine ⟨rfl, ⟨rfl, rfl, ?_⟩, ?_, rfl⟩
      · rw [first]
        exact nonzero
      · rw [Ns.isDir, first]
        exact isFile
    · refine ⟨rfl, ⟨rfl, rfl, ?_⟩, ?_, rfl⟩
      · rw [second]
        decide
      · rw [Ns.isDir, second]
        decide

/-- Its two names are distinct. -/
theorem twoFilesOf_distinct {mode : Nat} (isFile : LINUX_S_ISDIR mode = false)
    (nonzero : mode ≠ 0) :
    ((twoFilesOf mode).ns listEnv).Distinct := by
  intro dir reachable
  rw [(twoFilesOf_flat isFile nonzero).reachable reachable]
  change [dotName, dotDotName, [0x61], [0x62]].Nodup
  decide

/-- Renaming one of them over the other is admissible. -/
theorem twoFilesOf_admissible (mode : Nat) :
    (NameOp.rename 1 [0x62] 1 [0x61]).Admissible ((twoFilesOf mode).ns listEnv) ∧
      (NameOp.rename 1 [0x62] 1 [0x61]).Below 65535 ((twoFilesOf mode).ns listEnv) := by
  have ents : ((twoFilesOf mode).ns listEnv).ents 2 = twoFiles.dirs 2 := rfl
  have second : ((twoFilesOf mode).ns listEnv).isDir 12 = false :=
    show LINUX_S_ISDIR (LINUX_S_IFREG ||| 0o644) = false by decide
  have source : ∀ source ∈ twoFiles.dirs 2, source.name = [0x62] → source.inode = 12 := by
    decide
  have target : ∀ target ∈ twoFiles.dirs 2, target.name = [0x61] → target.inode = 11 := by
    decide
  have reachable : ((twoFilesOf mode).ns listEnv).Reachable (EXT2FS_INO 1) := .refl
  refine ⟨⟨reachable, reachable, ⟨by decide, by decide⟩, ⟨by decide, by decide⟩, ?_⟩, ?_⟩
  · intro entry inEnts isName
    rw [source entry inEnts isName]
    refine ⟨fun other inOther otherName => ?_, fun isDir => ?_⟩
    · rw [target other inOther otherName]
      decide
    · rw [second] at isDir
      cases isDir
  · rintro ino ⟨entry, inEnts, isName, rfl⟩
    rw [source entry inEnts isName, second]
    exact show 1 < 65535 by decide

/-- A regular file takes the place of another. -/
theorem rename_moves_regular :
    RenameMoved listEnv (twoFilesOf (LINUX_S_IFREG ||| 0o644)) 2 [0x62] 2 [0x61] 12
      ((doRename none 2 [0x62] 2 [0x61]).run (lib listEnv)
        (twoFilesOf (LINUX_S_IFREG ||| 0o644))).2 := by
  have outcome : (doRename none 2 [0x62] 2 [0x61]).run (lib listEnv)
      (twoFilesOf (LINUX_S_IFREG ||| 0o644)) =
        (0, ((doRename none 2 [0x62] 2 [0x61]).run (lib listEnv)
        (twoFilesOf (LINUX_S_IFREG ||| 0o644))).2) := Prod.ext (by decide +kernel) rfl
  obtain ⟨admissible, below⟩ := twoFilesOf_admissible (LINUX_S_IFREG ||| 0o644)
  refine (rename_moves_iff listDir_lawful (twoFilesOf_flat (by decide) (by decide)).consistent
    (twoFilesOf_distinct (by decide) (by decide)) admissible below rfl outcome).mpr ?_
  decide +kernel

/-- The name of a FIFO is given to another file: the FIFO has no links left and stays in use. -/
theorem rename_keeps_fifo :
    ((twoFilesOf fifoMode).ns listEnv).Consistent ∧ ((twoFilesOf fifoMode).ns listEnv).Distinct ∧
    (NameOp.rename 1 [0x62] 1 [0x61]).Admissible ((twoFilesOf fifoMode).ns listEnv) ∧
    let outcome := (doRename none 2 [0x62] 2 [0x61]).run (lib listEnv) (twoFilesOf fifoMode)
    outcome.1 = 0 ∧ (outcome.2.inodeTab 11).iLinksCount = 0 ∧ outcome.2.inodeMap 11 = true ∧
      ¬ RenameMoved listEnv (twoFilesOf fifoMode) 2 [0x62] 2 [0x61] 12 outcome.2 := by
  have dead : (((doRename none 2 [0x62] 2 [0x61]).run (lib listEnv)
      (twoFilesOf fifoMode)).2.inodeTab 11).iLinksCount = 0 := by decide +kernel
  have used : ((doRename none 2 [0x62] 2 [0x61]).run (lib listEnv)
      (twoFilesOf fifoMode)).2.inodeMap 11 = true := by decide +kernel
  refine ⟨(twoFilesOf_flat (by decide) (by decide)).consistent,
    twoFilesOf_distinct (by decide) (by decide), (twoFilesOf_admissible fifoMode).1,
    by decide +kernel, dead, used, fun moved => ?_⟩
  have released := (moved.released ⟨[0x61], 11, EXT2_FT_REG_FILE⟩ (by decide +kernel) rfl
    (by decide +kernel)).mpr dead
  rw [used] at released
  cases released

end Results

end Ext2Fuse
