import Ext2Fuse.NsConsistent

/-!
# Runs of requests on names

The seven requests that change names, what the kernel checks before it sends one, and
what every run of them keeps: the tree and its link counts if each request succeeds, and
in any case, at every call of every request, that no entry names a released inode.
-/

namespace Ext2Fuse

open Lib Program Ns

/-- A request that changes names. The inode numbers are those FUSE uses. -/
inductive NameOp where
  | create (parent : Nat) (name : Name) (mode : Nat) (flags : OpenFlags)
  | symlink (target : Name) (parent : Nat) (name : Name)
  | mkdir (parent : Nat) (name : Name)
  | rmdir (parent : Nat) (name : Name)
  | unlink (parent : Nat) (name : Name)
  | link (ino newparent : Nat) (newname : Name)
  | rename (parent : Nat) (name : Name) (newparent : Nat) (newname : Name)

/-- A name that is neither `.` nor `..` -/
def ProperName (name : Name) : Prop := name ≠ dotName ∧ name ≠ dotDotName

namespace NameOp

/-- The handler of a request. -/
def handler {δ : Type} (ctx : FuseCtx) : NameOp → Prog δ (List Reply)
  | create parent name mode flags => opCreate ctx parent name mode flags
  | symlink target parent name => opSymlink ctx target parent name
  | mkdir parent name => opMkdir ctx parent name
  | rmdir parent name => opRmdir ctx parent name
  | unlink parent name => opUnlink ctx parent name
  | link ino newparent newname => opLink ctx ino newparent newname
  | rename parent name newparent newname => opRename ctx parent name newparent newname

/-- What the kernel has checked when it sends the request: the directories exist, a name
that is created is not there yet, only a file that has a name gets another one, `.` and
`..` are neither removed nor moved, what a rename moves is not what has the new name
already, and a directory does not move into itself. -/
def Admissible (ns : Ns) : NameOp → Prop
  | create parent name _ _ | symlink _ parent name | mkdir parent name =>
      ns.Reachable (EXT2FS_INO parent) ∧ ∀ entry ∈ ns.ents (EXT2FS_INO parent), entry.name ≠ name
  | rmdir parent name => ns.Reachable (EXT2FS_INO parent) ∧ ProperName name
  | unlink parent _ => ns.Reachable (EXT2FS_INO parent)
  | link ino newparent newname =>
      ns.Reachable (EXT2FS_INO newparent) ∧
        (∀ entry ∈ ns.ents (EXT2FS_INO newparent), entry.name ≠ newname) ∧
        ns.isDir (EXT2FS_INO ino) = false ∧
        ∃ dir, ns.Reachable dir ∧ ∃ entry ∈ ns.ents dir, entry.inode = EXT2FS_INO ino
  | rename parent name newparent newname =>
      ns.Reachable (EXT2FS_INO parent) ∧ ns.Reachable (EXT2FS_INO newparent) ∧
        ProperName name ∧ ProperName newname ∧
        ∀ source ∈ ns.ents (EXT2FS_INO parent), source.name = name →
          (∀ target ∈ ns.ents (EXT2FS_INO newparent), target.name = newname →
            target.inode ≠ source.inode) ∧
          (ns.isDir source.inode = true → ¬ ns.Inside source.inode (EXT2FS_INO newparent))

/-- The inode whose link count the request raises: the file that gets another name, or
the directory that gets another subdirectory. -/
def Raises (ns : Ns) (ino : Nat) : NameOp → Prop
  | mkdir parent _ => ino = EXT2FS_INO parent
  | link other _ _ => ino = EXT2FS_INO other
  | rename parent name newparent _ =>
      ∃ source ∈ ns.ents (EXT2FS_INO parent), source.name = name ∧
        ino = if ns.isDir source.inode then EXT2FS_INO newparent else source.inode
  | _ => False

/-- The count that is raised is below a limit. -/
def Below (limit : Nat) (ns : Ns) (op : NameOp) : Prop :=
  ∀ ino, op.Raises ns ino → ns.links ino < limit

variable {δ : Type} {env : Env δ} {ns : Ns} {exact : Bool}

/-- What the kernel has checked of a rename, with the parents given. -/
theorem renamable {live : Finset Nat} {above : Nat → Nat} {dir newDir : Nat} {name newName : Name}
    (tree : ns.Tree live above) (admissible : (rename dir name newDir newName).Admissible ns)
    (below : (rename dir name newDir newName).Below 65535 ns) :
    Renamable ns above (EXT2FS_INO dir) (EXT2FS_INO newDir) name newName := by
  obtain ⟨-, newReachable, proper, newProper, sources⟩ := admissible
  have newMember := tree.reachable_iff.mp newReachable
  refine ⟨proper, newProper, ?_, ?_, ?_, ?_⟩
  · exact fun source inEnts named => (sources source inEnts named).1
  · exact fun source inEnts named isDir under =>
      (sources source inEnts named).2 isDir (tree.inside_of_under newMember under)
  · exact fun source inEnts named isFile => below _ ⟨source, inEnts, named, by simp [isFile]⟩
  · exact fun source inEnts named isDir => below _ ⟨source, inEnts, named, by simp [isDir]⟩

/-- One request: every call leaves a safe name space, the tree is kept, and the counts
stay exact if the request succeeds. -/
theorem holds_handler (lawful : env.dir.Lawful) (sound : ns.Sound exact)
    (ctx : FuseCtx) {op : NameOp} (admissible : op.Admissible ns) (below : op.Below 65535 ns) :
    Holds env Good (op.handler ctx)
      (fun replies next => next.Sound (exact && replies.all Reply.ok)) ns := by
  obtain ⟨narrow, live, parent, tree, counted⟩ := sound
  cases op with
  | create dir name mode flags =>
      obtain ⟨reachable, absent⟩ := admissible
      exact (holds_opCreate lawful narrow tree counted (tree.reachable_iff.mp reachable) rfl
        absent).mono fun _ _ sound => sound.weaken _
  | symlink target dir name =>
      obtain ⟨reachable, absent⟩ := admissible
      exact (holds_opSymlink lawful narrow tree counted (tree.reachable_iff.mp reachable) rfl
        absent).mono fun _ _ sound => sound.weaken _
  | mkdir dir name =>
      obtain ⟨reachable, absent⟩ := admissible
      exact (holds_opMkdir lawful narrow tree counted (tree.reachable_iff.mp reachable)
        (below _ rfl) rfl).mono fun _ _ sound => sound.weaken _
  | rmdir dir name =>
      obtain ⟨reachable, proper⟩ := admissible
      exact (holds_opRmdir lawful narrow tree counted (tree.reachable_iff.mp reachable) rfl
        proper).mono fun _ _ sound => sound.weaken _
  | unlink dir name =>
      exact (holds_opUnlink lawful narrow tree counted (tree.reachable_iff.mp admissible)
        rfl).mono fun _ _ sound => sound.weaken _
  | link ino dir name =>
      obtain ⟨reachable, absent, isFile, other, otherReachable, named⟩ := admissible
      exact (holds_opLink lawful narrow tree counted
        (tree.reachable_iff.mp reachable) rfl rfl absent
        ⟨other, tree.reachable_iff.mp otherReachable, named⟩ isFile
        (below _ rfl)).mono fun _ _ sound => sound.weaken _
  | rename dir name newDir newName =>
      obtain ⟨reachable, newReachable, -⟩ := id admissible
      exact holds_opRename lawful narrow tree counted (tree.reachable_iff.mp reachable)
        (tree.reachable_iff.mp newReachable) (renamable tree admissible below) rfl rfl

end NameOp

section Runs

variable {δ : Type}

/-- The replies of a request and the filesystem it leaves. -/
def NameOp.run (env : Env δ) (ctx : FuseCtx) (op : NameOp) (fs : Fs δ) : List Reply × Fs δ :=
  (op.handler ctx).run (Fs.lib env) fs

/-- Requests, each of which is allowed in the filesystem it finds, lead from one
filesystem to another. In between anything may happen that leaves entries, modes, link
counts and the inode bitmap alone. -/
inductive Runs (env : Env δ) (allowed : Fs δ → FuseCtx → NameOp → Prop) (start : Fs δ) :
    Fs δ → Prop
  | refl : Runs env allowed start start
  | other {fs next : Fs δ} (runs : Runs env allowed start fs) (same : next.ns env = fs.ns env) :
      Runs env allowed start next
  | step {fs : Fs δ} {ctx : FuseCtx} {op : NameOp} (runs : Runs env allowed start fs)
      (meets : allowed fs ctx op) : Runs env allowed start (op.run env ctx fs).2

/-- The request is one the kernel may send, the count it raises is below 65535, and it
succeeds. -/
def Succeeds (env : Env δ) (fs : Fs δ) (ctx : FuseCtx) (op : NameOp) : Prop :=
  op.Admissible (fs.ns env) ∧ op.Below 65535 (fs.ns env) ∧ (op.run env ctx fs).1.all Reply.ok = true

/-- The request is one the kernel may send, and the count it raises is below
`EXT2_LINK_MAX`. -/
def WithinLinkMax (env : Env δ) (fs : Fs δ) (_ : FuseCtx) (op : NameOp) : Prop :=
  op.Admissible (fs.ns env) ∧ op.Below EXT2_LINK_MAX (fs.ns env)

variable {env : Env δ} {fs final : Fs δ} {ctx : FuseCtx} {op : NameOp} {exact : Bool}

/-- One request from a filesystem whose names are sound. -/
theorem NameOp.always_handler (ctx : FuseCtx) (lawful : env.dir.Lawful)
    (sound : (fs.ns env).Sound exact)
    (admissible : op.Admissible (fs.ns env)) (below : op.Below 65535 (fs.ns env)) :
    Always (Fs.lib env) (fun fs => (fs.ns env).Good) (op.handler ctx)
      (fun replies next => (next.ns env).Sound (exact && replies.all Reply.ok)) fs :=
  NameOp.holds_handler lawful sound ctx admissible below sound.good fs rfl

/-- At every call of a request no entry names a released inode. -/
theorem NameOp.intact_cut (lawful : env.dir.Lawful) (sound : (fs.ns env).Sound exact)
    (admissible : op.Admissible (fs.ns env)) (below : op.Below 65535 (fs.ns env)) (calls : Nat) :
    (((op.handler ctx).cut (Fs.lib env) calls fs).ns env).Intact :=
  Good.intact ((NameOp.always_handler ctx lawful sound admissible below).cut sound.good calls)

/-- A run of requests that succeed keeps counts exact. -/
theorem sound_of_runs (lawful : env.dir.Lawful) (sound : (fs.ns env).Sound true)
    (runs : Runs env (Succeeds env) fs final) : (final.ns env).Sound true := by
  induction runs with
  | refl => exact sound
  | other _ same inductionHypothesis =>
      rw [same]
      exact inductionHypothesis
  | @step before ctx op _ meets inductionHypothesis =>
      obtain ⟨admissible, below, succeeded⟩ := meets
      have after := (NameOp.always_handler ctx lawful inductionHypothesis admissible below).run
      rw [Bool.true_and] at after
      exact succeeded ▸ after

/-- A run of requests within the link maximum keeps the counts covering. -/
theorem covered_of_runs (lawful : env.dir.Lawful) (sound : (fs.ns env).Sound false)
    (runs : Runs env (WithinLinkMax env) fs final) : (final.ns env).Sound false := by
  induction runs with
  | refl => exact sound
  | other _ same inductionHypothesis =>
      rw [same]
      exact inductionHypothesis
  | @step before ctx op _ meets inductionHypothesis =>
      obtain ⟨admissible, below⟩ := meets
      have narrower : op.Below 65535 (before.ns env) :=
        fun ino raises => (below ino raises).trans (by decide)
      exact (NameOp.always_handler ctx lawful inductionHypothesis admissible narrower).run

/-- What is asked of a request about link counts: at every call the counts of files cover
their names and none is 0, so that nothing is released that still has a name; and a
request that would raise a count beyond `EXT2_LINK_MAX` is refused and changes nothing. -/
def KeepsLinks (env : Env δ) (fs : Fs δ) (ctx : FuseCtx) (op : NameOp) : Prop :=
  (∀ calls, (((op.handler ctx).cut (Fs.lib env) calls fs).ns env).Intact) ∧
    ∀ ino, op.Raises (fs.ns env) ino → EXT2_LINK_MAX ≤ (fs.ns env).links ino →
      op.run env ctx fs = ([.err EMLINK], fs)

end Runs

section Example

/-- The root is the only directory, and its other entries name files that have as many links as
names. -/
structure Ns.Flat (ns : Ns) (files : List Dirent) : Prop where
  narrow : ns.Narrow
  root : ns.Alive 2 ∧ ns.isDir 2 = true ∧ ns.links 2 = 2
  ents : ns.ents 2 = ⟨dotName, 2, EXT2_FT_DIR⟩ :: ⟨dotDotName, 2, EXT2_FT_DIR⟩ :: files
  file : ∀ entry ∈ files, entry.proper = true ∧ ns.Alive entry.inode ∧
    ns.isDir entry.inode = false ∧
      ns.links entry.inode = files.countP fun other => other.inode == entry.inode

section Flat

variable {ns : Ns} {files : List Dirent} (flat : ns.Flat files)

include flat

/-- In a flat name space only the root is reachable. -/
theorem Ns.Flat.reachable {dir : Nat} (reachable : ns.Reachable dir) : dir = 2 := by
  induction reachable with
  | refl => rfl
  | tail _ edge inductionHypothesis =>
      obtain ⟨isDir, entry, inEnts, proper, rfl⟩ := edge
      rw [inductionHypothesis, flat.ents] at inEnts
      simp only [List.mem_cons] at inEnts
      obtain rfl | rfl | inFiles := inEnts
      · rfl
      · rfl
      · rw [(flat.file entry inFiles).2.2.1] at isDir
        cases isDir

/-- How many entries of the root pass a test. -/
theorem Ns.Flat.countP (test : Dirent → Bool) :
    (ns.ents 2).countP test = files.countP test +
      (if test ⟨dotDotName, 2, EXT2_FT_DIR⟩ then 1 else 0) +
        if test ⟨dotName, 2, EXT2_FT_DIR⟩ then 1 else 0 := by
  rw [flat.ents, List.countP_cons, List.countP_cons]

/-- A flat name space is consistent. -/
theorem Ns.Flat.consistent : ns.Consistent := by
  have inFiles : ∀ entry ∈ ns.ents 2, entry.proper = true → entry ∈ files := by
    intro entry inEnts proper
    rw [flat.ents] at inEnts
    simp only [List.mem_cons] at inEnts
    obtain rfl | rfl | inFiles := inEnts
    · cases proper
    · cases proper
    · exact inFiles
  have dots : ∀ entry ∈ ns.ents 2, entry.proper = false → entry.inode = 2 := by
    intro entry inEnts improper
    rw [flat.ents] at inEnts
    simp only [List.mem_cons] at inEnts
    obtain rfl | rfl | isFile := inEnts
    · rfl
    · rfl
    · rw [(flat.file entry isFile).1] at improper
      cases improper
  have noDots : ∀ name, name = dotName ∨ name = dotDotName →
      files.countP (fun entry => entry.name == name) = 0 := by
    intro name isDots
    refine List.countP_eq_zero.mpr fun entry isFile isName => ?_
    have proper := (flat.file entry isFile).1
    rw [beq_iff_eq] at isName
    obtain rfl | rfl := isDots <;> simp [Dirent.proper, isName] at proper
  have onlyRoot : ∀ dir ∈ ({2} : Finset Nat), dir = 2 := by simp
  refine Sound.consistent ⟨flat.narrow, {2}, fun _ => 2,
    ⟨by decide, rfl, ?_, ?_, ?_, ?_, ?_, ?_, ?_⟩, ?_, ?_⟩
  · intro dir member
    rw [onlyRoot dir member]
    exact flat.root.2.1
  · intro dir member
    rw [onlyRoot dir member]
    exact Under.refl _ _
  · intro dir member entry inEnts
    rw [onlyRoot dir member] at inEnts
    by_cases proper : entry.proper = true
    · exact (flat.file entry (inFiles entry inEnts proper)).2.1
    · rw [dots entry inEnts (by simpa using proper)]
      exact flat.root.1
  · intro dir member
    rw [onlyRoot dir member]
    refine ⟨?_, ?_⟩
    · rw [flat.countP, noDots _ (.inl rfl)]
      rfl
    · intro entry inEnts named
      exact dots entry inEnts (by simp [Dirent.proper, named])
  · intro dir member
    rw [onlyRoot dir member]
    refine ⟨?_, ?_⟩
    · rw [flat.countP, noDots _ (.inr rfl)]
      rfl
    · intro entry inEnts named
      exact dots entry inEnts (by simp [Dirent.proper, named])
  · intro dir member entry inEnts proper isDir
    rw [onlyRoot dir member] at inEnts
    rw [(flat.file entry (inFiles entry inEnts proper)).2.2.1] at isDir
    cases isDir
  · intro dir member notRoot
    exact absurd (onlyRoot dir member) notRoot
  · intro dir member entry inEnts isFile
    rw [onlyRoot dir member] at inEnts
    have notRoot : entry.inode ≠ 2 := by
      intro same
      rw [same, flat.root.2.1] at isFile
      cases isFile
    have proper : entry.proper = true := by
      by_contra improper
      exact notRoot (dots entry inEnts (by simpa using improper))
    have names : ns.refs {2} entry.inode = ns.links entry.inode := by
      rw [refs, Finset.sum_singleton, flat.countP,
        (flat.file entry (inFiles entry inEnts proper)).2.2.2]
      simp [Ne.symm notRoot]
    simp [names, Covers]
  · intro dir member
    rw [onlyRoot dir member]
    have none : ns.subdirs 2 = 0 := by
      rw [subdirs, flat.countP, List.countP_eq_zero.mpr]
      · rfl
      · intro entry isFile isSubdir
        rw [(flat.file entry isFile).2.2.1] at isSubdir
        simp at isSubdir
    rw [none, flat.root.2.2]
    exact ⟨Nat.le_refl 2, fun _ => Nat.le_refl 2⟩

end Flat

/-- Four letters for a number below 65536. -/
def letters (index : Nat) : Name :=
  [4096, 256, 16, 1].map fun digit => UInt8.ofNat (97 + index / digit % 16)

/-- A root directory in which the file with inode 11 has `count` names, and the links
for them. -/
def linkedFs (count : Nat) : Fs (List Dirent) where
  vol :=
    { super :=
        { sLogBlockSize := 0
          sInodesCount := 16
          sBlocksCount := 64
          sFirstDataBlock := 1
          sFirstIno := 11
          sInodesPerGroup := 16
          sBlocksPerGroup := 64
          filetype := true }
      blockMap := fun blk => decide (blk < 20)
      sFreeBlocksCount := 44
      bgFreeBlocksCount := fun _ => 44
      io := fun _ _ => 0
      tick := 0 }
  inodeTab ino :=
    if ino = 2 then
      { iMode := LINUX_S_IFDIR ||| 0o755, iLinksCount := 2, iSize := 1024
        iBlock := Function.update (fun _ => 0) 0 19 }
    else if ino = 11 then { iMode := LINUX_S_IFREG ||| 0o644, iLinksCount := count }
    else {}
  inodeMap ino := decide (ino < 12)
  sFreeInodesCount := 5
  bgFreeInodesCount _ := 5
  bgUsedDirsCount _ := 1
  dirs ino :=
    if ino = 2 then
      ⟨dotName, 2, EXT2_FT_DIR⟩ :: ⟨dotDotName, 2, EXT2_FT_DIR⟩ ::
        (List.range count).map fun index => ⟨letters index, 11, EXT2_FT_REG_FILE⟩
    else []

variable {count : Nat}

/-- What entries the example has. -/
theorem mem_linkedFs {entry : Dirent} (inEnts : entry ∈ ((linkedFs count).ns listEnv).ents 2) :
    entry = ⟨dotName, 2, EXT2_FT_DIR⟩ ∨ entry = ⟨dotDotName, 2, EXT2_FT_DIR⟩ ∨
      ∃ index < count, entry = ⟨letters index, 11, EXT2_FT_REG_FILE⟩ := by
  change entry ∈ _ :: _ :: _ at inEnts
  simpa [eq_comm] using inEnts

/-- The example's root is a directory in use. -/
theorem linkedFs_root :
    ((linkedFs count).ns listEnv).Alive 2 ∧ ((linkedFs count).ns listEnv).isDir 2 = true := by
  have mode : ((linkedFs count).ns listEnv).mode 2 = LINUX_S_IFDIR ||| 0o755 := by
    simp [Fs.ns, linkedFs]
  refine ⟨⟨rfl, rfl, ?_⟩, ?_⟩
  · rw [mode]
    decide
  · rw [isDir, mode]
    decide

/-- The example's file has all its links. -/
theorem linkedFs_file :
    ((linkedFs count).ns listEnv).Alive 11 ∧ ((linkedFs count).ns listEnv).isDir 11 = false ∧
      ((linkedFs count).ns listEnv).links 11 = count := by
  have mode : ((linkedFs count).ns listEnv).mode 11 = LINUX_S_IFREG ||| 0o644 := by
    simp [Fs.ns, linkedFs]
  refine ⟨⟨rfl, rfl, ?_⟩, ?_, by simp [Fs.ns, linkedFs]⟩
  · rw [mode]
    decide
  · rw [isDir, mode]
    decide

/-- A name of letters is neither '.' nor '..'. -/
theorem letters_proper (index : Nat) : letters index ≠ dotName ∧ letters index ≠ dotDotName := by
  simp [letters, dotName, dotDotName]

/-- Counting entries of the example, for a test that treats all its names alike. -/
theorem countP_linkedFs {test : Dirent → Bool} (passes : Bool)
    (same : ∀ index, test ⟨letters index, 11, EXT2_FT_REG_FILE⟩ = passes) :
    (((linkedFs count).ns listEnv).ents 2).countP test =
      (if test ⟨dotName, 2, EXT2_FT_DIR⟩ then 1 else 0) +
        (if test ⟨dotDotName, 2, EXT2_FT_DIR⟩ then 1 else 0) + if passes then count else 0 := by
  change (_ :: _ :: _ : List Dirent).countP test = _
  have constant : test ∘ (fun index => ⟨letters index, 11, EXT2_FT_REG_FILE⟩) = fun _ => passes :=
    funext same
  rw [List.countP_cons, List.countP_cons, List.countP_map, constant]
  cases passes <;> simp <;> omega

/-- The example is flat while its count fits sixteen bits. -/
theorem linkedFs_flat (count : Nat) (narrow : count < 2 ^ 16) :
    ((linkedFs count).ns listEnv).Flat
      ((List.range count).map fun index => ⟨letters index, 11, EXT2_FT_REG_FILE⟩) where
  narrow ino := by
    simp only [Fs.ns, linkedFs]
    split
    · decide
    · split
      · exact narrow
      · decide
  root := ⟨linkedFs_root.1, linkedFs_root.2, rfl⟩
  ents := rfl
  file entry inFiles := by
    obtain ⟨index, -, rfl⟩ := List.mem_map.mp inFiles
    refine ⟨?_, linkedFs_file.1, linkedFs_file.2.1, ?_⟩
    · simp [Dirent.proper, letters_proper]
    · rw [linkedFs_file.2.2, List.countP_map]
      simp [Function.comp_def]

/-- The filesystem is consistent as long as the count fits into its field. -/
theorem linkedFs_consistent (count : Nat) (narrow : count < 2 ^ 16) :
    ((linkedFs count).ns listEnv).Consistent :=
  (linkedFs_flat count narrow).consistent

/-- `op_link` gives the file one more name and raises its count, whatever the count is. -/
theorem run_link_linkedFs (count : Nat) (name : Name) :
    let linked := (NameOp.link 11 1 name).run listEnv ⟨0, 0⟩ (linkedFs count)
    linked.1.all Reply.ok = true ∧ linked.2.ns listEnv =
      (((linkedFs count).ns listEnv).setInode 11 (((linkedFs count).ns listEnv).mode 11)
        ((count + 1) % 2 ^ 16)).setEnts 2
          (((linkedFs count).ns listEnv).ents 2 ++ [⟨name, 11, EXT2_FT_REG_FILE⟩]) := by
  have read : (linkedFs count).ext2fsReadInode 11 = .ok ((linkedFs count).inodeTab 11) := rfl
  have write : ∀ inode, (linkedFs count).ext2fsWriteInode 11 inode = (0,
      { linkedFs count with inodeTab := Function.update (linkedFs count).inodeTab 11 inode }) :=
    fun _ => rfl
  have mode : ((linkedFs count).inodeTab 11).iMode = LINUX_S_IFREG ||| 0o644 := by simp [linkedFs]
  have fileType : ext2FileType ((linkedFs count).inodeTab 11).iMode = EXT2_FT_REG_FILE := by
    rw [mode]
    decide
  have entered : ∀ inode, Fs.ext2fsLink listEnv
      { linkedFs count with inodeTab := Function.update (linkedFs count).inodeTab 11 inode }
        2 name 11 EXT2_FT_REG_FILE = (0,
      { linkedFs count with
        inodeTab := Function.update (linkedFs count).inodeTab 11 inode
        dirs := Function.update (linkedFs count).dirs 2
          ((linkedFs count).dirs 2 ++ [⟨name, 11, EXT2_FT_REG_FILE⟩]) }) := by
    intro inode
    have isDir : LINUX_S_ISDIR (LINUX_S_IFDIR ||| 0o755) = true := by decide
    simp [Fs.ext2fsLink, Fs.ext2fsCheckDirectory, Fs.ext2fsReadInode, Fs.validIno,
      Fs.super, linkedFs, isDir, listEnv, listDir, EXT2_FT_REG_FILE]
  have raised : ((linkedFs count).inodeTab 11).raiseLinks.iLinksCount = (count + 1) % 2 ^ 16 := by
    simp [linkedFs, Inode.raiseLinks]
  have outcome : ∃ generation stat, (NameOp.link 11 1 name).run listEnv ⟨0, 0⟩ (linkedFs count) =
      ([Reply.entry 11 generation stat],
        { linkedFs count with
          inodeTab := Function.update (linkedFs count).inodeTab 11
            ((linkedFs count).inodeTab 11).raiseLinks
          dirs := Function.update (linkedFs count).dirs 2
            ((linkedFs count).dirs 2 ++ [⟨name, 11, EXT2_FT_REG_FILE⟩]) }) := by
    simp [NameOp.run, NameOp.handler, opLink, checkPerms, doPermissionsChecks,
      readInode, writeInode,
      EXT2FS_INO, EXT2_ROOT_INO, doLink, Fs.lib, Fs.exec, read, write, fileType, entered,
      EXT2_ET_DIR_NO_SPACE]
  obtain ⟨generation, stat, outcome⟩ := outcome
  dsimp only
  rw [outcome]
  refine ⟨rfl, ?_⟩
  ext : 1
  · rfl
  · funext ino
    by_cases same : ino = 11 <;> simp [Fs.ns, same]
  · funext ino
    by_cases same : ino = 11 <;> simp [Fs.ns, same, raised]
  · rfl
  · funext ino
    by_cases same : ino = 2 <;> simp [Fs.ns, same, listEnv, listDir]

/-- Different numbers below 2^16 have different letters. -/
theorem letters_injective {first second : Nat} (firstBound : first < 2 ^ 16)
    (secondBound : second < 2 ^ 16) (same : letters first = letters second) : first = second := by
  have digit : ∀ a b : Nat, UInt8.ofNat (97 + a % 16) = UInt8.ofNat (97 + b % 16) →
      a % 16 = b % 16 := by
    intro a b equal
    have bytes := congrArg UInt8.toNat equal
    simp only [UInt8.toNat_ofNat'] at bytes
    omega
  simp only [letters, List.map_cons, List.map_nil, List.cons.injEq, and_true] at same
  have high := digit _ _ same.1
  have second' := digit _ _ same.2.1
  have third := digit _ _ same.2.2.1
  have low := digit _ _ same.2.2.2
  omega

/-- Linking the example's file under a fresh name is admissible. -/
theorem link_admissible {name : Name} (positive : 0 < count) (notDot : name ≠ dotName)
    (notDotDot : name ≠ dotDotName) (fresh : ∀ index < count, letters index ≠ name) :
    (NameOp.link 11 1 name).Admissible ((linkedFs count).ns listEnv) := by
  refine ⟨.refl, ?_, linkedFs_file.2.1, 2, .refl, ⟨letters 0, 11, EXT2_FT_REG_FILE⟩, ?_, rfl⟩
  · intro entry inEnts
    obtain rfl | rfl | ⟨index, less, rfl⟩ := mem_linkedFs inEnts
    · exact notDot.symm
    · exact notDotDot.symm
    · exact fresh index less
  · change _ ∈ _ :: _ :: (_ : List Dirent)
    simp only [List.mem_cons, List.mem_map, List.mem_range]
    exact .inr (.inr ⟨0, positive, rfl⟩)

/-- Links made one after the other, each of them a request that succeeds. -/
theorem runs_linkedFs (count : Nat) (narrow : count + 1 < 2 ^ 16) :
    Runs listEnv (Succeeds listEnv) (linkedFs 1) (linkedFs (count + 1)) := by
  induction count with
  | zero => exact .refl
  | succ count inductionHypothesis =>
      obtain ⟨succeeded, after⟩ := run_link_linkedFs (count + 1) (letters (count + 1))
      have runs := inductionHypothesis (by omega)
      refine .other (.step runs ⟨?_, ?_, succeeded⟩) ?_
      · refine link_admissible (by omega) (letters_proper _).1 (letters_proper _).2 ?_
        intro index less same
        have := letters_injective (by omega) (by omega) same
        omega
      · rintro ino rfl
        change ((linkedFs (count + 1)).ns listEnv).links 11 < 65535
        rw [linkedFs_file.2.2]
        omega
      · rw [after, Nat.mod_eq_of_lt (by omega)]
        ext : 1
        · rfl
        · funext ino
          by_cases same : ino = 11 <;> simp [Fs.ns, linkedFs, same]
        · funext ino
          by_cases same : ino = 11 <;> simp [Fs.ns, linkedFs, same]
        · rfl
        · funext ino
          by_cases same : ino = 2
          · simp [Fs.ns, linkedFs, same, listEnv, listDir, List.range_succ (n := count + 1)]
          · simp [Fs.ns, linkedFs, same, listEnv, listDir]

end Example

section Results

variable {δ : Type} {env : Env δ} {fs final : Fs δ} {ctx : FuseCtx} {op : NameOp}

/-- Link counts and the tree over whole runs: from a consistent filesystem, requests that
succeed lead to consistent filesystems only. -/
theorem consistent_of_runs (lawful : env.dir.Lawful) (consistent : (fs.ns env).Consistent)
    (runs : Runs env (Succeeds env) fs final) : (final.ns env).Consistent :=
  (sound_of_runs lawful consistent.sound runs).consistent

/-- A directory is made and the file moved into it. -/
theorem consistent_of_runs_moved :
    let made := ((NameOp.mkdir 1 [0x64]).run listEnv ⟨0, 0⟩ (linkedFs 1)).2
    let moved := ((NameOp.rename 1 [0x61, 0x61, 0x61, 0x61] 12 [0x62]).run listEnv ⟨0, 0⟩ made).2
    (moved.ns listEnv).Consistent := by
  refine consistent_of_runs listDir_lawful (linkedFs_consistent 1 (by decide))
    (.step (.step .refl ⟨⟨.refl, ?_⟩, ?_, ?_⟩) ⟨⟨.refl, ?_, ?_, ?_, ?_⟩, ?_, ?_⟩)
  · decide +kernel
  · rintro ino rfl
    decide +kernel
  · decide +kernel
  · exact .tail .refl ⟨by decide +kernel, by decide +kernel⟩
  · exact ⟨by decide, by decide⟩
  · exact ⟨by decide, by decide⟩
  · intro source inEnts named
    refine ⟨?_, ?_⟩
    · decide +kernel +revert
    · intro isDir
      have isFile : _ = false :=
        (by decide +kernel : ∀ source ∈ (((NameOp.mkdir 1 [0x64]).run listEnv
        ⟨0, 0⟩ (linkedFs 1)).2.ns listEnv).ents 2, source.name = [0x61, 0x61, 0x61, 0x61] →
          (((NameOp.mkdir 1 [0x64]).run listEnv ⟨0, 0⟩ (linkedFs 1)).2.ns listEnv).isDir
            source.inode = false) source inEnts named
      rw [isFile] at isDir
      cases isDir
  · rintro ino ⟨source, inEnts, named, rfl⟩
    decide +kernel +revert
  · decide +kernel

/-- Safe ordering: wherever a request on a consistent filesystem is cut off, every
reachable entry names an inode that is in use and initialised, and no file has fewer
links than names. -/
theorem intact_at_every_call (lawful : env.dir.Lawful) (consistent : (fs.ns env).Consistent)
    (admissible : op.Admissible (fs.ns env)) (below : op.Below 65535 (fs.ns env)) (calls : Nat) :
    (((op.handler ctx).cut (Fs.lib env) calls fs).ns env).Intact :=
  NameOp.intact_cut lawful consistent.sound admissible below calls

/-- A second name is given to a file with one, cut off after two calls. -/
theorem intact_at_every_call_link :
    ((((NameOp.link 11 1 [0x62]).handler ⟨0, 0⟩).cut (Fs.lib listEnv) 2 (linkedFs 1)).ns
      listEnv).Intact := by
  refine intact_at_every_call listDir_lawful (linkedFs_consistent 1 (by decide)) ?_ ?_ 2
  · refine link_admissible (by decide) (by decide) (by decide) fun index _ => ?_
    simp [letters]
  · rintro ino rfl
    decide +kernel

/-- In every run whose requests find the count they raise below `EXT2_LINK_MAX`, the
counts cover the names in every state, and at every call of the next request. -/
theorem keepsLinks_of_runs (lawful : env.dir.Lawful) (consistent : (fs.ns env).Consistent)
    (runs : Runs env (WithinLinkMax env) fs final) (within : WithinLinkMax env final ctx op) :
    (final.ns env).Intact ∧ KeepsLinks env final ctx op := by
  have sound := covered_of_runs lawful (consistent.sound.weaken false) runs
  obtain ⟨admissible, below⟩ := within
  have narrower : op.Below 65535 (final.ns env) :=
    fun ino raises => (below ino raises).trans (by decide)
  refine ⟨sound.good.intact, NameOp.intact_cut lawful sound admissible narrower, ?_⟩
  intro ino raises full
  exact absurd (below ino raises) (Nat.not_lt.mpr full)

/-- One link request from one name keeps the links. -/
theorem keepsLinks_of_runs_link :
    ((linkedFs 1).ns listEnv).Intact ∧ KeepsLinks listEnv (linkedFs 1) ⟨0, 0⟩
    (.link 11 1 [0x62]) := by
  refine keepsLinks_of_runs listDir_lawful (linkedFs_consistent 1 (by decide)) .refl ⟨?_, ?_⟩
  · refine link_admissible (by decide) (by decide) (by decide) fun index _ => ?_
    simp [letters]
  · rintro ino rfl
    decide +kernel

/-- From a file with one name, `op_link` may be called until the file has 65535 names.
The next call succeeds, too, and leaves a count of 0. -/
theorem link_wraps :
    ((linkedFs 1).ns listEnv).Consistent ∧
      Runs listEnv (Succeeds listEnv) (linkedFs 1) (linkedFs 65535) ∧
      (NameOp.link 11 1 [0x62]).Admissible ((linkedFs 65535).ns listEnv) ∧
      (((NameOp.link 11 1 [0x62]).run listEnv ⟨0, 0⟩ (linkedFs 65535)).2.ns listEnv).links 11 = 0 ∧
      ¬ KeepsLinks listEnv (linkedFs 65535) ⟨0, 0⟩ (.link 11 1 [0x62]) := by
  obtain ⟨succeeded, after⟩ := run_link_linkedFs 65535 [0x62]
  refine ⟨linkedFs_consistent 1 (by decide), runs_linkedFs 65534 (by decide), ?_, ?_, ?_⟩
  · refine link_admissible (by decide) (by decide) (by decide) fun index _ => ?_
    simp [letters]
  · rw [after]
    rfl
  · rintro ⟨-, refused⟩
    have wouldRefuse := refused 11 rfl (by rw [linkedFs_file.2.2]; decide)
    rw [wouldRefuse] at succeeded
    cases succeeded

end Results

end Ext2Fuse
