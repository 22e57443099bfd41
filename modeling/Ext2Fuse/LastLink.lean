import Ext2Fuse.NsRuns
import Ext2Fuse.Callers
import Ext2Fuse.Faults

/-!
# The last link

What `do_unlink_on_ino` leaves behind when an entry of a file goes, and with the last
one the file itself; then the same with library calls that fail.
-/

namespace Ext2Fuse

open Lib Program Fs

section Kill

variable {δ : Type} {env : Env δ} {fs : Fs δ} {ino : Nat}

/-- The filesystem with an inode released: its bit is cleared and the counts of free inodes are
raised. -/
def Fs.releasedIno (fs : Fs δ) (ino : Nat) (isdir : Bool) : Fs δ :=
  (fs.ext2fsInodeAllocStats2 ino false isdir).ext2fsUnmarkInodeBitmap ino

/-- `kill_file_by_inode` writes the inode without links. Only if its block pointers are block
numbers, its blocks and the inode itself are released. -/
theorem run_killFileByInode (valid : fs.validIno ino = true) (inode : Inode) :
    ∃ vol now, vol.super = fs.vol.super ∧
      ((killFileByInode ino inode).run (lib env) fs).2 =
        if ext2fsInodeHasValidBlocks inode then
          ({ fs with
            vol := vol
            inodeTab := Function.update fs.inodeTab ino
              { inode with iLinksCount := 0, iDtime := now } } : Fs δ).releasedIno ino
                (LINUX_S_ISDIR inode.iMode)
        else { fs with
          vol := vol
          inodeTab := Function.update fs.inodeTab ino
            { inode with iLinksCount := 0, iDtime := now } } := by
  have validLater : fs.advance.validIno ino = true := valid
  rw [killFileByInode, run_bind, run_lift, lib_time]
  dsimp only
  rw [run_bind, run_writeInode validLater]
  dsimp only
  rw [if_neg (by simp)]
  have same : ∀ now, ext2fsInodeHasValidBlocks { inode with iLinksCount := 0, iDtime := now } =
      ext2fsInodeHasValidBlocks inode := fun _ => rfl
  rw [same]
  cases ext2fsInodeHasValidBlocks inode with
  | false => exact ⟨fs.advance.vol, _, rfl, rfl⟩
  | true =>
      rw [if_neg (by simp), run_bind, run_lift]
      obtain ⟨vol, super, released⟩ := lib_blockIterateRelease_eq env { fs.advance with
        inodeTab := Function.update fs.inodeTab ino
          { inode with iLinksCount := 0, iDtime := env.time fs.vol.tick } } ino
      refine ⟨vol, env.time fs.vol.tick, super, ?_⟩
      rw [if_pos rfl]
      exact congrArg (fun next => ((lib env).exec (.unmarkInodeBitmap ino)
        ((lib env).exec (.inodeAllocStats2 ino false (LINUX_S_ISDIR inode.iMode)) next).2).2)
          released

/-- `do_unlink_on_ino` of a file: the entry goes, then the count is written or the file killed. -/
theorem run_doUnlinkOnIno (valid : fs.validIno ino = true)
    (isFile : LINUX_S_ISDIR (fs.inodeTab ino).iMode = false)
    (positive : 0 < (fs.inodeTab ino).iLinksCount)
    (bound : (fs.inodeTab ino).iLinksCount < 2 ^ 16) (dir : Nat) (name : Name) :
    (doUnlinkOnIno dir name ino (-1)).run (lib env) fs =
      let inode := { fs.inodeTab ino with iLinksCount := (fs.inodeTab ino).iLinksCount - 1 }
      let unlinked := (fs.ext2fsUnlink env dir name ino).2
      if (fs.inodeTab ino).iLinksCount = 1 then
        (0, ((killFileByInode ino inode).run (lib env) unlinked).2)
      else (0, { unlinked with inodeTab := Function.update fs.inodeTab ino inode }) := by
  have count : (((fs.inodeTab ino).iLinksCount + (-1 : Int)) % 2 ^ 16).toNat =
      (fs.inodeTab ino).iLinksCount - 1 := by omega
  have same : (fs.ext2fsUnlink env dir name ino).2.super = fs.super ∧
      (fs.ext2fsUnlink env dir name ino).2.inodeTab = fs.inodeTab := by
    rw [ext2fsUnlink]
    split <;> exact ⟨rfl, rfl⟩
  have validLater : (fs.ext2fsUnlink env dir name ino).2.validIno ino = true := by
    rw [validIno_congr same.1]
    exact valid
  rw [doUnlinkOnIno, run_bind, run_readInode valid]
  dsimp only
  rw [if_neg (by simp [isFile]), if_pos positive, count, run_bind, run_lift, run_ite]
  change (if _ then Program.run (lib env) _ (fs.ext2fsUnlink env dir name ino).2
    else Program.run (lib env) _ (fs.ext2fsUnlink env dir name ino).2) = _
  by_cases last : (fs.inodeTab ino).iLinksCount = 1
  · have none : (fs.inodeTab ino).iLinksCount - 1 < 1 := by omega
    rw [if_pos none, if_pos last, run_bind]
    rfl
  · have some : ¬ (fs.inodeTab ino).iLinksCount - 1 < 1 := by omega
    rw [if_neg some, if_neg last, run_bind, run_writeInode validLater, same.2]
    rfl

/-- What the last unlink owes: the inode's bit is clear, both counts of free inodes are one
higher, and the inode on disk has no links. -/
structure Released (fs fs' : Fs δ) (ino : Nat) : Prop where
  unused : fs'.inodeMap ino = false
  total : fs'.sFreeInodesCount = fs.sFreeInodesCount + 1
  group : fs'.bgFreeInodesCount (fs.ext2fsGroupOfIno ino) =
    fs.bgFreeInodesCount (fs.ext2fsGroupOfIno ino) + 1
  links : (fs'.inodeTab ino).iLinksCount = 0

/-- An inode with no links that was given back is released. -/
theorem released_releasedIno (valid : fs.validIno ino = true)
    (total : fs.sFreeInodesCount + 1 < 2 ^ 32)
    (group : fs.bgFreeInodesCount (fs.ext2fsGroupOfIno ino) + 1 < 2 ^ 16) (isdir : Bool)
    (links : (fs.inodeTab ino).iLinksCount = 0) : Released fs (fs.releasedIno ino isdir) ino where
  unused := by
    have later : (fs.ext2fsInodeAllocStats2 ino false isdir).validIno ino = true := valid
    rw [releasedIno, ext2fsUnmarkInodeBitmap]
    dsimp only
    rw [if_pos later, Function.update_self]
  total := Nat.mod_eq_of_lt total
  group := by
    change Function.update fs.bgFreeInodesCount (fs.ext2fsGroupOfIno ino) _ _ = _
    rw [Function.update_self]
    exact Nat.mod_eq_of_lt group
  links := links

/-- The last unlink of a file, of whatever kind, releases the inode if and only if its block
pointers are block numbers. -/
theorem last_unlink_releases_iff (valid : fs.validIno ino = true) (used : fs.inodeMap ino = true)
    (isFile : LINUX_S_ISDIR (fs.inodeTab ino).iMode = false)
    (last : (fs.inodeTab ino).iLinksCount = 1) (total : fs.sFreeInodesCount + 1 < 2 ^ 32)
    (group : fs.bgFreeInodesCount (fs.ext2fsGroupOfIno ino) + 1 < 2 ^ 16)
    (dir : Nat) (name : Name) :
    ((doUnlinkOnIno dir name ino (-1)).run (lib env) fs).1 = 0 ∧
      (Released fs ((doUnlinkOnIno dir name ino (-1)).run (lib env) fs).2 ino ↔
        ext2fsInodeHasValidBlocks (fs.inodeTab ino) = true) := by
  have same : (fs.ext2fsUnlink env dir name ino).2 = { fs with
      dirs := (fs.ext2fsUnlink env dir name ino).2.dirs } := by
    rw [ext2fsUnlink]
    split <;> rfl
  rw [run_doUnlinkOnIno valid isFile (by omega) (by omega)]
  dsimp only
  rw [if_pos last, same]
  refine ⟨rfl, ?_⟩
  generalize (fs.ext2fsUnlink env dir name ino).2.dirs = dirs
  obtain ⟨vol, now, super, killed⟩ := @run_killFileByInode δ env { fs with dirs := dirs } ino valid
    { fs.inodeTab ino with iLinksCount := (fs.inodeTab ino).iLinksCount - 1 }
  have kind : ext2fsInodeHasValidBlocks
      { fs.inodeTab ino with iLinksCount := (fs.inodeTab ino).iLinksCount - 1 } =
        ext2fsInodeHasValidBlocks (fs.inodeTab ino) := rfl
  rw [killed, kind]
  cases ext2fsInodeHasValidBlocks (fs.inodeTab ino) with
  | true =>
      refine iff_of_true ?_ rfl
      rw [if_pos rfl]
      have groups : ∀ inodeTab,
        ({ fs with vol := vol, inodeTab := inodeTab, dirs := dirs } : Fs δ).ext2fsGroupOfIno
          ino = fs.ext2fsGroupOfIno ino := by
        intro inodeTab
        simp only [ext2fsGroupOfIno, Fs.super, super]
      have released := @released_releasedIno δ { fs with
        vol := vol
        inodeTab := Function.update fs.inodeTab ino
          { fs.inodeTab ino with iLinksCount := 0, iDtime := now }
        dirs := dirs } ino ?_ total ?_ (LINUX_S_ISDIR (fs.inodeTab ino).iMode) (by simp)
      · have groupEq := released.group
        rw [groups] at groupEq
        exact ⟨released.unused, released.total, groupEq, released.links⟩
      · rw [validIno_congr (by exact super) ino]
        exact valid
      · rw [groups]
        exact group
  | false =>
      refine iff_of_false (fun released => ?_) (by simp)
      have unused := released.unused
      rw [if_neg (by simp)] at unused
      rw [used] at unused
      cases unused

/-- In the example all counts fit sixteen bits. -/
theorem twoFiles_narrow : (twoFiles.ns listEnv).Narrow := by
  intro ino
  simp only [Fs.ns, twoFiles]
  split
  · decide
  · split <;> decide

/-- `twoFiles` with the mode of the file 11 chosen. -/
def twoFilesOf (mode : Nat) : Fs (List Dirent) :=
  { twoFiles with
    inodeTab := Function.update twoFiles.inodeTab 11 { iMode := mode, iLinksCount := 1 } }

/-- A regular file is released. -/
theorem last_unlink_releases_regular :
    Released (twoFilesOf (LINUX_S_IFREG ||| 0o644))
      ((doUnlinkOnIno 2 [0x61] 11 (-1)).run (lib listEnv)
        (twoFilesOf (LINUX_S_IFREG ||| 0o644))).2 11 :=
  (last_unlink_releases_iff (by decide) (by decide) (by decide) (by decide)
    (by decide) (by decide) 2
    [0x61]).2.mpr (by decide)

/-- The mode of a FIFO. -/
def fifoMode : Nat := 0o010644

/-- Of a FIFO the last name goes and the count is 0, but the inode stays in use. -/
theorem last_unlink_keeps_fifo :
    let outcome := (doUnlinkOnIno 2 [0x61] 11 (-1)).run (lib listEnv) (twoFilesOf fifoMode)
    outcome.1 = 0 ∧ (outcome.2.ns listEnv).ents 2 =
      [⟨dotName, 2, EXT2_FT_DIR⟩, ⟨dotDotName, 2, EXT2_FT_DIR⟩, ⟨[0x62], 12, EXT2_FT_REG_FILE⟩] ∧
      (outcome.2.inodeTab 11).iLinksCount = 0 ∧ outcome.2.inodeMap 11 = true ∧
      ¬ Released (twoFilesOf fifoMode) outcome.2 11 := by
  refine ⟨by decide +kernel, by decide +kernel, by decide +kernel, by decide +kernel, ?_⟩
  intro released
  exact absurd released.unused (by decide +kernel)

end Kill

namespace Ns

/-- Every link count is the number of entries that name the inode, and what is named is in use. -/
structure CountsExact (ns : Ns) : Prop where
  narrow : ns.Narrow
  root : ns.valid EXT2_ROOT_INO = true
  alive : ∀ dir, ns.Reachable dir → ∀ entry ∈ ns.ents dir, ns.Alive entry.inode
  links : ∀ dir, ns.Reachable dir → ∀ entry ∈ ns.ents dir,
    ns.links entry.inode = ns.refs ns.reachableDirs entry.inode

/-- No entry names an inode that is not in use or has fewer links than names. -/
def CountsCover (ns : Ns) : Prop :=
  ∀ dir, ns.Reachable dir → ∀ entry ∈ ns.ents dir,
    ns.used entry.inode = true ∧ ns.refs ns.reachableDirs entry.inode ≤ ns.links entry.inode

variable {ns ns' : Ns} {dir ino : Nat} {name : Name}

/-- A reachable directory's number is in range. -/
theorem CountsExact.valid (counts : ns.CountsExact) (reachable : ns.Reachable dir) :
    ns.valid dir = true := by
  obtain rfl | ⟨above, aboveReachable, -, entry, inEnts, -, rfl⟩ :=
    Relation.ReflTransGen.cases_tail reachable
  · exact counts.root
  · exact (counts.alive above aboveReachable entry inEnts).1

/-- A reachable directory is among those listed. -/
theorem CountsExact.mem (counts : ns.CountsExact) (reachable : ns.Reachable dir) :
    dir ∈ ns.reachableDirs := by
  have valid := counts.valid reachable
  simp only [Ns.valid, Bool.and_eq_true, decide_eq_true_eq] at valid
  exact mem_reachableDirs.mpr ⟨valid.2, reachable⟩

/-- What can be reached depends on the entries for directories only. -/
structure SameTree (ns ns' : Ns) : Prop where
  count : ns'.inodesCount = ns.inodesCount
  kinds : ns'.isDir = ns.isDir
  sub : ∀ dir, (ns'.ents dir).Sublist (ns.ents dir)
  kept : ∀ dir, ∀ entry ∈ ns.ents dir, ns.isDir entry.inode = true → entry ∈ ns'.ents dir

/-- The same tree has the same edges. -/
theorem SameTree.edge (same : ns.SameTree ns') (sub : Nat) :
    ns'.Edge dir sub ↔ ns.Edge dir sub := by
  simp only [Edge, same.kinds]
  constructor
  · rintro ⟨isDir, entry, inEnts, named⟩
    exact ⟨isDir, entry, (same.sub dir).subset inEnts, named⟩
  · rintro ⟨isDir, entry, inEnts, proper, rfl⟩
    exact ⟨isDir, entry, same.kept dir entry inEnts isDir, proper, rfl⟩

/-- The same tree has the same reachable directories. -/
theorem SameTree.reachable (same : ns.SameTree ns') : ns'.Reachable dir ↔ ns.Reachable dir := by
  have edges : ns'.Edge = ns.Edge := by
    funext above sub
    exact propext (same.edge sub)
  rw [Reachable, Reachable, Inside, Inside, edges]

/-- And lists the same. -/
theorem SameTree.reachableDirs (same : ns.SameTree ns') : ns'.reachableDirs = ns.reachableDirs := by
  ext dir
  rw [mem_reachableDirs, mem_reachableDirs, same.reachable, same.count]

/-- Counts cover when they do for the reachable directories of the same tree. -/
theorem SameTree.cover (same : ns.SameTree ns')
    (covers : ∀ dir, ns.Reachable dir → ∀ entry ∈ ns'.ents dir, ns'.used entry.inode = true ∧
      ns'.refs ns.reachableDirs entry.inode ≤ ns'.links entry.inode) : ns'.CountsCover := by
  intro dir reachable entry inEnts
  rw [same.reachableDirs]
  exact covers dir (same.reachable.mp reachable) entry inEnts

/-- Exact counts cover. -/
theorem CountsExact.cover (counts : ns.CountsExact) : ns.CountsCover := by
  intro dir reachable entry inEnts
  exact ⟨(counts.alive dir reachable entry inEnts).2.1,
    (counts.links dir reachable entry inEnts).symm.le⟩

section Removed

variable {before after : List Dirent} {entry : Dirent} (counts : ns.CountsExact)
  (reachable : ns.Reachable dir) (split : ns.ents dir = before ++ entry :: after)
  (isFile : ns.isDir entry.inode = false)

include split isFile

/-- An entry of a file goes, and its inode is written with its mode. -/
theorem sameTree_remove (links : Nat) (used : Nat → Bool) :
    ns.SameTree
      { (ns.setEnts dir (before ++ after)).setInode entry.inode (ns.mode entry.inode) links with
      used := used } := by
  have sub : (before ++ after).Sublist (ns.ents dir) := by
    rw [split]
    exact List.Sublist.append (List.Sublist.refl _) (List.sublist_cons_self ..)
  refine ⟨rfl, ?_, ?_, ?_⟩
  · exact setInode_isDir_of_mode (ns.setEnts dir (before ++ after)) entry.inode links
  · intro other
    by_cases same : other = dir
    · subst same
      simpa using sub
    · simp [same]
  · intro other found inEnts isDir
    by_cases same : other = dir
    · subst same
      rw [split] at inEnts
      have different : found ≠ entry := by
        rintro rfl
        rw [isFile] at isDir
        cases isDir
      simp only [setInode_ents, setEnts_ents, Function.update_self]
      simp only [List.mem_append, List.mem_cons] at inEnts ⊢
      tauto
    · simpa [same] using inEnts

include counts reachable

/-- What is left names inodes in use whose counts cover the names, if the count was not lowered
by more than one and the inode is not released before its last name is gone. -/
theorem cover_remove {links : Nat} (enough : ns.links entry.inode ≤ links + 1) {used : Nat → Bool}
    (others : ∀ other, other ≠ entry.inode → used other = ns.used other)
    (own : ns.links entry.inode ≠ 1 → used entry.inode = true) :
    Ns.CountsCover
      { (ns.setEnts dir (before ++ after)).setInode entry.inode (ns.mode entry.inode) links
      with used := used } := by
  have member := counts.mem reachable
  have counted := counts.links dir reachable entry (by simp [split])
  refine (sameTree_remove split isFile links used).cover fun other otherReachable found inEnts => ?_
  have inOld : found ∈ ns.ents other :=
    ((sameTree_remove split isFile links used).sub other).subset inEnts
  have fewer := refs_remove found.inode member split
  have alive := counts.alive other otherReachable found inOld
  have oldLinks := counts.links other otherReachable found inOld
  have refsEq : Ns.refs { (ns.setEnts dir (before ++ after)).setInode entry.inode
    (ns.mode entry.inode)
      links with used := used } ns.reachableDirs found.inode =
      (ns.setEnts dir (before ++ after)).refs ns.reachableDirs found.inode := rfl
  rw [refsEq]
  by_cases same : found.inode = entry.inode
  · have named : 0 < (ns.setEnts dir (before ++ after)).refs ns.reachableDirs found.inode :=
      refs_pos (counts.mem otherReachable) inEnts
    rw [if_pos same.symm] at fewer
    simp only [same, setInode_links, Function.update_self] at *
    refine ⟨own (by omega), by omega⟩
  · rw [if_neg (Ne.symm same)] at fewer
    simp only [setInode_links, Function.update_of_ne same, setEnts_links]
    exact ⟨(others _ same).trans alive.2.1, by omega⟩

omit isFile in
/-- The entry is still there, but the count has been lowered. -/
theorem not_cover_lowered {links : Nat} (lowered : links < ns.links entry.inode)
    (used : Nat → Bool) :
    ¬ Ns.CountsCover { ns.setInode entry.inode (ns.mode entry.inode) links with used := used } := by
  intro cover
  have same : ns.SameTree { ns.setInode entry.inode
    (ns.mode entry.inode) links with used := used } :=
    ⟨rfl, setInode_isDir_of_mode ns entry.inode links, fun _ => List.Sublist.refl _,
      fun _ _ inEnts _ => inEnts⟩
  have inEnts : entry ∈ ns.ents dir := by simp [split]
  have covered := (cover dir (same.reachable.mpr reachable) entry inEnts).2
  rw [same.reachableDirs] at covered
  have counted := counts.links dir reachable entry inEnts
  have refsEq : Ns.refs { ns.setInode entry.inode (ns.mode entry.inode) links with used := used }
      ns.reachableDirs entry.inode = ns.refs ns.reachableDirs entry.inode := rfl
  rw [refsEq] at covered
  simp only [setInode_links, Function.update_self] at covered
  omega

end Removed

end Ns

section Failing

variable {δ : Type} {env : Env δ} {fs : Fs δ} {faults : List (Option Fault)}
    {dir ino : Nat} {name : Name}

/-- A failing read of an inode gives EIO and changes nothing. -/
theorem run_readInode_failed (failing : Fails faults 0) :
    (readInode ino).run (faultyLib env) (fs, faults) = (.error 1, (fs, faults.tail)) := by
  obtain ⟨fault, outcome⟩ := @faultyLib_failed δ _ env fs faults (.readInode ino) failing
    (fun fault => .error fault.code) (fun _ => rfl)
      (fun _ => rfl)
  rw [readInode, run_bind, run_lift, outcome]
  rfl

/-- A read that does not fail gives the table's inode. -/
theorem run_readInode_ok (ok : ¬ Fails faults 0) (valid : fs.validIno ino = true) :
    (readInode ino).run (faultyLib env) (fs, faults) =
    (.ok (fs.inodeTab ino), (fs, faults.tail)) := by
  rw [readInode, run_bind, run_lift, faultyLib_ok ok, lib_readInode]
  simp [ext2fsReadInode, valid]

/-- A failing write of an inode gives EIO and leaves the table. -/
theorem run_writeInode_failed (failing : Fails faults 0) (inode : Inode) :
    (writeInode ino inode).run (faultyLib env) (fs, faults) = (1, (fs, faults.tail)) := by
  obtain ⟨fault, outcome⟩ := @faultyLib_failed δ _ env fs faults (.writeInode ino inode) failing
    (fun fault => fault.code) (fun _ => rfl)
      (fun _ => rfl)
  rw [writeInode, run_bind, run_lift, outcome]
  simp [fault.nonzero]

/-- A write that does not fail updates the table. -/
theorem run_writeInode_ok (ok : ¬ Fails faults 0) (valid : fs.validIno ino = true) (inode : Inode) :
    (writeInode ino inode).run (faultyLib env) (fs, faults) =
      (0, ({ fs with inodeTab := Function.update fs.inodeTab ino inode }, faults.tail)) := by
  rw [writeInode, run_bind, run_lift, faultyLib_ok ok, lib_writeInode]
  simp [ext2fsWriteInode, valid]

/-- The name space, except that the inode has no links and may be out of use. -/
def Ns.Killed (ns : Ns) (ino mode : Nat) (next : Ns) : Prop :=
  ∃ used, (∀ other, other ≠ ino → used other = ns.used other) ∧
    next = { ns.setInode ino mode 0 with used := used }

/-- The bit of a killed inode is a matter of its own. -/
theorem Ns.Killed.setUsed {ns next : Ns} {mode : Nat} (killed : ns.Killed ino mode next)
    (inuse : Bool) :
    ns.Killed ino mode (next.setUsed ino inuse) := by
  obtain ⟨used, others, rfl⟩ := killed
  refine ⟨Function.update used ino inuse, fun other different => ?_, rfl⟩
  rw [Function.update_of_ne different, others other different]

/-- What `kill_file_by_inode` does after the inode is written stays within the inode. -/
theorem keeps_killed {before : Ns} {mode : Nat} (valid : before.valid ino = true) (isdir : Bool) :
    Keeps (faultyLib env) (fun state => before.Killed ino mode (state.1.ns env)) (do
      let _ ← lift (.blockIterateRelease ino)
      lift (.inodeAllocStats2 ino false isdir)
      lift (.unmarkInodeBitmap ino)) := by
  let inv : Fs δ → Prop := fun fs => before.Killed ino mode (fs.ns env)
  have validLater : ∀ fs : Fs δ, inv fs → (fs.ns env).valid ino = true := by
    rintro fs ⟨used, -, same⟩
    rw [same]
    exact valid
  have release : Keeps (faultyLib env)
    (fun state => inv state.1) (lift (.blockIterateRelease ino)) := by
    refine keeps_faulty (fun _ _ => rfl) fun fs killed => ?_
    obtain ⟨vol, super, released⟩ := lib_blockIterateRelease_eq env fs ino
    change before.Killed ino mode (Fs.ns env _)
    rw [released, ns_vol super]
    exact killed
  have stats : Keeps (faultyLib env)
    (fun state => inv state.1) (lift (.inodeAllocStats2 ino false isdir)) := by
    refine keeps_faulty (fun _ _ => rfl) fun fs killed => ?_
    change before.Killed ino mode ((fs.ext2fsInodeAllocStats2 ino false isdir).ns env)
    rw [ns_inodeAllocStats2 (validLater fs killed)]
    exact Ns.Killed.setUsed killed false
  have unmark : Keeps (faultyLib env)
    (fun state => inv state.1) (lift (.unmarkInodeBitmap ino)) := by
    refine keeps_faulty (fun _ _ => rfl) fun fs killed => ?_
    change before.Killed ino mode ((fs.ext2fsUnmarkInodeBitmap ino).ns env)
    rw [ns_unmarkInodeBitmap (validLater fs killed)]
    exact Ns.Killed.setUsed killed false
  exact keeps_bind release fun _ => keeps_bind stats fun _ => unmark

/-- Only the inode itself is written and released, whatever fails. -/
theorem leads_killFileByInode_faulty (valid : fs.validIno ino = true) (inode : Inode) :
    Leads (faultyLib env) (killFileByInode ino inode) (fun _ next =>
      next.1.ns env = fs.ns env ∨
        (fs.ns env).Killed ino inode.iMode (next.1.ns env)) (fs, faults) := by
  rw [killFileByInode, leads_bind]
  refine leads_faulty ?_ (by rintro _ _ ⟨⟩)
  rw [lib_time]
  dsimp only
  by_cases failing : Fails faults.tail 0
  · rw [leads_bind, Leads, run_writeInode_failed failing]
    exact .inl rfl
  · have validLater : fs.advance.validIno ino = true := valid
    have advanced : fs.advance.ns env = fs.ns env := ns_vol rfl
    rw [leads_bind, Leads, run_writeInode_ok failing validLater]
    dsimp only
    rw [if_neg (by simp)]
    generalize writtenEq : ({ inode with iLinksCount := 0, iDtime := env.time fs.vol.tick } :
      Inode) = written
    have killed : (fs.ns env).Killed ino inode.iMode
        (({ fs.advance with inodeTab := Function.update fs.advance.inodeTab ino written } : Fs
          δ).ns env) := by
      have wrote := @ns_writeInode δ env fs.advance ino written validLater
      simp only [ext2fsWriteInode, validLater, if_true] at wrote
      rw [wrote, advanced, ← writtenEq]
      exact ⟨(fs.ns env).used, fun _ _ => rfl, rfl⟩
    split
    · exact .inr killed
    · have validNs : (fs.ns env).valid ino = true := valid
      exact (keeps_killed validNs _ _ killed).mono fun _ _ => .inr

/-- What an unlink owes even when calls fail: no entry is left that names a dead inode, and if
the entry is still there, the failure is reported and the inode as it was. -/
structure UnlinkIntact (env : Env δ) (fs fs' : Fs δ) (rc : Errcode) (dir ino : Nat) : Prop where
  cover : (fs'.ns env).CountsCover
  refused : (fs'.ns env).ents dir = (fs.ns env).ents dir →
    rc ≠ 0 ∧ fs'.inodeTab ino = fs.inodeTab ino

/-- The call of `ext2fs_unlink` changes the directories only, and nothing when it fails. -/
theorem unlink_faulty_cases (dir : Nat) (name : Name) (ino : Nat) :
    ∃ rc mid, (faultyLib env).exec (.unlink dir name ino) (fs, faults) = (rc, (mid, faults.tail)) ∧
      mid.super = fs.super ∧ mid.inodeTab = fs.inodeTab ∧
      (Fails faults 0 → mid = fs) ∧
      (¬ Fails faults 0 → mid = (fs.ext2fsUnlink env dir name ino).2) := by
  by_cases failing : Fails faults 0
  · obtain ⟨fault, outcome⟩ := @faultyLib_failed δ _ env fs faults (.unlink dir name ino) failing
      (fun fault => fault.code) (fun _ => rfl)
      (fun _ => rfl)
    exact ⟨_, _, outcome, rfl, rfl, fun _ => rfl, absurd failing⟩
  · refine ⟨_, _, faultyLib_ok failing, ?_, ?_, fun fails => absurd fails failing, fun _ => rfl⟩
    all_goals
      simp only [lib, exec, ext2fsUnlink]
      split <;> rfl

section Cases

variable {mid : Fs δ} {rc : Errcode} (valid : fs.validIno ino = true)
  (isFile : LINUX_S_ISDIR (fs.inodeTab ino).iMode = false) (read : ¬ Fails faults 0)
  (unlinked : (faultyLib env).exec (.unlink dir name ino) (fs, faults.tail) =
    (rc, (mid, faults.tail.tail)))

include valid isFile read unlinked

/-- The last link: the outcome of `kill_file_by_inode` is not reported. -/
theorem run_doUnlinkOnIno_last (last : (fs.inodeTab ino).iLinksCount = 1) :
    (doUnlinkOnIno dir name ino (-1)).run (faultyLib env) (fs, faults) =
      (0, ((killFileByInode ino { fs.inodeTab ino with iLinksCount := 0 }).run (faultyLib env)
        (mid, faults.tail.tail)).2) := by
  have positive : (fs.inodeTab ino).iLinksCount > 0 := by omega
  have count : (((fs.inodeTab ino).iLinksCount + (-1 : Int)) % 2 ^ 16).toNat = 0 := by omega
  rw [doUnlinkOnIno, run_bind, run_readInode_ok read valid]
  dsimp only
  rw [if_neg (by simp [isFile]), if_pos positive, count, run_bind, run_lift, unlinked]
  dsimp only
  rw [if_pos (by decide), run_bind]
  rfl

/-- Other links are left: the inode is written with one link less. -/
theorem run_doUnlinkOnIno_more (more : 2 ≤ (fs.inodeTab ino).iLinksCount)
    (bound : (fs.inodeTab ino).iLinksCount < 2 ^ 16) :
    (doUnlinkOnIno dir name ino (-1)).run (faultyLib env) (fs, faults) =
      (writeInode ino { fs.inodeTab ino with iLinksCount := (fs.inodeTab ino).iLinksCount - 1 } >>=
        fun rc => pure (if rc ≠ 0 then EIO else 0)).run (faultyLib env)
          (mid, faults.tail.tail) := by
  have count : (((fs.inodeTab ino).iLinksCount + (-1 : Int)) % 2 ^ 16).toNat =
      (fs.inodeTab ino).iLinksCount - 1 := by omega
  have positive : (fs.inodeTab ino).iLinksCount > 0 := by omega
  have some : ¬ (fs.inodeTab ino).iLinksCount - 1 < 1 := by omega
  rw [doUnlinkOnIno, run_bind, run_readInode_ok read valid]
  dsimp only
  rw [if_neg (by simp [isFile]), if_pos positive, count, run_bind, run_lift, unlinked]
  dsimp only
  rw [if_neg some]

end Cases

/-- An unlink that takes the entry away is intact, whether the inode was written or not. -/
theorem intact_of_removed {fs' : Fs δ} {rc : Errcode} {before after : List Dirent} {entry : Dirent}
    (counts : (fs.ns env).CountsExact) (reachable : (fs.ns env).Reachable dir)
    (split : (fs.ns env).ents dir = before ++ entry :: after)
    (isFile : (fs.ns env).isDir entry.inode = false) (links : Nat) (used : Nat → Bool)
    (enough : (fs.ns env).links entry.inode ≤ links + 1)
    (others : ∀ other, other ≠ entry.inode → used other = (fs.ns env).used other)
    (own : (fs.ns env).links entry.inode ≠ 1 → used entry.inode = true)
    (same : fs'.ns env = { ((fs.ns env).setEnts dir (before ++ after)).setInode entry.inode
      ((fs.ns env).mode entry.inode) links with used := used }) :
    UnlinkIntact env fs fs' rc dir entry.inode where
  cover := same ▸ Ns.cover_remove counts reachable split isFile enough others own
  refused unchanged := by
    have lengths := congrArg List.length unchanged
    rw [same, split] at lengths
    simp at lengths

/-- Whatever fails, the unlink is intact, unless `ext2fs_unlink` itself fails. Then it is only if
the inode was not read, or still has other names and was not written either. -/
theorem unlink_intact_iff (lawful : env.dir.Lawful) (counts : (fs.ns env).CountsExact)
    (reachable : (fs.ns env).Reachable dir) (isDir : (fs.ns env).isDir dir = true)
    (found : ∃ fileType, ⟨name, ino, fileType⟩ ∈ (fs.ns env).ents dir)
    (isFile : (fs.ns env).isDir ino = false) (faults : List (Option Fault)) :
    let outcome := (doUnlinkOnIno dir name ino (-1)).run (faultyLib env) (fs, faults)
    UnlinkIntact env fs outcome.2.1 outcome.1 dir ino ↔
      Fails faults 0 ∨ ¬ Fails faults 1 ∨ (2 ≤ (fs.inodeTab ino).iLinksCount ∧ Fails faults 2) := by
  obtain ⟨fileType, inEnts⟩ := found
  have validDir := counts.valid reachable
  have alive := counts.alive dir reachable _ inEnts
  have valid : fs.validIno ino = true := alive.1
  have positive : 0 < (fs.inodeTab ino).iLinksCount := by
    change 0 < (fs.ns env).links ino
    rw [counts.links dir reachable _ inEnts]
    exact Ns.refs_pos (counts.mem reachable) inEnts
  have bound : (fs.inodeTab ino).iLinksCount < 2 ^ 16 := counts.narrow ino
  by_cases unread : Fails faults 0
  · rw [doUnlinkOnIno, run_bind, run_readInode_failed unread]
    exact iff_of_true ⟨counts.cover, fun _ => ⟨show EIO ≠ 0 by decide, rfl⟩⟩ (.inl unread)
  obtain ⟨rc, mid, unlinked, super, table, failed, removed⟩ :=
    @unlink_faulty_cases δ env fs faults.tail dir name ino
  rw [fails_tail] at failed removed
  have validMid : mid.validIno ino = true := by
    rw [validIno_congr super]
    exact valid
  -- the entry that goes is the first that matches, and it names the inode
  have matching : Dirent.matchesEntry name ino ⟨name, ino, fileType⟩ = true := by
    simp [Dirent.matchesEntry]
  obtain ⟨entry, before, after, -, matches', split, erased⟩ := List.exists_of_eraseP inEnts matching
  have own : entry.inode = ino := by
    simp only [Dirent.matchesEntry, Bool.and_eq_true, Bool.or_eq_true, beq_iff_eq] at matches'
    have nonzero : ino ≠ 0 := by
      rintro rfl
      simp [validIno] at valid
    exact matches'.2.resolve_left nonzero
  subst own
  have gone : ¬ Fails faults 1 → mid.ns env = (fs.ns env).setEnts dir (before ++ after) := by
    intro ok
    rw [removed ok, (@ext2fsUnlink_eq δ env fs entry.inode dir name lawful validDir
      isDir).2, erased]
  by_cases last : (fs.inodeTab entry.inode).iLinksCount = 1
  · have killed := @leads_killFileByInode_faulty δ env mid faults.tail.tail entry.inode validMid
      { fs.inodeTab entry.inode with iLinksCount := 0 }
    rw [run_doUnlinkOnIno_last valid isFile unread unlinked last]
    by_cases refused : Fails faults 1
    · refine iff_of_false (fun intact => ?_) (by simp [unread, refused, last])
      refine (intact.refused ?_).1 rfl
      rw [failed refused] at killed ⊢
      obtain same | ⟨used, -, same⟩ := killed
      · rw [same]
      · rw [same]
        rfl
    · refine iff_of_true ?_ (.inr (.inl refused))
      rw [Leads, gone refused] at killed
      obtain same | ⟨used, others, same⟩ := killed
      · refine intact_of_removed counts reachable split isFile ((fs.ns env).links entry.inode)
          (fs.ns env).used (by omega) (fun _ _ => rfl) (fun _ => alive.2.1) ?_
        rw [same]
        exact (Ns.setInode_self _ _).symm
      · exact intact_of_removed counts reachable split isFile 0 used last.le others
          (fun more => absurd last more) same
  · have more : 2 ≤ (fs.inodeTab entry.inode).iLinksCount := by omega
    have linksEq : (fs.ns env).links entry.inode = (fs.inodeTab entry.inode).iLinksCount := rfl
    rw [run_doUnlinkOnIno_more valid isFile unread unlinked more bound, run_bind]
    by_cases unwritten : Fails faults 2
    · have failing : Fails faults.tail.tail 0 := by
        rw [fails_tail, fails_tail]
        exact unwritten
      rw [run_writeInode_failed failing]
      refine iff_of_true ?_ ?_
      · by_cases refused : Fails faults 1
        · obtain rfl := failed refused
          exact ⟨counts.cover, fun _ => ⟨show EIO ≠ 0 by decide, rfl⟩⟩
        · refine intact_of_removed counts reachable split isFile ((fs.ns env).links entry.inode)
            (fs.ns env).used (by omega) (fun _ _ => rfl) (fun _ => alive.2.1) ?_
          exact (gone refused).trans (Ns.setInode_self _ _).symm
      · exact .inr (.inr ⟨more, unwritten⟩)
    · have ok : ¬ Fails faults.tail.tail 0 := by
        rw [fails_tail, fails_tail]
        exact unwritten
      have written := @ns_writeInode δ env mid entry.inode
        { fs.inodeTab entry.inode with iLinksCount := (fs.inodeTab entry.inode).iLinksCount - 1 }
          validMid
      simp only [ext2fsWriteInode, validMid, if_true] at written
      rw [run_writeInode_ok ok validMid]
      by_cases refused : Fails faults 1
      · refine iff_of_false (fun intact => ?_) (by simp [unread, refused, unwritten])
        have cover := intact.cover
        dsimp only [run_pure] at cover
        rw [written, failed refused] at cover
        exact Ns.not_cover_lowered counts reachable split (by omega) (fs.ns env).used cover
      · refine iff_of_true ?_ (.inr (.inl refused))
        refine intact_of_removed counts reachable split isFile ((fs.ns env).links entry.inode - 1)
          (fs.ns env).used (by omega) (fun _ _ => rfl) (fun _ => alive.2.1) ?_
        dsimp only [run_pure]
        rw [written, gone refused]
        rfl

/-- In a directory that has nothing but names of one file, every count is exact. -/
theorem countsExact_linkedFs (count : Nat) (narrow : count < 2 ^ 16) :
    ((linkedFs count).ns listEnv).CountsExact := by
  have consistent := linkedFs_consistent count narrow
  have onlyRoot : ∀ dir, ((linkedFs count).ns listEnv).Reachable dir → dir = EXT2_ROOT_INO :=
    fun _ => (linkedFs_flat count narrow).reachable
  have dirs : ((linkedFs count).ns listEnv).reachableDirs = {2} := by
    ext dir
    rw [Ns.mem_reachableDirs, Finset.mem_singleton]
    constructor
    · exact fun reachable => onlyRoot dir reachable.2
    · rintro rfl
      exact ⟨show 2 ≤ 16 by decide, .refl⟩
  refine ⟨consistent.narrow, linkedFs_root.1.1, consistent.alive, ?_⟩
  intro dir reachable entry inEnts
  rw [onlyRoot dir reachable] at inEnts
  rw [dirs, Ns.refs, Finset.sum_singleton]
  obtain rfl | rfl | ⟨index, -, rfl⟩ := mem_linkedFs inEnts
  · rw [countP_linkedFs false (by simp)]
    rfl
  · rw [countP_linkedFs false (by simp)]
    rfl
  · rw [linkedFs_file.2.2, countP_linkedFs true (by simp)]
    simp

/-- The code of a failing device. -/
def ioFault : Fault := ⟨ EIO, by decide, false⟩

/-- Of two names of a file one is not removed, and the count is not lowered either. -/
theorem unlink_intact_twice :
    let outcome := (doUnlinkOnIno 2 (letters 0) 11 (-1)).run (faultyLib listEnv)
      (linkedFs 2, [none, some ioFault, some ioFault])
    outcome.1 = EIO ∧ UnlinkIntact listEnv (linkedFs 2) outcome.2.1 outcome.1 2 11 := by
  intro outcome
  refine ⟨by decide +kernel, ?_⟩
  exact (unlink_intact_iff listDir_lawful (countsExact_linkedFs 2 (by decide)) .refl linkedFs_root.2
    ⟨EXT2_FT_REG_FILE, by decide⟩ linkedFs_file.2.1 [none, some ioFault, some ioFault]).mpr
      (.inr (.inr ⟨by decide, ioFault, rfl⟩))

/-- `ext2fs_unlink` fails for the only name of a file: the file is killed, its name stays and
`do_unlink_on_ino` reports success. -/
theorem unlink_kills_named_file :
    ((linkedFs 1).ns listEnv).CountsExact ∧
    let outcome := (doUnlinkOnIno 2 (letters 0) 11 (-1)).run (faultyLib listEnv)
      (linkedFs 1, [none, some ioFault])
    outcome.1 = 0 ∧ (outcome.2.1.ns listEnv).ents 2 = ((linkedFs 1).ns listEnv).ents 2 ∧
      outcome.2.1.inodeMap 11 = false ∧ (outcome.2.1.inodeTab 11).iLinksCount = 0 ∧
      ¬ UnlinkIntact listEnv (linkedFs 1) outcome.2.1 outcome.1 2 11 := by
  have stays : (((doUnlinkOnIno 2 (letters 0) 11 (-1)).run (faultyLib listEnv)
      (linkedFs 1, [none, some ioFault])).2.1.ns listEnv).ents 2 =
        ((linkedFs 1).ns listEnv).ents 2 := by
    decide +kernel
  refine ⟨countsExact_linkedFs 1 (by decide), by decide +kernel, stays, by decide +kernel,
    by decide +kernel, fun intact => ?_⟩
  exact (intact.refused stays).1 (by decide +kernel)

end Failing

end Ext2Fuse
