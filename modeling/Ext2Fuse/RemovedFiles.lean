import Ext2Fuse.FileIsolation
import Ext2Fuse.KilledBlocks
import Ext2Fuse.Callers

/-!
# Files removed among open ones

`kill_file_by_inode` releases the blocks of its inode as long as the cache of the channel has the
indirect blocks when they are read again. The blocks of the other files and what their handles see
stay; and the killed inode has no blocks any more, whether it was released or is kept for its kind
or its size.
-/

namespace Ext2Fuse

open Lib Program Volume

theorem Inode.sameFile_lowerLinks (inode : Inode) : inode.SameFile inode.lowerLinks := by
  rw [lowerLinks]
  exact ⟨rfl, rfl, rfl, rfl, rfl, rfl⟩

section Shedding

variable {vol vol' : Volume} {pointers : Nat → Nat → Nat} {ino : Nat}

/-- Forgetting the pointers of a file. -/
theorem sheds_nothing (vol : Volume) (pointers : Nat → Nat → Nat) (ino : Nat) :
    Sheds vol vol pointers ino (fun _ => 0) [] where
  super := rfl
  among blk member := absurd member List.not_mem_nil
  outside _ _ := rfl
  blockMap blk := by simp
  roots _ := .inl rfl
  inner visit _ _ _ index _ := by simp
  tidy := id

/-- Releasing all blocks of a file. -/
theorem ReleasedAll.sheds {log log' : List Nat}
    (released : ReleasedAll vol vol' log log' (inodePreorder vol (pointers ino))) :
    Sheds vol vol' pointers ino
      (fun _ => 0) ((inodePreorder vol (pointers ino)).map Visit.block) := by
  have same : (inodePreorder vol (pointers ino)).Perm (vol.inodeVisits (pointers ino)) :=
    entryPreorder_perm
  refine ⟨released.super, fun blk member => ?_, fun blk untouched => ?_, released.blockMap,
    fun _ => .inl rfl, fun visit member _ kept => ?_, released.tidy⟩
  · obtain ⟨visit, inTree, rfl⟩ := List.mem_map.mp member
    exact ⟨visit, same.mem_iff.mp inTree, rfl⟩
  · exact released.io blk fun visit member => untouched visit (same.mem_iff.mp member)
  · exact absurd (List.mem_map_of_mem (same.mem_iff.mpr member)) kept

end Shedding

namespace Fs

variable {δ : Type} {env : Env δ} {fs fs' : Fs δ} {pointers pointers' : Nat → Nat → Nat} {ino : Nat}
  {fh : File}

/-- The iteration of `kill_file_by_inode`: all blocks of the inode are released, or none for its
size. -/
theorem blockIterateRelease_spares (valid : fs.validIno ino = true)
    (forest : Forest fs.vol (places pointers)) (own : pointers ino = (fs.inodeTab ino).iBlock)
    (held : cachedThrough env.cached fs.vol.tick
      (inodePreorder fs.vol (fs.inodeTab ino).iBlock) = true) :
    ∃ vol, ((lib env).exec (.blockIterateRelease ino) fs).2 = { fs with vol := vol } ∧
      Spares ino fs.vol vol pointers (Function.update pointers ino fun _ => 0) := by
  have readable : fs.ext2fsReadInode ino = .ok (fs.inodeTab ino) := by
    rw [ext2fsReadInode, if_pos valid]
  have same := congrArg (fun outcome => outcome.2.2)
    (@ext2fsBlockIterate2_forget δ Unit (List Nat) {} _ _
    (releaseBlocksLogged_forgets env.cached) fs ino true () [])
  change ∃ vol, (fs.ext2fsBlockIterate2 ino true {} _ ()).2.2 = _ ∧ _
  rw [← same, ext2fsBlockIterate2, readable]
  dsimp only
  split
  · exact ⟨fs.vol, rfl, (sheds_nothing fs.vol pointers ino).spares forest⟩
  · have quiet : ∀ (vol : Volume) (blk : Nat) (count : Int) (priv : Unit × List Nat),
        (releaseBlocksLogged env.cached vol blk (toInt32 count) priv).1.changed = false :=
      fun _ _ _ _ => rfl
    rw [iterateBlocks_unchanged quiet]
    rw [← own] at held ⊢
    obtain ⟨-, released⟩ := (iterateBlocks_releases env.cached fs.vol (pointers ino) []
      (forest.treesApart ino)).releases held
    exact ⟨_, rfl, released.sheds.spares forest⟩

/-- The inode has no blocks any more, and nothing else has changed but what the blocks were. -/
structure Killed (ino : Nat) (fs fs' : Fs δ) (pointers : Nat → Nat → Nat) : Prop where
  spares : Spares ino fs.vol fs'.vol pointers (Function.update pointers ino fun _ => 0)
  gone : fs'.ownsBlocks ino = false
  inodeMap : ∀ other, other ≠ ino → fs'.inodeMap other = fs.inodeMap other
  others : ∀ other, other ≠ ino → fs'.inodeTab other = fs.inodeTab other

/-- The blocks and the number of an inode are given up, in the state where it has been written
back. -/
theorem killed_released {later : Fs δ} {vol : Volume} {isdir : Bool}
    (valid : fs.validIno ino = true)
    (released : ((lib env).exec (.blockIterateRelease ino) later).2 = { later with vol := vol })
    (spares : Spares ino fs.vol vol pointers (Function.update pointers ino fun _ => 0))
    (others : ∀ other, other ≠ ino → later.inodeTab other = fs.inodeTab other)
    (inodeMap : later.inodeMap = fs.inodeMap) :
    Killed ino fs
      (((lib env).exec (.unmarkInodeBitmap ino) ((lib env).exec (.inodeAllocStats2 ino false isdir)
      ((lib env).exec (.blockIterateRelease ino) later).2).2).2) pointers := by
  rw [released]
  have valid' : ({ later with vol := vol } : Fs δ).validIno ino = true :=
    (@validIno_congr δ fs { later with vol := vol } spares.super ino).trans valid
  have cleared : ((({ later with vol := vol } : Fs δ).ext2fsInodeAllocStats2 ino false
    isdir).ext2fsUnmarkInodeBitmap
      ino).inodeMap = Function.update fs.inodeMap ino false := by
    change (if ({ later with vol := vol } : Fs δ).validIno ino then
      Function.update (if ({ later with vol := vol } : Fs δ).validIno ino then
        Function.update later.inodeMap ino false else later.inodeMap) ino false else _) = _
    rw [if_pos valid', if_pos valid', Function.update_idem, inodeMap]
  refine ⟨spares, ?_, fun other apart => ?_, others⟩
  · have freed := (congrFun cleared ino).trans (Function.update_self ..)
    exact (congrArg (_ && · && _) freed).trans (by rw [Bool.and_false, Bool.false_and])
  · exact (congrFun cleared other).trans (Function.update_of_ne apart _ _)

/-- `kill_file_by_inode` of an inode in use. -/
theorem killFileByInode_killed (valid : fs.validIno ino = true)
    (forest : Forest fs.vol (places pointers))
    (own : pointers ino = fs.pointers ino) (used : fs.inodeMap ino = true) {inode : Inode}
    (same : (fs.inodeTab ino).SameFile inode)
    (held : cachedThrough env.cached (fs.vol.tick + 1)
      (inodePreorder fs.vol (pointers ino)) = true) :
    Leads (lib env) (killFileByInode ino inode) (fun _ fs' => Killed ino fs fs' pointers) fs := by
  have validLater : fs.advance.validIno ino = true := valid
  have forestLater : Forest fs.advance.vol (places pointers) :=
    ⟨⟨forest.sound.1, forest.sound.2, forest.sound.3⟩, forest.planted⟩
  rw [Leads, killFileByInode, run_bind, run_lift, lib_time]
  dsimp only
  rw [run_bind, run_writeInode validLater]
  dsimp only
  rw [if_neg (by simp)]
  have kind : ∀ now, ext2fsInodeHasValidBlocks { inode with iLinksCount := 0, iDtime := now } =
      ext2fsInodeHasValidBlocks (fs.inodeTab ino) := fun now => same.hasValidBlocks
  rw [kind]
  generalize env.time fs.vol.tick = now
  have spared : Spares ino fs.vol fs.advance.vol pointers pointers :=
    ⟨rfl, forestLater, fun _ _ => rfl, fun _ _ _ _ => rfl, fun _ _ _ _ => rfl,
      fun tidy => tidy.congr rfl rfl rfl⟩
  cases blocks : ext2fsInodeHasValidBlocks (fs.inodeTab ino) with
  | false =>
      refine ⟨spared.trans ((sheds_nothing _ pointers ino).spares forestLater), ?_, fun _ _ => rfl,
        fun other apart => Function.update_of_ne apart _ _⟩
      have written : ext2fsInodeHasValidBlocks (Function.update fs.advance.inodeTab ino
          { inode with iLinksCount := 0, iDtime := now } ino) = false := by
        rw [Function.update_self, kind, blocks]
      rw [ownsBlocks]
      exact (congrArg _ written).trans (Bool.and_false _)
  | true =>
      rw [if_neg (by simp), run_bind, run_lift]
      have pointed : pointers ino = (fs.inodeTab ino).iBlock := by
        rw [own, Fs.pointers, ownsBlocks, valid, used, blocks]
        rfl
      have readBack : (Function.update fs.inodeTab ino
        { inode with iLinksCount := 0, iDtime := now } ino).iBlock =
          pointers ino := by
        rw [Function.update_self, pointed]
        exact same.iBlock
      obtain ⟨vol, released, spares⟩ := @blockIterateRelease_spares δ env { fs.advance with
        inodeTab := Function.update fs.inodeTab ino
          { inode with iLinksCount := 0, iDtime := now } } pointers ino
        valid forestLater readBack.symm (by rw [readBack]; exact held)
      exact killed_released valid released (spared.trans spares)
        (fun other apart => Function.update_of_ne apart _ _) rfl

/-- The blocks are the same and the inodes are those of the same files. -/
structure SameFiles (fs fs' : Fs δ) : Prop where
  vol : fs'.vol = fs.vol
  inodeMap : fs'.inodeMap = fs.inodeMap
  inodes : ∀ ino, (fs.inodeTab ino).SameFile (fs'.inodeTab ino)

/-- Removing an entry of a directory. -/
theorem sameFiles_unlink (env : Env δ) (fs : Fs δ) (dir : Nat) (name : Name) (ino : Nat) :
    SameFiles fs (fs.ext2fsUnlink env dir name ino).2 := by
  rw [ext2fsUnlink]
  split <;> exact ⟨rfl, rfl, fun other => .refl _⟩

/-- Writing an inode of the same file. -/
theorem sameFiles_writeInode {inode : Inode} (same : (fs.inodeTab ino).SameFile inode) :
    SameFiles fs (fs.ext2fsWriteInode ino inode).2 := by
  rw [ext2fsWriteInode]
  split
  · refine ⟨rfl, rfl, fun other => ?_⟩
    by_cases own : other = ino
    · subst own
      dsimp only
      rwa [Function.update_self]
    · dsimp only
      rw [Function.update_of_ne own]
      exact .refl _
  · exact ⟨rfl, rfl, fun other => .refl _⟩

/-- The same inodes own blocks. -/
theorem SameFiles.ownsBlocks (same : SameFiles fs fs') (ino : Nat) :
    fs'.ownsBlocks ino = fs.ownsBlocks ino := by
  rw [Fs.ownsBlocks, Fs.ownsBlocks, same.inodeMap, (same.inodes ino).hasValidBlocks,
    validIno_congr (congrArg Volume.super same.vol)]

/-- And point to the same ones. -/
theorem SameFiles.pointers_eq (same : SameFiles fs fs') (ino : Nat) :
    fs'.pointers ino = fs.pointers ino := by
  rw [Fs.pointers, Fs.pointers, same.ownsBlocks, (same.inodes ino).iBlock]

end Fs

namespace OpenFiles

open Fs

variable {δ : Type} {env : Env δ} {files : OpenFiles δ} {fs' : Fs δ} {ino : Nat}

/-- Something is done to the filesystem past the handles. -/
def withFs (files : OpenFiles δ) (fs : Fs δ) : OpenFiles δ := { files with fs := fs }

/-- The handles are kept, and no block is left unwiped. -/
structure InOrder (files : OpenFiles δ) : Prop where
  wellKept : files.WellKept
  tidy : files.fs.vol.Tidy

/-- The handles are kept when nothing of their files has moved. -/
theorem WellKept.stays (wellKept : files.WellKept)
    (forest : Forest fs'.vol (places (files.withFs fs').pointers))
    (unmoved : ∀ ino fh, files.handles ino = some fh →
      Unmoved ino files.fs fs' files.pointers (files.withFs fs').pointers)
    (sizes : ∀ ino, files.handles ino = none → fs'.RegularFile ino →
      files.fs.RegularFile ino ∧ (files.fs.inodeTab ino).SameFile (fs'.inodeTab ino))
    (super : fs'.super = files.fs.super) : (files.withFs fs').WellKept := by
  refine ⟨forest, fun ino fh held => (wellKept.handles ino fh held).unmoved (unmoved ino fh held),
    fun ino unheld file => ?_⟩
  obtain ⟨before, same⟩ := sizes ino unheld file
  change (fs'.inodeTab ino).ext2ISize ≤ fs'.reach
  rw [reach_congr super, same.ext2ISize]
  exact wellKept.sizes ino unheld before

/-- Links, times and directories make no difference. -/
theorem InOrder.relinked (inOrder : files.InOrder) (same : SameFiles files.fs fs') :
    (files.withFs fs').InOrder := by
  obtain ⟨wellKept, tidy⟩ := inOrder
  have pointers : (files.withFs fs').pointers = files.pointers := by
    funext ino
    rw [OpenFiles.pointers, OpenFiles.pointers]
    change pointersBy fs' ino (files.handles ino) = _
    cases files.handles ino with
    | some fh => rfl
    | none => exact same.pointers_eq ino
  have forest : Forest fs'.vol (places (files.withFs fs').pointers) := by
    rw [pointers, same.vol]
    exact wellKept.apart
  refine ⟨wellKept.stays forest (fun ino fh held => ?_)
    (fun ino unheld file => ⟨⟨?_, ?_, ?_⟩, same.inodes ino⟩)
    (congrArg Volume.super same.vol), ?_⟩
  · refine ⟨congrArg Volume.super same.vol, forest, congrFun same.inodeMap ino, same.inodes ino,
      congrFun pointers ino, fun block _ => ?_, fun block _ => ?_⟩
    · rw [pointers, same.vol]
    · rw [pointers, same.vol]
  · exact (validIno_congr (congrArg Volume.super same.vol) ino).symm.trans file.valid
  · exact (congrFun same.inodeMap ino).symm.trans file.inUse
  · rw [← (same.inodes ino).iMode]
    exact file.regular
  · exact same.vol ▸ tidy

/-- `kill_file_by_inode` of an inode in use that no handle is open on. -/
theorem InOrder.killed (inOrder : files.InOrder) (unheld : files.handles ino = none)
    (valid : files.fs.validIno ino = true) (used : files.fs.inodeMap ino = true) {inode : Inode}
    (same : (files.fs.inodeTab ino).SameFile inode)
    (reread : cachedThrough env.cached (files.fs.vol.tick + 1)
      (inodePreorder files.fs.vol (files.fs.pointers ino)) = true) :
    Leads (lib env) (killFileByInode ino inode)
      (fun _ fs' => (files.withFs fs').InOrder) files.fs := by
  obtain ⟨wellKept, tidy⟩ := inOrder
  have own : files.pointers ino = files.fs.pointers ino := by
    rw [OpenFiles.pointers, unheld]
    rfl
  rw [← own] at reread
  refine (killFileByInode_killed valid wellKept.apart own used same reread).mono
    fun _ fs' killed => ?_
  obtain ⟨spares, gone, inodeMap, others⟩ := killed
  have otherBlocks : ∀ other, other ≠ ino → fs'.ownsBlocks other = files.fs.ownsBlocks other := by
    intro other apart
    rw [Fs.ownsBlocks, Fs.ownsBlocks, validIno_congr spares.super, inodeMap other apart,
      others other apart]
  have pointers : (files.withFs fs').pointers = Function.update files.pointers ino fun _ => 0 := by
    funext other
    rw [OpenFiles.pointers, Function.update_apply, OpenFiles.pointers]
    change pointersBy fs' other (files.handles other) = _
    by_cases same : other = ino
    · subst same
      rw [if_pos rfl, unheld]
      change Fs.pointers fs' other = _
      rw [Fs.pointers, gone]
      rfl
    · rw [if_neg same]
      cases files.handles other with
      | some fh => rfl
      | none =>
          change Fs.pointers fs' other = Fs.pointers files.fs other
          rw [Fs.pointers, Fs.pointers, otherBlocks other same, others other same]
  have forest : Forest fs'.vol (places (files.withFs fs').pointers) := by
    rw [pointers]
    exact spares.forest
  refine ⟨wellKept.stays forest (fun other fh held => ?_)
    (fun other unheld file => ?_) spares.super, spares.tidy tidy⟩
  · have apart : other ≠ ino := by
      rintro rfl
      rw [unheld] at held
      cases held
    rw [pointers] at forest ⊢
    refine ⟨spares.super, forest, inodeMap other apart, ?_, spares.others other apart,
      fun block small => spares.mapped other block apart small,
      fun block small => spares.contents other block apart small⟩
    rw [others other apart]
    exact .refl _
  · have apart : other ≠ ino := by
      rintro rfl
      rw [Fs.ownsBlocks, file.valid, file.inUse, regular_hasBlocks file.regular] at gone
      cases gone
    rw [others other apart]
    refine ⟨⟨(validIno_congr spares.super other).symm.trans file.valid,
      (inodeMap other apart).symm.trans file.inUse, ?_⟩, .refl _⟩
    rw [← others other apart]
    exact file.regular

/-- The cache of the channel has the indirect blocks of the inode when they are read again after
they were wiped. -/
def Reread (env : Env δ) (fs : Fs δ) (ino : Nat) : Prop :=
  cachedThrough env.cached (fs.vol.tick + 1) (inodePreorder fs.vol (fs.pointers ino)) = true

theorem Reread.relinked {fs : Fs δ} (reread : Reread env fs ino) (same : SameFiles fs fs') :
    Reread env fs' ino := by
  rw [Reread, same.vol, same.pointers_eq]
  exact reread

/-- An inode with another number of links is written. -/
theorem InOrder.writeInode (inOrder : files.InOrder) {inode : Inode}
    (same : (files.fs.inodeTab ino).SameFile inode) :
    Leads (lib env) (Ext2Fuse.writeInode ino inode)
      (fun _ fs' => (files.withFs fs').InOrder) files.fs := by
  rw [Ext2Fuse.writeInode, leads_bind, leads_lift]
  exact inOrder.relinked (sameFiles_writeInode same)

/-- `op_unlink`. -/
theorem InOrder.opUnlink (inOrder : files.InOrder) (ctx : FuseCtx) {parent : Nat} {name : Name}
    (used : ∀ ino, files.fs.ext2fsLookup env (EXT2FS_INO parent) name = .ok ino →
      files.fs.inodeMap ino = true)
    (last : ∀ ino, files.fs.ext2fsLookup env (EXT2FS_INO parent) name = .ok ino →
      (files.fs.inodeTab ino).iLinksCount % 2 ^ 16 ≤ 1 → files.handles ino = none ∧
      Reread env files.fs ino) :
    Leads (lib env) (Ext2Fuse.opUnlink ctx parent name)
      (fun _ fs' => (files.withFs fs').InOrder) files.fs := by
  rw [Ext2Fuse.opUnlink, leads_bind, Leads, run_checkPerms]
  dsimp only
  rw [if_neg (by simp), leads_bind, doUnlink]
  refine leads_lift_bind fun found later outcome => ?_
  obtain ⟨rfl, rfl⟩ := Prod.mk.inj outcome
  cases found : files.fs.ext2fsLookup env (EXT2FS_INO parent) name with
  | error rc => exact inOrder
  | ok ino =>
      dsimp only
      rw [doUnlinkOnIno, leads_bind]
      by_cases valid : files.fs.validIno ino = true
      · rw [Leads, run_readInode valid]
        dsimp only
        split
        · exact inOrder
        -- the inode that is killed or written back has other links at most
        obtain ⟨inode, inodeEq⟩ : ∃ inode : Inode,
          inode = if (files.fs.inodeTab ino).iLinksCount > 0 then
          { files.fs.inodeTab ino with
            iLinksCount := (((files.fs.inodeTab ino).iLinksCount + (-1 : Int)) % 2 ^ 16).toNat }
          else files.fs.inodeTab ino := ⟨_, rfl⟩
        have same : (files.fs.inodeTab ino).SameFile inode := by
          rw [inodeEq]
          split <;> exact ⟨rfl, rfl, rfl, rfl, rfl, rfl⟩
        have few : inode.iLinksCount < 1 → (files.fs.inodeTab ino).iLinksCount % 2 ^ 16 ≤ 1 := by
          rw [inodeEq]
          split
          · dsimp only
            omega
          · omega
        rw [← inodeEq, leads_bind, leads_lift]
        change Leads (lib env) _ _ (files.fs.ext2fsUnlink env (EXT2FS_INO parent) name ino).2
        have moved := sameFiles_unlink env files.fs (EXT2FS_INO parent) name ino
        generalize (files.fs.ext2fsUnlink env (EXT2FS_INO parent) name ino).2 = fs₁ at moved
        have before := inOrder.relinked moved
        have stillSame : (fs₁.inodeTab ino).SameFile inode := (moved.inodes ino).symm.trans same
        split
        · rename_i none
          obtain ⟨unheld, reread⟩ := last ino found (few none)
          have stillValid := (validIno_congr (congrArg Volume.super moved.vol) ino).trans valid
          have stillUsed := (congrFun moved.inodeMap ino).trans (used ino found)
          rw [leads_bind]
          exact before.killed unheld stillValid stillUsed stillSame (reread.relinked moved)
        · rw [leads_bind]
          exact before.writeInode stillSame
      · rw [Leads, run_readInode_invalid valid]
        exact inOrder

/-- `op_rmdir`. -/
theorem InOrder.opRmdir (inOrder : files.InOrder) (ctx : FuseCtx) {parent : Nat} {name : Name}
    (used : ∀ ino, files.fs.ext2fsLookup env (EXT2FS_INO parent) name = .ok ino →
      files.fs.inodeMap ino = true)
    (reread : ∀ ino, files.fs.ext2fsLookup env (EXT2FS_INO parent) name = .ok ino →
      Reread env files.fs ino) :
    Leads (lib env) (Ext2Fuse.opRmdir ctx parent name)
      (fun _ fs' => (files.withFs fs').InOrder) files.fs := by
  rw [Ext2Fuse.opRmdir, leads_bind, Leads, run_checkPerms]
  dsimp only
  rw [if_neg (by simp), leads_bind, doRmdir]
  refine leads_lift_bind fun found later outcome => ?_
  obtain ⟨rfl, rfl⟩ := Prod.mk.inj outcome
  cases found : files.fs.ext2fsLookup env (EXT2FS_INO parent) name with
  | error rc => exact inOrder
  | ok ino =>
      dsimp only
      rw [doRmdirOnIno, leads_bind]
      by_cases valid : files.fs.validIno ino = true
      · rw [Leads, run_readInode valid]
        dsimp only
        split
        · exact inOrder
        split
        · exact inOrder
        rename_i isDir
        rw [leads_bind, leads_lift]
        split
        · exact inOrder
        split
        · exact inOrder
        rw [leads_bind, leads_lift]
        change Leads (lib env) _ _ (files.fs.ext2fsUnlink env (EXT2FS_INO parent) name ino).2
        have moved := sameFiles_unlink env files.fs (EXT2FS_INO parent) name ino
        generalize (files.fs.ext2fsUnlink env (EXT2FS_INO parent) name ino).2 = fs₁ at moved
        have before := inOrder.relinked moved
        split
        · exact before
        -- only regular files are open
        have unheld : files.handles ino = none := by
          refine Option.eq_none_iff_forall_ne_some.mpr fun fh held => ?_
          have regular := (inOrder.wellKept.handles ino fh held).disk.regular
          simp only [LINUX_S_ISREG, LINUX_S_ISDIR, hasType, beq_iff_eq, Bool.not_eq_true',
            beq_eq_false_iff_ne, not_not] at regular isDir
          rw [regular] at isDir
          rw [LINUX_S_IFREG, LINUX_S_IFDIR] at isDir
          omega
        have stillValid := (validIno_congr (congrArg Volume.super moved.vol) ino).trans valid
        have stillUsed := (congrFun moved.inodeMap ino).trans (used ino found)
        rw [leads_bind]
        refine (before.killed unheld stillValid stillUsed (moved.inodes ino).symm
          ((reread ino found).relinked moved)).mono fun _ fs₂ killed => ?_
        split
        · exact killed
        rw [leads_bind]
        by_cases parentValid : fs₂.validIno (EXT2FS_INO parent) = true
        · rw [Leads, run_readInode parentValid]
          dsimp only
          refine killed.writeInode ?_
          change (fs₂.inodeTab (EXT2FS_INO parent)).SameFile _
          generalize fs₂.inodeTab (EXT2FS_INO parent) = parentInode
          split
          · exact Inode.sameFile_lowerLinks _
          · exact .refl _
        · rw [Leads, run_readInode_invalid parentValid]
          exact killed
      · rw [Leads, run_readInode_invalid valid]
        exact inOrder

theorem setHandle_none (unheld : files.handles ino = none) :
    files.setHandle fs' ino none = files.withFs fs' := by
  rw [setHandle, ← unheld, Function.update_eq_self]
  rfl

/-- Closing a handle that has nothing to write back. -/
theorem run_doFileClose_clean {fs : Fs δ} {fh : File} (clean : fh.bufValid = false) :
    ((doFileClose fh).run (lib env) fs).2 = fs := by
  have flushed : fs.ext2fsFileFlush fh = (0, fh, fs) := by
    rw [ext2fsFileFlush, clean]
    rfl
  rw [doFileClose, run_bind, run_lift, lib_fileFlush flushed]
  rfl

/-- What a file that no handle is open on has come to. -/
theorem InOrder.aside (inOrder : files.InOrder) (unheld : files.handles ino = none)
    (size : (fs'.inodeTab ino).ext2ISize ≤ fs'.reach)
    (beside : Beside ino files.fs fs' files.pointers
      (Function.update files.pointers ino (fs'.pointers ino))) :
    (files.withFs fs').InOrder := by
  obtain ⟨after, -⟩ := inOrder.wellKept.turn none beside nofun fun _ _ => size
  rw [setHandle_none unheld] at after
  exact ⟨after, beside.spares.tidy inOrder.tidy⟩

/-- `do_truncate` of a file that gets longer. -/
theorem InOrder.doLengthen (inOrder : files.InOrder) (unheld : files.handles ino = none)
    (file : files.fs.RegularFile ino) {length : Nat}
    (fits : files.fs.WithinReach (files.fs.inodeTab ino) [] length) (writable : Bool) :
    Leads (lib env)
      (Ext2Fuse.doLengthen { ino := ino, inode := files.fs.inodeTab ino, writable } ino length)
      (fun result fs' => Leads (lib env) (doFileClose result.2)
        (fun _ fs'' => (files.withFs fs'').InOrder) fs')
      files.fs := by
  have own : files.pointers ino = files.fs.pointers ino := by
    rw [OpenFiles.pointers, unheld]
    rfl
  have kept := fresh_kept inOrder.wellKept.apart file own
    (inOrder.wellKept.sizes ino unheld file) writable
  refine (doLengthen_turns kept fits.1 fits.2).mono fun result fs' turns => ?_
  refine (doFileClose_turns turns.kept).mono fun rc fs'' closed => ?_
  obtain ⟨-, -, size, beside⟩ := closed
  rw [Function.update_idem] at beside
  exact inOrder.aside unheld size (turns.beside.trans beside)

/-- `do_shorten` through a fresh handle: the blocks of the other files stay. -/
theorem doShorten_beside {fs : Fs δ} {pointers : Nat → Nat → Nat} {fh fh' : File}
    {length : Nat} {rc : Errcode}
    (forest : Forest fs.vol (places pointers)) (isFile : fs.IsFile ino)
    (own : pointers ino = fs.pointers ino)
    (ownIno : fh.ino = ino) (read : fh.inode = fs.inodeTab ino)
    (fresh : fh.bufDirty = true → fh.bufValid = true) (shorter : length < fh.inode.iSize)
    (outcome : (Ext2Fuse.doShorten fh ino length).run (lib env) fs = ((rc, fh'), fs')) :
    Beside ino fs fs' pointers (Function.update pointers ino (fs'.pointers ino)) ∧
      (fs'.inodeTab ino).ext2ISize ≤ length := by
  have copied : pointers ino = fh.inode.iBlock := by rw [own, isFile.pointers_eq, read]
  have carries : Carries fs ino sizeWords (fh.inode.iSize, fh.inode.iSizeHigh) fh :=
    ⟨isFile.valid, ownIno, rfl, by rw [read, sizeWords]⟩
  obtain ⟨rfl, sized⟩ := (doShorten_part sizeWords_sized carries shorter).outcome outcome
  have confined : Confined ino fs fs' :=
    (confined_doShorten env fs fh ino length fs (.refl ino fs)).outcome outcome
  obtain ⟨resizes, -⟩ := doShorten_resizes isFile.valid ⟨ownIno, by rw [read], fresh⟩ outcome
  have mode : (fs'.inodeTab ino).iMode = (fs.inodeTab ino).iMode :=
    resizes.kept .mode rfl (by rintro ⟨⟩)
  have file' : fs'.RegularFile ino :=
    isFile.toRegularFile.of_confined confined (by rw [mode]; exact isFile.regular)
  have tree : BlockTree fs.vol (pointers ino) := forest.blockTree fun block small present => by
    rw [copied, read] at present
    exact isFile.numbered block small present
  obtain ⟨shortened, -⟩ := doShorten_shortens shorter (by rw [← copied]; exact tree) outcome
  rw [← copied] at shortened
  refine ⟨⟨confined, ?_⟩, ?_⟩
  · rw [file'.pointers_eq]
    exact shortened.spares forest
  · obtain ⟨low, high⟩ := Prod.mk.inj sized.disk
    rw [Inode.ext2ISize, low, high]
    have most := Nat.mod_le length (2 ^ 32)
    omega

/-- `do_truncate` of a file that gets shorter. -/
theorem InOrder.doShorten (inOrder : files.InOrder) (unheld : files.handles ino = none)
    (isFile : files.fs.IsFile ino) {length : Nat} (writable : Bool) :
    Leads (lib env)
      (Ext2Fuse.doShorten { ino := ino, inode := files.fs.inodeTab ino, writable } ino length)
      (fun result fs' => Leads (lib env) (doFileClose result.2)
        (fun _ fs'' => (files.withFs fs'').InOrder) fs')
      files.fs := by
  obtain ⟨fh, fhEq⟩ : ∃ fh : File, fh =
    { ino := ino, inode := files.fs.inodeTab ino, writable } := ⟨_, rfl⟩
  rw [← fhEq]
  have file := isFile.toRegularFile
  have own : files.pointers ino = files.fs.pointers ino := by
    rw [OpenFiles.pointers, unheld]
    rfl
  have copied : files.pointers ino = fh.inode.iBlock := by rw [own, file.pointers_eq, fhEq]
  rcases outcome : (Ext2Fuse.doShorten fh ino length).run (lib env) files.fs with ⟨⟨rc, fh'⟩, fs'⟩
  have handle := (doShorten_handle fh ino length).outcome outcome
  have clean : fh'.bufValid = false := by rw [handle.bufValid, fhEq]
  rw [Leads, outcome, Leads, run_doFileClose_clean clean]
  by_cases shorter : length < fh.inode.iSize
  · obtain ⟨beside, size⟩ :=
      doShorten_beside inOrder.wellKept.apart isFile own (by rw [fhEq]) (by rw [fhEq])
      (by simp [fhEq]) shorter outcome
    refine inOrder.aside unheld ?_ beside
    have before := inOrder.wellKept.sizes ino unheld file
    have within : length ≤ (files.fs.inodeTab ino).ext2ISize := by
      rw [fhEq] at shorter
      exact shorter.le.trans (Nat.le_add_right _ _)
    rw [reach_congr beside.confined.super]
    exact size.trans (within.trans before)
  · have same : fs' = files.fs := by
      rw [Ext2Fuse.doShorten] at outcome
      split at outcome
      · exact (Prod.mk.inj outcome).2.symm
      split at outcome
      · exact (Prod.mk.inj outcome).2.symm
      · omega
    rw [same]
    exact inOrder

/-- `do_truncate` of a regular file that no handle is open on. -/
theorem InOrder.doTruncate (inOrder : files.InOrder) (perms : Perms)
    (unheld : files.handles ino = none) (isFile : files.fs.IsFile ino) {length : Nat}
    (fits : files.fs.WithinReach (files.fs.inodeTab ino) [] length) :
    Leads (lib env) (Ext2Fuse.doTruncate perms ino length)
      (fun _ fs' => (files.withFs fs').InOrder) files.fs := by
  rw [Ext2Fuse.doTruncate, leads_bind, Leads, run_doOpen isFile.valid perms rfl]
  dsimp only
  rw [leads_bind, doFtruncate]
  split
  · refine (inOrder.doLengthen unheld isFile.toRegularFile fits true).mono
      fun result fs' closed => ?_
    rw [leads_bind]
    exact closed
  · refine (inOrder.doShorten unheld isFile true).mono fun result fs' closed => ?_
    rw [leads_bind]
    exact closed

end OpenFiles

/-- The requests that write or release blocks: those on open handles, and those that need none. -/
inductive BlockRequest where
  | handle (op : HandleOp)
  | truncate (perms : Perms) (ino length : Nat)
  | unlink (ctx : FuseCtx) (parent : Nat) (name : Name)
  | rmdir (ctx : FuseCtx) (parent : Nat) (name : Name)

namespace BlockRequest

open Fs

variable {δ : Type} {env : Env δ} {files : OpenFiles δ}

/-- What a request comes to. -/
def run (env : Env δ) (files : OpenFiles δ) : BlockRequest → OpenFiles δ
  | handle op => op.run env files
  | truncate perms ino length =>
      files.withFs ((doTruncate perms ino length).run (lib env) files.fs).2
  | unlink ctx parent name => files.withFs ((opUnlink ctx parent name).run (lib env) files.fs).2
  | rmdir ctx parent name => files.withFs ((opRmdir ctx parent name).run (lib env) files.fs).2

/-- A file that is truncated is a regular one, and a name that is removed is one of an inode in
use. -/
def Allowed (env : Env δ) : BlockRequest → OpenFiles δ → Prop
  | handle op, files => op.Allowed files
  | truncate _ ino _, files => files.fs.RegularFile ino
  | unlink _ parent name, files | rmdir _ parent name, files =>
      ∀ ino, files.fs.ext2fsLookup env (EXT2FS_INO parent) name = .ok ino →
        files.fs.inodeMap ino = true

/-- No handle is open on what loses blocks, and the cache of the channel has the indirect blocks of
what is removed when they are read again. -/
def Careful (env : Env δ) : BlockRequest → OpenFiles δ → Prop
  | handle op, files => op.Careful files
  | truncate _ ino length, files =>
      files.handles ino = none ∧ files.fs.WithinReach (files.fs.inodeTab ino) [] length ∧
        ∀ block < capacity files.fs.super.addrPerBlock,
          files.fs.vol.mapped (files.fs.inodeTab ino).iBlock block ≠ 0 → block < 2 ^ 31
  | unlink _ parent name, files =>
      ∀ ino, files.fs.ext2fsLookup env (EXT2FS_INO parent) name = .ok ino →
        (files.fs.inodeTab ino).iLinksCount % 2 ^ 16 ≤ 1 → files.handles ino = none ∧
          OpenFiles.Reread env files.fs ino
  | rmdir _ parent name, files =>
      ∀ ino, files.fs.ext2fsLookup env (EXT2FS_INO parent) name = .ok ino →
        OpenFiles.Reread env files.fs ino

/-- Each of the requests is allowed and careful in the state it is served in. -/
def Follows (env : Env δ) : List BlockRequest → OpenFiles δ → Prop
  | [], _ => True
  | request :: rest, files =>
      (request.Allowed env files ∧ request.Careful env files) ∧
        Follows env rest (request.run env files)

/-- One after the other. -/
def runs (env : Env δ) (files : OpenFiles δ) (requests : List BlockRequest) : OpenFiles δ :=
  requests.foldl (run env) files

/-- Each allowed and careful request keeps the open files in order. -/
theorem inOrder_run (inOrder : files.InOrder) {request : BlockRequest}
    (allowed : request.Allowed env files)
    (careful : request.Careful env files) : (request.run env files).InOrder := by
  cases request with
  | handle op =>
      obtain ⟨wellKept, beside, -⟩ := inOrder.wellKept.step allowed careful
      exact ⟨wellKept, beside.spares.tidy inOrder.tidy⟩
  | truncate perms ino length =>
      obtain ⟨unheld, fits, numbered⟩ := careful
      exact inOrder.doTruncate perms unheld ⟨allowed, numbered⟩ fits
  | unlink ctx parent name => exact inOrder.opUnlink ctx allowed careful
  | rmdir ctx parent name => exact inOrder.opRmdir ctx allowed careful

/-- Whatever requests are served, no block is left unwiped. -/
theorem inOrder_runs {requests : List BlockRequest} (inOrder : files.InOrder)
    (follows : Follows env requests files) :
    (runs env files requests).InOrder := by
  induction requests generalizing files with
  | nil => exact inOrder
  | cons request rest inductionHypothesis =>
      obtain ⟨⟨allowed, careful⟩, follows⟩ := follows
      exact inductionHypothesis (inOrder_run inOrder allowed careful) follows

end BlockRequest

end Ext2Fuse
