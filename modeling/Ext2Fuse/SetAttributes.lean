import Ext2Fuse.Attributes

/-!
# What op_setattr leaves behind

The attributes that `op_getattr` reports after a successful `op_setattr`, against those
that were asked for and those that were reported before.
-/

namespace Ext2Fuse

open Lib Program Fs

variable {δ : Type}

/-- The selected attributes have the requested values and the others those they had; of the mode
the bits below the file type are given. The modification time may move when the size is set. -/
structure SetAttr.Obeyed (attr : SetAttr) (before after : Stat) : Prop where
  mode : after.stMode = match attr.mode with
    | some mode => before.stMode &&& LINUX_S_IFMT ||| mode
    | none => before.stMode
  uid : after.stUid = attr.uid.getD before.stUid
  gid : after.stGid = attr.gid.getD before.stGid
  size : after.stSize = attr.size.getD before.stSize
  atime : (after.stAtime : Int) = attr.atime.getD before.stAtime
  mtime : match attr.mtime with
    | some mtime => (after.stMtime : Int) = mtime
    | none => attr.size = none → after.stMtime = before.stMtime

/-- What a request can carry: permission, set-id and sticky bits, and a size below 4 GiB. -/
structure SetAttr.InRange (attr : SetAttr) : Prop where
  mode : ∀ mode, attr.mode = some mode → mode < 2 ^ 12
  size : ∀ size, attr.size = some size → size < 2 ^ 32

/-- The requests `op_setattr` can carry out: no set-id or sticky bit is to be cleared, owner and
times fit the unsigned words of the inode, and a modification time is given unless the clock shows
the one the inode has, or the size changes as well. -/
structure SetAttr.Supported (attr : SetAttr) (inode : Inode) (now : Nat) : Prop where
  mode : ∀ mode, attr.mode = some mode → inode.iMode &&& 0o7000 ||| mode = mode
  uid : ∀ uid, attr.uid = some uid → uid < 2 ^ 16
  gid : ∀ gid, attr.gid = some gid → gid < 2 ^ 16
  atime : ∀ atime, attr.atime = some atime → 0 ≤ atime ∧ atime < 2 ^ 32
  mtime : ∀ mtime, attr.mtime = some mtime → 0 ≤ mtime ∧ mtime < 2 ^ 32
  clock : attr.mtime = none → attr.size = none → now % 2 ^ 32 = inode.iMtime

/-- The bits of the mode `op_setattr` keeps are those of the file type and the set-id and sticky
bits. -/
theorem setMode_eq_iff {old mode : Nat} (word : old < 2 ^ 16) (bits : mode < 2 ^ 12) :
    (old &&& 0o177000 ||| mode) % 2 ^ 16 = old &&& LINUX_S_IFMT ||| mode ↔
      old &&& 0o7000 ||| mode = mode := by
  have kept : old &&& 0o177000 = old &&& LINUX_S_IFMT ||| old &&& 0o7000 := by
    rw [← Nat.and_or_distrib_left]
    rfl
  have narrow : old &&& 0o177000 ||| mode < 2 ^ 16 :=
    Nat.or_lt_two_pow (Nat.lt_of_le_of_lt Nat.and_le_left word) (by omega)
  have typeless : (old &&& LINUX_S_IFMT) &&& 0o7777 = 0 := by
    rw [Nat.and_assoc, show LINUX_S_IFMT &&& 0o7777 = 0 by decide, Nat.and_zero]
  have lowBits : ∀ value < 2 ^ 12, value &&& 0o7777 = value := by
    intro value below
    rw [show 0o7777 = 2 ^ 12 - 1 by decide, Nat.and_two_pow_sub_one_eq_mod, Nat.mod_eq_of_lt below]
  have setBits : old &&& 0o7000 ||| mode < 2 ^ 12 :=
    Nat.or_lt_two_pow (Nat.lt_of_le_of_lt Nat.and_le_right (by decide)) bits
  rw [Nat.mod_eq_of_lt narrow, kept, Nat.or_assoc]
  constructor
  · intro same
    have masked := congrArg (· &&& 0o7777) same
    simp only [Nat.and_or_distrib_right _ _ 0o7777, typeless, Nat.zero_or] at masked
    rw [← Nat.and_or_distrib_right, lowBits _ setBits, lowBits _ bits] at masked
    exact masked
  · intro same
    rw [same]

/-- The inode as far as neither blocks nor the modification time go. -/
def Inode.attributes (inode : Inode) : Inode :=
  { inode with iBlock := fun _ => 0, iBlocks := 0, iMtime := 0, iSizeHigh := 0 }

theorem attributes_sized : Sized Inode.attributes Inode.iSize fun value size =>
    { value with iSize := size } :=
  ⟨fun _ _ _ => rfl, fun _ => rfl, fun _ _ _ => rfl⟩

section Handler

variable {env : Env δ} {fs fs' : Fs δ} {ino length : Nat}

/-- A successful `do_truncate` sets the size, and no other attribute but the modification time. -/
theorem doTruncate_attributes (perms : Perms) (small : length < 2 ^ 32) :
    Leads (lib env) (doTruncate perms ino length) (fun rc fs' => rc = 0 → fs.validIno ino = true ∧
      (fs'.inodeTab ino).attributes =
      { (fs.inodeTab ino).attributes with iSize := length }) fs := by
  refine leads_bind_of fun opened later outcome => ?_
  by_cases valid : fs.validIno ino = true
  · rw [run_doOpen valid perms rfl] at outcome
    obtain ⟨rfl, rfl⟩ := Prod.mk.inj outcome
    dsimp only
    refine leads_bind_of fun result resizedFs outcome => ?_
    obtain ⟨rc, file⟩ := result
    have carries : Carries fs ino Inode.attributes (fs.inodeTab ino).attributes
      { ino := ino, inode := fs.inodeTab ino, writable := true } := ⟨valid, rfl, rfl, rfl⟩
    have resized := (doFtruncate_part attributes_sized carries length).outcome outcome
    rcases flushed : resizedFs.ext2fsFileFlush file with ⟨closeRc, file', final⟩
    rw [doFileClose, leads_bind, leads_bind, leads_lift, lib_fileFlush flushed,
      leads_pure, leads_pure]
    have closes : ∀ {value : Inode}, Carries resizedFs ino Inode.attributes value file →
        (final.inodeTab ino).attributes = value := by
      intro value carries
      have after := ext2fsFileFlush_carries attributes_sized.blockless carries
      rw [flushed] at after
      exact after.disk
    refine fun success => ⟨valid, ?_⟩
    rcases resized with ⟨-, same, after⟩ | ⟨-, -, -, after⟩ | ⟨failed, -⟩
    · rw [closes after, same]
    · rw [Nat.mod_eq_of_lt small] at after
      exact closes after
    · dsimp only at failed success
      rw [if_pos failed] at success
      exact absurd success failed
  · have opened : (doOpen perms ino { creat := true, wronly := true } : Prog δ _).run (lib env) fs =
        (.error EXT2_ET_BAD_INODE_NUM, fs) := by
      simp [doOpen, run_checkPerms, ext2fsFileOpen, ext2fsReadInode, valid]
    rw [opened] at outcome
    obtain ⟨rfl, rfl⟩ := Prod.mk.inj outcome
    rintro ⟨⟩

/-- The owner check of `op_setattr` passes. -/
theorem applyAttr_eq (ctx : FuseCtx) (attr : SetAttr) (now : Nat) (inode : Inode) :
    applyAttr ctx attr now inode = { inode with
      iMode := match attr.mode with
        | some mode => (inode.iMode &&& 0o177000 ||| mode) % 2 ^ 16
        | none => inode.iMode
      iUid := (attr.uid.map (· % 2 ^ 16)).getD inode.iUid
      iGid := (attr.gid.map (· % 2 ^ 16)).getD inode.iGid
      iAtime := (attr.atime.map fun atime => (atime % 2 ^ 32).toNat).getD inode.iAtime
      iMtime := (attr.mtime.getD now % 2 ^ 32).toNat } := by
  obtain ⟨mode, uid, gid, size, atime, mtime⟩ := attr
  rcases mode with _ | mode <;> rcases uid with _ | uid <;> rcases gid with _ | gid <;>
    rcases atime with _ | atime <;> rcases mtime with _ | mtime <;> rfl

/-- `op_setattr` after the truncation, if it succeeds. -/
theorem setAttrRest_writes (ctx : FuseCtx) (attr : SetAttr) :
    Leads (lib env) (setAttrRest ctx ino attr) (fun replies fs' => replies.all Reply.ok = true →
      fs.validIno (EXT2FS_INO ino) = true ∧ fs'.validIno (EXT2FS_INO ino) = true ∧
        fs'.inodeTab (EXT2FS_INO ino) =
          applyAttr ctx attr (env.time fs.vol.tick) (fs.inodeTab (EXT2FS_INO ino))) fs := by
  rw [setAttrRest, leads_bind]
  refine leads_readInode (by rintro ⟨⟩) fun valid => ?_
  refine leads_lift_bind fun now _ outcome => ?_
  obtain ⟨rfl, rfl⟩ := Prod.mk.inj outcome
  rw [leads_bind]
  refine leads_writeInode (by rintro ⟨⟩) fun _ => ?_
  rw [if_neg (by simp), leads_bind, leads_lift, lib_super, leads_pure]
  exact fun _ => ⟨valid, valid, Function.update_self _ _ _⟩

/-- A selected attribute that is stored in `bits` bits arrives if it fits. -/
theorem stored_eq_iff (selected : Option Nat) (old bits : Nat) :
    (selected.map (· % 2 ^ bits)).getD old = selected.getD old ↔
      ∀ value, selected = some value → value < 2 ^ bits := by
  cases selected with
  | none => simp
  | some value =>
      simp only [Option.map_some, Option.getD_some, Option.some.injEq, forall_eq']
      exact Nat.mod_eq_iff_lt (Nat.two_pow_pos bits).ne'

/-- The same of a time, which also must not be negative. -/
theorem storedTime_eq_iff (selected : Option Int) (old : Nat) :
    (((selected.map fun time => (time % 2 ^ 32).toNat).getD old : Nat) : Int) = selected.getD old ↔
      ∀ value, selected = some value → 0 ≤ value ∧ value < 2 ^ 32 := by
  cases selected with
  | none => simp
  | some value =>
      simp only [Option.map_some, Option.getD_some, Option.some.injEq, forall_eq']
      omega

/-- The inode a successful `op_setattr` leaves: the requested attributes over the inode as the
truncation, if there was one, has left it. -/
theorem opSetattr_writes (ctx : FuseCtx) {attr : SetAttr} (inRange : attr.InRange) :
    Leads (lib env) (opSetattr ctx ino attr) (fun replies fs' => replies.all Reply.ok = true →
      fs.validIno (EXT2FS_INO ino) = true ∧ fs'.validIno (EXT2FS_INO ino) = true ∧
        ∃ resized now, fs'.inodeTab (EXT2FS_INO ino) = applyAttr ctx attr now resized ∧
          resized.attributes = { (fs.inodeTab (EXT2FS_INO ino)).attributes with
            iSize := attr.size.getD (fs.inodeTab (EXT2FS_INO ino)).iSize } ∧
          (attr.size = none → resized = fs.inodeTab (EXT2FS_INO ino) ∧
            now = env.time fs.vol.tick)) fs := by
  rw [opSetattr]
  cases resizes : attr.size with
  | none =>
      refine (setAttrRest_writes ctx attr).mono fun replies fs' writes succeeds => ?_
      obtain ⟨valid, stillValid, written⟩ := writes succeeds
      exact ⟨valid, stillValid, _, _, written, rfl, fun _ => ⟨rfl, rfl⟩⟩
  | some size =>
      refine leads_bind_of fun rc truncated outcome => ?_
      have sets := (doTruncate_attributes (some ctx) (inRange.size size resizes)).outcome outcome
      split
      · rename_i failed
        intro succeeds
        simp [Reply.ok, failed] at succeeds
      · rename_i done
        obtain ⟨valid, attributes⟩ := sets (not_not.mp done)
        refine (setAttrRest_writes ctx attr).mono fun replies fs' writes succeeds => ?_
        obtain ⟨-, stillValid, written⟩ := writes succeeds
        exact ⟨valid, stillValid, _, _, written, attributes, by rintro ⟨⟩⟩

/-- The attributes that are reported afterwards, one by one. -/
theorem obeyed_iff {ctx : FuseCtx} {attr : SetAttr} {super super' : Super} {inode resized : Inode}
    {now clock : Nat} (inRange : attr.InRange) (word : inode.iMode < 2 ^ 16)
    (attributes : resized.attributes =
      { inode.attributes with iSize := attr.size.getD inode.iSize })
    (whole : attr.size = none → resized = inode ∧ now = clock) :
    attr.Obeyed (fillStatbuf super ino inode)
      (fillStatbuf super' ino (applyAttr ctx attr now resized)) ↔
      attr.Supported inode clock := by
  have mode : resized.iMode = inode.iMode := (congrArg Inode.iMode attributes :)
  have uid : resized.iUid = inode.iUid := (congrArg Inode.iUid attributes :)
  have gid : resized.iGid = inode.iGid := (congrArg Inode.iGid attributes :)
  have atime : resized.iAtime = inode.iAtime := (congrArg Inode.iAtime attributes :)
  have size : resized.iSize = attr.size.getD inode.iSize := (congrArg Inode.iSize attributes :)
  have modeKept : (match attr.mode with
        | some mode => (inode.iMode &&& 0o177000 ||| mode) % 2 ^ 16
        | none => inode.iMode) = (match attr.mode with
        | some mode => inode.iMode &&& LINUX_S_IFMT ||| mode
        | none =>
            inode.iMode) ↔ ∀ mode, attr.mode = some mode →
              inode.iMode &&& 0o7000 ||| mode = mode := by
    cases selected : attr.mode with
    | none => simp
    | some bits => simpa using setMode_eq_iff word (inRange.mode bits selected)
  have mtimeKept : (match attr.mtime with
        | some mtime => (((attr.mtime.getD now % 2 ^ 32).toNat : Nat) : Int) = mtime
        | none => attr.size = none → (attr.mtime.getD now % 2 ^ 32).toNat = inode.iMtime) ↔
      (∀ mtime, attr.mtime = some mtime → 0 ≤ mtime ∧ mtime < 2 ^ 32) ∧
        (attr.mtime = none → attr.size = none → clock % 2 ^ 32 = inode.iMtime) := by
    cases selected : attr.mtime with
    | some mtime =>
        simp only [Option.getD_some, Option.some.injEq, forall_eq', reduceCtorEq,
          false_implies, and_true]
        omega
    | none =>
        simp only [Option.getD_none, reduceCtorEq, false_implies, implies_true,
          true_and, forall_const]
        refine forall_congr' fun sizeless => ?_
        rw [(whole sizeless).2]
        norm_cast
  rw [applyAttr_eq, mode, uid, gid, atime]
  constructor
  · intro obeyed
    obtain ⟨times, clock⟩ := mtimeKept.mp obeyed.mtime
    exact ⟨modeKept.mp obeyed.mode, (stored_eq_iff _ _ _).mp obeyed.uid,
      (stored_eq_iff _ _ _).mp obeyed.gid, (storedTime_eq_iff _ _).mp obeyed.atime, times, clock⟩
  · intro supported
    exact ⟨modeKept.mpr supported.mode, (stored_eq_iff _ _ _).mpr supported.uid,
      (stored_eq_iff _ _ _).mpr supported.gid, size, (storedTime_eq_iff _ _).mpr supported.atime,
      mtimeKept.mpr ⟨supported.mtime, supported.clock⟩⟩

/-- **A successful `op_setattr` changes what it was asked to, and nothing else, exactly when it can
carry the request out.** -/
theorem setattr_obeyed_iff {ctx : FuseCtx} {attr : SetAttr} {replies : List Reply}
    (inRange : attr.InRange) (word : (fs.inodeTab (EXT2FS_INO ino)).iMode < 2 ^ 16)
    (outcome : (opSetattr ctx ino attr).run (lib env) fs = (replies, fs'))
    (succeeds : replies.all Reply.ok = true) :
    (∃ before after, (opGetattr ino).run (lib env) fs = ([.attr before], fs) ∧
        (opGetattr ino).run (lib env) fs' = ([.attr after], fs') ∧ attr.Obeyed before after) ↔
      attr.Supported (fs.inodeTab (EXT2FS_INO ino)) (env.time fs.vol.tick) := by
  obtain ⟨valid, stillValid, resized, now, written, attributes, whole⟩ :=
    (opSetattr_writes ctx inRange).outcome outcome succeeds
  have carried := @obeyed_iff (EXT2FS_INO ino) ctx attr fs.super fs'.super _ resized
    now _ inRange word
    attributes whole
  rw [run_opGetattr valid, run_opGetattr stillValid, written]
  constructor
  · rintro ⟨before, after, first, second, obeyed⟩
    cases first
    cases second
    exact carried.mp obeyed
  · intro supported
    exact ⟨_, _, rfl, rfl, carried.mpr supported⟩

end Handler

/-- `chmod` that also gives a time. -/
def chmodAt (mode : Nat) (mtime : Int) : SetAttr := { mode := some mode, mtime := some mtime }

theorem chmodAt_inRange {mode : Nat} (bits : mode < 2 ^ 12) (mtime : Int) :
    (chmodAt mode mtime).InRange where
  mode value selected := by
    cases selected
    exact bits
  size _ selected := by cases selected

/-- A change of mode in the example is obeyed. -/
theorem setattr_obeyed_chmod :
    let outcome := (opSetattr ⟨0, 0⟩ 11 (chmodAt 0o4600 5)).run (lib listEnv) twoFiles
    ∃ before after, (opGetattr 11).run (lib listEnv) twoFiles = ([.attr before], twoFiles) ∧
      (opGetattr 11).run (lib listEnv) outcome.2 = ([.attr after], outcome.2) ∧
      (chmodAt 0o4600 5).Obeyed before after := by
  refine (@setattr_obeyed_iff _ listEnv twoFiles _ 11 ⟨0, 0⟩ (chmodAt 0o4600 5) _
    (chmodAt_inRange (by decide) 5) (by decide) rfl rfl).mpr ?_
  refine ⟨?_, nofun, nofun, nofun, ?_, nofun⟩
  · rintro mode ⟨⟩
    decide
  · rintro mtime ⟨⟩
    decide

/-- File 11 with its set-gid bit. -/
def setgidFile : Fs (List Dirent) :=
  { twoFiles with
    inodeTab := Function.update twoFiles.inodeTab 11 { twoFiles.inodeTab 11 with
      iMode := LINUX_S_IFREG ||| 0o2755 } }

/-- `chmod 0755` succeeds and leaves the set-gid bit. -/
theorem setgid_not_cleared :
    let outcome := (opSetattr ⟨0, 0⟩ 11 (chmodAt 0o755 0)).run (lib listEnv) setgidFile
    outcome.1.all Reply.ok = true ∧ (chmodAt 0o755 0).InRange ∧
      ∀ before after, (opGetattr 11).run (lib listEnv) setgidFile = ([.attr before], setgidFile) →
        (opGetattr 11).run (lib listEnv) outcome.2 = ([.attr after], outcome.2) →
        after.stMode = LINUX_S_IFREG ||| 0o2755 ∧ ¬ (chmodAt 0o755 0).Obeyed before after := by
  refine ⟨rfl, chmodAt_inRange (by decide) 0, fun before after first second => ?_⟩
  rw [@run_opGetattr _ listEnv _ 11 (by decide)] at first second
  cases first
  cases second
  refine ⟨by decide +kernel, fun obeyed => ?_⟩
  exact absurd obeyed.mode (by decide +kernel)

end Ext2Fuse
