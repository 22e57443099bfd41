import Ext2Fuse.EntryTypes
import Ext2Fuse.MkdirParent
import Ext2Fuse.SetAttributes

/-!
# The identity of new objects

Owner, mode and type of what `op_create`, `op_mkdir` and `op_symlink` make. The three carry them
separately: `do_create` is told the mode and the type of the entry, and `new_ext2fs_mkdir` builds
its own inode.
-/

namespace Ext2Fuse

open Lib Program Fs

variable {δ : Type}

/-- A request that makes something new; the symlink's mode is not the caller's. -/
inductive Creation where
  | create (mode : Nat) (flags : OpenFlags)
  | mkdir (mode : Nat)
  | symlink (target : Name)

namespace Creation

/-- The handler of a request. `do_mkdir` is handed the mode and does not look at it. -/
def handler (ctx : FuseCtx) (parent : Nat) (name : Name) : Creation → Prog δ (List Reply)
  | create mode flags => opCreate ctx parent name mode flags
  | mkdir _ => opMkdir ctx parent name
  | symlink target => opSymlink ctx target parent name

/-- The type of what is made. -/
def kind : Creation → Nat
  | create _ _ => LINUX_S_IFREG
  | mkdir _ => LINUX_S_IFDIR
  | symlink _ => LINUX_S_IFLNK

/-- The permission bits that are asked for. -/
def bits : Creation → Nat
  | create mode _ => mode &&& 0o777
  | mkdir mode => mode &&& 0o777
  | symlink _ => 0o777

/-- The mode that is written. -/
def mode : Creation → Nat
  | create mode _ => LINUX_S_IFREG ||| (mode &&& 0o777)
  | mkdir _ => LINUX_S_IFDIR ||| 0o755
  | symlink _ => LINUX_S_IFLNK ||| 0o777

/-- The type that is passed to `ext2fs_link`. -/
def filetype : Creation → Nat
  | create _ _ => EXT2_FT_REG_FILE
  | mkdir _ => EXT2_FT_DIR
  | symlink _ => EXT2_FT_UNKNOWN

/-- The permissions and the type are the ones the code would give anyway: `new_ext2fs_mkdir` always
gives 0755, and `op_symlink` enters its file with no type. -/
def Honoured (super : Super) : Creation → Prop
  | create _ _ => True
  | mkdir mode => mode &&& 0o777 = 0o755
  | symlink _ => super.filetype = false

end Creation

/-- The rights that three bits of a mode give. -/
def granted (shift : Nat) (inode : Inode) (requested : Nat) : Errcode :=
  if (requested <<< shift) &&& (inode.iMode &&& 0o777) = requested <<< shift then 0 else EACCES

/-- The user with this number has the owner's rights, and no other but root. -/
def OwnedBy (uid : Nat) (inode : Inode) : Prop :=
  ∀ (ctx : FuseCtx) (requested : Nat), ctx.uid ≠ 0 →
    checkPermsInInode (some ctx) inode requested =
      if ctx.uid = uid then granted 6 inode requested
      else if ctx.gid = inode.iGid then granted 3 inode requested
      else granted 0 inode requested

/-- The entry made for an inode has its type, and so have its entries after any renaming and
linking; what named the free inode before does not count. -/
structure EntryTyped (env : Env δ) (fs fs' : Fs δ) (parent : Nat) (name : Name)
    (ino : Nat) : Prop where
  entered : (env.dir.entries (fs'.dirs parent)).Perm
    (⟨name, ino, ext2FileType (fs'.inodeTab ino).iMode⟩ :: env.dir.entries (fs.dirs parent))
  moved : ∀ ops : List (FuseCtx × NameOp), (∀ op ∈ ops, op.2.Moves) →
    ∀ dir, ∀ entry ∈ env.dir.entries ((afterRequests env fs' ops).dirs dir), entry.inode = ino →
      entry ∈ env.dir.entries (fs.dirs dir) ∨
        entry.fileType = ext2FileType ((afterRequests env fs' ops).inodeTab ino).iMode

/-- The new object is the caller's, and what was asked for. -/
structure HasIdentity (env : Env δ) (fs fs' : Fs δ) (ctx : FuseCtx)
    (creation : Creation) (parent : Nat) (name : Name) (ino : Nat) : Prop where
  reported : ∃ stat, (opGetattr ino).run (lib env) fs' = ([.attr stat], fs') ∧
    stat.stUid = ctx.uid ∧
    stat.stGid = ctx.gid ∧ stat.stMode = creation.kind ||| creation.bits
  owned : OwnedBy ctx.uid (fs'.inodeTab ino)
  typed : fs.super.filetype = true → EntryTyped env fs fs' (EXT2FS_INO parent) name ino

/-- What a successful request leaves: an inode with a mode, and an entry with a type. -/
structure Made (env : Env δ) (fs fs' : Fs δ) (ctx : FuseCtx)
    (mode filetype parent : Nat) (name : Name) (ino : Nat) : Prop where
  number : fs.super.sFirstIno ≤ ino
  valid : fs'.validIno ino = true
  super : fs'.super = fs.super
  mode : (fs'.inodeTab ino).iMode = mode
  uid : (fs'.inodeTab ino).iUid = ctx.uid % 2 ^ 16
  gid : (fs'.inodeTab ino).iGid = ctx.gid % 2 ^ 16
  entered : (env.dir.entries (fs'.dirs parent)).Perm
    (⟨name, ino, if fs.super.filetype then filetype % 8 else 0⟩ :: env.dir.entries (fs.dirs parent))
  /-- A new directory names itself. -/
  others : ∀ dir, dir ≠ parent → ∀ entry ∈ env.dir.entries (fs'.dirs dir), entry.inode = ino →
    entry ∈ env.dir.entries (fs.dirs dir) ∨
      entry.fileType = if fs.super.filetype then filetype % 8 else 0

section Identity

variable {env : Env δ} {fs fs' : Fs δ} {ctx : FuseCtx}
    {mode filetype parent ino : Nat} {name : Name}

/-- A user id that fits sixteen bits is stored as it is. -/
theorem ownedBy_of_narrow {inode : Inode} (uid : inode.iUid = ctx.uid % 2 ^ 16)
    (narrow : ctx.uid < 2 ^ 16) :
    OwnedBy ctx.uid inode := by
  intro other requested user
  rw [Nat.mod_eq_of_lt narrow] at uid
  unfold checkPermsInInode
  dsimp only
  rw [if_neg user, uid]
  simp only [eq_comm (a := ctx.uid), eq_comm (a := inode.iGid)]
  rfl

/-- Two lists that differ in one element. -/
theorem eq_of_perm_cons {first second : Dirent} {entries : List Dirent}
    (same : (first :: entries).Perm (second :: entries)) : first = second := by
  by_contra different
  have counts := same.count_eq first
  rw [List.count_cons_self, List.count_cons_of_ne (Ne.symm different)] at counts
  omega

/-- The entry has the type of the mode exactly when the type given to ext2fs_link is it. -/
theorem Made.typed (made : Made env fs fs' ctx mode filetype parent name ino)
    (lawful : env.dir.Lawful) (feature : fs.super.filetype = true) :
    EntryTyped env fs fs' parent name ino ↔ filetype % 8 = ext2FileType mode := by
  have entered := made.entered
  rw [feature, if_pos rfl] at entered
  constructor
  · intro typed
    have same := eq_of_perm_cons (entered.symm.trans typed.entered)
    rw [made.mode] at same
    exact congrArg Dirent.fileType same
  · intro right
    rw [right] at entered
    have typed : Typed env fs ino mode fs' := by
      refine ⟨made.super, made.mode, fun dir entry member here => ?_⟩
      by_cases inParent : dir = parent
      · rw [inParent] at member ⊢
        rcases List.mem_cons.mp (entered.mem_iff.mp member) with rfl | old
        · exact .inr rfl
        · exact .inl old
      · have other := made.others dir inParent entry member here
        rw [feature, if_pos rfl, right] at other
        exact other
    refine ⟨by rw [made.mode]; exact entered, fun ops moves dir entry member here => ?_⟩
    have kept := typed.moves lawful feature moves
    rw [kept.moded]
    exact kept.entries dir entry member here

/-- The permission bits that are asked for can be read off the mode. -/
theorem kind_or_eq_iff {kind first second : Nat} (clear : kind &&& 0o777 = 0)
    (below : first < 2 ^ 9)
    (below' : second < 2 ^ 9) : kind ||| first = kind ||| second ↔ first = second := by
  have low : ∀ value < 2 ^ 9, (kind ||| value) &&& 0o777 = value := by
    intro value narrow
    rw [Nat.and_or_distrib_right, clear, Nat.zero_or, show 0o777 = 2 ^ 9 - 1 by decide,
      Nat.and_two_pow_sub_one_eq_mod, Nat.mod_eq_of_lt narrow]
  constructor
  · intro same
    rw [← low first below, same, low second below']
  · intro same
    rw [same]

/-- What was made has the identity that was asked for when the numbers fit and the request is one
the code honours. -/
theorem Made.hasIdentity_iff {creation : Creation}
    (made : Made env fs fs' ctx creation.mode creation.filetype (EXT2FS_INO parent) name ino)
    (lawful : env.dir.Lawful) (reserved : 2 ≤ fs.super.sFirstIno) :
    HasIdentity env fs fs' ctx creation parent name ino ↔
      ctx.uid < 2 ^ 16 ∧ ctx.gid < 2 ^ 16 ∧ creation.Honoured fs.super := by
  have number := made.number
  have mapped : EXT2FS_INO ino = ino := by
    rw [EXT2FS_INO, if_neg (by rw [EXT2_ROOT_INO]; omega)]
  have attributes : (opGetattr ino).run (lib env) fs' =
      ([.attr (fillStatbuf fs'.super ino (fs'.inodeTab ino))], fs') := by
    rw [run_opGetattr (by rw [mapped]; exact made.valid), mapped]
  have modeRight : creation.mode = creation.kind ||| creation.bits ↔
      ∀ mode, creation = .mkdir mode → mode &&& 0o777 = 0o755 := by
    cases creation with
    | create mode flags => simp [Creation.mode, Creation.kind, Creation.bits]
    | symlink target => simp [Creation.mode, Creation.kind, Creation.bits]
    | mkdir mode =>
        have below : mode &&& 0o777 < 2 ^ 9 := Nat.lt_of_le_of_lt Nat.and_le_right (by decide)
        rw [Creation.mode, Creation.kind, Creation.bits,
          kind_or_eq_iff (by decide) (by decide) below]
        simp [eq_comm]
  have typeRight : creation.filetype % 8 = ext2FileType creation.mode ↔
    ∀ target, creation ≠ .symlink target := by
    cases creation with
    | create mode flags =>
        refine iff_of_true ?_ (by rintro _ ⟨⟩)
        rw [Creation.mode, ext2FileType, LINUX_S_ISREG, hasType, regular_mode]
        rfl
    | mkdir mode =>
        exact iff_of_true (show EXT2_FT_DIR % 8 = ext2FileType (LINUX_S_IFDIR ||| 0o755) by decide)
          (by rintro _ ⟨⟩)
    | symlink target =>
        exact iff_of_false (show ¬ EXT2_FT_UNKNOWN % 8 =
          ext2FileType (LINUX_S_IFLNK ||| 0o777) by decide)
          fun other => other target rfl
  constructor
  · rintro ⟨⟨stat, reported, uid, gid, mode⟩, -, typed⟩
    rw [attributes] at reported
    cases reported
    replace uid : (fs'.inodeTab ino).iUid = ctx.uid := uid
    replace gid : (fs'.inodeTab ino).iGid = ctx.gid := gid
    replace mode : (fs'.inodeTab ino).iMode = creation.kind ||| creation.bits := mode
    rw [made.uid] at uid
    rw [made.gid] at gid
    rw [made.mode, modeRight] at mode
    refine ⟨by omega, by omega, ?_⟩
    cases creation with
    | create _ _ => trivial
    | mkdir requested => exact mode requested rfl
    | symlink target =>
        by_contra feature
        have right := (made.typed lawful (by simpa [Creation.Honoured] using feature)).mp
          (typed (by simpa [Creation.Honoured] using feature))
        exact typeRight.mp right target rfl
  · rintro ⟨uid, gid, honoured⟩
    have uidKept := made.uid
    have gidKept := made.gid
    refine ⟨⟨_, attributes, ?_, ?_, ?_⟩, ownedBy_of_narrow made.uid uid, fun feature => ?_⟩
    · exact uidKept.trans (Nat.mod_eq_of_lt uid)
    · exact gidKept.trans (Nat.mod_eq_of_lt gid)
    · refine made.mode.trans (modeRight.mpr fun mode isMkdir => ?_)
      rw [isMkdir] at honoured
      exact honoured
    · refine (made.typed lawful feature).mpr (typeRight.mpr fun target isSymlink => ?_)
      rw [isSymlink] at honoured
      have featureless : fs.super.filetype = false := honoured
      rw [feature] at featureless
      cases featureless

end Identity

section Files

variable {env : Env δ} {fs fs' : Fs δ} {ctx : FuseCtx}
    {mode filetype parent ino : Nat} {name : Name}

/-- do_link's own error code in place of the library's changes nothing. -/
theorem EntersTyped.reported {dir : Nat} {entry : Dirent} {rc : Errcode}
    (enters : EntersTyped env dir entry fs rc fs') :
    EntersTyped env dir entry fs (if rc ≠ 0 then EIO else 0) fs' := by
  have eio : EIO ≠ 0 := by decide
  by_cases done : rc = 0
  · rw [if_neg (not_not.mpr done)]
    rw [done] at enters
    exact enters
  · rw [if_pos done]
    exact ⟨fun failed => absurd failed eio, fun other _ => enters.2 other fun _ => done⟩

/-- do_link enters the type it was given, at the first or the second attempt. -/
theorem doLink_typed (lawful : env.dir.Lawful) (dir : Nat) (name : Name) (ino filetype : Nat) :
    Leads (lib env) (doLink dir name ino filetype) (EntersTyped env dir
      ⟨name, ino, if fs.super.filetype then filetype % 8 else 0⟩ fs) fs := by
  have eio : EIO ≠ 0 := by decide
  refine leads_lift_bind fun rc linked outcome => ?_
  have first := @ext2fsLink_typed _ env fs lawful dir name ino filetype
  have entered := @ext2fsLink_enters _ env fs dir name ino filetype dir
  change fs.ext2fsLink env dir name ino filetype = _ at outcome
  rw [outcome] at first entered
  split
  · rename_i full
    have failed : rc ≠ 0 := by
      rw [full]
      decide
    refine leads_lift_bind fun rc' expanded outcome => ?_
    obtain ⟨super, -, unsized⟩ := ext2fsExpandDir_frame env linked dir dir
    have space := congrArg Ns.ents (@ns_expandDir _ env linked dir lawful)
    change linked.ext2fsExpandDir env dir = _ at outcome
    rw [outcome] at super unsized space
    have same : ∀ other, env.dir.entries (expanded.dirs other) = env.dir.entries (fs.dirs other) :=
      fun other => (congrFun space other).trans (first.2 other fun _ => failed)
    have moded : (expanded.inodeTab dir).iMode = (fs.inodeTab dir).iMode :=
      (congrArg Inode.iMode unsized :).trans (entered.resizes.kept .mode rfl nofun)
    split
    · exact ⟨fun done => absurd done eio, fun other _ => same other⟩
    · refine leads_lift_bind fun rc'' final outcome => ?_
      have again := @ext2fsLink_typed _ env expanded lawful dir name ino filetype
      change expanded.ext2fsLink env dir name ino filetype = _ at outcome
      rw [outcome, super, entered.resizes.super] at again
      exact (again.after moded same).reported
  · exact first.reported

/-- What `do_create` makes of a mode that is no directory's. -/
theorem doCreate_made (lawful : env.dir.Lawful) (isFile : LINUX_S_ISDIR mode = false) :
    Leads (lib env) (doCreate (some ctx) parent name mode filetype) (fun result fs' =>
      ∀ ino inode, result = .ok
        (ino, inode) → Made env fs fs' ctx mode filetype parent name ino) fs := by
  refine (doCreate_cases (some ctx) parent mode filetype name).mono ?_
  rintro result fs' (⟨rc, failed, rfl⟩ | ⟨ino, inode, rfl, picked, valid, made, linked⟩)
  · exact nofun
  rintro _ _ ⟨⟩
  obtain ⟨isDir, super, kept⟩ := @doLink_ok _ env _ ino _ _ _ _ _ linked
  have entered := (doLink_typed lawful parent name ino filetype).outcome linked
  have apart : ino ≠ parent := by
    rintro rfl
    rw [created_self, made] at isDir
    exact absurd isDir (by rw [newFileInode, isFile]; decide)
  have stored : fs'.inodeTab ino = inode := (kept apart).trans (created_self ino inode)
  refine ⟨newInode_reserved picked, (validIno_congr super ino).trans valid, super, ?_, ?_, ?_,
    (entered.1 rfl).2, fun dir other entry member here => .inl ?_⟩
  · rw [stored, made]
    rfl
  · rw [stored, made]
    rfl
  · rw [stored, made]
    rfl
  · rw [entered.2 dir fun inParent => absurd inParent other] at member
    exact member

/-- The number in the replies, and what it stands for. -/
def RepliesMade (env : Env δ) (fs : Fs δ) (ctx : FuseCtx) (mode filetype parent : Nat) (name : Name)
    (replies : List Reply) (fs' : Fs δ) : Prop :=
  replies.all Reply.ok = true → ∃ ino, replies.head?.bind Reply.reported = some ino ∧
    Made env fs fs' ctx mode filetype parent name ino

/-- An error promises nothing about the object. -/
theorem repliesMade_err {rc : Errcode} (failed : rc ≠ 0) :
    RepliesMade env fs ctx mode filetype parent name [.err rc] fs' := by
  intro succeeds
  simp [Reply.ok, failed] at succeeds

/-- op_create makes a regular file with the caller's mode and ids. -/
theorem opCreate_made (lawful : env.dir.Lawful) (flags : OpenFlags) :
    Leads (lib env) (opCreate ctx parent name mode flags) (RepliesMade env fs ctx
      (LINUX_S_IFREG ||| (mode &&& 0o777)) EXT2_FT_REG_FILE (EXT2FS_INO parent) name) fs := by
  have isFile := regular_isFile mode
  refine leads_bind_of fun result created outcome => ?_
  have stored := (doCreate_created isFile).outcome outcome
  have made := (doCreate_made lawful isFile).outcome outcome
  rcases result with rc | ⟨ino, inode⟩
  · exact repliesMade_err stored
  obtain ⟨valid, recorded, empty⟩ := stored
  have opened : (doOpen none ino { flags with creat := false }).run (lib env) created = _ :=
    run_doOpen_empty valid (by rw [recorded]; exact empty) _
  refine leads_bind_of fun result later outcome => ?_
  rw [opened] at outcome
  cases outcome
  rw [leads_bind, leads_lift, lib_super, leads_pure]
  exact fun _ => ⟨ino, rfl, made ino inode rfl⟩

/-- Writing to the file itself leaves the rest. -/
theorem Made.confined {later : Fs δ} (made : Made env fs fs' ctx mode filetype parent name ino)
    (confined : Confined ino fs' later)
    (attributes : ∃ size, (later.inodeTab ino).attributes =
      { (fs'.inodeTab ino).attributes with iSize := size }) :
    Made env fs later ctx mode filetype parent name ino := by
  obtain ⟨size, attributes⟩ := attributes
  have sameMode : (later.inodeTab ino).iMode = (fs'.inodeTab ino).iMode :=
    (congrArg Inode.iMode attributes :)
  have sameUid : (later.inodeTab ino).iUid = (fs'.inodeTab ino).iUid :=
    (congrArg Inode.iUid attributes :)
  have sameGid : (later.inodeTab ino).iGid = (fs'.inodeTab ino).iGid :=
    (congrArg Inode.iGid attributes :)
  refine ⟨made.number, (validIno_congr confined.super ino).trans made.valid,
    confined.super.trans made.super, sameMode.trans made.mode, sameUid.trans made.uid,
    sameGid.trans made.gid, ?_, ?_⟩
  · rw [confined.dirs]
    exact made.entered
  · rw [confined.dirs]
    exact made.others

/-- Storing a size touches that inode only. -/
theorem confined_setFileSize (ino size : Nat) (inode : Inode) :
    Leads (lib env) (setFileSize ino inode size) (fun _ fs' => Confined ino fs fs') fs := by
  refine leads_lift_bind fun now later outcome => ?_
  obtain ⟨rfl, rfl⟩ := Prod.mk.inj outcome
  refine leads_lift_bind fun rc written outcome => ?_
  have wrote := confined_writeInode fs.advance ino
    { inode with iMtime := env.time fs.vol.tick, iSize := size % 2 ^ 32, iSizeHigh := 0 }
  change fs.advance.ext2fsWriteInode ino _ = _ at outcome
  rw [outcome] at wrote
  have advanced : Confined ino fs fs.advance := confined_vol rfl
  exact advanced.trans wrote

/-- Writing data touches that inode only. -/
theorem confined_writeData {file : File} (own : file.ino = ino) (data : List UInt8) (off : Nat) :
    Leads (lib env) (writeData file ino data off)
      (fun result fs' => Confined ino fs fs' ∧ result.2.2.ino = ino) fs := by
  refine leads_lift_bind fun result later outcome => ?_
  have wrote := onFile_write fs { file with pos := off } (data.take (data.length % 2 ^ 32))
  rcases writes : fs.ext2fsFileWrite { file with pos := off }
    (data.take (data.length % 2 ^ 32)) with ⟨rc, bytes, file', fs₁⟩
  rw [lib_fileWrite writes] at outcome
  cases outcome
  rw [writes] at wrote
  have confined : Confined ino fs later := by
    have step := wrote.confined
    rw [show ({ file with pos := off } : File).ino = ino from own] at step
    exact step
  have same : file'.ino = ino := wrote.ino_eq.trans own
  dsimp only
  split
  · exact ⟨confined, same⟩
  split
  · exact ⟨confined, same⟩
  split
  · exact ⟨confined, same⟩
  split
  · exact ⟨confined, same⟩
  refine leads_bind_of fun sized final outcome => ?_
  exact ⟨confined.trans ((confined_setFileSize ino _ _).outcome outcome), same⟩

/-- op_symlink makes a symbolic link, entered under an unknown type. -/
theorem opSymlink_made (lawful : env.dir.Lawful) (target : Name) :
    Leads (lib env) (opSymlink ctx target parent name) (RepliesMade env fs ctx
      (LINUX_S_IFLNK ||| 0o777) EXT2_FT_UNKNOWN (EXT2FS_INO parent) name) fs := by
  refine (opSymlink_cases ctx target parent name).mono ?_
  rintro replies fs' (⟨rc, failed, rfl⟩ | ⟨ino, generation, stat, replied, symlink⟩)
  · exact repliesMade_err failed
  intro succeeds
  obtain ⟨inode, created, bytes, file, written, file', creates, valid, recorded, empty,
    writes, flush, -⟩ :=
    symlink
  have made := (doCreate_made lawful (by decide)).outcome creates ino inode rfl
  have carries : Carries created ino Inode.attributes inode.attributes
      { ino := ino, inode := inode, writable := true } :=
    ⟨valid, rfl, rfl, by rw [recorded]⟩
  rw [doWrite, if_neg (Nat.not_lt_zero _)] at writes
  obtain ⟨confined, own⟩ := (confined_writeData rfl (target ++ [0]) 0).outcome writes
  have wrote := (writeData_part attributes_sized carries (target ++ [0]) 0).outcome writes
  have flushed := onFile_flush written file
  rw [flush] at flushed
  have through : Confined ino created fs' := by
    have last := flushed.confined
    rw [own] at last
    exact confined.trans last
  have attributes : ∃ size, (fs'.inodeTab ino).attributes =
    { (created.inodeTab ino).attributes with iSize := size } := by
    rw [recorded]
    rcases wrote with ⟨-, -, -, after⟩ | ⟨-, -, -, -, after⟩ | ⟨failed, -⟩
    · have last := ext2fsFileFlush_carries attributes_sized.blockless after
      rw [flush] at last
      exact ⟨_, last.disk⟩
    · have last := ext2fsFileFlush_carries attributes_sized.blockless after
      rw [flush] at last
      exact ⟨_, last.disk⟩
    · exact absurd rfl failed
  refine ⟨ino, ?_, made.confined through attributes⟩
  rcases replied with rfl | rfl
  · rfl
  · cases succeeds

end Files

section Directories

variable {env : Env δ} {fs state : Fs δ} {ctx : FuseCtx} {parent new blk : Nat} {name : Name}

/-- What turns of `do_mkdir` that found no space have left: the parent has its entries, and what
they have written elsewhere names inodes that are in use. -/
structure MkdirSofar (env : Env δ) (fs : Fs δ) (parent : Nat) (state : Fs δ) : Prop where
  super : state.super = fs.super
  inUse : state.inodeMap parent = true
  parents : env.dir.entries (state.dirs parent) = env.dir.entries (fs.dirs parent)
  others : ∀ dir, dir ≠ parent → ∀ entry ∈ env.dir.entries (state.dirs dir),
    entry ∈ env.dir.entries (fs.dirs dir) ∨ state.inodeMap entry.inode = true

/-- How a turn ends: the directory is made, there was no space, or the request fails. -/
def TurnMade (env : Env δ) (fs : Fs δ) (ctx : FuseCtx) (parent : Nat) (name : Name) (rc : Errcode)
    (next : Fs δ) : Prop :=
  (rc = 0 ∧ ∃ new, Made env fs next ctx (LINUX_S_IFDIR ||| 0o755) EXT2_FT_DIR parent name new ∧
      next.ext2fsLookup env parent name = .ok new) ∨
    (rc = EXT2_ET_DIR_NO_SPACE ∧ MkdirSofar env fs parent next) ∨
    (rc ≠ 0 ∧ rc ≠ EXT2_ET_DIR_NO_SPACE)

/-- A turn that fails for another reason than space ends the loop. -/
theorem turnMade_failed {rc : Errcode} (failed : rc ≠ 0) (roomy : rc ≠ EXT2_ET_DIR_NO_SPACE) :
    Leads (lib env) (pure rc) (TurnMade env fs ctx parent name) state :=
  .inr (.inr ⟨failed, roomy⟩)

/-- The name that was entered is the one that is found. -/
theorem lookup_entered (lawful : env.dir.Lawful) {entries : List Dirent} {fileType : Nat}
    (isDir : state.ext2fsCheckDirectory parent = 0)
    (absent : entries.find? (fun entry => entry.name == name) = none)
    (entered : (env.dir.entries (state.dirs parent)).Perm (⟨name, new, fileType⟩ :: entries)) :
    state.ext2fsLookup env parent name = .ok new := by
  rw [ext2fsLookup, if_pos isDir, lawful.lookup_eq]
  cases found : (env.dir.entries (state.dirs parent)).find? fun entry => entry.name == name with
  | none =>
      have mine := List.find?_eq_none.mp found ⟨name, new, fileType⟩
        (entered.mem_iff.mpr List.mem_cons_self)
      simp at mine
  | some entry =>
      have member := List.mem_of_find?_eq_some found
      have named := List.find?_some found
      rcases List.mem_cons.mp (entered.mem_iff.mp member) with rfl | old
      · rfl
      · exact absurd named (List.find?_eq_none.mp absent entry old)

/-- The state before the name is entered: a new directory is written, and the parent is as it
was. -/
structure DirWritten (env : Env δ) (state : Fs δ) (parent new : Nat) (inode : Inode)
    (ready : Fs δ) : Prop where
  valid : ready.validIno new = true
  super : ready.super = state.super
  marked : ready.inodeMap = Function.update state.inodeMap new true
  own : ready.dirs new = env.dir.newDirBlock new parent
    (if state.super.filetype then EXT2_FT_DIR else 0)
  others : ∀ dir, dir ≠ new → ready.dirs dir = state.dirs dir
  recorded : ready.inodeTab new = inode
  parentSame : ready.inodeTab parent = state.inodeTab parent

/-- Before the new directory is entered its number is in no entry but its own and those that were
there. -/
theorem DirWritten.entries {inode : Inode} {ready : Fs δ}
    (written : DirWritten env state parent new inode ready)
    (lawful : env.dir.Lawful) (sofar : MkdirSofar env fs parent state) (dir : Nat)
    (other : dir ≠ parent) (entry : Dirent) (member : entry ∈ env.dir.entries (ready.dirs dir)) :
    entry ∈ env.dir.entries (fs.dirs dir) ∨ state.inodeMap entry.inode = true ∨
      entry.inode = new ∧ entry.fileType = if state.super.filetype then EXT2_FT_DIR % 8 else 0 := by
  by_cases here : dir = new
  · rw [here, written.own, lawful.newDirBlock_entries] at member
    have type : (if state.super.filetype then EXT2_FT_DIR else 0) =
        if state.super.filetype then EXT2_FT_DIR % 8 else 0 := by
      split <;> rfl
    rcases List.mem_cons.mp member with rfl | rest
    · exact .inr (.inr ⟨rfl, type⟩)
    · rw [List.mem_singleton.mp rest]
      exact .inr (.inl sofar.inUse)
  · rw [written.others dir here] at member
    exact (sofar.others dir other entry member).imp_right .inl

/-- The last part of a turn, after the new directory's block is written. -/
theorem enterName_made (lawful : env.dir.Lawful) (sofar : MkdirSofar env fs parent state)
    (picked : state.ext2fsNewInode parent = .ok new) {inode parentInode : Inode} {ready : Fs δ}
    (written : DirWritten env state parent new inode ready)
    (mode : inode.iMode = LINUX_S_IFDIR ||| 0o755) (uid : inode.iUid = ctx.uid % 2 ^ 16)
    (gid : inode.iGid = ctx.gid % 2 ^ 16)
    (read : state.validIno parent = true → parentInode = state.inodeTab parent)
    (isDir : ready.ext2fsCheckDirectory parent = 0)
    (absent : (env.dir.entries (ready.dirs parent)).find?
      (fun entry => entry.name == name) = none) :
    Leads (lib env) (do
        let rc ← lift (.link parent name new EXT2_FT_DIR)
        if rc ≠ 0 then return rc
        lift (.writeInode parent parentInode.raiseLinks))
      (TurnMade env fs ctx parent name) ready := by
  have free := newInode_free picked
  have apart : parent ≠ new := by
    rintro rfl
    rw [sofar.inUse] at free
    cases free
  have super : ready.super = fs.super := written.super.trans sofar.super
  have parents : ready.dirs parent = state.dirs parent := written.others parent apart
  have entries := written.entries lawful sofar
  have isDirectory := (ext2fsCheckDirectory_ok isDir).2
  refine leads_lift_bind fun rc linked outcome => ?_
  have links := @ext2fsLink_typed _ env ready lawful parent name new EXT2_FT_DIR
  have entered := @ext2fsLink_enters _ env ready parent name new EXT2_FT_DIR new
  have inodes := @sameInodes_link _ env ready parent name new EXT2_FT_DIR
  change ready.ext2fsLink env parent name new EXT2_FT_DIR = _ at outcome
  rw [outcome] at links entered inodes
  split
  · rename_i failed
    by_cases full : rc = EXT2_ET_DIR_NO_SPACE
    · have same : ∀ dir, env.dir.entries (linked.dirs dir) = env.dir.entries (ready.dirs dir) :=
        fun dir => links.2 dir fun _ => failed
      have marked : linked.inodeMap = Function.update state.inodeMap new true :=
        inodes.2.trans written.marked
      rw [leads_pure]
      refine .inr (.inl ⟨full, inodes.1.trans super, ?_, ?_, fun dir other entry member => ?_⟩)
      · rw [marked, Function.update_of_ne apart]
        exact sofar.inUse
      · rw [same, parents]
        exact sofar.parents
      · rw [same] at member
        rw [marked]
        refine (entries dir other entry member).imp_right fun used => ?_
        by_cases own : entry.inode = new
        · rw [own]
          exact Function.update_self _ _ _
        · rw [Function.update_of_ne own]
          exact used.resolve_right fun named => own named.1
    · exact .inr (.inr ⟨failed, full⟩)
  · rename_i succeeded
    rw [not_not] at succeeded
    subst succeeded
    rw [leads_lift]
    have validParent : linked.validIno parent = true := by
      rw [validIno_congr inodes.1]
      exact (ext2fsCheckDirectory_ok isDir).1
    have wrote : (lib env).exec (.writeInode parent parentInode.raiseLinks) linked =
        (0, { linked with
          inodeTab := Function.update linked.inodeTab parent parentInode.raiseLinks }) := by
      rw [lib_writeInode, ext2fsWriteInode, if_pos validParent]
    rw [wrote]
    have list := (links.1 rfl).2
    have mine : linked.inodeTab new = inode :=
      (entered.apart (Ne.symm apart)).trans written.recorded
    have kept : (Function.update linked.inodeTab parent parentInode.raiseLinks) new = inode := by
      rw [Function.update_of_ne (Ne.symm apart), mine]
    have made : Made env fs {
      linked with inodeTab := Function.update linked.inodeTab parent parentInode.raiseLinks }
        ctx (LINUX_S_IFDIR ||| 0o755) EXT2_FT_DIR parent name new := by
      refine ⟨?_, ?_, inodes.1.trans super, ?_, ?_, ?_, ?_, fun dir other entry member named => ?_⟩
      · rw [← sofar.super]
        exact newInode_reserved picked
      · exact (validIno_congr inodes.1 new).trans written.valid
      · exact (congrArg Inode.iMode kept).trans mode
      · exact (congrArg Inode.iUid kept).trans uid
      · exact (congrArg Inode.iGid kept).trans gid
      · rw [super, parents, sofar.parents] at list
        exact list
      · rw [show env.dir.entries (linked.dirs dir) = env.dir.entries (ready.dirs dir) from
          links.2 dir fun inParent => absurd inParent other] at member
        rcases entries dir other entry member with old | used | ⟨-, type⟩
        · exact .inl old
        · rw [named] at used
          rw [used] at free
          cases free
        · rw [sofar.super] at type
          exact .inr type
    refine .inl ⟨rfl, new, made, lookup_entered lawful ?_ absent list⟩
    refine checkDirectory_eq_zero validParent ?_
    have validBefore : state.validIno parent = true :=
      (validIno_congr written.super parent).symm.trans (ext2fsCheckDirectory_ok isDir).1
    rw [← written.parentSame] at read
    dsimp only
    rw [Function.update_self, read validBefore]
    exact isDirectory

/-- The part of a turn that writes the new directory and enters its name. -/
theorem mkdirEnter_made (lawful : env.dir.Lawful) (sofar : MkdirSofar env fs parent state)
    (picked : state.ext2fsNewInode parent = .ok new) {inode parentInode : Inode}
    (mode : inode.iMode = LINUX_S_IFDIR ||| 0o755) (uid : inode.iUid = ctx.uid % 2 ^ 16)
    (gid : inode.iGid = ctx.gid % 2 ^ 16)
    (read : state.validIno parent = true → parentInode = state.inodeTab parent) :
    Leads (lib env) (mkdirEnter parent name new blk
        (env.dir.newDirBlock new parent (if state.super.filetype then EXT2_FT_DIR else 0))
        inode parentInode)
      (TurnMade env fs ctx parent name) (state.taken new blk) := by
  have free := newInode_free picked
  have apart : parent ≠ new := by
    rintro rfl
    rw [sofar.inUse] at free
    cases free
  refine leads_lift_bind fun rc blocked outcome => ?_
  obtain ⟨rfl, rfl⟩ := Prod.mk.inj outcome
  rw [if_neg (not_not.mpr rfl)]
  refine leads_lift_bind fun rc written outcome => ?_
  split
  · rename_i failed
    have code := ext2fsWriteInode_code { state.taken new blk with
      dirs := Function.update (state.taken new blk).dirs new (env.dir.newDirBlock new parent
        (if state.super.filetype then EXT2_FT_DIR else 0)) } new inode
    change Fs.ext2fsWriteInode _ new inode = _ at outcome
    rw [outcome] at code
    dsimp only at code
    refine turnMade_failed failed ?_
    rw [code.resolve_left failed]
    decide
  rename_i succeeded
  rw [not_not] at succeeded
  subst succeeded
  obtain ⟨valid, rfl⟩ := ext2fsWriteInode_ok outcome
  have validNew : state.validIno new = true := valid
  refine leads_lift_bind fun looked ready outcome => ?_
  obtain ⟨looks, readyEq⟩ := Prod.mk.inj outcome
  have dirWritten : DirWritten env state parent new inode ready := by
    rw [← readyEq]
    exact ⟨valid, rfl, taken_inodeMap validNew blk, Function.update_self _ _ _,
      fun dir other => Function.update_of_ne other _ _, Function.update_self _ _ _,
      Function.update_of_ne apart _ _⟩
  replace looks : ready.ext2fsLookup env parent name = looked := by
    rw [← readyEq, ← looks]
  cases looked with
  | ok _ => exact turnMade_failed (by decide) (by decide)
  | error rc =>
      rcases lookup_error lawful looks with ⟨rfl, isDir, absent⟩ | rfl | rfl
      · exact enterName_made lawful sofar picked dirWritten mode uid gid read isDir absent
      · exact turnMade_failed (by decide) (by decide)
      · exact turnMade_failed (by decide) (by decide)

/-- A turn of do_mkdir makes the directory, finds no space or fails. -/
theorem newExt2fsMkdir_made (lawful : env.dir.Lawful) (sofar : MkdirSofar env fs parent state) :
    Leads (lib env) (newExt2fsMkdir (some ctx) parent name)
      (TurnMade env fs ctx parent name) state := by
  rw [newExt2fsMkdir_eq]
  refine leads_lift_bind fun picks _ outcome => ?_
  obtain ⟨picked, rfl⟩ := Prod.mk.inj outcome
  cases picks with
  | error rc =>
      rw [newInode_code picked]
      exact turnMade_failed (by decide) (by decide)
  | ok new =>
  refine leads_lift_bind fun news _ outcome => ?_
  obtain ⟨fresh, rfl⟩ := Prod.mk.inj outcome
  cases news with
  | error rc =>
      rw [newBlock_code fresh]
      exact turnMade_failed (by decide) (by decide)
  | ok blk =>
  refine leads_lift_bind fun block _ outcome => ?_
  obtain ⟨rfl, rfl⟩ := Prod.mk.inj outcome
  refine leads_lift_bind fun parentInode _ outcome => ?_
  obtain ⟨rfl, rfl⟩ := Prod.mk.inj outcome
  dsimp only
  split
  · exact turnMade_failed (by decide) (by decide)
  refine leads_lift_bind fun super _ outcome => ?_
  obtain ⟨rfl, rfl⟩ := Prod.mk.inj outcome
  refine leads_lift_bind fun now _ outcome => ?_
  obtain ⟨rfl, rfl⟩ := Prod.mk.inj outcome
  refine leads_lift_bind fun _ _ outcome => ?_
  obtain ⟨-, rfl⟩ := Prod.mk.inj outcome
  refine leads_lift_bind fun _ _ outcome => ?_
  obtain ⟨-, rfl⟩ := Prod.mk.inj outcome
  refine mkdirEnter_made lawful sofar picked rfl rfl rfl fun valid => ?_
  rw [ext2fsReadInode, if_pos valid]
  rfl

/-- A loop that succeeds has made the directory in its last turn. -/
theorem mkdirLoop_made (lawful : env.dir.Lawful) (bound : Nat)
    (sofar : MkdirSofar env fs parent state) :
    Leads (lib env) (mkdirLoop (some ctx) parent name bound) (fun rc next => rc = 0 →
      ∃ new, Made env fs next ctx (LINUX_S_IFDIR ||| 0o755) EXT2_FT_DIR parent name new ∧
        next.ext2fsLookup env parent name = .ok new) state := by
  induction bound generalizing state with
  | zero => exact fun done => absurd done (show EXT2_ET_DIR_NO_SPACE ≠ 0 by decide)
  | succ bound inductionHypothesis =>
      refine leads_bind_of fun rc next outcome => ?_
      have turn := (newExt2fsMkdir_made lawful sofar).outcome outcome
      split
      · rename_i full
        subst full
        refine leads_lift_bind fun rc' expanded outcome => ?_
        have same := @sameInodes_expandDir _ env next parent
        have space := congrArg Ns.ents (@ns_expandDir _ env next parent lawful)
        change next.ext2fsExpandDir env parent = _ at outcome
        rw [outcome] at same space
        have entries : ∀ dir, env.dir.entries (expanded.dirs dir) =
          env.dir.entries (next.dirs dir) :=
          fun dir => congrFun space dir
        split
        · exact fun done => absurd done (show ENOSPC ≠ 0 by decide)
        · rcases turn with ⟨done, -⟩ | ⟨-, left⟩ | ⟨-, roomy⟩
          · cases done
          · refine inductionHypothesis ⟨same.1.trans left.super, ?_, ?_,
              fun dir other entry member => ?_⟩
            · rw [same.2]
              exact left.inUse
            · rw [entries]
              exact left.parents
            · rw [entries] at member
              rw [same.2]
              exact left.others dir other entry member
          · exact absurd rfl roomy
      · rename_i roomy
        intro done
        exact (turn.resolve_right fun failed => failed.elim (fun full => roomy full.1) fun failed =>
          failed.1 done).2

/-- do_mkdir that succeeds returns the directory made. -/
theorem doMkdir_made (lawful : env.dir.Lawful) (inUse : fs.inodeMap parent = true) :
    Leads (lib env) (doMkdir (some ctx) parent name) (fun result next =>
      (∀ rc, result = .error rc → rc ≠ 0 ∧ rc ≠ EXT2_ET_DIR_NO_SPACE) ∧
        ∀ new, result = .ok new → Made env fs next ctx
          (LINUX_S_IFDIR ||| 0o755) EXT2_FT_DIR parent name new)
      fs := by
  refine leads_lift_bind fun super _ outcome => ?_
  obtain ⟨rfl, rfl⟩ := Prod.mk.inj outcome
  rw [doMkdirWithin]
  refine leads_bind_of fun rc next outcome => ?_
  have settled := (@mkdirLoop_settles _ env (some ctx) parent name fs).outcome outcome
  rw [mkdirFinish]
  have looped := (@mkdirLoop_made _ env fs fs ctx parent name lawful (fs.super.sInodesCount + 1)
    ⟨rfl, inUse, rfl, fun _ _ _ => .inl⟩).outcome outcome
  split
  · rename_i failed
    refine ⟨fun _ same => Except.error.inj same ▸ ⟨failed, settled⟩, ?_⟩
    rintro new ⟨⟩
  rename_i succeeded
  obtain ⟨new, made, looks⟩ := looped (not_not.mp succeeded)
  rw [leads_bind, leads_lift, lib_lookup, looks, leads_pure]
  refine ⟨?_, fun _ same => Except.ok.inj same ▸ made⟩
  rintro rc ⟨⟩

/-- op_mkdir makes a directory with mode 0755, whatever the caller asked for. -/
theorem opMkdir_made (lawful : env.dir.Lawful) (inUse : fs.inodeMap (EXT2FS_INO parent) = true) :
    Leads (lib env) (opMkdir ctx parent name) (RepliesMade env fs ctx
      (LINUX_S_IFDIR ||| 0o755) EXT2_FT_DIR (EXT2FS_INO parent) name) fs := by
  refine leads_bind_of fun result next outcome => ?_
  obtain ⟨failed, made⟩ := (doMkdir_made lawful inUse).outcome outcome
  cases result with
  | error rc =>
      obtain ⟨nonzero, settled⟩ := failed rc rfl
      rw [replyMkdir, if_neg settled]
      exact repliesMade_err nonzero
  | ok new =>
      have done := made new rfl
      refine leads_bind_of fun result read outcome => ?_
      rw [run_readInode done.valid] at outcome
      cases outcome
      rw [leads_bind, leads_lift, lib_super, leads_pure]
      exact fun _ => ⟨new, rfl, done⟩

end Directories

/-- **A successful `op_create`, `op_mkdir` or `op_symlink` makes an object of the caller's, with the
type and permissions asked for, if and only if the caller's numbers fit into 16 bits and the request
is one the code honours.** -/
theorem identity_iff {env : Env δ} (lawful : env.dir.Lawful) {fs fs' : Fs δ} {ctx : FuseCtx}
    {creation : Creation} {parent ino : Nat} {name : Name} {replies : List Reply}
    (reserved : 2 ≤ fs.super.sFirstIno) (inUse : fs.inodeMap (EXT2FS_INO parent) = true)
    (outcome : (creation.handler ctx parent name).run (lib env) fs = (replies, fs'))
    (succeeds : replies.all Reply.ok = true)
    (reported : replies.head?.bind Reply.reported = some ino) :
    HasIdentity env fs fs' ctx creation parent name ino ↔
      ctx.uid < 2 ^ 16 ∧ ctx.gid < 2 ^ 16 ∧ creation.Honoured fs.super := by
  have made : RepliesMade env fs ctx creation.mode creation.filetype
    (EXT2FS_INO parent) name replies fs' := by
    cases creation with
    | create mode flags => exact (opCreate_made lawful flags).outcome outcome
    | mkdir mode => exact (opMkdir_made lawful inUse).outcome outcome
    | symlink target => exact (opSymlink_made lawful target).outcome outcome
  obtain ⟨new, same, made⟩ := made succeeds
  rw [reported] at same
  cases same
  exact made.hasIdentity_iff lawful reserved

/-- A file made by op_create in the example has the identity asked for. -/
theorem create_has_identity :
    let outcome := ((Creation.create 0o100640 {}).handler ⟨0, 65535⟩ 1 [0x63]).run
      (lib listEnv) twoFiles
    HasIdentity listEnv twoFiles outcome.2 ⟨0, 65535⟩ (.create 0o100640 {}) 1 [0x63] 13 :=
  (@identity_iff _ listEnv listDir_lawful twoFiles _ ⟨0, 65535⟩ (.create 0o100640 {}) 1 13 [0x63] _
    (by decide) (by decide) rfl (by decide) (by decide)).mpr ⟨by decide, by decide, trivial⟩

/-- `mkdir` with mode 0700 makes a directory that everyone may read. -/
theorem mkdir_ignores_mode :
    let outcome := ((Creation.mkdir 0o700).handler ⟨0, 0⟩ 1 [0x63]).run (lib listEnv) twoFiles
    outcome.1.all Reply.ok = true ∧ outcome.1.head?.bind Reply.reported = some 13 ∧
      ¬ HasIdentity listEnv twoFiles outcome.2 ⟨0, 0⟩ (.mkdir 0o700) 1 [0x63] 13 := by
  intro outcome
  refine ⟨by decide, by decide, ?_⟩
  rintro ⟨⟨stat, reported, -, -, mode⟩, -, -⟩
  have attributes : (opGetattr 13).run (lib listEnv) outcome.2 =
      ([.attr (fillStatbuf outcome.2.super 13 (outcome.2.inodeTab 13))], outcome.2) := rfl
  rw [attributes] at reported
  cases reported
  exact absurd mode (by decide)

end Ext2Fuse
