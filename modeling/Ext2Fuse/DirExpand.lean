import Ext2Fuse.MkdirTakes
import Ext2Fuse.MovedDots

/-!
# One expansion is enough

`do_link` and the loop of `do_mkdir` expand a directory without space and try again. The block that
`ext2fs_expand_dir` appends is one free record, where `link_proc` ends its walk at the latest.
-/

namespace Ext2Fuse

open Lib Program Fs

namespace DirBlock

variable {bs : Nat} {buf : Block} {name : Name} {ino fileType start : Nat} {offsets : List Nat}
    {blocks : List Block}

section Walk

variable (bounded : bs < 65536) (short : name.length ≤ 255)

include bounded short

/-- Whatever number is entered, `link_proc` leaves records that fill the block, and stops once the
entry is placed. -/
theorem linkProc_kept (spans : Spans buf start (start :: offsets) bs) (done : Bool) :
    ∃ flags buf' done' offsets', linkProc bs name ino fileType buf start done =
      (flags, buf', done') ∧
      Spans buf' start (start :: offsets') bs ∧ (∀ index < start, buf' index = buf index) ∧
      (flags.abort = false ∧ done' = done ∨ flags.abort = true ∧ flags.changed = true ∧
        done' = true) := by
  obtain ⟨⟨offsets', kept, -⟩, below⟩ := rewritten_absorbed (by omega) spans
  obtain ⟨long, -⟩ := recLen_name name.length
  obtain ⟨longOwn, -⟩ := recLen_name (nameLen8At (absorbed bs buf start) start)
  rw [linkProc_eq]
  split
  · split
    · exact ⟨_, _, _, offsets', rfl, kept, below, .inl ⟨rfl, rfl⟩⟩
    · obtain ⟨spansCut, -⟩ := spans_cut (by omega) kept
      refine ⟨_, _, _, _, rfl, spansCut, fun index less => ?_, .inl ⟨rfl, rfl⟩⟩
      rw [cut_apply (by omega), below index less]
  · split
    · exact ⟨_, _, _, offsets', rfl, kept, below, .inl ⟨rfl, rfl⟩⟩
    · refine ⟨_, _, _, offsets', rfl, spans_filled short (by omega) kept, fun index less => ?_,
        .inr ⟨rfl, rfl, rfl⟩⟩
      rw [filled_outside (by omega), below index less]

/-- A walk of link_proc keeps the chain of records, whatever it does. -/
theorem walk_link_kept (bound : Nat) (spans : Spans buf start offsets bs)
    (enough : bs ≤ start + bound) (changed : Bool) :
    ∃ walk, walkRecords bs true (linkProc bs name ino fileType) bound start
        { changed := changed, buf := buf, priv := false } = walk ∧ walk.errcode = 0 ∧
      walk.abort = walk.priv ∧ (walk.abort = true → walk.changed = true) ∧
      (∀ index < start, walk.buf index = buf index) ∧
      ∃ offsets', Spans walk.buf start offsets' bs := by
  induction bound generalizing buf start offsets changed with
  | zero => exact ⟨_, rfl, rfl, rfl, by rintro ⟨⟩, fun _ _ => rfl, offsets, spans⟩
  | succ bound inductionHypothesis =>
      cases spans with
      | nil =>
          rw [walkRecords, if_neg (Nat.lt_irrefl _)]
          exact ⟨_, rfl, rfl, rfl, by rintro ⟨⟩, fun _ _ => rfl, [], .nil _⟩
      | @cons _ _ offsets sound rest =>
          have long := sound.long
          have ends := rest.le
          have unbad : badRecord bs buf start = false := badRecord_iff_sound.mpr ⟨ends, sound⟩
          obtain ⟨flags, buf', done, offsets', called, spans', below, outcome⟩ :=
            @linkProc_kept bs buf name ino fileType start offsets bounded short
              (.cons sound rest) false
          rw [walkRecords, if_pos (by omega), unbad, if_neg (by simp), if_neg (by simp), called]
          dsimp only
          rcases outcome with ⟨goesOn, rfl⟩ | ⟨stops, changes, rfl⟩
          · cases spans' with
            | cons sound' rest' =>
                have long' := sound'.long
                obtain ⟨walk, walked, errcode, stopped, wrote, kept, offsets'', spans''⟩ :=
                  inductionHypothesis rest' (by omega) (changed || flags.changed)
                rw [goesOn, if_neg (by simp)]
                refine ⟨walk, walked, errcode, stopped, wrote,
                  fun index less => (kept index (by omega)).trans (below index less),
                    start :: offsets'', ?_⟩
                have header : ∀ index, start ≤ index → index < start + 8 →
                  walk.buf index = buf' index :=
                  fun index _ less => kept index (by omega)
                refine .cons (sound'.congr header) ?_
                rw [(fields_congr header).2.1]
                exact spans''
          · rw [stops, if_pos rfl]
            exact ⟨_, rfl, rfl, rfl, fun _ => by simp [changes], below, _, spans'⟩

/-- So does the processing of a block. -/
theorem processDirBlock_link_kept (chain : Chain bs buf 0) :
    ∃ done buf', processDirBlock bs true (linkProc bs name ino fileType) buf false =
      (0, done, buf', done) ∧
      Chain bs buf' 0 := by
  obtain ⟨offsets, spans⟩ := chain.spans
  obtain ⟨walk, walked, errcode, stopped, wrote, -, offsets', spans'⟩ :=
    @walk_link_kept bs buf name ino fileType 0 offsets bounded short bs spans
      (Nat.le_add_left ..) false
  rw [processDirBlock, chain.readDirBlockBad_eq, if_neg (by simp), walked]
  dsimp only
  refine ⟨walk.priv, if walk.errcode = 0 && walk.changed then walk.buf else buf,
    by rw [errcode, stopped], ?_⟩
  split
  · exact spans'.chain
  · exact chain

/-- `ext2fs_link` of any number ends without an error in the records, and keeps the directory well
formed. -/
theorem WellFormed.link_kept (wellFormed : WellFormed bs blocks) :
    ∃ done blocks', dirIterate bs true (linkProc bs name ino fileType) blocks false =
      (0, blocks', done) ∧
      WellFormed bs blocks' := by
  induction blocks with
  | nil => exact ⟨false, [], rfl, wellFormed⟩
  | cons block blocks inductionHypothesis =>
      have rest : WellFormed bs blocks :=
        fun other member => wellFormed other (List.mem_cons_of_mem _ member)
      obtain ⟨done, block', processed, chain⟩ :=
        @processDirBlock_link_kept bs block name ino fileType bounded short
        (wellFormed block (List.mem_cons_self ..))
      obtain ⟨later, blocks', iterated, kept⟩ := inductionHypothesis rest
      rw [dirIterate, processed]
      cases done with
      | true => exact ⟨true, block' :: blocks, rfl, List.forall_mem_cons.mpr ⟨chain, rest⟩⟩
      | false =>
          simp only [iterated]
          exact ⟨later, block' :: blocks', rfl, List.forall_mem_cons.mpr ⟨chain, kept⟩⟩

/-- The walk ends with the entry placed where a last block takes every name. -/
theorem WellFormed.link_last {last : Block} (wellFormed : WellFormed bs blocks)
    (takes : ∃ last', processDirBlock bs true (linkProc bs name ino fileType) last false =
      (0, true, last', true)) :
    ∃ blocks', dirIterate bs true (linkProc bs name ino fileType) (blocks ++ [last]) false =
      (0, blocks', true) := by
  induction blocks with
  | nil =>
      obtain ⟨last', processed⟩ := takes
      exact ⟨[last'], by rw [List.nil_append, dirIterate, processed]⟩
  | cons block blocks inductionHypothesis =>
      obtain ⟨done, block', processed, -⟩ :=
        @processDirBlock_link_kept bs block name ino fileType bounded short
        (wellFormed block (List.mem_cons_self ..))
      obtain ⟨blocks', iterated⟩ :=
        inductionHypothesis fun other member => wellFormed other (List.mem_cons_of_mem _ member)
      rw [List.cons_append, dirIterate, processed]
      cases done with
      | true => exact ⟨_, rfl⟩
      | false =>
          simp only [iterated]
          exact ⟨_, rfl⟩

/-- The block `ext2fs_expand_dir` appends takes every name. -/
theorem processDirBlock_link_empty (aligned : bs % 4 = 0) (room : 266 ≤ bs) :
    ∃ last', processDirBlock bs true (linkProc bs name ino fileType) (emptyBlock bs) false =
      (0, true, last', true) := by
  obtain ⟨spans, -⟩ := spans_emptyBlock bounded aligned (by omega)
  obtain ⟨-, -, -, most⟩ := recLen_name name.length
  have recLen : recLenAt (emptyBlock bs) 0 = bs := by
    rw [recLenAt, emptyBlock, Bytes.getU16_setU16_same, Nat.mod_eq_of_lt bounded]
  have free : inodeAt (emptyBlock bs) 0 = 0 := by
    rw [inodeAt, emptyBlock, Bytes.getU32_congr fun index _ _ => setU16_apply_outside _ (by omega)]
    rfl
  have alone : absorbed bs (emptyBlock bs) 0 = emptyBlock bs := by
    have stays : absorbs bs (emptyBlock bs) 0 = false := by
      rw [absorbs, recLen, Bool.and_eq_false_iff, Bool.and_eq_false_iff, decide_eq_false_iff_not]
      exact .inl (.inl (by omega))
    rw [absorbed_eq, stays]
    rfl
  have called : linkProc bs name ino fileType (emptyBlock bs) 0 false =
      ({ changed := true, abort := true }, filled (emptyBlock bs) 0 name ino fileType, true) := by
    rw [linkProc_eq, alone, if_neg (not_not.mpr free), if_neg (by rw [recLen]; omega)]
  have unbad : badRecord bs (emptyBlock bs) 0 = false := by
    cases spans with
    | cons sound rest =>
        have ends := rest.le
        exact badRecord_iff_sound.mpr ⟨ends, sound⟩
  obtain ⟨bound, boundEq⟩ : ∃ bound, bs = bound + 1 := ⟨bs - 1, by omega⟩
  have walked : ∀ total, total = bound + 1 →
      walkRecords bs true (linkProc bs name ino fileType) total 0
        { buf := emptyBlock bs, priv := false } =
          { changed := true
            abort := true
            buf := filled (emptyBlock bs) 0 name ino fileType
            priv := true } := by
    rintro _ rfl
    rw [walkRecords, if_pos (by omega), unbad, if_neg (by simp), if_neg (by simp), called]
    rfl
  rw [processDirBlock, spans.chain.readDirBlockBad_eq, if_neg (by simp), walked bs boundEq]
  exact ⟨_, rfl⟩

/-- **One expansion is enough**: a well-formed directory takes every name behind it. -/
theorem WellFormed.link_expand (aligned : bs % 4 = 0) (room : 266 ≤ bs)
    (wellFormed : WellFormed bs blocks) :
    ((dirLib bs).link ((dirLib bs).expand blocks) name ino fileType).1 = 0 := by
  obtain ⟨blocks', iterated⟩ := wellFormed.link_last bounded short
    (@processDirBlock_link_empty bs name ino fileType bounded short aligned room)
  simp only [dirLib, iterated]

/-- Without space the directory stays well formed. -/
theorem WellFormed.link_full {rc : Errcode} {blocks' : List Block}
    (wellFormed : WellFormed bs blocks)
    (linked : (dirLib bs).link blocks name ino fileType = (rc, blocks')) :
    WellFormed bs blocks' := by
  obtain ⟨done, kept, iterated, stays⟩ :=
    @WellFormed.link_kept bs name ino fileType blocks bounded short wellFormed
  simp only [dirLib, iterated] at linked
  cases done <;> exact (Prod.mk.inj linked).2 ▸ stays

end Walk

end DirBlock

section Requests

open DirBlock

variable {env : Env (List Block)} {fs linked expanded fs' : Fs (List Block)} {perms : Perms}
    {bs parent ino flags : Nat}
  {name : Name} (envDir : env.dir = dirLib bs) (bounded : bs < 65536) (aligned : bs % 4 = 0)
    (room : 266 ≤ bs)
  (short : name.length ≤ 255)

theorem checkDirectory_ne_noSpace (fs : Fs (List Block)) (dir : Nat) :
    fs.ext2fsCheckDirectory dir ≠ EXT2_ET_DIR_NO_SPACE := by
  rcases ext2fsCheckDirectory_code fs dir with code | code | code
  · rw [code]
    decide
  · rw [code]
    decide
  · rw [code]
    decide

/-- What `ext2fs_link` has done when it says that there is no space: it has walked the records. -/
theorem ext2fsLink_full
    (linking : fs.ext2fsLink env parent name ino flags = (EXT2_ET_DIR_NO_SPACE, linked)) :
    fs.ext2fsCheckDirectory parent = 0 ∧
      env.dir.link (fs.dirs parent) name ino (fs.recordedType flags) =
        (EXT2_ET_DIR_NO_SPACE, linked.dirs parent) ∧
      linked.super = fs.super ∧ linked.inodeMap = fs.inodeMap ∧ linked.inodeTab = fs.inodeTab := by
  by_cases checked : fs.ext2fsCheckDirectory parent = 0
  · rw [ext2fsLink_eq checked] at linking
    obtain ⟨full, rfl⟩ := Prod.mk.inj linking
    refine ⟨checked, ?_, rfl, rfl, if_neg (by rw [full]; decide)⟩
    exact Prod.ext full (Function.update_self parent _ fs.dirs).symm
  · rw [ext2fsLink, if_neg checked] at linking
    exact absurd (Prod.mk.inj linking).1 (checkDirectory_ne_noSpace fs parent)

include envDir bounded aligned room short

/-- After an expansion that succeeds, `ext2fs_link` does. -/
theorem ext2fsLink_expanded (wellFormed : WellFormed bs (fs.dirs parent))
    (linking : fs.ext2fsLink env parent name ino flags = (EXT2_ET_DIR_NO_SPACE, linked))
    (expanding : linked.ext2fsExpandDir env parent = (0, expanded)) :
    (expanded.ext2fsLink env parent name ino flags).1 = 0 := by
  obtain ⟨checked, full, super, -, table⟩ := ext2fsLink_full linking
  obtain ⟨valid, isDir⟩ := ext2fsCheckDirectory_ok checked
  obtain ⟨superNext, contents⟩ := ext2fsExpandDir_contents expanding
  have mode : (expanded.inodeTab parent).iMode = (fs.inodeTab parent).iMode := by
    have unsized := (ext2fsExpandDir_frame env linked parent parent).2.2
    rw [expanding, table] at unsized
    exact (congrArg Inode.iMode unsized :)
  have checkedLast : expanded.ext2fsCheckDirectory parent = 0 :=
    @checkDirectory_of_isDir _ env expanded parent
      ((validIno_congr (superNext.trans super) parent).trans valid)
      ((congrArg LINUX_S_ISDIR mode).trans isDir)
  rw [envDir] at full
  rw [ext2fsLink_eq checkedLast, contents, envDir]
  exact (wellFormed.link_full bounded short full).link_expand bounded short aligned room

/-- `do_link` never fails for lack of space after an expansion that succeeds. -/
theorem run_doLink_expanded (wellFormed : WellFormed bs (fs.dirs parent))
    (linking : fs.ext2fsLink env parent name ino flags = (EXT2_ET_DIR_NO_SPACE, linked))
    (expanding : linked.ext2fsExpandDir env parent = (0, expanded)) :
    ((doLink parent name ino flags).run (lib env) fs).1 = 0 := by
  have succeeds := ext2fsLink_expanded envDir bounded aligned room short wellFormed
    linking expanding
  rw [doLink, run_bind, run_lift,
    show (lib env).exec (.link parent name ino flags) fs = _ from linking]
  dsimp only
  rw [if_pos rfl, run_bind, run_lift, show (lib env).exec (.expandDir parent) linked =
    _ from expanding]
  dsimp only
  rw [if_neg (by simp), run_bind, run_lift]
  change (run _
    (pure (if (expanded.ext2fsLink env parent name ino flags).1 ≠ 0 then EIO else 0)) _).1 = 0
  rw [succeeds]
  rfl

end Requests

/-- `do_mkdir` without the loop: a turn, and another one after an expansion. -/
def mkdirTwice {δ : Type} (perms : Perms) (parent : Nat) (name : Name) : Prog δ Errcode := do
  let rc ← newExt2fsMkdir perms parent name
  if rc = EXT2_ET_DIR_NO_SPACE then
    let rc ← lift (.expandDir parent)
    if rc ≠ 0 then return ENOSPC
    newExt2fsMkdir perms parent name
  else return rc

section Turns

open DirBlock

/-- A call that fails does so with a fault of the schedule. -/
theorem leads_faulty_member {δ α : Type} {env : Env δ} {fs : Fs δ} {faults : List (Option Fault)}
    {operation : LibCall δ α} {post : α → Fs δ × List (Option Fault) → Prop}
    (ok : post ((Fs.lib env).exec operation fs).1 (((Fs.lib env).exec operation fs).2, faults.tail))
    (failed : ∀ fault response, some fault ∈ faults → operation.failed fault = some response →
      post response (operation.leaves env fault fs, faults.tail)) :
    Leads (faultyLib env) (lift operation) post (fs, faults) := by
  rcases faults with _ | ⟨_ | fault, rest⟩
  · exact ok
  · exact ok
  · rw [leads_lift, faultyLib, Interp.faulty]
    dsimp only [List.head?_cons, Option.join_some, Option.bind_some]
    cases responded : operation.failed fault with
    | none => exact ok
    | some response =>
        rw [Option.map_some]
        exact failed fault response (List.mem_cons_self ..) responded

theorem Honest.drop {faults : List (Option Fault)} (honest : Honest faults) (count : Nat) :
    Honest (faults.drop count) :=
  fun fault member => honest fault (List.mem_of_mem_drop member)

variable {env : Env (List Block)} {fs : Fs (List Block)} {faults : List (Option Fault)}
    {perms : Perms} {bs parent : Nat}
  {name : Name} (envDir : env.dir = dirLib bs) (wellFormed : WellFormed bs (fs.dirs parent))
  (inUse : fs.inodeMap parent = true) (honest : Honest faults)

include envDir

/-- A name that is not found is not missing for want of space. -/
theorem lookup_code {written : Fs (List Block)} (wellFormed : WellFormed bs (written.dirs parent))
    {rc : Errcode} (looked : written.ext2fsLookup env parent name = .error rc) :
    rc ≠ EXT2_ET_DIR_NO_SPACE := by
  rw [ext2fsLookup] at looked
  split at looked
  · rw [envDir, wellFormed.lookup_eq] at looked
    split at looked
    · cases looked
    · cases looked
      decide
  · cases looked
    exact checkDirectory_ne_noSpace written parent

/-- The link at the end of a turn finds no space only in what the parent holds. -/
theorem enterName_full {written : Fs (List Block)} (inUse : written.inodeMap parent = true)
    (honest : Honest faults) (new : Nat) (parentInode : Inode) :
    Leads (faultyLib env) (do
        let rc ← lift (.link parent name new EXT2_FT_DIR)
        if rc ≠ 0 then return rc
        lift (.writeInode parent parentInode))
      (fun rc next => rc = EXT2_ET_DIR_NO_SPACE →
        Honest next.2 ∧ next.1.inodeMap parent = true ∧ ∃ ino fileType,
          (dirLib bs).link (written.dirs parent) name ino fileType =
            (EXT2_ET_DIR_NO_SPACE, next.1.dirs parent)) (written, faults) := by
  have badInode : EXT2_ET_BAD_INODE_NUM ≠ EXT2_ET_DIR_NO_SPACE := by decide
  rw [leads_bind]
  refine leads_faulty_member ?_ fun fault response member failed => ?_
  swap
  · cases failed
    rw [if_pos fault.nonzero]
    exact fun full => absurd full (honest _ member).1
  have execLink : (lib env).exec (.link parent name new EXT2_FT_DIR) written =
      written.ext2fsLink env parent name new EXT2_FT_DIR := rfl
  rw [execLink]
  generalize linking : written.ext2fsLink env parent name new EXT2_FT_DIR = outcome
  obtain ⟨rc, linked⟩ := outcome
  split
  · rw [leads_pure]
    rintro rfl
    obtain ⟨-, full, -, sameMap, -⟩ := ext2fsLink_full linking
    rw [envDir] at full
    exact ⟨List.drop_one ▸ honest.drop 1, (congrFun sameMap parent).trans inUse, new, _, full⟩
  · refine leads_faulty_member (fun full => ?_) fun fault response member failed full => ?_
    · change (linked.ext2fsWriteInode parent _).1 = _ at full
      rw [ext2fsWriteInode] at full
      split at full
      · cases full
      · exact absurd full badInode
    · cases failed
      exact absurd full (honest _ (List.mem_of_mem_tail member)).1

include wellFormed inUse honest

/-- A turn of `do_mkdir` that finds no space has tried to link what the parent held. -/
theorem newExt2fsMkdir_full :
    Leads (faultyLib env) (newExt2fsMkdir perms parent name)
      (fun rc next => rc = EXT2_ET_DIR_NO_SPACE →
      Honest next.2 ∧ next.1.inodeMap parent = true ∧ ∃ ino fileType,
        (dirLib bs).link (fs.dirs parent) name ino fileType =
        (EXT2_ET_DIR_NO_SPACE, next.1.dirs parent)) (fs, faults) := by
  refine leads_newExt2fsMkdir (fun _ rc rest _ other full => absurd full (other honest)) ?_
  intro new blk block inode picked _ _ _
  generalize parentRead env parent fs faults = parentInode
  have apart : parent ≠ new := by
    rintro rfl
    have free := newInode_free picked
    rw [inUse] at free
    cases free
  have badInode : EXT2_ET_BAD_INODE_NUM ≠ EXT2_ET_DIR_NO_SPACE := by decide
  have honestRest : ∀ count, Honest (faults.drop count) := honest.drop
  have codes : ∀ {count : Nat} {fault : Fault}, some fault ∈ faults.drop count →
    fault.code ≠ EXT2_ET_DIR_NO_SPACE :=
    fun member => (honestRest _ _ member).1
  have takenDirs : (fs.taken new blk).dirs = fs.dirs := by
    rw [Fs.taken, ext2fsInodeAllocStats2]
    split <;> rfl
  have takenMap : (fs.taken new blk).inodeMap parent = true := by
    rw [Fs.taken, ext2fsInodeAllocStats2]
    split
    · exact (Function.update_of_ne apart _ _).trans inUse
    · exact inUse
  generalize fs.taken new blk = taken at takenDirs takenMap
  rw [mkdirEnter, leads_bind]
  refine leads_faulty_member ?_ fun fault response member failed => ?_
  swap
  · cases failed
    rw [if_pos fault.nonzero]
    exact fun full => absurd full (codes member)
  have wroteRc : ((lib env).exec (.writeDirBlock new blk block) taken).1 = 0 := rfl
  have wroteDirs : ((lib env).exec (.writeDirBlock new blk block) taken).2.dirs parent =
    fs.dirs parent :=
    (Function.update_of_ne apart _ _).trans (congrFun takenDirs parent)
  have wroteMap : ((lib env).exec (.writeDirBlock new blk block) taken).2.inodeMap parent =
    true := takenMap
  rw [wroteRc, if_neg (by simp), leads_bind]
  generalize ((lib env).exec (.writeDirBlock new blk block) taken).2 = wrote at wroteDirs wroteMap
  rw [List.tail_drop]
  refine leads_faulty_member ?_ fun fault response member failed => ?_
  swap
  · cases failed
    rw [if_pos fault.nonzero]
    exact fun full => absurd full (codes member)
  have newDirs : ((lib env).exec (.writeNewInode new inode) wrote).2.dirs parent = fs.dirs parent :=
    (congrFun (ext2fsWriteInode_dirs wrote new inode) parent).trans wroteDirs
  have newMap : ((lib env).exec (.writeNewInode new inode) wrote).2.inodeMap parent = true := by
    change (wrote.ext2fsWriteInode new inode).2.inodeMap parent = true
    rw [(sameInodes_writeInode wrote new inode).2]
    exact wroteMap
  have newRc : ((lib env).exec (.writeNewInode new inode) wrote).1 ≠ EXT2_ET_DIR_NO_SPACE := by
    change (wrote.ext2fsWriteInode new inode).1 ≠ _
    rw [ext2fsWriteInode]
    split
    · exact show (0 : Errcode) ≠ EXT2_ET_DIR_NO_SPACE by decide
    · exact badInode
  generalize ((lib env).exec (.writeNewInode new inode) wrote) = outcome at newDirs newMap newRc
  obtain ⟨rc, written⟩ := outcome
  split
  · exact fun full => absurd full newRc
  rw [List.tail_drop, leads_bind]
  refine leads_faulty_member ?_ fun fault response member failed => ?_
  swap
  · cases failed
    dsimp only
    split
    · exact fun full => absurd full (codes member)
    · rename_i notFound
      exact absurd (not_not.mp notFound) (honestRest _ _ member).2
  rw [lib_lookup]
  dsimp only
  cases looked : written.ext2fsLookup env parent name with
  | ok _ => exact fun full => absurd full (show EXT2_ET_DIR_EXISTS ≠ EXT2_ET_DIR_NO_SPACE by decide)
  | error rc =>
  dsimp only
  split
  · exact fun full => absurd full (lookup_code envDir (newDirs ▸ wellFormed) looked)
  rw [List.tail_drop, ← newDirs]
  exact enterName_full envDir newMap (honestRest _) new _

/-- The loop of `do_mkdir` does not go around a third time. -/
theorem run_mkdirLoop_twice (bounded : bs < 65536) (aligned : bs % 4 = 0) (room : 266 ≤ bs)
    (short : name.length ≤ 255) (bound : Nat) :
    (mkdirLoop perms parent name (bound + 2)).run (faultyLib env) (fs, faults) =
        (mkdirTwice perms parent name).run (faultyLib env) (fs, faults) ∧
      ((mkdirTwice perms parent name).run (faultyLib env) (fs, faults)).1 ≠
      EXT2_ET_DIR_NO_SPACE := by
  have first := @newExt2fsMkdir_full env fs faults perms bs parent name envDir
    wellFormed inUse honest
  rw [mkdirLoop, mkdirTwice, run_bind, run_bind]
  generalize turned : (newExt2fsMkdir perms parent name).run (faultyLib env) (fs, faults) = outcome
  replace first := first.outcome turned
  obtain ⟨rc, next, rest⟩ := outcome
  dsimp only at first ⊢
  split
  swap
  · rename_i roomy
    exact ⟨rfl, roomy⟩
  rename_i full
  obtain ⟨honestRest, inUseNext, ino, fileType, linking⟩ := first full
  have wellFormedNext : WellFormed bs (next.dirs parent) :=
    wellFormed.link_full bounded short linking
  have expands : Leads (faultyLib env) (lift (.expandDir parent)) (fun rc state => rc = 0 →
      Honest state.2 ∧ state.1.inodeMap parent = true ∧
        state.1.dirs parent = (dirLib bs).expand (next.dirs parent)) (next, rest) := by
    refine leads_faulty_member (fun expanded => ?_) fun fault response _ failed expanded => ?_
    · have contents := (ext2fsExpandDir_contents (Prod.ext expanded rfl)).2
      rw [envDir] at contents
      refine ⟨?_, ?_, contents⟩
      · rw [← List.drop_one]
        exact honestRest.drop 1
      · change (next.ext2fsExpandDir env parent).2.inodeMap parent = true
        rw [(sameInodes_expandDir next parent).2]
        exact inUseNext
    · cases failed
      exact absurd expanded fault.nonzero
  rw [run_bind, run_bind]
  generalize expanding : (lift (.expandDir parent)).run (faultyLib env) (next, rest) = outcome
  replace expands := expands.outcome expanding
  obtain ⟨rc, expanded, later⟩ := outcome
  dsimp only at expands ⊢
  split
  · exact ⟨rfl, show ENOSPC ≠ EXT2_ET_DIR_NO_SPACE by decide⟩
  rename_i done
  obtain ⟨honestLater, inUseLater, contents⟩ := expands (not_not.mp done)
  have wellFormedLater : WellFormed bs (expanded.dirs parent) := by
    rw [contents]
    exact (WellFormed.expand bounded aligned (by omega) wellFormedNext).1
  have second := @newExt2fsMkdir_full env expanded later perms bs parent name envDir
    wellFormedLater inUseLater
    honestLater
  rw [mkdirLoop, run_bind]
  generalize turnedAgain : (newExt2fsMkdir perms parent name).run (faultyLib env)
    (expanded, later) = outcome
  replace second := second.outcome turnedAgain
  obtain ⟨rc, last⟩ := outcome
  have roomy : rc ≠ EXT2_ET_DIR_NO_SPACE := by
    intro full
    obtain ⟨-, -, ino, fileType, linking⟩ := second full
    have placed := @WellFormed.link_expand bs name ino fileType (next.dirs parent) bounded
      short aligned room
      wellFormedNext
    rw [← contents, linking] at placed
    exact absurd placed (show EXT2_ET_DIR_NO_SPACE ≠ 0 by decide)
  dsimp only
  rw [if_neg roomy]
  exact ⟨rfl, roomy⟩

omit wellFormed inUse honest

/-- **One expansion is always enough.** Where `ext2fs_link` finds no space in a well-formed
directory and `ext2fs_expand_dir` succeeds, the next `ext2fs_link` does, and so does `do_link`. The
loop of `do_mkdir` runs `new_ext2fs_mkdir` at most twice, whatever else fails. -/
theorem one_expansion_suffices (least : 1024 ≤ bs) (most : bs ≤ 32768) (aligned : bs % 4 = 0)
    (short : name.length ≤ 255) (wellFormed : WellFormed bs (fs.dirs parent)) :
    (∀ ino flags linked expanded, fs.ext2fsLink env parent name ino flags =
      (EXT2_ET_DIR_NO_SPACE, linked) →
      linked.ext2fsExpandDir env parent = (0, expanded) →
        (expanded.ext2fsLink env parent name ino flags).1 = 0 ∧
          ((doLink parent name ino flags).run (lib env) fs).1 = 0) ∧
    (fs.inodeMap parent = true → ∀ perms faults bound, Honest faults →
      (mkdirLoop perms parent name (bound + 2)).run (faultyLib env) (fs, faults) =
          (mkdirTwice perms parent name).run (faultyLib env) (fs, faults) ∧
        ((mkdirTwice perms parent name).run (faultyLib env) (fs, faults)).1 ≠
        EXT2_ET_DIR_NO_SPACE) := by
  have bounded : bs < 65536 := by omega
  refine ⟨fun ino flags linked expanded linking expanding => ⟨?_, ?_⟩,
    fun inUse perms faults bound honest => ?_⟩
  · exact ext2fsLink_expanded envDir bounded aligned (by omega) short wellFormed linking expanding
  · exact run_doLink_expanded envDir bounded aligned (by omega) short wellFormed linking expanding
  · exact run_mkdirLoop_twice envDir wellFormed inUse honest bounded aligned (by omega) short bound

omit envDir

/-- A name of 255 bytes. -/
def longName (letter : UInt8) : Name := List.replicate 255 letter

/-- A directory with three entries of such names, which leave no room for a fourth. -/
def fullDir : List Block :=
  let link (contents : List Block) (letter : UInt8) :=
    (smallEnv.dir.link contents (longName letter) 11 EXT2_FT_REG_FILE).2
  link (link (link freshDir 0x61) 0x62) 0x63

/-- The fourth one is linked after an expansion. -/
theorem one_expansion_suffices_full :
    ((nested fullDir).ext2fsLink smallEnv 13 (longName 0x64) 11 EXT2_FT_REG_FILE).1 =
    EXT2_ET_DIR_NO_SPACE ∧
      ((doLink 13 (longName 0x64) 11 EXT2_FT_REG_FILE).run (lib smallEnv)
        (nested fullDir)).1 = 0 := by
  have full : ((nested fullDir).ext2fsLink smallEnv 13 (longName 0x64) 11 EXT2_FT_REG_FILE).1 =
      EXT2_ET_DIR_NO_SPACE := by
    decide +kernel
  have grows : (((nested fullDir).ext2fsLink smallEnv 13
    (longName 0x64) 11 EXT2_FT_REG_FILE).2.ext2fsExpandDir
      smallEnv 13).1 = 0 := by
    decide +kernel
  have wellFormed : WellFormed 1024 ((nested fullDir).dirs 13) := by
    have contents : ∀ blocks, (nested blocks).dirs 13 = blocks := fun _ => rfl
    have passed : ∀ block ∈ fullDir, chainFrom 1024 block 8 0 = true := by decide +kernel
    rw [contents]
    exact fun block member => chain_of_chainFrom (passed block member)
  have short : (longName 0x64).length ≤ 255 := by rw [longName, List.length_replicate]
  have placed :=
    (@one_expansion_suffices smallEnv (nested fullDir) 1024 13 (longName 0x64) rfl (by decide)
    (by decide) (by decide) short wellFormed).1 11 EXT2_FT_REG_FILE
  refine ⟨full, ?_⟩
  generalize (nested fullDir).ext2fsLink smallEnv 13 (longName 0x64) 11 EXT2_FT_REG_FILE =
    tried at full grows placed
  obtain ⟨rc, linked⟩ := tried
  exact (placed linked _ (Prod.ext full rfl) (Prod.ext grows rfl)).2

end Turns

end Ext2Fuse
