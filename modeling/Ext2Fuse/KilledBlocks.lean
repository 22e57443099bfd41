import Ext2Fuse.ShortenedFiles

/-!
# What killing a file releases

`kill_file_by_inode` iterates in pre-order with `release_blocks_proc`, which wipes an
indirect block on the device before the iterator has read the pointers in it. As long as the
channel's cache holds every indirect block at that moment the iterator sees the old pointers, and
what is released are the blocks of the inode. Otherwise it reads the pattern of the wipe and
releases the block of that number, once for each entry.
-/

namespace Ext2Fuse

open Lib Volume Program Fs

/-- `release_blocks_proc` with a record of the blocks it hands to `ext2fs_block_alloc_stats`
with -1 and then wipes. -/
def releaseBlocksLogged (cached : Cached) : IterFunc (Unit × List Nat) :=
  fun vol blk _ (_, released) => ({}, blk, releaseBlock cached vol blk, (), released ++ [blk])

/-- Without its log the logging callback is release_blocks_proc. -/
theorem releaseBlocksLogged_forgets (cached : Cached) :
    Forgets (fun vol blk count => releaseBlocksLogged cached vol blk (toInt32 count))
      (fun vol blk count => releaseBlocksProc cached vol blk (toInt32 count)) :=
  fun _ _ _ _ _ => rfl

/-- The number read from a wiped block. -/
def wipedPtr : Nat := ptr (fun _ => 0x74) 0

/-- A wiped block reads as pointers of four 't' each. -/
theorem ptr_wiped (index : Nat) : ptr (fun _ => 0x74) index = wipedPtr := rfl

/-- When each of these blocks in turn is wiped, the channel's cache holds it, unless it is a data
block. -/
def cachedThrough (cached : Cached) : Nat → List Visit → Bool
  | _, [] => true
  | tick, visit :: rest =>
      (visit.level == 0 || cached tick visit.block) && cachedThrough cached (tick + 1) rest

/-- Being cached throughout splits over two segments of visits. -/
theorem cachedThrough_append (cached : Cached) (time : Nat) (seen later : List Visit) :
    cachedThrough cached time (seen ++ later) =
      (cachedThrough cached time seen && cachedThrough cached (time + seen.length) later) := by
  induction seen generalizing time with
  | nil => rfl
  | cons visit seen inductionHypothesis =>
      rw [List.cons_append, cachedThrough, cachedThrough, inductionHypothesis, List.length_cons,
        Nat.add_right_comm, Nat.add_assoc time, Bool.and_assoc]

/-- No record of the blocks of a well-formed inode: a block outside of the volume is in it, or
the number read from wiped blocks twice. -/
def Spoilt (vol : Volume) (log : List Nat) : Prop :=
  (∃ blk ∈ log, vol.inRange blk = false) ∨ 2 ≤ log.count wipedPtr

section Spoiling

variable {vol vol' : Volume} {log : List Nat}

/-- A log that is spoilt stays so. -/
theorem Spoilt.append (spoilt : Spoilt vol log) (more : List Nat) : Spoilt vol (log ++ more) := by
  obtain ⟨blk, member, outside⟩ | twice := spoilt
  · exact .inl ⟨blk, List.mem_append_left _ member, outside⟩
  · refine .inr ?_
    rw [List.count_append]
    omega

/-- Being spoilt is a matter of the log and the superblock. -/
theorem Spoilt.congr (spoilt : Spoilt vol log) (super : vol'.super = vol.super) : Spoilt vol' log :=
  spoilt.imp (fun ⟨blk, member, outside⟩ => ⟨blk, member, by rwa [inRange_congr super]⟩) id

/-- A spoilt log is no permutation of distinct blocks in range. -/
theorem Spoilt.not_perm (spoilt : Spoilt vol log) {blocks : List Nat} (apart : blocks.Nodup)
    (inRange : ∀ blk ∈ blocks, vol.inRange blk = true) : ¬ log.Perm blocks := by
  intro same
  obtain ⟨blk, member, outside⟩ | twice := spoilt
  · rw [inRange blk (same.mem_iff.mp member)] at outside
    cases outside
  · rw [same.count_eq] at twice
    have once := List.nodup_iff_count_le_one.mp apart wipedPtr
    omega

end Spoiling

section Passing

variable {cached : Cached}

/-- Whatever is read on the way, handing a pointer to the iteration releases it and perhaps
more, and an error means that a number outside of the volume has been released. -/
structure Passed (ctx : IterCtx (Unit × List Nat)) (blk : Nat)
    (outcome : IterFlags × Nat × IterCtx (Unit × List Nat)) : Prop where
  pointer : outcome.2.1 = blk
  quiet : outcome.1.changed = false ∧ outcome.1.abort = false
  super : outcome.2.2.vol.super = ctx.vol.super
  log : ∃ more, outcome.2.2.priv.2 = ctx.priv.2 ++ blk :: more ∧
    (outcome.1.error = true → ∃ other ∈ blk :: more, ctx.vol.inRange other = false)

/-- The same for the loop over the pointers of an indirect block. -/
structure EntriesPassed (loop loop' : IterLoop (Unit × List Nat)) : Prop where
  unchanged : loop'.changed.changed = loop.changed.changed
  abort : loop'.ret.abort = loop.ret.abort
  quiet : loop'.ret.changed = loop.ret.changed
  super : loop'.ctx.vol.super = loop.ctx.vol.super
  log : ∃ more, loop'.ctx.priv.2 = loop.ctx.priv.2 ++ more ∧
    (loop'.ret.error = true → loop.ret.error = true ∨
      ∃ other ∈ more, loop.ctx.vol.inRange other = false)

variable {child : IterChild (Unit × List Nat)}

/-- The loop over a block's entries passes on what its visits pass. -/
theorem iterateEntries_passes (passes : ∀ ctx blk, blk ≠ 0 → Passed ctx blk (child ctx blk))
    (stride count index : Nat) (loop : IterLoop (Unit × List Nat)) :
    EntriesPassed loop (iterateEntries {} child stride count index loop) := by
  induction count generalizing index loop with
  | zero => exact ⟨rfl, rfl, rfl, rfl, [], by simp [iterateEntries], .inl⟩
  | succ count inductionHypothesis =>
      simp only [iterateEntries, Bool.not_false, Bool.and_true, decide_eq_true_eq]
      by_cases empty : ptr loop.buf index = 0
      · rw [if_pos empty]
        obtain ⟨unchanged, abort, quiet, super, log⟩ := inductionHypothesis (index + 1)
          { loop with ctx := { loop.ctx with bcount := loop.ctx.bcount + stride } }
        exact ⟨unchanged, abort, quiet, super, log⟩
      · rw [if_neg empty]
        obtain ⟨pointer, ⟨childQuiet, childAbort⟩, childSuper, childMore, childLog, childError⟩ :=
          passes loop.ctx (ptr loop.buf index) empty
        generalize child loop.ctx (ptr loop.buf index) = outcome at *
        by_cases stopped : (outcome.1.abort || outcome.1.error) = true
        · rw [if_pos stopped]
          have failed : outcome.1.error = true := by simpa [childAbort] using stopped
          refine ⟨?_, ?_, ?_, childSuper, _, childLog, fun _ => .inr (childError failed)⟩
          · simp [IterFlags.or, childQuiet]
          · simp [IterFlags.or, childAbort]
          · simp [IterFlags.or]
        · rw [if_neg stopped]
          obtain ⟨unchanged, abort, quiet, super, more, log, error⟩ :=
            inductionHypothesis (index + 1)
            { loop with
              buf := setPtr loop.buf index outcome.2.1
              changed := loop.changed.or outcome.1
              ctx := outcome.2.2 }
          refine ⟨unchanged.trans (by simp [IterFlags.or, childQuiet]), abort, quiet,
            super.trans childSuper, ptr loop.buf index :: childMore ++ more, ?_, fun failed => ?_⟩
          · rw [log]
            simp only [childLog, List.append_assoc]
          · refine (error failed).imp_right ?_
            rintro ⟨other, member, outside⟩
            refine ⟨other, ?_, ?_⟩
            · exact List.mem_append_right _ member
            · rwa [inRange_congr childSuper] at outside

/-- Releasing an indirect block, and what follows. -/
theorem iterateIndirect_release (code : Int) (stride : Nat)
    (ctx : IterCtx (Unit × List Nat)) {blk : Nat} (present : blk ≠ 0) :
    iterateIndirect {} (releaseBlocksLogged cached) code child stride ctx blk =
      if ctx.vol.inRange blk then
        let loop := iterateEntries {} child stride ctx.vol.super.addrPerBlock 0
          { buf := (releaseBlock cached ctx.vol blk).io blk
            changed := {}
            ret := {}
            ctx := { ctx with
              vol := releaseBlock cached ctx.vol blk
              priv := ((), ctx.priv.2 ++ [blk]) } }
        (loop.ret, blk, if loop.changed.changed then
          { loop.ctx with vol := loop.ctx.vol.writeBlk blk loop.buf } else loop.ctx)
      else ({ error := true }, blk,
        { ctx with
          vol := releaseBlock cached ctx.vol blk
          priv := ((), ctx.priv.2 ++ [blk]) }) := by
  have same : (releaseBlock cached ctx.vol blk).inRange blk = ctx.vol.inRange blk := rfl
  simp only [iterateIndirect, IterFunc.apply, releaseBlocksLogged, present, Bool.false_eq_true,
    if_false, decide_false, Bool.or_false, same, Bool.false_and]
  cases ctx.vol.inRange blk
  · rfl
  · rfl

/-- A tree of any level passes its block to the callback, by induction on the level. -/
theorem iterateLevel_passes (level : Nat) (ctx : IterCtx (Unit × List Nat)) (blk : Nat)
    (present : blk ≠ 0) :
    Passed ctx blk (iterateLevel {} (releaseBlocksLogged cached) level ctx blk) := by
  induction level generalizing ctx blk with
  | zero => exact ⟨rfl, ⟨rfl, rfl⟩, rfl, [], rfl, fun failed => by cases failed⟩
  | succ level inductionHypothesis =>
      have step := @iterateIndirect_release cached
        (iterateLevel {} (releaseBlocksLogged cached) level)
        (-((level + 1 : Nat) : Int)) (ctx.vol.super.addrPerBlock ^ level) ctx blk present
      simp only [iterateLevel]
      rw [step]
      cases inRange : ctx.vol.inRange blk
      · refine ⟨rfl, ⟨rfl, rfl⟩, rfl, [], rfl, fun _ => ⟨blk, by simp, inRange⟩⟩
      · obtain ⟨unchanged, abort, quiet, super, more, log, error⟩ := iterateEntries_passes
          inductionHypothesis (ctx.vol.super.addrPerBlock ^ level) ctx.vol.super.addrPerBlock 0
          { buf := (releaseBlock cached ctx.vol blk).io blk
            changed := {}
            ret := {}
            ctx := { ctx with
              vol := releaseBlock cached ctx.vol blk
              priv := ((), ctx.priv.2 ++ [blk]) } }
        simp only [if_true]
        rw [if_neg (by rw [unchanged]; exact Bool.false_ne_true)]
        refine ⟨rfl, ⟨quiet, abort⟩, super, more, ?_, fun failed => ?_⟩
        · rw [log]
          simp
        · obtain before | ⟨other, member, outside⟩ := error failed
          · cases before
          · exact ⟨other, List.mem_cons_of_mem _ member, outside⟩

/-- The first of the pointers a loop goes through is released. -/
theorem iterateEntries_releases_first
    (passes : ∀ ctx blk, blk ≠ 0 → Passed ctx blk (child ctx blk)) (stride count index : Nat)
    (loop : IterLoop (Unit × List Nat)) (present : ptr loop.buf index ≠ 0) :
    ∃ more, (iterateEntries {} child stride (count + 1) index loop).ctx.priv.2 =
      loop.ctx.priv.2 ++ ptr loop.buf index :: more := by
  obtain ⟨-, -, -, childMore, childLog, -⟩ := passes loop.ctx (ptr loop.buf index) present
  simp only [iterateEntries, present, decide_false, Bool.false_and, Bool.false_eq_true, if_false]
  generalize child loop.ctx (ptr loop.buf index) = outcome at *
  split
  · exact ⟨childMore, childLog⟩
  · obtain ⟨-, -, -, -, more, log, -⟩ := iterateEntries_passes passes stride count (index + 1)
      { loop with
        buf := setPtr loop.buf index outcome.2.1
        changed := loop.changed.or outcome.1
        ctx := outcome.2.2 }
    refine ⟨childMore ++ more, ?_⟩
    rw [log]
    simp only [childLog, List.append_assoc, List.cons_append]

/-- Reading a wiped block, the iterator releases the number read there twice or stops at a
number outside of the volume. -/
theorem iterateEntries_spoils (passes : ∀ ctx blk, blk ≠ 0 → Passed ctx blk (child ctx blk))
    (stride count : Nat) (loop : IterLoop (Unit × List Nat))
    (wiped : ∀ index, ptr loop.buf index = wipedPtr) : Spoilt loop.ctx.vol
      (iterateEntries {} child stride (count + 2) 0 loop).ctx.priv.2 := by
  have present : wipedPtr ≠ 0 := by decide
  have here := wiped 0
  have notZero : ptr loop.buf 0 ≠ 0 := here ▸ present
  rw [iterateEntries]
  simp only [notZero, decide_false, Bool.false_and, Bool.false_eq_true, if_false]
  obtain ⟨-, ⟨-, abort⟩, super, more, log, error⟩ := passes loop.ctx (ptr loop.buf 0) notZero
  generalize child loop.ctx (ptr loop.buf 0) = outcome at *
  split
  · rename_i stopped
    obtain ⟨other, member, outside⟩ := error (by simpa [abort] using stopped)
    refine .inl ⟨other, ?_, outside⟩
    simp only [log]
    exact List.mem_append_right _ member
  · have next : ptr (setPtr loop.buf 0 outcome.2.1) 1 = wipedPtr := by
      rw [ptr_setPtr_of_ne _ (by omega), wiped]
    obtain ⟨later, released⟩ := iterateEntries_releases_first passes stride count (0 + 1)
      { loop with
        buf := setPtr loop.buf 0 outcome.2.1
        changed := loop.changed.or outcome.1
        ctx := outcome.2.2 } (by rw [Nat.zero_add, next]; exact present)
    refine .inr ?_
    rw [released]
    simp only [log, here, Nat.zero_add, next, List.count_append, List.count_cons_self]
    omega

end Passing

/-- What releasing the blocks of some visits leaves, when the blocks were seen as they are. -/
structure ReleasedAll (vol vol' : Volume) (log log' : List Nat) (seen : List Visit) : Prop where
  super : vol'.super = vol.super
  tick : vol'.tick = vol.tick + seen.length
  io : ∀ blk, (∀ visit ∈ seen, visit.block ≠ blk) → vol'.io blk = vol.io blk
  blockMap : ∀ blk, vol'.blockMap blk =
    (vol.blockMap blk && !(vol.inRange blk && decide (blk ∈ seen.map Visit.block)))
  log : log' = log ++ seen.map Visit.block
  tidy : vol.Tidy → vol'.Tidy

/-- Either every indirect block was cached when it was wiped, and exactly the blocks of the visits
have been released, or the record is spoilt. -/
structure ReleasesOrSpoils (cached : Cached) (vol vol' : Volume) (log log' : List Nat)
    (error : Bool) (seen : List Visit) : Prop where
  releases : cachedThrough cached vol.tick seen = true →
    error = false ∧ ReleasedAll vol vol' log log' seen
  spoils : cachedThrough cached vol.tick seen = false → Spoilt vol log'

section Sequence

variable {cached : Cached} {vol vol₁ vol' : Volume} {log log₁ log' : List Nat}
  {error₁ error : Bool} {seen seen' : List Visit}

/-- Nothing visited, nothing released. -/
theorem ReleasedAll.refl (vol : Volume) (log : List Nat) : ReleasedAll vol vol log log [] where
  super := rfl
  tick := rfl
  io _ _ := rfl
  blockMap blk := by simp
  log := (List.append_nil log).symm
  tidy := id

/-- Two segments released one after the other are released together. -/
theorem ReleasedAll.trans (first : ReleasedAll vol vol₁ log log₁ seen)
    (second : ReleasedAll vol₁ vol' log₁ log' seen') :
    ReleasedAll vol vol' log log' (seen ++ seen') where
  super := second.super.trans first.super
  tick := by rw [second.tick, first.tick, List.length_append, Nat.add_assoc]
  io blk apart := by
    rw [second.io blk fun visit member => apart visit (List.mem_append_right _ member),
      first.io blk fun visit member => apart visit (List.mem_append_left _ member)]
  blockMap blk := by
    rw [second.blockMap, first.blockMap, inRange_congr first.super, List.map_append]
    by_cases early : blk ∈ seen.map Visit.block <;> by_cases late : blk ∈ seen'.map Visit.block <;>
      cases vol.inRange blk <;> simp [early, late]
  log := by rw [second.log, first.log, List.map_append, List.append_assoc]
  tidy before := second.tidy (first.tidy before)

/-- An empty walk releases all of nothing. -/
theorem releasesOrSpoils_nil (vol : Volume) (log : List Nat) (going : error = false) :
    ReleasesOrSpoils cached vol vol log log error [] :=
  ⟨fun _ => ⟨going, ReleasedAll.refl vol log⟩, fun missing => by cases missing⟩

/-- A record once spoilt stays so; otherwise the rest of the walk decides. -/
theorem ReleasesOrSpoils.append
    (first : ReleasesOrSpoils cached vol vol₁ log log₁ error₁ seen)
    (grows : ∃ more, log' = log₁ ++ more)
    (second : error₁ = false → ReleasedAll vol vol₁ log log₁ seen →
      ReleasesOrSpoils cached vol₁ vol' log₁ log' error seen') :
    ReleasesOrSpoils cached vol vol' log log' error (seen ++ seen') := by
  constructor
  · intro cachedAll
    rw [cachedThrough_append, Bool.and_eq_true] at cachedAll
    obtain ⟨going, released⟩ := first.releases cachedAll.1
    rw [← released.tick] at cachedAll
    obtain ⟨rest, later⟩ := (second going released).releases cachedAll.2
    exact ⟨rest, released.trans later⟩
  · intro missing
    rw [cachedThrough_append, Bool.and_eq_false_iff] at missing
    by_cases early : cachedThrough cached vol.tick seen = true
    · obtain ⟨going, released⟩ := first.releases early
      have late := missing.resolve_left (by simp [early])
      rw [← released.tick] at late
      exact ((second going released).spoils late).congr released.super.symm
    · obtain ⟨more, rfl⟩ := grows
      exact (first.spoils (by simpa using early)).append more

end Sequence

/-- The visits below the pointers `entry` from `index` on, each block before what is below it. -/
def entryPreorder (vol : Volume) (level entry start : Nat → Nat) (index count : Nat) : List Visit :=
  (List.range' index count).flatMap fun other =>
    preorder vol.ptrs vol.super.addrPerBlock (level other) (entry other) (start other)

section EntryPreorder

variable {vol : Volume} {level entry entry' start : Nat → Nat} {index count : Nat}

/-- The order of the walk is a permutation of the visits. -/
theorem entryPreorder_perm : (entryPreorder vol level entry start index count).Perm
    (vol.entryVisits level entry start index count) :=
  List.Perm.flatMap_left _ fun _ _ => preorder_perm

/-- The order of a row is that of its first entry, then the rest. -/
theorem entryPreorder_succ : entryPreorder vol level entry start index (count + 1) =
    preorder vol.ptrs vol.super.addrPerBlock (level index) (entry index) (start index) ++
      entryPreorder vol level entry start (index + 1) count := by
  rw [entryPreorder, List.range'_succ, List.flatMap_cons, entryPreorder]

/-- The order depends on the entries of the row alone. -/
theorem entryPreorder_entries (same : ∀ other, index ≤ other → entry' other = entry other) :
    entryPreorder vol level entry' start index count =
      entryPreorder vol level entry start index count := by
  refine List.flatMap_congr fun other member => ?_
  rw [same other (List.mem_range'_1.mp member).1]

/-- The walk below other pointers is not affected by releasing some blocks. -/
theorem ReleasedAll.entryPreorder_eq {vol' : Volume} {log log' : List Nat} {seen : List Visit}
    (released : ReleasedAll vol vol' log log' seen) (apart : ((seen ++
      entryPreorder vol level entry start index count).map Visit.block).Nodup) :
    entryPreorder vol' level entry start index count =
      entryPreorder vol level entry start index count := by
  rw [List.map_append] at apart
  have disjoint := List.disjoint_of_nodup_append apart
  simp only [entryPreorder, released.super]
  refine List.flatMap_congr fun other member => preorder_congr fun visit below _ slot _ => ?_
  have inside : visit ∈ entryPreorder vol level entry start index count :=
    List.mem_flatMap.mpr ⟨other, member, below⟩
  rw [ptrs, ptrs, released.io _ fun earlier inSeen same =>
    disjoint (List.mem_map_of_mem inSeen) (same ▸ List.mem_map_of_mem inside)]

end EntryPreorder

section Releasing

variable {cached : Cached} {child : IterChild (Unit × List Nat)}

/-- Every tree of `level` levels whose blocks are all different and in the volume is released,
or the record is spoilt. -/
def Releases (cached : Cached) (level : Nat) (child : IterChild (Unit × List Nat)) : Prop :=
  ∀ ctx blk first, blk ≠ 0 →
    ∀ seen, seen = preorder ctx.vol.ptrs ctx.vol.super.addrPerBlock level blk first →
    (seen.map Visit.block).Nodup → (∀ visit ∈ seen, ctx.vol.inRange visit.block = true) →
    ReleasesOrSpoils cached ctx.vol (child ctx blk).2.2.vol ctx.priv.2 (child ctx blk).2.2.priv.2
      (child ctx blk).1.error seen

/-- Releasing the block of one visit. -/
theorem released_one (cached : Cached) (vol : Volume) (visit : Visit) (log : List Nat) :
    ReleasedAll vol (releaseBlock cached vol visit.block) log (log ++ [visit.block]) [visit] where
  super := rfl
  tick := rfl
  io _ apart := testWipeBlock_io_of_ne _ _ _ (Ne.symm (apart visit (List.mem_singleton_self _)))
  blockMap := (walked_release cached vol visit).blockMap
  log := rfl
  tidy before := before.release cached visit.block

/-- A data block is released where it is in range. -/
theorem iterateData_releases (cached : Cached) :
    Releases cached 0 (iterateData (releaseBlocksLogged cached)) := by
  intro ctx blk first present seen seenEq _ _
  rw [preorder, if_neg present] at seenEq
  subst seenEq
  exact ⟨fun _ => ⟨rfl, released_one cached ctx.vol ⟨blk, 0, first⟩ ctx.priv.2⟩,
    fun missing => by cases missing⟩

/-- The loop over entries releases them all or spoils the log at the first block not cached. -/
theorem iterateEntries_releases {level : Nat}
    (passes : ∀ ctx blk, blk ≠ 0 → Passed ctx blk (child ctx blk))
    (releases : Releases cached level child) (start : Nat → Nat) (stride count index : Nat)
    (loop : IterLoop (Unit × List Nat)) (going : loop.ret.error = false) : ∀ seen,
    seen = entryPreorder loop.ctx.vol (fun _ => level) (ptr loop.buf) start index count →
    (seen.map Visit.block).Nodup → (∀ visit ∈ seen, loop.ctx.vol.inRange visit.block = true) →
    ReleasesOrSpoils cached loop.ctx.vol (iterateEntries {} child stride count index loop).ctx.vol
      loop.ctx.priv.2 (iterateEntries {} child stride count index loop).ctx.priv.2
      (iterateEntries {} child stride count index loop).ret.error seen := by
  induction count generalizing index loop with
  | zero =>
      rintro seen rfl _ _
      exact releasesOrSpoils_nil _ _ going
  | succ count inductionHypothesis =>
      intro seen seenEq apart inRange
      rw [entryPreorder_succ] at seenEq
      by_cases empty : ptr loop.buf index = 0
      · rw [empty, preorder_zero, List.nil_append] at seenEq
        have step : iterateEntries {} child stride (count + 1) index loop =
            iterateEntries {} child stride count (index + 1)
              { loop with ctx := { loop.ctx with bcount := loop.ctx.bcount + stride } } := by
          simp [iterateEntries, empty]
        rw [step]
        exact inductionHypothesis (index + 1)
          { loop with ctx := { loop.ctx with bcount := loop.ctx.bcount + stride } }
            going seen seenEq
          apart inRange
      · subst seenEq
        have here := releases loop.ctx (ptr loop.buf index) (start index) empty _ rfl
          (List.Nodup.of_append_left (List.map_append ▸ apart))
          fun visit member => inRange visit (List.mem_append_left _ member)
        obtain ⟨pointer, ⟨-, abort⟩, -, -, -, -⟩ := passes loop.ctx (ptr loop.buf index) empty
        simp only [iterateEntries, empty, decide_false, Bool.false_and,
          Bool.false_eq_true, if_false]
        generalize child loop.ctx (ptr loop.buf index) = outcome at *
        rw [abort, Bool.false_or]
        cases failed : outcome.1.error
        · simp only [Bool.false_eq_true, if_false]
          obtain ⟨-, -, -, -, more, log, -⟩ := iterateEntries_passes passes stride count (index + 1)
            { loop with
              buf := setPtr loop.buf index outcome.2.1
              changed := loop.changed.or outcome.1
              ctx := outcome.2.2 }
          refine here.append ⟨more, log⟩ fun _ released => ?_
          refine inductionHypothesis (index + 1) { loop with
              buf := setPtr loop.buf index outcome.2.1
              changed := loop.changed.or outcome.1
              ctx := outcome.2.2 } going _ ?_
            (List.Nodup.of_append_right (List.map_append ▸ apart)) fun visit member => ?_
          · rw [← released.entryPreorder_eq apart]
            refine (entryPreorder_entries fun other later => ?_).symm
            exact ptr_setPtr_of_ne _ (by omega)
          · rw [inRange_congr released.super]
            exact inRange visit (List.mem_append_right _ member)
        · simp only [if_true]
          refine here.append ⟨[], (List.append_nil _).symm⟩ fun smooth => ?_
          rw [failed] at smooth
          cases smooth

/-- Where the loop over the pointers of an indirect block starts: the block has been wiped. -/
def releasedLoop (cached : Cached) (ctx : IterCtx (Unit × List Nat)) (blk : Nat) :
    IterLoop (Unit × List Nat) where
  buf := (releaseBlock cached ctx.vol blk).io blk
  changed := {}
  ret := {}
  ctx := { ctx with vol := releaseBlock cached ctx.vol blk, priv := ((), ctx.priv.2 ++ [blk]) }

/-- An inner block is released before its entries are looked at. -/
theorem iterateLevel_release {ctx : IterCtx (Unit × List Nat)} {blk : Nat} (present : blk ≠ 0)
    (inside : ctx.vol.inRange blk = true) (level : Nat) :
    let loop := iterateEntries {} (iterateLevel {} (releaseBlocksLogged cached) level)
      (ctx.vol.super.addrPerBlock ^ level) ctx.vol.super.addrPerBlock 0
      (releasedLoop cached ctx blk)
    iterateLevel {} (releaseBlocksLogged cached) (level + 1) ctx blk =
      (loop.ret, blk, loop.ctx) := by
  intro loop
  have unchanged : loop.changed.changed = false :=
    (iterateEntries_passes (iterateLevel_passes level)
    (ctx.vol.super.addrPerBlock ^ level) ctx.vol.super.addrPerBlock 0 _).unchanged
  have step := @iterateIndirect_release cached (iterateLevel {} (releaseBlocksLogged cached) level)
    (-((level + 1 : Nat) : Int)) (ctx.vol.super.addrPerBlock ^ level) ctx blk present
  rw [if_pos inside] at step
  refine step.trans ?_
  change (loop.ret, blk, if loop.changed.changed = true then _ else loop.ctx) = _
  rw [unchanged]
  rfl

/-- A tree of any level is released or spoils the log, by induction on the level. -/
theorem iterateLevel_releases (cached : Cached) (level : Nat) :
    Releases cached level (iterateLevel {} (releaseBlocksLogged cached) level) := by
  induction level with
  | zero => exact iterateData_releases cached
  | succ level inductionHypothesis =>
      intro ctx blk first present seen seenEq apart inRange
      rw [preorder, if_neg present] at seenEq
      subst seenEq
      have inside : ctx.vol.inRange blk = true := inRange _ List.mem_cons_self
      rw [iterateLevel_release present inside]
      cases held : cached ctx.vol.tick blk
      · -- the iterator reads what the wipe has left
        refine ⟨fun cachedAll => ?_, fun _ => ?_⟩
        · simp [cachedThrough, held] at cachedAll
        · have wiped : ∀ index, ptr (releasedLoop cached ctx blk).buf index = wipedPtr := by
            intro index
            have blank : (releaseBlock cached ctx.vol blk).io blk = fun _ => 0x74 := by
              simp [releaseBlock, testWipeBlock, ext2fsBlockAllocStats, held]
            rw [releasedLoop, blank, ptr_wiped]
          obtain ⟨count, width⟩ : ∃ count, ctx.vol.super.addrPerBlock = count + 2 := by
            have positive : 0 < 2 ^ ctx.vol.super.sLogBlockSize := Nat.pow_pos (by decide)
            exact ⟨ctx.vol.super.addrPerBlock - 2, by simp only [Super.addrPerBlock]; omega⟩
          rw [width]
          exact (iterateEntries_spoils (iterateLevel_passes level) _ count _ wiped).congr rfl
      · have shown : (releaseBlock cached ctx.vol blk).io = ctx.vol.io := by
          simp [releaseBlock, testWipeBlock, ext2fsBlockAllocStats, held]
        have root : ReleasesOrSpoils cached ctx.vol (releaseBlock cached ctx.vol blk) ctx.priv.2
            (ctx.priv.2 ++ [blk]) false [⟨blk, level + 1, first⟩] := by
          refine ⟨fun _ => ⟨rfl, released_one cached _ ⟨blk, level + 1, first⟩ _⟩,
            fun missing => ?_⟩
          simp [cachedThrough, held] at missing
        obtain ⟨-, -, -, -, more, log, -⟩ :=
          @iterateEntries_passes _ (@iterateLevel_passes cached level)
          (ctx.vol.super.addrPerBlock ^ level) ctx.vol.super.addrPerBlock 0
            (releasedLoop cached ctx blk)
        refine root.append ⟨more, log⟩ fun _ _ => ?_
        refine iterateEntries_releases (iterateLevel_passes level) inductionHypothesis
          (fun index => first + index * ctx.vol.super.addrPerBlock ^ level) _ _ 0
          (releasedLoop cached ctx blk) rfl _ ?_ (List.nodup_cons.mp apart).2
          fun visit member => inRange visit (List.mem_cons_of_mem _ member)
        have same : (releaseBlock cached ctx.vol blk).ptrs = ctx.vol.ptrs := by
          funext block index
          rw [ptrs, ptrs, shown]
        simp only [entryPreorder, releasedLoop, same, shown]
        rfl

/-- The walk only adds to the log. -/
theorem iterateSlots_grows (addrPerBlock : Nat) (slots : List Nat)
    (top : IterTop (Unit × List Nat)) :
    ∃ more, (slots.foldl (iterateLevelSlot {} (releaseBlocksLogged cached) addrPerBlock)
      top).ctx.priv.2 = top.ctx.priv.2 ++ more := by
  induction slots generalizing top with
  | nil => exact ⟨[], (List.append_nil _).symm⟩
  | cons slot slots inductionHypothesis =>
      have step : ∃ more, (iterateLevelSlot {} (releaseBlocksLogged cached) addrPerBlock top
          slot).ctx.priv.2 = top.ctx.priv.2 ++ more := by
        rw [iterateLevelSlot, iterateSlot]
        split
        · exact ⟨[], (List.append_nil _).symm⟩
        · by_cases empty : top.blocks slot = 0
          · rw [if_pos (by simp [empty])]
            exact ⟨[], (List.append_nil _).symm⟩
          · rw [if_neg (by simp [empty])]
            obtain ⟨more, log, -⟩ := (@iterateLevel_passes cached (slotLevel slot) top.ctx
              (top.blocks slot) empty).log
            exact ⟨_, log⟩
      obtain ⟨more, log⟩ := step
      obtain ⟨later, rest⟩ := inductionHypothesis
        (iterateLevelSlot {} (releaseBlocksLogged cached) addrPerBlock top slot)
      exact ⟨more ++ later, by rw [List.foldl_cons, rest, log, List.append_assoc]⟩

/-- The trees of the inode's slots are released one after the other. -/
theorem iterateSlots_releases (addrPerBlock : Nat) (start : Nat → Nat) (count index : Nat)
    (top : IterTop (Unit × List Nat)) (going : top.ret.abort = false) : ∀ seen,
    seen = entryPreorder top.ctx.vol slotLevel top.blocks start index count →
    (seen.map Visit.block).Nodup → (∀ visit ∈ seen, top.ctx.vol.inRange visit.block = true) →
    ReleasesOrSpoils cached top.ctx.vol ((List.range' index count).foldl
        (iterateLevelSlot {} (releaseBlocksLogged cached) addrPerBlock) top).ctx.vol
      top.ctx.priv.2 ((List.range' index count).foldl
        (iterateLevelSlot {} (releaseBlocksLogged cached) addrPerBlock) top).ctx.priv.2
        false seen := by
  induction count generalizing index top with
  | zero =>
      rintro seen rfl _ _
      exact releasesOrSpoils_nil _ _ rfl
  | succ count inductionHypothesis =>
      intro seen seenEq apart inRange
      rw [entryPreorder_succ] at seenEq
      rw [List.range'_succ, List.foldl_cons]
      by_cases empty : top.blocks index = 0
      · rw [empty, preorder_zero, List.nil_append] at seenEq
        have step : iterateLevelSlot {} (releaseBlocksLogged cached) addrPerBlock top index =
            { top with ctx := { top.ctx with
              bcount := top.ctx.bcount + addrPerBlock ^ slotLevel index } } := by
          simp [iterateLevelSlot, iterateSlot, going, empty]
        rw [step]
        exact inductionHypothesis (index + 1)
          { top with ctx := { top.ctx with
            bcount := top.ctx.bcount + addrPerBlock ^ slotLevel index } }
          going seen seenEq apart inRange
      · subst seenEq
        have here := iterateLevel_releases cached (slotLevel index) top.ctx (top.blocks index)
          (start index) empty _ rfl (List.Nodup.of_append_left (List.map_append ▸ apart))
          fun visit member => inRange visit (List.mem_append_left _ member)
        obtain ⟨pointer, ⟨-, abort⟩, -, -, -, -⟩ :=
          @iterateLevel_passes cached (slotLevel index) top.ctx (top.blocks index) empty
        have step : iterateLevelSlot {} (releaseBlocksLogged cached) addrPerBlock top index =
            { blocks := Function.update top.blocks index
                (iterateLevel {} (releaseBlocksLogged cached) (slotLevel index) top.ctx
                  (top.blocks index)).2.1
              ret := top.ret.or (iterateLevel {} (releaseBlocksLogged cached)
                (slotLevel index) top.ctx (top.blocks index)).1
              ctx := (iterateLevel {} (releaseBlocksLogged cached)
                (slotLevel index) top.ctx (top.blocks index)).2.2 } := by
          simp [iterateLevelSlot, iterateSlot, going, empty]
        rw [step]
        generalize iterateLevel {} (releaseBlocksLogged cached) (slotLevel index) top.ctx
          (top.blocks index) = outcome at *
        refine here.append (iterateSlots_grows _ _ _) fun _ released => ?_
        refine inductionHypothesis (index + 1)
          { blocks := Function.update top.blocks index outcome.2.1
            ret := top.ret.or outcome.1
            ctx := outcome.2.2 } ?_ _ ?_
          (List.Nodup.of_append_right (List.map_append ▸ apart)) fun visit member => ?_
        · change (top.ret.or outcome.1).abort = false
          simp [IterFlags.or, going, abort]
        · rw [← released.entryPreorder_eq apart]
          refine (entryPreorder_entries fun other later => ?_).symm
          exact Function.update_of_ne (by omega) _ _
        · rw [inRange_congr released.super]
          exact inRange visit (List.mem_append_right _ member)

/-- The visits below all pointers of an inode, each block before what is below it. -/
def inodePreorder (vol : Volume) (iBlock : Nat → Nat) : List Visit :=
  entryPreorder vol slotLevel iBlock (slotFirst vol.super.addrPerBlock) 0 EXT2_N_BLOCKS

/-- The walk over an inode releases all its blocks or spoils the log. -/
theorem iterateBlocks_releases (cached : Cached) (vol : Volume) (blocks : Nat → Nat)
    (log : List Nat) (trees : TreesApart vol blocks) :
    ReleasesOrSpoils cached vol
      (iterateBlocks {} (releaseBlocksLogged cached) vol blocks ((), log)).ctx.vol
      log (iterateBlocks {} (releaseBlocksLogged cached) vol blocks ((), log)).ctx.priv.2 false
      (inodePreorder vol blocks) := by
  have same : (inodePreorder vol blocks).Perm (vol.inodeVisits blocks) := entryPreorder_perm
  rw [iterateBlocks_eq]
  exact iterateSlots_releases vol.super.addrPerBlock
    (slotFirst vol.super.addrPerBlock) EXT2_N_BLOCKS 0
    { blocks := blocks, ret := {}, ctx := { vol := vol, bcount := 0, priv := ((), log) } } rfl _ rfl
    ((same.map Visit.block).nodup_iff.mpr trees.apart)
    fun visit member => trees.inRange visit (same.mem_iff.mp member)

/-- The record has the blocks of the inode exactly when all indirect blocks were cached. -/
theorem iterateBlocks_releases_iff (cached : Cached) (vol : Volume) (blocks : Nat → Nat)
    (trees : TreesApart vol blocks) :
    ((iterateBlocks {} (releaseBlocksLogged cached) vol blocks ((), [])).ctx.priv.2).Perm
        ((vol.inodeVisits blocks).map Visit.block) ↔
      cachedThrough cached vol.tick (inodePreorder vol blocks) = true := by
  obtain ⟨releases, spoils⟩ := iterateBlocks_releases cached vol blocks [] trees
  have same : (inodePreorder vol blocks).Perm (vol.inodeVisits blocks) := entryPreorder_perm
  cases held : cachedThrough cached vol.tick (inodePreorder vol blocks)
  · refine iff_of_false ?_ Bool.false_ne_true
    refine (spoils held).not_perm trees.apart fun blk member => ?_
    obtain ⟨visit, inVisits, rfl⟩ := List.mem_map.mp member
    exact trees.inRange visit inVisits
  · refine iff_of_true ?_ rfl
    rw [(releases held).2.log, List.nil_append]
    exact same.map _

end Releasing

section Recording

variable {δ : Type} {env : Env δ} {fs : Fs δ} {ino : Nat} {inode : Inode}

/-- What a call does, with a record of the blocks handed to `ext2fs_block_alloc_stats` with -1. -/
def recordingExec (env : Env δ) : {β : Type} → LibCall δ β → Fs δ × List Nat → β × (Fs δ × List Nat)
  | _, .blockAllocStats blk inuse, (fs, released) =>
      ((), { fs with vol := fs.vol.ext2fsBlockAllocStats blk inuse },
        if inuse then released else released ++ [blk])
  | _, .blockIterateRelease ino, (fs, released) =>
      let (rc, (_, released), fs) :=
        fs.ext2fsBlockIterate ino {} (releaseBlocksLogged env.cached) ((), released)
      (rc, fs, released)
  | _, .blockIterateTruncate ino info, (fs, released) =>
      let (rc, (info, released), fs) := fs.ext2fsBlockIterate ino { depthTraverse := true }
        (truncateBlocksLogged env.cached) (info, released)
      ((rc, info), fs, released)
  | _, operation, (fs, released) =>
      (((lib env).exec operation fs).1, ((lib env).exec operation fs).2, released)

/-- The library with this record. -/
def recordingLib (env : Env δ) : Interp (LibCall δ) (Fs δ × List Nat) where
  exec := recordingExec env

/-- Forgetting the log after the iterator is iterating without it. -/
theorem ext2fsBlockIterate2_forget {ρ σ : Type} {mode : IterMode} {func : IterFunc ρ}
    {logged : IterFunc (ρ × σ)} (forgets : Forgets logged func) (fs : Fs δ) (ino : Nat)
    (noLarge : Bool) (priv : ρ) (log : σ) :
    ((fs.ext2fsBlockIterate2 ino noLarge mode logged (priv, log)).1,
      (fs.ext2fsBlockIterate2 ino noLarge mode logged (priv, log)).2.1.1,
      (fs.ext2fsBlockIterate2 ino noLarge mode logged (priv, log)).2.2) =
    fs.ext2fsBlockIterate2 ino noLarge mode func priv := by
  simp only [ext2fsBlockIterate2]
  split
  · rfl
  · rename_i inode _
    have same := @iterateBlocks_forget _ _ mode _ _ forgets fs.vol inode.iBlock priv log
    rw [← same]
    generalize iterateBlocks mode logged fs.vol inode.iBlock (priv, log) = top
    obtain ⟨blocks, ⟨changed, abort, error⟩, ctx⟩ := top
    split
    · rfl
    · cases changed <;> rfl

/-- Without the record it is the library. -/
theorem run_recordingLib {α : Type} (program : Prog δ α) (state : Fs δ × List Nat) :
    ((program.run (recordingLib env) state).1, (program.run (recordingLib env) state).2.1) =
      program.run (lib env) state.1 := by
  refine run_erases (fun {β} operation state => ?_) program state
  obtain ⟨fs, released⟩ := state
  cases operation with
  | blockIterateRelease ino =>
      have same := @ext2fsBlockIterate2_forget _ _ _ {} _ _ (releaseBlocksLogged_forgets env.cached)
        fs ino true () released
      simp only [lib, exec, ext2fsBlockIterate, ← same]
      rfl
  | blockIterateTruncate ino info =>
      have same := @ext2fsBlockIterate2_forget _ _ _ { depthTraverse := true } _ _
        (truncateBlocksLogged_forgets env.cached) fs ino true info released
      simp only [lib, exec, ext2fsBlockIterate, ← same]
      rfl
  | _ => rfl

/-- The blocks `kill_file_by_inode` hands to `ext2fs_block_alloc_stats` with -1, in order. -/
def killReleases (env : Env δ) (fs : Fs δ) (ino : Nat) (inode : Inode) : List Nat :=
  ((killFileByInode ino inode).run (recordingLib env) (fs, [])).2.2

/-- They are those of its iteration, if there is one. -/
theorem killReleases_eq (valid : fs.validIno ino = true) : killReleases env fs ino inode =
    if ext2fsInodeHasValidBlocks inode = true ∧
        (LINUX_S_ISDIR inode.iMode = true ∨ inode.iSizeHigh = 0) then
      (iterateBlocks {} (releaseBlocksLogged env.cached) { fs.vol with tick := fs.vol.tick + 1 }
        inode.iBlock ((), [])).ctx.priv.2
    else [] := by
  have validLater : fs.advance.validIno ino = true := valid
  have timed : (recordingLib env).exec .time (fs, []) =
    (env.time fs.vol.tick, fs.advance, []) := rfl
  have written : ∀ saved, (writeInode ino saved).run (recordingLib env) (fs.advance, []) =
      (0, { fs.advance with inodeTab := Function.update fs.inodeTab ino saved }, []) := by
    intro saved
    simp [writeInode, recordingLib, recordingExec, ext2fsWriteInode, validLater, lib_writeInode]
    rfl
  simp only [killReleases, killFileByInode, run_bind, run_lift, timed, written]
  have kind : ∀ now, ext2fsInodeHasValidBlocks { inode with iLinksCount := 0, iDtime := now } =
      ext2fsInodeHasValidBlocks inode := fun _ => rfl
  simp only [kind]
  cases blocks : ext2fsInodeHasValidBlocks inode
  · rfl
  · have read : ∀ saved, ({ fs.advance with
        inodeTab := Function.update fs.inodeTab ino saved } : Fs δ).ext2fsReadInode
          ino = .ok saved := by
      intro saved
      have same : ({ fs.advance with
        inodeTab := Function.update fs.inodeTab ino saved } : Fs δ).validIno ino = true := valid
      rw [ext2fsReadInode, if_pos same]
      exact congrArg _ (Function.update_self ..)
    have iterated : ∀ saved, ((recordingLib env).exec (.blockIterateRelease ino)
        ({ fs.advance with inodeTab := Function.update fs.inodeTab ino saved }, [])).2.2 =
        if LINUX_S_ISDIR saved.iMode = true ∨ saved.iSizeHigh = 0 then
          (iterateBlocks {} (releaseBlocksLogged env.cached) { fs.vol with tick := fs.vol.tick + 1 }
            saved.iBlock ((), [])).ctx.priv.2
        else [] := by
      intro saved
      change (ext2fsBlockIterate2 _ ino true {} _ ((), [])).2.1.2 = _
      rw [ext2fsBlockIterate2, read]
      simp only [Bool.true_and, Bool.and_eq_true, Bool.not_eq_true', bne_iff_ne, ne_eq]
      by_cases small : LINUX_S_ISDIR saved.iMode = true ∨ saved.iSizeHigh = 0
      · rw [if_pos small, if_neg (by rintro ⟨notDir, high⟩; simp_all)]
        split <;> rfl
      · rw [if_neg small, if_pos (by simpa using small)]
    simp only [true_and]
    exact iterated _

/-- When the iterator goes through the pointers of the inode, the cache decides. -/
theorem killReleases_perm_iff (valid : fs.validIno ino = true)
    (trees : TreesApart fs.vol inode.iBlock) (iterates : ext2fsInodeHasValidBlocks inode = true ∧
      (LINUX_S_ISDIR inode.iMode = true ∨ inode.iSizeHigh = 0)) :
    (killReleases env fs ino inode).Perm ((fs.vol.inodeVisits inode.iBlock).map Visit.block) ↔
      cachedThrough env.cached (fs.vol.tick + 1) (inodePreorder fs.vol inode.iBlock) = true := by
  rw [killReleases_eq valid, if_pos iterates]
  exact iterateBlocks_releases_iff env.cached { fs.vol with tick := fs.vol.tick + 1 } inode.iBlock
    ⟨trees.inRange, trees.apart⟩

/-- Killing a file, of which the record changes nothing, releases its data and indirect blocks, each
once, and nothing else exactly when it has none, or `i_block` is taken for block numbers, the
iterator does not refuse the file for its size, and the cache holds each indirect block when that is
wiped. -/
theorem kill_releases_iff (valid : fs.validIno ino = true)
    (trees : TreesApart fs.vol inode.iBlock) :
    let recorded := (killFileByInode ino inode).run (recordingLib env) (fs, [])
    (recorded.1, recorded.2.1) = (killFileByInode ino inode).run (lib env) fs ∧
    ((killReleases env fs ino inode).Perm ((fs.vol.inodeVisits inode.iBlock).map Visit.block) ↔
      fs.vol.inodeVisits inode.iBlock = [] ∨ (ext2fsInodeHasValidBlocks inode = true ∧
        (LINUX_S_ISDIR inode.iMode = true ∨ inode.iSizeHigh = 0) ∧
        cachedThrough env.cached (fs.vol.tick + 1)
          (inodePreorder fs.vol inode.iBlock) = true)) := by
  intro recorded
  refine ⟨run_recordingLib _ _, ?_⟩
  by_cases iterates : ext2fsInodeHasValidBlocks inode = true ∧
      (LINUX_S_ISDIR inode.iMode = true ∨ inode.iSizeHigh = 0)
  · refine (killReleases_perm_iff valid trees iterates).trans
      ⟨fun held => .inr ⟨iterates.1, iterates.2, held⟩, ?_⟩
    rintro (none | ⟨-, -, held⟩)
    · have nothing : inodePreorder fs.vol inode.iBlock = [] :=
        List.perm_nil.mp (none ▸ (entryPreorder_perm :
          (inodePreorder fs.vol inode.iBlock).Perm (fs.vol.inodeVisits inode.iBlock)))
      rw [nothing]
      rfl
    · exact held
  · rw [killReleases_eq valid, if_neg iterates, List.nil_perm, List.map_eq_nil_iff]
    refine ⟨.inl, ?_⟩
    rintro (none | ⟨blocks, small, -⟩)
    · exact none
    · exact absurd ⟨blocks, small⟩ iterates

/-- A file with one data block: each block is released once. -/
theorem kill_releases_iff_sparse : (killReleases listEnv (sparseFile 0) 11
    ((sparseFile 0).inodeTab 11)).Perm (((sparseFile 0).vol.inodeVisits
      ((sparseFile 0).inodeTab 11).iBlock).map Visit.block) :=
  (kill_releases_iff (by decide) (sparseFile_tree (by decide)).toTreesApart).2.mpr
    (.inr ⟨by decide, .inr rfl, by decide +kernel⟩)

/-- A channel whose cache holds nothing. -/
def uncachedEnv : Env (List Dirent) := { listEnv with cached := fun _ _ => false }

/-- Killing a file of an indirect block, 20, and a data block, 21, the iterator then reads the
pointers of the wiped indirect block. -/
theorem kill_releases_wiped : TreesApart (sparseFile 0).vol ((sparseFile 0).inodeTab 11).iBlock ∧
    LINUX_S_ISREG ((sparseFile 0).inodeTab 11).iMode = true ∧
    ((sparseFile 0).vol.inodeVisits ((sparseFile 0).inodeTab 11).iBlock).map Visit.block =
    [21, 20] ∧
    ¬ (killReleases uncachedEnv (sparseFile 0) 11 ((sparseFile 0).inodeTab 11)).Perm
      (((sparseFile 0).vol.inodeVisits ((sparseFile 0).inodeTab 11).iBlock).map Visit.block) := by
  have trees := (@sparseFile_tree 0 (by decide)).toTreesApart
  have valid : (sparseFile 0).validIno 11 = true := by decide
  have iterates : ext2fsInodeHasValidBlocks ((sparseFile 0).inodeTab 11) = true ∧
      (LINUX_S_ISDIR ((sparseFile 0).inodeTab 11).iMode = true ∨
        ((sparseFile 0).inodeTab 11).iSizeHigh = 0) := ⟨by decide, .inr rfl⟩
  refine ⟨trees, by decide, by rw [sparseFile_visits 0 (by decide)]; rfl, ?_⟩
  exact (killReleases_perm_iff valid trees iterates).not.mpr (by decide +kernel)

end Recording

end Ext2Fuse
