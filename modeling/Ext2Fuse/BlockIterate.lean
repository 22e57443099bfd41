import Ext2Fuse.Volume

/-!
# Iterating over the blocks of an inode

`block.c`: `ext2fs_block_iterate2` visits the block pointers of an inode in
logical order and lets a callback change them. The three levels of
indirect blocks are one definition with the next lower level as a parameter. The
Hurd translator block is left out: the volumes are Linux ones.
-/

namespace Ext2Fuse

/-- The flag word a callback or a level of the iteration returns. -/
structure IterFlags where
  changed : Bool := false
  abort : Bool := false
  error : Bool := false
deriving DecidableEq

/-- Bitwise or of two flag words. -/
def IterFlags.or (first second : IterFlags) : IterFlags where
  changed := first.changed || second.changed
  abort := first.abort || second.abort
  error := first.error || second.error

/-- The mode of an iteration: `BLOCK_FLAG_APPEND` and `BLOCK_FLAG_DEPTH_TRAVERSE`. -/
structure IterMode where
  append : Bool := false
  depthTraverse : Bool := false

def BLOCK_COUNT_IND : Int := -1
def BLOCK_COUNT_DIND : Int := -2
def BLOCK_COUNT_TIND : Int := -3

/-- `struct block_context`: the volume the callback works on, the running logical
block number and the callback's private data. -/
structure IterCtx (ρ : Type) where
  vol : Volume
  bcount : Nat
  priv : ρ

/-- A callback sees the volume, the pointer, the block count (negative for an
indirect block) and its private data; it returns its flags, the pointer as it
left it, and the rest. -/
abbrev IterFunc (ρ : Type) :=
  Volume → Nat → Int → ρ → IterFlags × Nat × Volume × ρ

namespace Volume

variable {ρ : Type}

/-- Call the callback and put the volume and private data back into the context. -/
def IterFunc.apply (func : IterFunc ρ) (ctx : IterCtx ρ) (blk : Nat) (count : Int) :
    IterFlags × Nat × IterCtx ρ :=
  let (flags, blk, vol, priv) := func ctx.vol blk count ctx.priv
  (flags, blk, { ctx with vol := vol, priv := priv })

/-- One pointer of a level: the flags it produced, the pointer as left behind,
and the context. -/
abbrev IterChild (ρ : Type) := IterCtx ρ → Nat → IterFlags × Nat × IterCtx ρ

/-- What the loop over the pointers of one indirect block has accumulated: the
buffer, the flags seen, the flags to report, and the context. -/
structure IterLoop (ρ : Type) where
  buf : Block
  changed : IterFlags
  ret : IterFlags
  ctx : IterCtx ρ

/-- The loop over the pointers from `index` on, `count` of them. A zero pointer is
skipped, advancing the block count by `stride`, unless the iteration appends. -/
def iterateEntries (mode : IterMode) (child : IterChild ρ) (stride : Nat) :
    Nat → Nat → IterLoop ρ → IterLoop ρ
  | 0, _, loop => loop
  | count + 1, index, loop =>
      if ptr loop.buf index = 0 && !mode.append then
        iterateEntries mode child stride count (index + 1)
          { loop with ctx := { loop.ctx with bcount := loop.ctx.bcount + stride } }
      else
        let (flags, blk, ctx) := child loop.ctx (ptr loop.buf index)
        let loop := { loop with
          buf := setPtr loop.buf index blk
          changed := loop.changed.or flags
          ctx := ctx }
        if flags.abort || flags.error then
          { loop with ret := loop.ret.or { flags with changed := false } }
        else iterateEntries mode child stride count (index + 1) loop

/-- `block_iterate_ind`, `block_iterate_dind` and `block_iterate_tind`: report the
indirect block itself before or after the pointers in it, and write the block
back when a pointer changed. `span` is the number of logical blocks below the
block, `stride` below each of its pointers. -/
def iterateIndirect (mode : IterMode) (func : IterFunc ρ) (code : Int)
    (child : IterChild ρ) (stride : Nat) (ctx : IterCtx ρ) (indBlock : Nat) :
    IterFlags × Nat × IterCtx ρ :=
  let limit := ctx.vol.super.addrPerBlock
  let (ret, indBlock, ctx) :=
    if mode.depthTraverse then ({}, indBlock, ctx) else IterFunc.apply func ctx indBlock code
  if indBlock = 0 || ret.abort then
    (ret, indBlock, { ctx with bcount := ctx.bcount + limit * stride })
  else if !ctx.vol.inRange indBlock then
    (ret.or { error := true }, indBlock, ctx)
  else
    let loop := iterateEntries mode child stride limit 0
      { buf := ctx.vol.io indBlock, changed := {}, ret := ret, ctx := ctx }
    let ctx := if loop.changed.changed then
        { loop.ctx with vol := loop.ctx.vol.writeBlk indBlock loop.buf }
      else loop.ctx
    if mode.depthTraverse && !loop.ret.abort then
      let (flags, indBlock, ctx) := IterFunc.apply func ctx indBlock code
      (loop.ret.or flags, indBlock, ctx)
    else (loop.ret, indBlock, ctx)

/-- A data pointer: hand it to the callback and advance the block count. -/
def iterateData (func : IterFunc ρ) : IterChild ρ := fun ctx blk =>
  let (flags, blk, ctx) := IterFunc.apply func ctx blk ctx.bcount
  (flags, blk, { ctx with bcount := ctx.bcount + 1 })

/-- `block_iterate_ind`. -/
def blockIterateInd (mode : IterMode) (func : IterFunc ρ) : IterChild ρ :=
  iterateIndirect mode func BLOCK_COUNT_IND (iterateData func) 1

/-- `block_iterate_dind`. -/
def blockIterateDind (mode : IterMode) (func : IterFunc ρ) : IterChild ρ := fun ctx =>
  iterateIndirect mode func BLOCK_COUNT_DIND (blockIterateInd mode func)
    ctx.vol.super.addrPerBlock ctx

/-- `block_iterate_tind`. -/
def blockIterateTind (mode : IterMode) (func : IterFunc ρ) : IterChild ρ := fun ctx =>
  iterateIndirect mode func BLOCK_COUNT_TIND (blockIterateDind mode func)
    (ctx.vol.super.addrPerBlock * ctx.vol.super.addrPerBlock) ctx

/-- What the iteration over the pointers of the inode has accumulated. -/
structure IterTop (ρ : Type) where
  blocks : Nat → Nat
  ret : IterFlags
  ctx : IterCtx ρ

/-- One of the fifteen pointers: hand it to `child` unless an earlier one aborted,
or skip over the `span` logical blocks below it. -/
def iterateSlot (mode : IterMode) (child : IterChild ρ) (span : Nat) (slot : Nat)
    (top : IterTop ρ) : IterTop ρ :=
  if top.ret.abort then top
  else if top.blocks slot = 0 && !mode.append then
    { top with ctx := { top.ctx with bcount := top.ctx.bcount + span } }
  else
    let (flags, blk, ctx) := child top.ctx (top.blocks slot)
    { blocks := Function.update top.blocks slot blk, ret := top.ret.or flags, ctx := ctx }

/-- `ext2fs_block_iterate2` between reading the pointers of the inode and writing
them back. -/
def iterateBlocks (mode : IterMode) (func : IterFunc ρ) (vol : Volume) (blocks : Nat → Nat)
    (priv : ρ) : IterTop ρ :=
  let limit := vol.super.addrPerBlock
  let start : IterTop ρ :=
    { blocks := blocks, ret := {}, ctx := { vol := vol, bcount := 0, priv := priv } }
  let direct := (List.range EXT2_NDIR_BLOCKS).foldl
    (fun top slot => iterateSlot mode (iterateData func) 1 slot top) start
  let ind := iterateSlot mode (blockIterateInd mode func) limit EXT2_IND_BLOCK direct
  let dind := iterateSlot mode (blockIterateDind mode func) (limit * limit) EXT2_DIND_BLOCK ind
  iterateSlot mode (blockIterateTind mode func) (limit * limit * limit) EXT2_TIND_BLOCK dind

section Invariant

variable {mode : IterMode} {func : IterFunc ρ} {inv : Volume → ρ → Prop}

/-- A step of the iteration on one pointer keeps the invariant. -/
def IterChild.Keeps (inv : Volume → ρ → Prop) (child : IterChild ρ) : Prop :=
  ∀ ctx blk, inv ctx.vol ctx.priv → inv (child ctx blk).2.2.vol (child ctx blk).2.2.priv

/-- The loop over the entries of a block keeps what each visit keeps. -/
theorem iterateEntries_keeps (mode : IterMode) {child : IterChild ρ}
    (childKeeps : IterChild.Keeps inv child) (stride count index : Nat) (loop : IterLoop ρ)
    (holds : inv loop.ctx.vol loop.ctx.priv) :
    inv (iterateEntries mode child stride count index loop).ctx.vol
      (iterateEntries mode child stride count index loop).ctx.priv := by
  induction count generalizing index loop with
  | zero => exact holds
  | succ count inductionHypothesis =>
      simp only [iterateEntries]
      split
      · exact inductionHypothesis _ _ holds
      · have next := childKeeps loop.ctx (ptr loop.buf index) holds
        split
        · exact next
        · exact inductionHypothesis _ _ next

/-- A visit to an indirect block keeps what the callback and the writing back keep. -/
theorem iterateIndirect_keeps {child : IterChild ρ}
    (funcKeeps : ∀ vol blk count priv, inv vol priv →
      inv (func vol blk count priv).2.2.1 (func vol blk count priv).2.2.2)
    (writeKeeps : ∀ vol priv blk block, inv vol priv → inv (vol.writeBlk blk block) priv)
    (childKeeps : IterChild.Keeps inv child) (code : Int) (stride : Nat) :
    IterChild.Keeps inv (iterateIndirect mode func code child stride) := by
  have applyKeeps : ∀ (ctx : IterCtx ρ) blk count, inv ctx.vol ctx.priv →
      inv (IterFunc.apply func ctx blk count).2.2.vol
        (IterFunc.apply func ctx blk count).2.2.priv :=
    fun ctx blk count holds => funcKeeps _ _ _ _ holds
  intro ctx indBlock holds
  simp only [iterateIndirect]
  have entered : ∀ entry : IterFlags × Nat × IterCtx ρ,
      entry = (if mode.depthTraverse then ({}, indBlock, ctx)
        else IterFunc.apply func ctx indBlock code) → inv entry.2.2.vol entry.2.2.priv := by
    rintro entry rfl
    split
    · exact holds
    · exact applyKeeps _ _ _ holds
  generalize entryEq : (if mode.depthTraverse then ({}, indBlock, ctx)
        else IterFunc.apply func ctx indBlock code) = entry
  have start := entered entry entryEq.symm
  split
  · exact start
  · split
    · exact start
    · have looped := iterateEntries_keeps mode childKeeps stride ctx.vol.super.addrPerBlock 0
        { buf := entry.2.2.vol.io entry.2.1, changed := {}, ret := entry.1, ctx := entry.2.2 } start
      generalize iterateEntries mode child stride _ _ _ = loop at looped ⊢
      have written : inv (if loop.changed.changed then
          { loop.ctx with vol := loop.ctx.vol.writeBlk entry.2.1 loop.buf } else loop.ctx).vol
          (if loop.changed.changed then
            { loop.ctx with vol := loop.ctx.vol.writeBlk entry.2.1 loop.buf }
          else loop.ctx).priv := by
        split
        · exact writeKeeps _ _ _ _ looped
        · exact looped
      split
      · exact applyKeeps _ _ _ written
      · exact written

/-- A slot of the inode keeps what its tree's visits keep. -/
theorem iterateSlot_keeps {child : IterChild ρ} (childKeeps : IterChild.Keeps inv child)
    (span slot : Nat) (top : IterTop ρ) (holds : inv top.ctx.vol top.ctx.priv) :
    inv (iterateSlot mode child span slot top).ctx.vol
      (iterateSlot mode child span slot top).ctx.priv := by
  simp only [iterateSlot]
  split
  · exact holds
  · split
    · exact holds
    · exact childKeeps _ _ holds

/-- What the callback and the writing of a block keep, the iteration keeps. -/
theorem iterateBlocks_keeps
    (funcKeeps : ∀ vol blk count priv, inv vol priv →
      inv (func vol blk count priv).2.2.1 (func vol blk count priv).2.2.2)
    (writeKeeps : ∀ vol priv blk block, inv vol priv → inv (vol.writeBlk blk block) priv)
    (vol : Volume) (blocks : Nat → Nat) (priv : ρ) (holds : inv vol priv) :
    inv (iterateBlocks mode func vol blocks priv).ctx.vol
      (iterateBlocks mode func vol blocks priv).ctx.priv := by
  have data : IterChild.Keeps inv (iterateData func) := fun ctx blk holds => funcKeeps _ _ _ _ holds
  have ind : IterChild.Keeps inv (blockIterateInd mode func) :=
    iterateIndirect_keeps funcKeeps writeKeeps data _ _
  have dind : IterChild.Keeps inv (blockIterateDind mode func) := fun ctx =>
    iterateIndirect_keeps funcKeeps writeKeeps ind _ _ ctx
  have tind : IterChild.Keeps inv (blockIterateTind mode func) := fun ctx =>
    iterateIndirect_keeps funcKeeps writeKeeps dind _ _ ctx
  have direct : ∀ (slots : List Nat) (top : IterTop ρ), inv top.ctx.vol top.ctx.priv →
      inv (slots.foldl (fun top slot => iterateSlot mode (iterateData func) 1 slot top) top).ctx.vol
        (slots.foldl (fun top slot => iterateSlot mode (iterateData func) 1 slot top)
          top).ctx.priv := by
    intro slots
    induction slots with
    | nil => exact fun _ holds => holds
    | cons slot slots inductionHypothesis =>
        exact fun top holds => inductionHypothesis _ (iterateSlot_keeps data _ _ _ holds)
  simp only [iterateBlocks]
  exact iterateSlot_keeps tind _ _ _ (iterateSlot_keeps dind _ _ _
    (iterateSlot_keeps ind _ _ _ (direct _ _ holds)))

end Invariant

section Unchanged

variable {mode : IterMode} {func : IterFunc ρ}

/-- A step of the iteration that reports no change. -/
def IterChild.Unchanged (child : IterChild ρ) : Prop :=
  ∀ ctx blk, (child ctx blk).1.changed = false

/-- A loop whose visits change nothing reports no change. -/
theorem iterateEntries_unchanged (mode : IterMode) (child : IterChild ρ) (stride count index : Nat)
    (loop : IterLoop ρ) (quiet : loop.ret.changed = false) :
    (iterateEntries mode child stride count index loop).ret.changed = false := by
  induction count generalizing index loop with
  | zero => exact quiet
  | succ count inductionHypothesis =>
      simp only [iterateEntries]
      split
      · exact inductionHypothesis _ _ quiet
      · split
        · simp [IterFlags.or, quiet]
        · exact inductionHypothesis _ _ quiet

/-- A slot whose tree changes nothing reports no change. -/
theorem iterateSlot_unchanged {child : IterChild ρ} (childQuiet : IterChild.Unchanged child)
    (span slot : Nat) (top : IterTop ρ) (quiet : top.ret.changed = false) :
    (iterateSlot mode child span slot top).ret.changed = false := by
  simp only [iterateSlot]
  split
  · exact quiet
  · split
    · exact quiet
    · simp [IterFlags.or, quiet, childQuiet _ _]

variable (funcQuiet : ∀ vol blk count priv, (func vol blk count priv).1.changed = false)

include funcQuiet

/-- An indirect block whose callback only reads is not reported as changed. -/
theorem iterateIndirect_unchanged (code : Int) (child : IterChild ρ) (stride : Nat) :
    IterChild.Unchanged (iterateIndirect mode func code child stride) := by
  have applied : ∀ (ctx : IterCtx ρ) blk count,
    (IterFunc.apply func ctx blk count).1.changed = false :=
    fun ctx blk count => funcQuiet _ _ _ _
  intro ctx indBlock
  simp only [iterateIndirect]
  generalize entryEq : (if mode.depthTraverse then ({}, indBlock, ctx)
    else IterFunc.apply func ctx indBlock code) = entry
  have start : entry.1.changed = false := by
    rw [← entryEq]
    split
    · rfl
    · exact applied _ _ _
  split
  · exact start
  · split
    · simp [IterFlags.or, start]
    · have looped := iterateEntries_unchanged mode child stride ctx.vol.super.addrPerBlock 0
        { buf := entry.2.2.vol.io entry.2.1, changed := {}, ret := entry.1, ctx := entry.2.2 } start
      split
      · simp [IterFlags.or, looped, applied]
      · exact looped

/-- A callback that changes no pointer lets the iteration report no change. -/
theorem iterateBlocks_unchanged (vol : Volume) (blocks : Nat → Nat) (priv : ρ) :
    (iterateBlocks mode func vol blocks priv).ret.changed = false := by
  have data : IterChild.Unchanged (iterateData func) := fun ctx blk => funcQuiet _ _ _ _
  have direct : ∀ (slots : List Nat) (top : IterTop ρ), top.ret.changed = false →
      (slots.foldl (fun top slot => iterateSlot mode (iterateData func) 1 slot top)
        top).ret.changed = false := by
    intro slots
    induction slots with
    | nil => exact fun _ quiet => quiet
    | cons slot slots inductionHypothesis =>
        exact fun top quiet =>
          inductionHypothesis _ (iterateSlot_unchanged data _ _ _ quiet)
  simp only [iterateBlocks]
  refine iterateSlot_unchanged ?_ _ _ _ (iterateSlot_unchanged ?_ _ _ _
    (iterateSlot_unchanged ?_ _ _ _ (direct _ _ rfl)))
  · exact fun ctx => iterateIndirect_unchanged funcQuiet _ _ _ ctx
  · exact fun ctx => iterateIndirect_unchanged funcQuiet _ _ _ ctx
  · exact iterateIndirect_unchanged funcQuiet _ _ _

end Unchanged

section Forget

variable {σ : Type} {mode : IterMode} {func : IterFunc ρ} {logged : IterFunc (ρ × σ)}

/-- A context without the second half of its private data. -/
def forgetCtx (ctx : IterCtx (ρ × σ)) : IterCtx ρ :=
  { vol := ctx.vol, bcount := ctx.bcount, priv := ctx.priv.1 }

@[simp] theorem forgetCtx_vol (ctx : IterCtx (ρ × σ)) : (forgetCtx ctx).vol = ctx.vol := rfl

@[simp] theorem forgetCtx_bcount (ctx : IterCtx (ρ × σ)) :
    (forgetCtx ctx).bcount = ctx.bcount := rfl

/-- What a step of the iteration leaves, without the second half of the private data. -/
def forgetStep (step : IterFlags × Nat × IterCtx (ρ × σ)) : IterFlags × Nat × IterCtx ρ :=
  (step.1, step.2.1, forgetCtx step.2.2)

def forgetLoop (loop : IterLoop (ρ × σ)) : IterLoop ρ :=
  { buf := loop.buf, changed := loop.changed, ret := loop.ret, ctx := forgetCtx loop.ctx }

def forgetTop (top : IterTop (ρ × σ)) : IterTop ρ :=
  { blocks := top.blocks, ret := top.ret, ctx := forgetCtx top.ctx }

/-- The second callback does the same and keeps a record besides. -/
def Forgets (logged : IterFunc (ρ × σ)) (func : IterFunc ρ) : Prop :=
  ∀ vol blk count priv log,
    ((logged vol blk count (priv, log)).1, (logged vol blk count (priv, log)).2.1,
      (logged vol blk count (priv, log)).2.2.1, (logged vol blk count (priv, log)).2.2.2.1) =
    func vol blk count priv

/-- The same for a step of the iteration. -/
def IterChild.Forgets (logged : IterChild (ρ × σ)) (child : IterChild ρ) : Prop :=
  ∀ ctx blk, forgetStep (logged ctx blk) = child (forgetCtx ctx) blk

/-- Forgetting the log after the loop is looping without it. -/
theorem iterateEntries_forget {child : IterChild ρ} {childLogged : IterChild (ρ × σ)}
    (forgets : IterChild.Forgets childLogged child) (stride count index : Nat)
    (loop : IterLoop (ρ × σ)) : forgetLoop
    (iterateEntries mode childLogged stride count index loop) =
      iterateEntries mode child stride count index (forgetLoop loop) := by
  induction count generalizing index loop with
  | zero => rfl
  | succ count inductionHypothesis =>
      have same := forgets loop.ctx (ptr loop.buf index)
      simp only [iterateEntries]
      rw [show (forgetLoop loop).buf = loop.buf from rfl,
        show (forgetLoop loop).ctx = forgetCtx loop.ctx from rfl, ← same]
      split
      · exact inductionHypothesis _ _
      · simp only [forgetStep]
        by_cases stopped : ((childLogged loop.ctx (ptr loop.buf index)).1.abort ||
            (childLogged loop.ctx (ptr loop.buf index)).1.error) = true
        · rw [if_pos stopped]
          exact (if_pos stopped).symm
        · rw [if_neg stopped]
          exact (inductionHypothesis _ _).trans (if_neg stopped).symm

/-- Forgetting the log after a visit is visiting without it. -/
theorem apply_forget (forgets : Forgets logged func) (ctx : IterCtx (ρ × σ)) (blk : Nat)
    (count : Int) : forgetStep (IterFunc.apply logged ctx blk count) =
      IterFunc.apply func (forgetCtx ctx) blk count := by
  have same := forgets ctx.vol blk count ctx.priv.1 ctx.priv.2
  simp only [IterFunc.apply, forgetStep, forgetCtx]
  rw [← same]

/-- How a level of the iteration ends: the block is written back and reported. -/
def leaveIndirect (mode : IterMode) (func : IterFunc ρ) (code : Int) (indBlock : Nat)
    (loop : IterLoop ρ) : IterFlags × Nat × IterCtx ρ :=
  let ctx := if loop.changed.changed then
      { loop.ctx with vol := loop.ctx.vol.writeBlk indBlock loop.buf }
    else loop.ctx
  if mode.depthTraverse && !loop.ret.abort then
    let (flags, indBlock, ctx) := IterFunc.apply func ctx indBlock code
    (loop.ret.or flags, indBlock, ctx)
  else (loop.ret, indBlock, ctx)

/-- Forgetting the log on leaving an indirect block is leaving it without one. -/
theorem leaveIndirect_forget (forgets : Forgets logged func) (code : Int) (indBlock : Nat)
    (loop : IterLoop (ρ × σ)) : forgetStep (leaveIndirect mode logged code indBlock loop) =
      leaveIndirect mode func code indBlock (forgetLoop loop) := by
  obtain ⟨buf, ⟨changed, abort, error⟩, ret, ctx⟩ := loop
  have reported : ∀ written : IterCtx (ρ × σ),
      forgetStep (if mode.depthTraverse && !ret.abort then
        (ret.or (IterFunc.apply logged written indBlock code).1,
          (IterFunc.apply logged written indBlock code).2) else (ret, indBlock, written)) =
      if mode.depthTraverse && !ret.abort then
        (ret.or (IterFunc.apply func (forgetCtx written) indBlock code).1,
          (IterFunc.apply func (forgetCtx written) indBlock code).2)
      else (ret, indBlock, forgetCtx written) := by
    intro written
    rw [← apply_forget forgets]
    split <;> rfl
  cases changed
  · exact reported ctx
  · exact reported { ctx with vol := ctx.vol.writeBlk indBlock buf }

/-- Forgetting the log after an indirect block is walking it without one. -/
theorem iterateIndirect_forget (forgets : Forgets logged func) {child : IterChild ρ}
    {childLogged : IterChild (ρ × σ)} (childForgets : IterChild.Forgets childLogged child)
    (code : Int) (stride : Nat) :
    IterChild.Forgets (iterateIndirect mode logged code childLogged stride)
      (iterateIndirect mode func code child stride) := by
  intro ctx blk
  have entered : forgetStep (if mode.depthTraverse then ({}, blk, ctx)
      else IterFunc.apply logged ctx blk code) =
      if mode.depthTraverse then ({}, blk, forgetCtx ctx)
      else IterFunc.apply func (forgetCtx ctx) blk code := by
    split
    · rfl
    · exact apply_forget forgets ctx blk code
  simp only [iterateIndirect]
  rw [← entered]
  generalize (if mode.depthTraverse then (({}, blk, ctx) : IterFlags × Nat × IterCtx (ρ × σ))
    else IterFunc.apply logged ctx blk code) = entry
  obtain ⟨ret, ind, inner⟩ := entry
  simp only [forgetStep]
  by_cases stopped : (decide (ind = 0) || ret.abort) = true
  · rw [if_pos stopped]
    exact (if_pos stopped).symm
  rw [if_neg stopped]
  refine Eq.trans ?_ (if_neg stopped).symm
  by_cases outside : (!inner.vol.inRange ind) = true
  · rw [if_pos outside]
    exact (if_pos outside).symm
  rw [if_neg outside]
  refine Eq.trans ?_ (if_neg outside).symm
  have looped := @iterateEntries_forget _ _ mode _ _ childForgets stride
    ctx.vol.super.addrPerBlock 0
      { buf := inner.vol.io ind, changed := {}, ret := ret, ctx := inner }
  exact (leaveIndirect_forget forgets code ind _).trans
    (congrArg (leaveIndirect mode func code ind) looped)

/-- Forgetting the log after a slot is walking it without one. -/
theorem iterateSlot_forget {child : IterChild ρ} {childLogged : IterChild (ρ × σ)}
    (forgets : IterChild.Forgets childLogged child) (span slot : Nat) (top : IterTop (ρ × σ)) :
    forgetTop (iterateSlot mode childLogged span slot top) =
      iterateSlot mode child span slot (forgetTop top) := by
  have same := forgets top.ctx (top.blocks slot)
  simp only [iterateSlot]
  rw [show (forgetTop top).ret = top.ret from rfl, show (forgetTop top).blocks =
    top.blocks from rfl, show (forgetTop top).ctx = forgetCtx top.ctx from rfl, ← same]
  split
  · rfl
  · split <;> rfl

/-- A callback that keeps a record besides lets the iteration do the same. -/
theorem iterateBlocks_forget (forgets : Forgets logged func) (vol : Volume) (blocks : Nat → Nat)
    (priv : ρ) (log : σ) : forgetTop (iterateBlocks mode logged vol blocks (priv, log)) =
      iterateBlocks mode func vol blocks priv := by
  have data : IterChild.Forgets (iterateData logged) (iterateData func) := by
    intro ctx blk
    have same := apply_forget forgets ctx blk ctx.bcount
    simp only [iterateData]
    rw [forgetCtx_bcount, ← same]
    rfl
  have ind : IterChild.Forgets (blockIterateInd mode logged) (blockIterateInd mode func) :=
    iterateIndirect_forget forgets data _ _
  have dind : IterChild.Forgets (blockIterateDind mode logged) (blockIterateDind mode func) :=
    fun ctx => iterateIndirect_forget forgets ind _ _ ctx
  have tind : IterChild.Forgets (blockIterateTind mode logged) (blockIterateTind mode func) :=
    fun ctx => iterateIndirect_forget forgets dind _ _ ctx
  have direct : ∀ (slots : List Nat) (top : IterTop (ρ × σ)),
      forgetTop (slots.foldl
        (fun top slot => iterateSlot mode (iterateData logged) 1 slot top) top) =
      slots.foldl (fun top slot => iterateSlot mode (iterateData func) 1 slot top)
        (forgetTop top) := by
    intro slots
    induction slots with
    | nil => exact fun _ => rfl
    | cons slot slots inductionHypothesis =>
        intro top
        rw [List.foldl_cons, List.foldl_cons, inductionHypothesis, iterateSlot_forget data]
  simp only [iterateBlocks]
  rw [iterateSlot_forget tind, iterateSlot_forget dind, iterateSlot_forget ind, direct]
  rfl

end Forget

end Volume

end Ext2Fuse
