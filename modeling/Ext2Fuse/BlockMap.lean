import Ext2Fuse.Volume

/-!
# Logical to physical block mapping

`bmap.c`: the walk from the fifteen pointers of an inode through up to three
levels of indirect blocks, allocating what is missing on the way when asked to.
The code never passes `BMAP_SET`, so the only flag is `BMAP_ALLOC`.
-/

namespace Ext2Fuse

namespace Volume

/-- What a mapping step returns: the block found and how many blocks it
allocated on the way, or an error, with the volume it leaves behind. -/
abbrev BmapStep := Except Errcode (Nat × Nat) × Volume

/-- `block_ind_bmap`: entry `nr` of the indirect block `ind`. -/
def blockIndBmap (vol : Volume) (alloc : Bool) (ind nr : Nat) : BmapStep :=
  if ind = 0 then (.ok (0, 0), vol)
  else
    let blockBuf := vol.io ind
    if ptr blockBuf nr = 0 && alloc then
      match vol.ext2fsAllocBlock (if nr = 0 then 0 else ptr blockBuf (nr - 1)) with
      | (.error rc, vol) => (.error rc, vol)
      | (.ok blk, vol) => (.ok (blk, 1), vol.writeBlk ind (setPtr blockBuf nr blk))
    else (.ok (ptr blockBuf nr, 0), vol)

/-- One more level of indirection: `outer` maps the quotient to an indirect
block, which holds the entry of the remainder. -/
def throughInd (outer : Volume → Bool → Nat → Nat → BmapStep)
    (vol : Volume) (alloc : Bool) (root nr : Nat) : BmapStep :=
  match outer vol alloc root (nr / vol.super.addrPerBlock) with
  | (.error rc, vol) => (.error rc, vol)
  | (.ok (ind, allocated), vol) =>
      match blockIndBmap vol alloc ind (nr % vol.super.addrPerBlock) with
      | (.error rc, vol) => (.error rc, vol)
      | (.ok (blk, more), vol) => (.ok (blk, allocated + more), vol)

/-- `block_dind_bmap`. -/
def blockDindBmap : Volume → Bool → Nat → Nat → BmapStep := throughInd blockIndBmap

/-- `block_tind_bmap`. -/
def blockTindBmap : Volume → Bool → Nat → Nat → BmapStep := throughInd blockDindBmap

/-- The part of `ext2fs_bmap` common to the indirect ranges: take the inode's
pointer `slot`, allocate it if it is missing, and walk on from there. The pointers
are returned as well: a failed walk has changed the caller's copy. -/
def bmapFromSlot (walk : Volume → Bool → Nat → Nat → BmapStep) (vol : Volume)
    (iBlock : Nat → Nat) (alloc : Bool) (slot nr : Nat) :
    Except Errcode (Nat × Nat) × (Nat → Nat) × Volume :=
  if iBlock slot = 0 then
    if alloc then
      match vol.ext2fsAllocBlock (iBlock (slot - 1)) with
      | (.error rc, vol) => (.error rc, iBlock, vol)
      | (.ok ind, vol) =>
          match walk vol alloc ind nr with
          | (.error rc, vol) => (.error rc, Function.update iBlock slot ind, vol)
          | (.ok (blk, allocated), vol) =>
              (.ok (blk, allocated + 1), Function.update iBlock slot ind, vol)
    else (.ok (0, 0), iBlock, vol)
  else
    match walk vol alloc (iBlock slot) nr with
    | (.error rc, vol) => (.error rc, iBlock, vol)
    | (.ok (blk, allocated), vol) => (.ok (blk, allocated), iBlock, vol)

/-- The direct range of `ext2fs_bmap`. -/
def bmapDirect (vol : Volume) (iBlock : Nat → Nat) (alloc : Bool) (block : Nat) :
    Except Errcode (Nat × Nat) × (Nat → Nat) × Volume :=
  if iBlock block = 0 && alloc then
    match vol.ext2fsAllocBlock (if block = 0 then 0 else iBlock (block - 1)) with
    | (.error rc, vol) => (.error rc, iBlock, vol)
    | (.ok blk, vol) => (.ok (blk, 1), Function.update iBlock block blk, vol)
  else (.ok (iBlock block, 0), iBlock, vol)

/-- `ext2fs_bmap` up to its `done:` label: dispatch on the four ranges of logical
block numbers. -/
def bmapBlocks (vol : Volume) (iBlock : Nat → Nat) (alloc : Bool) (block : Nat) :
    Except Errcode (Nat × Nat) × (Nat → Nat) × Volume :=
  let addrPerBlock := vol.super.addrPerBlock
  if block < EXT2_NDIR_BLOCKS then vol.bmapDirect iBlock alloc block
  else if block - EXT2_NDIR_BLOCKS < addrPerBlock then
    bmapFromSlot blockIndBmap vol iBlock alloc EXT2_IND_BLOCK (block - EXT2_NDIR_BLOCKS)
  else if block - EXT2_NDIR_BLOCKS - addrPerBlock < addrPerBlock * addrPerBlock then
    bmapFromSlot blockDindBmap vol iBlock alloc EXT2_DIND_BLOCK
      (block - EXT2_NDIR_BLOCKS - addrPerBlock)
  else
    bmapFromSlot blockTindBmap vol iBlock alloc EXT2_TIND_BLOCK
      (block - EXT2_NDIR_BLOCKS - addrPerBlock - addrPerBlock * addrPerBlock)

section Super

variable (vol : Volume) (alloc : Bool)

@[simp] theorem blockIndBmap_super (ind nr : Nat) :
    (vol.blockIndBmap alloc ind nr).2.super = vol.super := by
  simp only [blockIndBmap]
  split
  · rfl
  · split
    · have kept := vol.ext2fsAllocBlock_super (if nr = 0 then 0 else ptr (vol.io ind) (nr - 1))
      split
      all_goals
        rename_i allocated
        simpa [allocated] using kept
    · rfl

/-- One more level keeps the superblock if the levels above do. -/
theorem throughInd_super {outer : Volume → Bool → Nat → Nat → BmapStep}
    (kept : ∀ vol root nr, (outer vol alloc root nr).2.super = vol.super) (root nr : Nat) :
    (throughInd outer vol alloc root nr).2.super = vol.super := by
  simp only [throughInd]
  have first := kept vol root (nr / vol.super.addrPerBlock)
  split
  · rename_i outcome
    simpa [outcome] using first
  · rename_i ind allocated reached outcome
    have second := reached.blockIndBmap_super alloc ind (nr % reached.super.addrPerBlock)
    simp only [outcome] at first
    split
    all_goals
      rename_i inner
      rw [inner] at second
      exact second.trans first

@[simp] theorem blockDindBmap_super (root nr : Nat) :
    (vol.blockDindBmap alloc root nr).2.super = vol.super :=
  throughInd_super vol alloc (fun vol => vol.blockIndBmap_super alloc) root nr

@[simp] theorem blockTindBmap_super (root nr : Nat) :
    (vol.blockTindBmap alloc root nr).2.super = vol.super :=
  throughInd_super vol alloc (fun vol => vol.blockDindBmap_super alloc) root nr

/-- Mapping from a slot leaves the superblock when the walk below it does. -/
theorem bmapFromSlot_super {walk : Volume → Bool → Nat → Nat → BmapStep}
    (kept : ∀ vol root nr, (walk vol alloc root nr).2.super = vol.super) (iBlock : Nat → Nat)
    (slot nr : Nat) : (bmapFromSlot walk vol iBlock alloc slot nr).2.2.super = vol.super := by
  simp only [bmapFromSlot]
  split
  · split
    · have allocated := vol.ext2fsAllocBlock_super (iBlock (slot - 1))
      split
      · rename_i outcome
        simpa [outcome] using allocated
      · rename_i ind reached outcome
        have walked := kept reached ind nr
        simp only [outcome] at allocated
        split
        all_goals
          rename_i inner
          simpa [inner, allocated] using walked
    · rfl
  · have walked := kept vol (iBlock slot) nr
    split
    all_goals
      rename_i inner
      simpa [inner] using walked

@[simp] theorem bmapBlocks_super (iBlock : Nat → Nat) (block : Nat) :
    (vol.bmapBlocks iBlock alloc block).2.2.super = vol.super := by
  simp only [bmapBlocks]
  split
  · simp only [bmapDirect]
    split
    · have allocated := vol.ext2fsAllocBlock_super (if block = 0 then 0 else iBlock (block - 1))
      split
      all_goals
        rename_i outcome
        simpa [outcome] using allocated
    · rfl
  · split
    · exact bmapFromSlot_super vol alloc (fun vol => vol.blockIndBmap_super alloc) ..
    · split
      · exact bmapFromSlot_super vol alloc (fun vol => vol.blockDindBmap_super alloc) ..
      · exact bmapFromSlot_super vol alloc (fun vol => vol.blockTindBmap_super alloc) ..

end Super

section Errors

variable {vol vol' : Volume} {rc : Errcode}

/-- The allocator fails with one code only: there is no free block. -/
theorem ext2fsAllocBlock_error {goal : Nat}
    (outcome : vol.ext2fsAllocBlock goal = (.error rc, vol')) :
    rc = EXT2_ET_BLOCK_ALLOC_FAIL := by
  simp only [ext2fsAllocBlock] at outcome
  split at outcome
  · rename_i failed
    cases outcome
    simp only [ext2fsNewBlock] at failed
    split at failed
    · cases failed
    · cases failed
      rfl
  · cases outcome

/-- A walk fails for want of a block only. -/
def WalkFails (walk : Volume → Bool → Nat → Nat → BmapStep) : Prop :=
  ∀ (vol : Volume) (alloc : Bool) (root nr : Nat) (rc : Errcode) (vol' : Volume),
    walk vol alloc root nr = (.error rc, vol') → rc = EXT2_ET_BLOCK_ALLOC_FAIL

/-- Mapping through an indirect block fails for want of a block only. -/
theorem blockIndBmap_fails : WalkFails blockIndBmap := by
  intro vol alloc ind nr rc vol' outcome
  simp only [blockIndBmap] at outcome
  split at outcome
  · cases outcome
  · split at outcome
    · split at outcome
      · rename_i failed
        cases outcome
        exact ext2fsAllocBlock_error failed
      · cases outcome
    · cases outcome

/-- One more level of indirection adds no other failure. -/
theorem throughInd_fails {outer : Volume → Bool → Nat → Nat → BmapStep}
    (outerFails : WalkFails outer) : WalkFails (throughInd outer) := by
  intro vol alloc root nr rc vol' outcome
  simp only [throughInd] at outcome
  split at outcome
  · rename_i failed
    cases outcome
    exact outerFails _ _ _ _ _ _ failed
  · split at outcome
    · rename_i failed
      cases outcome
      exact blockIndBmap_fails _ _ _ _ _ _ failed
    · cases outcome

/-- Mapping from a slot fails for want of a block only. -/
theorem bmapFromSlot_error {walk : Volume → Bool → Nat → Nat → BmapStep}
    (walkFails : WalkFails walk) {iBlock iBlock' : Nat → Nat} {alloc : Bool} {slot nr : Nat}
    (outcome : bmapFromSlot walk vol iBlock alloc slot nr = (.error rc, iBlock', vol')) :
    rc = EXT2_ET_BLOCK_ALLOC_FAIL := by
  simp only [bmapFromSlot] at outcome
  split at outcome
  · split at outcome
    · split at outcome
      · rename_i failed
        cases outcome
        exact ext2fsAllocBlock_error failed
      · split at outcome
        · rename_i failed
          cases outcome
          exact walkFails _ _ _ _ _ _ failed
        · cases outcome
    · cases outcome
  · split at outcome
    · rename_i failed
      cases outcome
      exact walkFails _ _ _ _ _ _ failed
    · cases outcome

/-- ext2fs_bmap's switch fails for want of a block only. -/
theorem bmapBlocks_error {iBlock iBlock' : Nat → Nat} {alloc : Bool} {block : Nat}
    (outcome : vol.bmapBlocks iBlock alloc block = (.error rc, iBlock', vol')) :
    rc = EXT2_ET_BLOCK_ALLOC_FAIL := by
  simp only [bmapBlocks] at outcome
  split at outcome
  · simp only [bmapDirect] at outcome
    split at outcome
    · split at outcome
      · rename_i failed
        cases outcome
        exact ext2fsAllocBlock_error failed
      · cases outcome
    · cases outcome
  · split at outcome
    · exact bmapFromSlot_error blockIndBmap_fails outcome
    · split at outcome
      · exact bmapFromSlot_error (throughInd_fails blockIndBmap_fails) outcome
      · exact bmapFromSlot_error (throughInd_fails (throughInd_fails blockIndBmap_fails)) outcome

end Errors

end Volume

end Ext2Fuse
