import Ext2Fuse.Lib.Forest
import Ext2Fuse.BlockMap
import Ext2Fuse.BlockHistory

/-!
# The blocks of files as a forest

The fifteen pointers of each inode are the places of a forest whose pointer blocks are
the indirect blocks. `ext2fs_bmap` follows the path to the block it looks for and, when
it may allocate, lets the forest grow along it: all other addresses keep their blocks,
and a new data block is filled with zeros, as the hole it replaces reads.
-/

namespace Ext2Fuse

open Lib

namespace Volume

/-- The indices of an entry below an indirect block with `level` more levels above the
data. -/
def digits (addrPerBlock : Nat) : Nat → Nat → List Nat
  | 0, nr => [nr]
  | level + 1, nr => digits addrPerBlock level (nr / addrPerBlock) ++ [nr % addrPerBlock]

/-- The pointer of the inode and the path below it at which a logical block is kept. -/
def blockPath (addrPerBlock block : Nat) : Nat × List Nat :=
  if block < EXT2_NDIR_BLOCKS then (block, [])
  else if block - EXT2_NDIR_BLOCKS < addrPerBlock then
    (EXT2_IND_BLOCK, digits addrPerBlock 0 (block - EXT2_NDIR_BLOCKS))
  else if block - EXT2_NDIR_BLOCKS - addrPerBlock < addrPerBlock * addrPerBlock then
    (EXT2_DIND_BLOCK, digits addrPerBlock 1 (block - EXT2_NDIR_BLOCKS - addrPerBlock))
  else
    (EXT2_TIND_BLOCK, digits addrPerBlock 2
      (block - EXT2_NDIR_BLOCKS - addrPerBlock - addrPerBlock * addrPerBlock))

/-- The logical blocks an inode can address. -/
def capacity (addrPerBlock : Nat) : Nat :=
  EXT2_NDIR_BLOCKS + addrPerBlock + addrPerBlock * addrPerBlock +
    addrPerBlock * addrPerBlock * addrPerBlock

/-- The pointers in the blocks of the volume. -/
def ptrs (vol : Volume) (blk index : Nat) : Nat := ptr (vol.io blk) index

/-- The block a logical block of an inode is mapped to, 0 for a hole. -/
def mapped (vol : Volume) (iBlock : Nat → Nat) (block : Nat) : Nat :=
  follow vol.ptrs (iBlock (blockPath vol.super.addrPerBlock block).1)
    (blockPath vol.super.addrPerBlock block).2

section Lookup

variable (vol : Volume) (iBlock : Nat → Nat)

/-- Without allocation, mapping through an indirect block follows the pointers and changes
nothing. -/
theorem blockIndBmap_lookup (ind nr : Nat) :
    vol.blockIndBmap false ind nr =
      (.ok (follow vol.ptrs ind (digits vol.super.addrPerBlock 0 nr), 0), vol) := by
  simp only [blockIndBmap, digits, Bool.and_false, Bool.false_eq_true, if_false, follow,
    List.foldl_cons, List.foldl_nil, hop, ptrs]
  split <;> rfl

/-- One more level of looking up. -/
theorem throughInd_lookup {outer : Volume → Bool → Nat → Nat → BmapStep} {level : Nat}
    (lookup : ∀ root nr, outer vol false root nr =
      (.ok (follow vol.ptrs root (digits vol.super.addrPerBlock level nr), 0), vol))
      (root nr : Nat) :
    throughInd outer vol false root nr =
      (.ok (follow vol.ptrs root (digits vol.super.addrPerBlock (level + 1) nr), 0), vol) := by
  simp only [throughInd, lookup, blockIndBmap_lookup, digits, follow_snoc]
  simp [follow]

/-- Without allocation, mapping from a slot follows the pointers and changes nothing. -/
theorem bmapFromSlot_lookup {walk : Volume → Bool → Nat → Nat → BmapStep} {level : Nat}
    (lookup : ∀ root nr, walk vol false root nr =
      (.ok (follow vol.ptrs root (digits vol.super.addrPerBlock level nr), 0), vol))
    (slot nr : Nat) : bmapFromSlot walk vol iBlock false slot nr =
      (.ok (follow vol.ptrs (iBlock slot) (digits vol.super.addrPerBlock level nr), 0), iBlock,
        vol) := by
  simp only [bmapFromSlot]
  by_cases empty : iBlock slot = 0
  · simp [empty]
  · simp [empty, lookup]

/-- Without allocating, `ext2fs_bmap` looks the block up and changes nothing. -/
theorem bmapBlocks_lookup (block : Nat) :
    vol.bmapBlocks iBlock false block = (.ok (vol.mapped iBlock block, 0), iBlock, vol) := by
  have dind : ∀ root nr, blockDindBmap vol false root nr =
      (.ok (follow vol.ptrs root (digits vol.super.addrPerBlock 1 nr), 0), vol) :=
    throughInd_lookup vol vol.blockIndBmap_lookup
  have tind : ∀ root nr, blockTindBmap vol false root nr =
      (.ok (follow vol.ptrs root (digits vol.super.addrPerBlock 2 nr), 0), vol) :=
    throughInd_lookup vol dind
  simp only [bmapBlocks, mapped, blockPath]
  split
  · simp [bmapDirect]
  · split
    · exact vol.bmapFromSlot_lookup iBlock vol.blockIndBmap_lookup _ _
    · split
      · exact vol.bmapFromSlot_lookup iBlock dind _ _
      · exact vol.bmapFromSlot_lookup iBlock tind _ _

end Lookup

/-- What a superblock promises: the first data block is 0 or 1, block numbers are 32-bit
words, and block 0 is never free. -/
structure Sound (vol : Volume) : Prop where
  firstData : vol.super.sFirstDataBlock ≤ 1
  count : vol.super.sBlocksCount ≤ 2 ^ 32
  reserved : vol.super.sFirstDataBlock = 0 → vol.blockMap 0 = true

/-- What `ext2fs_alloc_block` does. -/
theorem ext2fsAllocBlock_cases (goal : Nat) {vol : Volume} (sound : vol.Sound) :
    (∃ rc, vol.ext2fsAllocBlock goal = (.error rc, vol)) ∨
      ∃ blk vol', vol.ext2fsAllocBlock goal = (.ok blk, vol') ∧ blk ≠ 0 ∧ blk < 2 ^ 32 ∧
        vol.blockMap blk = false ∧ vol.inRange blk = true ∧ vol'.super = vol.super ∧
        vol'.io = Function.update vol.io blk (fun _ => 0) ∧
        vol'.blockMap = Function.update vol.blockMap blk true := by
  simp only [ext2fsAllocBlock]
  cases found : vol.ext2fsNewBlock goal with
  | error rc => exact .inl ⟨rc, rfl⟩
  | ok blk =>
      obtain ⟨free, inRange⟩ := ext2fsNewBlock_ok sound.firstData found
      obtain ⟨above, below⟩ := inRange_iff.mp inRange
      have notZero : blk ≠ 0 := by
        rintro rfl
        rw [sound.reserved (by omega)] at free
        cases free
      have count := sound.count
      refine .inr ⟨blk, _, rfl, notZero, by omega, free, inRange, rfl, rfl, ?_⟩
      have stillInRange : (vol.writeBlk blk fun _ => 0).inRange blk = true := inRange
      rw [ext2fsBlockAllocStats_blockMap, if_pos stillInRange, writeBlk_blockMap]

/-- A block is zeroed before it is marked. -/
theorem ext2fsAllocBlock_tidy {vol vol' : Volume} {goal : Nat} {outcome : Except Errcode Nat}
    (allocated : vol.ext2fsAllocBlock goal = (outcome, vol')) (tidy : vol.Tidy) : vol'.Tidy := by
  rw [ext2fsAllocBlock] at allocated
  cases found : vol.ext2fsNewBlock goal with
  | error rc =>
      rw [found] at allocated
      cases allocated
      exact tidy
  | ok blk =>
      rw [found] at allocated
      cases allocated
      exact tidy.alloc blk _

/-- The pointers of the inodes of many owners. -/
abbrev Place (ω : Type) := ω × Fin EXT2_N_BLOCKS

/-- Below the first twelve pointers there is nothing, below the last three there are one,
two and three levels of pointers. -/
def treeShape (ω : Type) (addrPerBlock : Nat) : Shape (Place ω) where
  depth place := place.2.val - 11
  fanout := addrPerBlock

section Forest

variable {ω : Type}

/-- The block at an address. -/
def label (vol : Volume) (roots : Place ω → Nat) (place : Place ω) (path : List Nat) : Nat :=
  follow vol.ptrs (roots place) path

/-- The addresses of a volume. -/
def Addr (vol : Volume) (place : Place ω) (path : List Nat) : Prop :=
  (treeShape ω vol.super.addrPerBlock).Addr place path

/-- The trees do not overlap and all their blocks are in use. -/
structure Forest (vol : Volume) (roots : Place ω → Nat) : Prop where
  sound : vol.Sound
  planted : Planted (treeShape ω vol.super.addrPerBlock) vol.InUse vol.ptrs roots

/-- The tree of one owner has grown: no address has lost its block, and a block that is
new at an address was free before and, if it is a data block, is filled with zeros. -/
structure Grows (owner : ω) (vol vol' : Volume) (roots roots' : Place ω → Nat) : Prop where
  super : vol'.super = vol.super
  forest : Forest vol' roots'
  keeps : ∀ place path, vol.Addr place path → vol.label roots place path ≠ 0 →
    vol'.label roots' place path = vol.label roots place path
  others : ∀ place path, place.1 ≠ owner → vol.Addr place path →
    vol'.label roots' place path = vol.label roots place path
  fresh : ∀ place path, vol.Addr place path → vol.label roots place path = 0 →
    vol'.label roots' place path ≠ 0 → vol.blockMap (vol'.label roots' place path) = false ∧
      (path.length = place.2.val - 11 → vol'.io (vol'.label roots' place path) = fun _ => 0)
  marks : ∀ blk, vol.blockMap blk = true → vol'.blockMap blk = true
  io : ∀ blk, vol.blockMap blk = true → (∀ place path, place.1 = owner → vol.Addr place path →
    path.length < place.2.val - 11 → vol.label roots place path ≠ blk) → vol'.io blk = vol.io blk
  tidy : vol.Tidy → vol'.Tidy

variable {owner : ω} {vol vol' vol'' : Volume} {roots roots' roots'' : Place ω → Nat}

/-- A forest has grown by nothing. -/
theorem Grows.refl (forest : Forest vol roots) (owner : ω) : Grows owner vol vol roots roots where
  super := rfl
  forest := forest
  keeps _ _ _ _ := rfl
  others _ _ _ _ := rfl
  fresh _ _ _ empty present := absurd empty present
  marks _ marked := marked
  io _ _ _ := rfl
  tidy := id

/-- A grown forest has the same addresses. -/
theorem Grows.addr (grows : Grows owner vol vol' roots roots') {place : Place ω} {path : List Nat}
    (addr : vol.Addr place path) : vol'.Addr place path := by
  simpa [Addr, grows.super] using addr

/-- Growing twice for one owner is growing once. -/
theorem Grows.trans (first : Grows owner vol vol' roots roots')
    (second : Grows owner vol' vol'' roots' roots'') : Grows owner vol vol'' roots roots'' where
  super := second.super.trans first.super
  forest := second.forest
  keeps place path addr present := by
    have kept := first.keeps place path addr present
    rw [second.keeps place path (first.addr addr) (by rwa [kept]), kept]
  others place path other addr := by
    rw [second.others place path other (first.addr addr), first.others place path other addr]
  fresh place path addr empty present := by
    by_cases early : vol'.label roots' place path = 0
    · obtain ⟨free, blank⟩ := second.fresh place path (first.addr addr) early present
      refine ⟨?_, blank⟩
      by_contra marked
      rw [first.marks _ (by simpa using marked)] at free
      cases free
    · have kept := second.keeps place path (first.addr addr) early
      rw [kept]
      obtain ⟨free, blank⟩ := first.fresh place path addr empty early
      refine ⟨free, fun isData => ?_⟩
      have inUse := first.forest.planted.owned place path (first.addr addr) early
      rw [← blank isData]
      refine second.io _ inUse.2 fun place' path' _ addr' inner same => ?_
      -- a data block is not a pointer block at the same time
      obtain ⟨rfl, rfl⟩ := first.forest.planted.separate place' path' place path addr'
        (first.addr addr) same (by rw [show follow _ _ _ = _ from same]; exact early)
      omega
  marks blk marked := second.marks blk (first.marks blk marked)
  io blk marked outside := by
    rw [second.io blk (first.marks blk marked) ?_, first.io blk marked outside]
    intro place path own addr inner same
    have addr' : vol.Addr place path := by simpa [Addr, first.super] using addr
    by_cases old : vol.label roots place path = 0
    · by_cases new : vol'.label roots' place path = 0
      · have inUse := marked
        have zero : blk = 0 := by rw [← same, new]
        subst zero
        exact outside place path own addr' inner old
      · obtain ⟨free, -⟩ := first.fresh place path addr' old new
        rw [same, marked] at free
        cases free
    · rw [first.keeps place path addr' old] at same
      exact outside place path own addr' inner same
  tidy before := second.tidy (first.tidy before)

section Steps

variable [DecidableEq ω] {place : Place ω} {path : List Nat} {blk : Nat}

/-- One block more, at an address that had none. -/
theorem Grows.of_grown (forest : Forest vol roots) (addr : vol.Addr place path)
    (grown : Planted.Grown (treeShape ω vol.super.addrPerBlock) vol.ptrs vol'.ptrs
      roots roots' place
      path blk)
    (empty : vol.label roots place path = 0) (free : vol.blockMap blk = false)
    (inRange : vol.inRange blk = true) (super : vol'.super = vol.super)
    (marked : vol'.blockMap = Function.update vol.blockMap blk true)
    (blank : path.length = place.2.val - 11 → vol'.io blk = fun _ => 0)
    (io : ∀ other, vol.blockMap other = true → (∀ place' path', place'.1 = place.1 →
      vol.Addr place' path' → path'.length < place'.2.val - 11 →
      vol.label roots place' path' ≠ other) → vol'.io other = vol.io other)
    (tidy : vol.Tidy → vol'.Tidy) : Grows place.1 vol vol' roots roots' := by
  have inRange' : ∀ other, vol'.inRange other = vol.inRange other := by
    intro other
    simp [Volume.inRange, super]
  have more : ∀ other, vol.blockMap other = true → vol'.blockMap other = true := by
    intro other used
    rw [marked, Function.update_apply]
    split
    · rfl
    · exact used
  have label' : ∀ place' path', vol.Addr place' path' → vol'.label roots' place' path' =
      if place' = place ∧ path' = path then blk else vol.label roots place' path' := grown
  refine ⟨super, ⟨⟨?_, ?_, ?_⟩, ?_⟩, ?_, ?_, ?_, more, io, tidy⟩
  · rw [super]
    exact forest.sound.firstData
  · rw [super]
    exact forest.sound.count
  · rw [super]
    exact fun first => more 0 (forest.sound.reserved first)
  · rw [super]
    refine forest.planted.grow grown (fun inUse => ?_) (fun other inUse => ?_) ?_
    · rw [inUse.2] at free
      cases free
    · exact ⟨by rw [inRange']; exact inUse.1, more other inUse.2⟩
    · exact ⟨by rw [inRange']; exact inRange, by simp [marked]⟩
  · intro place' path' addr' present
    rw [label' place' path' addr', if_neg]
    rintro ⟨rfl, rfl⟩
    exact present empty
  · intro place' path' other addr'
    rw [label' place' path' addr', if_neg]
    rintro ⟨rfl, -⟩
    exact other rfl
  · intro place' path' addr' absent present
    rw [label' place' path' addr'] at present ⊢
    by_cases here : place' = place ∧ path' = path
    · rw [if_pos here]
      obtain ⟨rfl, rfl⟩ := here
      exact ⟨free, blank⟩
    · rw [if_neg here] at present
      exact absurd absent present

variable {goal : Nat}

omit [DecidableEq ω] in
/-- What the allocator hands out was free, and nothing else is written to. -/
theorem allocated_apart (forest : Forest vol roots)
    (allocated : vol.ext2fsAllocBlock goal = (.ok blk, vol')) :
    blk ≠ 0 ∧ blk < 2 ^ 32 ∧ vol.blockMap blk = false ∧ vol.inRange blk = true ∧
      vol'.super = vol.super ∧
      vol'.io blk = (fun _ => 0) ∧ vol'.blockMap = Function.update vol.blockMap blk true ∧
      ∀ other, vol.blockMap other = true → vol'.io other = vol.io other := by
  obtain ⟨rc, failed⟩ | ⟨blk', vol'', outcome, notZero, small, free, inRange, super, io, marked⟩ :=
    ext2fsAllocBlock_cases goal forest.sound
  · rw [failed] at allocated
    cases allocated
  · rw [outcome] at allocated
    cases allocated
    refine ⟨notZero, small, free, inRange, super, by simp [io], marked, fun other used => ?_⟩
    rw [io, Function.update_of_ne]
    rintro rfl
    rw [used] at free
    cases free

/-- A pointer of the inode gets a block: one address more. -/
theorem grown_alloc_root (forest : Forest vol roots) (empty : roots place = 0)
    (allocated : vol.ext2fsAllocBlock goal = (.ok blk, vol')) :
    Planted.Grown (treeShape ω vol.super.addrPerBlock) vol.ptrs vol'.ptrs roots
      (Function.update roots place blk) place [] blk := by
  obtain ⟨-, -, -, -, -, blank, -, apart⟩ := allocated_apart forest allocated
  refine Planted.grown_root empty ?_ ?_
  · intro index _
    simp [ptrs, blank]
  · intro place' path' addr present index _
    rw [ptrs, apart _ (forest.planted.owned place' path' addr present).2, ptrs]

/-- A pointer of the inode gets a block. -/
theorem grows_root (forest : Forest vol roots) (empty : roots place = 0)
    (allocated : vol.ext2fsAllocBlock goal = (.ok blk, vol')) :
    blk ≠ 0 ∧ Grows place.1 vol vol' roots (Function.update roots place blk) := by
  obtain ⟨notZero, -, free, inRange, super, blank, marked, apart⟩ :=
    allocated_apart forest allocated
  exact ⟨notZero, Grows.of_grown forest Shape.Addr.nil
    (grown_alloc_root forest empty allocated) empty free
    inRange super marked (fun _ => blank) (fun other used _ => apart other used)
    (ext2fsAllocBlock_tidy allocated)⟩

section Entry

variable (forest : Forest vol roots) (addr : vol.Addr place path) {index : Nat}
  (present : vol.label roots place path ≠ 0)
  (empty : ptr (vol.io (vol.label roots place path)) index = 0)
  (allocated : vol.ext2fsAllocBlock goal = (.ok blk, vol'))

include forest addr present empty allocated

/-- An entry of an indirect block gets a block: one address more. -/
theorem grown_alloc_ptr :
    Planted.Grown (treeShape ω vol.super.addrPerBlock) vol.ptrs
      (vol'.writeBlk (vol.label roots place path)
        (setPtr (vol.io (vol.label roots place path)) index blk)).ptrs roots roots place
        (path ++ [index])
      blk := by
  obtain ⟨-, small32, free, -, -, blank, -, apart⟩ := allocated_apart forest allocated
  generalize indEq : vol.label roots place path = ind at *
  have reached : follow vol.ptrs (roots place) path = ind := indEq
  have indApart : ind ≠ blk := by
    rintro rfl
    have used := forest.planted.owned place path addr (by rwa [reached])
    rw [reached, InUse, free] at used
    exact Bool.noConfusion used.2
  refine Planted.grown_ptr forest.planted addr (by rwa [reached]) ?_ ?_ ?_ ?_ ?_
  · rw [reached]
    exact empty
  · intro other _
    rw [ptrs, writeBlk_io, Function.update_of_ne (Ne.symm indApart), blank]
    exact ptr_zero _
  · rw [reached, ptrs, writeBlk_io, Function.update_self]
    exact ptr_setPtr_same small32
  · intro other _ different
    rw [reached, ptrs, writeBlk_io, Function.update_self, ptrs]
    exact ptr_setPtr_of_ne _ different
  · intro place' path' addr' present' different other _
    rw [reached] at different
    rw [ptrs, writeBlk_io, Function.update_of_ne different,
      apart _ (forest.planted.owned place' path' addr' present').2, ptrs]

/-- An entry of an indirect block gets a block. -/
theorem grows_ptr (inner : path.length < place.2.val - 11)
    (small : index < vol.super.addrPerBlock) :
    blk ≠ 0 ∧ Grows place.1 vol (vol'.writeBlk (vol.label roots place path)
        (setPtr (vol.io (vol.label roots place path)) index blk)) roots roots ∧
      (vol'.writeBlk (vol.label roots place path)
        (setPtr (vol.io (vol.label roots place path)) index blk)).label roots place
          (path ++ [index]) = blk := by
  have grown := grown_alloc_ptr forest addr present empty allocated
  obtain ⟨notZero, -, free, inRange, super, blank, marked, apart⟩ :=
    allocated_apart forest allocated
  generalize indEq : vol.label roots place path = ind at *
  have reached : follow vol.ptrs (roots place) path = ind := indEq
  have indApart : ind ≠ blk := by
    rintro rfl
    have used := forest.planted.owned place path addr (by rwa [reached])
    rw [reached, InUse, free] at used
    exact Bool.noConfusion used.2
  have pointerUsed : vol.InUse ind :=
    reached ▸ forest.planted.owned place path addr (by rwa [reached])
  have stillUsed : vol'.InUse ind := by
    refine ⟨?_, ?_⟩
    · rw [Volume.inRange, super]
      exact pointerUsed.1
    · rw [marked, Function.update_of_ne indApart]
      exact pointerUsed.2
  have longer : vol.Addr place (path ++ [index]) := Shape.Addr.snoc addr inner small
  have nothing : vol.label roots place (path ++ [index]) = 0 := by
    rw [label, follow_snoc, reached]
    simp [hop, ptrs, empty]
  refine ⟨notZero, Grows.of_grown forest longer grown nothing free inRange super marked ?_ ?_
    fun before => (ext2fsAllocBlock_tidy allocated before).writeBlk stillUsed _, ?_⟩
  · intro _
    rw [writeBlk_io, Function.update_of_ne (Ne.symm indApart), blank]
  · intro other used outside
    have different : other ≠ ind := by
      rintro rfl
      exact outside place path rfl addr inner indEq
    rw [writeBlk_io, Function.update_of_ne different, apart other used]
  · have here := grown place (path ++ [index]) longer
    rwa [if_pos ⟨rfl, rfl⟩] at here

end Entry

end Steps

end Forest

end Volume

end Ext2Fuse
