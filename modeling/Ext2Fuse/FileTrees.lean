import Ext2Fuse.Shorten
import Ext2Fuse.FileContents
import Ext2Fuse.FileFrames

/-!
# The blocks of all files

The pointers of all inodes together, as the places of one forest. Looking up or allocating a
block of one file lets its trees grow, and no logical block of any file reads otherwise than
before: a block that is new holds zeros, as the hole did.
-/

namespace Ext2Fuse

open Lib

namespace Volume

/-- The pointers of the inodes, by inode number, as the places of a forest. -/
def places (pointers : Nat → Nat → Nat) : Place Nat → Nat :=
  fun place => pointers place.1 place.2.val

/-- What a logical block of an inode reads: a hole is zeros. -/
def blockOf (vol : Volume) (iBlock : Nat → Nat) (block : Nat) : Block :=
  if vol.mapped iBlock block = 0 then fun _ => 0 else vol.io (vol.mapped iBlock block)

section Paths

variable {vol : Volume} {block block' : Nat}

/-- The path to a logical block is an address of the forest, at the level of the data. -/
theorem blockPath_addr {addrPerBlock : Nat} (small : block < capacity addrPerBlock) :
    ∃ (slot : Fin EXT2_N_BLOCKS) (path : List Nat), blockPath addrPerBlock block =
      (slot.val, path) ∧
      path.length = slot.val - 11 ∧ ∀ index ∈ path, index < addrPerBlock := by
  obtain ⟨slot, inside, starts, ends⟩ := exists_slot small
  refine ⟨⟨slot, inside⟩, _, blockPath_eq inside starts ends, length_numberPath _ _, ?_⟩
  rw [slotFirst] at ends
  exact numberPath_lt (show block - slotFirst addrPerBlock slot <
    addrPerBlock ^ slotLevel slot by omega)

/-- Different logical blocks have different paths. -/
theorem blockPath_injective {addrPerBlock : Nat} (small : block < capacity addrPerBlock)
    (small' : block' < capacity addrPerBlock)
    (same : blockPath addrPerBlock block = blockPath addrPerBlock block') : block = block' := by
  obtain ⟨slot, inside, starts, ends⟩ := exists_slot small
  obtain ⟨slot', inside', starts', ends'⟩ := exists_slot small'
  rw [blockPath_eq inside starts ends, blockPath_eq inside' starts' ends'] at same
  obtain ⟨rfl, paths⟩ := Prod.mk.inj same
  rw [slotFirst] at ends ends'
  have numbers := numberPath_injective (by omega) (by omega) paths
  omega

/-- A logical block as an address of the forest. -/
theorem mapped_label (vol : Volume) (small : block < capacity vol.super.addrPerBlock) :
    ∃ (slot : Fin EXT2_N_BLOCKS) (path : List Nat),
      blockPath vol.super.addrPerBlock block = (slot.val, path) ∧ path.length = slot.val - 11 ∧
      (∀ ino : Nat, vol.Addr (ino, slot) path) ∧ ∀ (pointers : Nat → Nat → Nat) (ino : Nat),
        vol.mapped (pointers ino) block = vol.label (places pointers) (ino, slot) path := by
  obtain ⟨slot, path, found, level, inBlock⟩ := blockPath_addr small
  refine ⟨slot, path, found, level, fun ino => ⟨level.le, inBlock⟩, fun pointers ino => ?_⟩
  rw [mapped, found]
  rfl

end Paths

section Growing

variable {vol vol' : Volume} {pointers pointers' : Nat → Nat → Nat}
    {owner ino ino' block block' : Nat}

/-- A block of the volume is a logical block of one file, and one of it. -/
theorem Forest.mapped_inj (forest : Forest vol (places pointers))
    (small : block < capacity vol.super.addrPerBlock)
    (small' : block' < capacity vol.super.addrPerBlock)
    (present : vol.mapped (pointers ino) block ≠ 0)
    (same : vol.mapped (pointers ino) block = vol.mapped (pointers ino') block') :
    ino = ino' ∧ block = block' := by
  obtain ⟨slot, path, found, -, addr, label⟩ := mapped_label vol small
  obtain ⟨slot', path', found', -, addr', label'⟩ := mapped_label vol small'
  rw [label pointers ino] at present same
  rw [label' pointers ino'] at same
  obtain ⟨samePlace, samePath⟩ :=
    forest.planted.separate _ _ _ _ (addr ino) (addr' ino') same present
  obtain ⟨sameIno, sameSlot⟩ := Prod.mk.inj samePlace
  refine ⟨sameIno, blockPath_injective small small' ?_⟩
  rw [found, found', sameSlot, samePath]

/-- A logical block that is mapped is in use, and no pointer block of any file. -/
theorem Forest.mapped_inUse (forest : Forest vol (places pointers))
    (small : block < capacity vol.super.addrPerBlock)
    (present : vol.mapped (pointers ino) block ≠ 0) :
    vol.InUse (vol.mapped (pointers ino) block) ∧ ∀ place path, vol.Addr place path →
      path.length < place.2.val - 11 →
        vol.label (places pointers) place path ≠ vol.mapped (pointers ino) block := by
  obtain ⟨slot, path, -, level, addr, label⟩ := mapped_label vol small
  rw [label pointers ino] at present ⊢
  refine ⟨forest.planted.owned _ _ (addr ino) present, fun place path' addr' inner same => ?_⟩
  obtain ⟨rfl, rfl⟩ := forest.planted.separate place path' _ path addr' (addr ino) same
    (by rw [show follow _ _ _ = _ from same]; exact present)
  change path'.length < slot.val - 11 at inner
  omega

/-- A growing forest keeps what is mapped. -/
theorem Grows.mapped_eq (grows : Grows owner vol vol' (places pointers) (places pointers'))
    (small : block < capacity vol.super.addrPerBlock)
    (kept : ino ≠ owner ∨ vol.mapped (pointers ino) block ≠ 0) :
    vol'.mapped (pointers' ino) block = vol.mapped (pointers ino) block := by
  obtain ⟨slot, path, found, -, addr, label⟩ := mapped_label vol small
  have label' : vol'.mapped (pointers' ino) block = vol'.label (places pointers')
    (ino, slot) path := by
    rw [mapped, grows.super, found]
    rfl
  rw [label', label pointers ino]
  obtain other | present := kept
  · exact grows.others _ _ other (addr ino)
  · rw [label pointers ino] at present
    exact grows.keeps _ _ (addr ino) present

/-- In a growing forest no logical block reads otherwise than before. -/
theorem Grows.blockOf_eq (grows : Grows owner vol vol' (places pointers) (places pointers'))
    (forest : Forest vol (places pointers)) (small : block < capacity vol.super.addrPerBlock) :
    vol'.blockOf (pointers' ino) block = vol.blockOf (pointers ino) block := by
  by_cases present : vol.mapped (pointers ino) block ≠ 0
  · obtain ⟨inUse, apart⟩ := forest.mapped_inUse small present
    rw [blockOf, blockOf, grows.mapped_eq small (.inr present), if_neg present, if_neg present]
    exact grows.io _ inUse.2 fun place path _ => apart place path
  · rw [not_not] at present
    rw [blockOf, blockOf, if_pos present]
    split
    · rfl
    · rename_i fresh
      obtain ⟨slot, path, found, level, addr, label⟩ := mapped_label vol small
      have label' : vol'.mapped (pointers' ino) block = vol'.label (places pointers')
        (ino, slot) path := by
        rw [mapped, grows.super, found]
        rfl
      rw [label pointers ino] at present
      rw [label'] at fresh ⊢
      exact (grows.fresh _ _ (addr ino) present fresh).2 level

end Growing

section Allocating

variable {vol : Volume}

section Walks

variable {ω : Type} [DecidableEq ω] {roots : Place ω → Nat} {place : Place ω} {path : List Nat}

/-- Only addresses on the way to `target` have got a block. -/
def FreshOn (vol vol' : Volume) (roots roots' : Place ω → Nat) (place : Place ω)
    (target : List Nat) : Prop :=
  ∀ place' path, vol.Addr place' path → vol.label roots place' path = 0 →
    vol'.label roots' place' path ≠ 0 → place' = place ∧ path <+: target

omit [DecidableEq ω] in
/-- On an unchanged volume nothing is fresh. -/
theorem FreshOn.refl (vol : Volume) (roots : Place ω → Nat) (place : Place ω) (target : List Nat) :
    FreshOn vol vol roots roots place target :=
  fun _ _ _ absent present => absurd absent present

omit [DecidableEq ω] in
/-- Blocks fresh on two paths in a row are fresh on both. -/
theorem FreshOn.trans {vol' vol'' : Volume} {roots' roots'' : Place ω → Nat}
    {target target' : List Nat}
    (super : vol'.super = vol.super) (first : FreshOn vol vol' roots roots' place target)
    (second : FreshOn vol' vol'' roots' roots'' place target') (further : target <+: target') :
    FreshOn vol vol'' roots roots'' place target' := by
  intro place' path addr absent present
  by_cases early : vol'.label roots' place' path = 0
  · exact second place' path (by rw [Addr, super]; exact addr) early present
  · obtain ⟨rfl, onWay⟩ := first place' path addr absent early
    exact ⟨rfl, onWay.trans further⟩

/-- A node that was grown is fresh on its own path. -/
theorem FreshOn.of_grown {vol' : Volume} {roots' : Place ω → Nat} {blk : Nat}
    (grown : Planted.Grown (treeShape ω vol.super.addrPerBlock) vol.ptrs vol'.ptrs roots
      roots' place path
      blk) : FreshOn vol vol' roots roots' place path := by
  intro place' path' addr absent present
  have here : vol'.label roots' place' path' =
    if place' = place ∧ path' = path then blk else vol.label roots place' path' :=
      grown place' path' addr
  by_cases atNew : place' = place ∧ path' = path
  · exact ⟨atNew.1, atNew.2 ▸ List.prefix_rfl⟩
  · rw [if_neg atNew] at here
    exact absurd (here.trans absent) present

/-- `block_ind_bmap` below an address of the forest. -/
theorem blockIndBmap_grows (forest : Forest vol roots) (alloc : Bool) (addr : vol.Addr place path)
    (inner : path.length < place.2.val - 11) {nr : Nat} (small : nr < vol.super.addrPerBlock) :
    Grows place.1 vol (vol.blockIndBmap alloc (vol.label roots place path) nr).2 roots roots ∧
      FreshOn vol (vol.blockIndBmap alloc (vol.label roots place path) nr).2 roots roots place
        (path ++ [nr]) ∧
      ∀ blk allocated, (vol.blockIndBmap alloc (vol.label roots place path) nr).1 = .ok
        (blk, allocated) →
        (vol.blockIndBmap alloc (vol.label roots place path) nr).2.label roots place
        (path ++ [nr]) =
            blk ∧
          (alloc = true → vol.label roots place path ≠ 0 → blk ≠ 0) := by
  have longer : vol.label roots place (path ++ [nr]) =
    hop vol.ptrs (vol.label roots place path) nr :=
    follow_snoc path nr
  simp only [blockIndBmap]
  by_cases absent : vol.label roots place path = 0
  · rw [if_pos absent]
    refine ⟨.refl forest _, .refl _ _ _ _, fun blk allocated outcome => ?_⟩
    cases outcome
    exact ⟨by rw [longer, absent]; rfl, fun _ present => absurd absent present⟩
  rw [if_neg absent]
  rw [hop, if_neg absent] at longer
  by_cases missing : (decide (ptr (vol.io (vol.label roots place path)) nr = 0) && alloc) = true
  · rw [if_pos missing]
    simp only [Bool.and_eq_true, decide_eq_true_eq] at missing
    generalize (if nr = 0 then 0 else ptr (vol.io (vol.label roots place path)) (nr - 1)) = goal
    obtain ⟨rc, failed⟩ | ⟨blk, vol', outcome, -⟩ := ext2fsAllocBlock_cases goal forest.sound
    · rw [failed]
      exact ⟨.refl forest _, .refl _ _ _ _, by rintro _ _ ⟨⟩⟩
    · rw [outcome]
      obtain ⟨notZero, grows, stored⟩ := grows_ptr forest addr absent missing.1 outcome inner small
      refine ⟨grows, .of_grown (grown_alloc_ptr forest addr absent missing.1 outcome),
        fun blk' allocated same => ?_⟩
      cases same
      exact ⟨stored, fun _ _ => notZero⟩
  · rw [if_neg missing]
    refine ⟨.refl forest _, .refl _ _ _ _, fun blk allocated outcome => ?_⟩
    cases outcome
    refine ⟨longer, fun allocates _ => ?_⟩
    rintro zero
    exact missing (by simp [zero, allocates])

/-- A block number has one digit a level, the last one included. -/
theorem length_digits (addrPerBlock level nr : Nat) :
    (digits addrPerBlock level nr).length = level + 1 := by
  rw [← numberPath_eq_digits, length_numberPath]

/-- Every digit is an index within a block of pointers. -/
theorem digits_lt {addrPerBlock level nr : Nat} (inside : nr < addrPerBlock ^ (level + 1)) :
    ∀ index ∈ digits addrPerBlock level nr, index < addrPerBlock := by
  rw [← numberPath_eq_digits]
  exact numberPath_lt inside

/-- A walk from a pointer of an inode lets the tree below it grow, and finds what the path to the
number leads to then. -/
def WalkGrows (walk : Volume → Bool → Nat → Nat → BmapStep) (level : Nat) : Prop :=
  ∀ (vol : Volume) (roots : Place Nat → Nat) (place : Place Nat) (alloc : Bool) (nr : Nat),
    Forest vol roots → level < place.2.val - 11 → nr < vol.super.addrPerBlock ^ (level + 1) →
      Grows place.1 vol (walk vol alloc (roots place) nr).2 roots roots ∧
        FreshOn vol (walk vol alloc (roots place) nr).2 roots roots place
          (digits vol.super.addrPerBlock level nr) ∧
        ∀ blk allocated, (walk vol alloc (roots place) nr).1 = .ok (blk, allocated) →
          (walk vol alloc (roots place) nr).2.label roots place
              (digits vol.super.addrPerBlock level nr) = blk ∧
            (alloc = true → roots place ≠ 0 → blk ≠ 0)

/-- Mapping through an indirect block grows the tree by one node. -/
theorem blockIndBmap_walkGrows : WalkGrows blockIndBmap 0 := by
  intro vol roots place alloc nr forest deep small
  rw [zero_add, pow_one] at small
  exact @blockIndBmap_grows vol Nat _ roots place [] forest alloc Shape.Addr.nil deep nr small

/-- One more level of indirection grows it by those below and its own. -/
theorem throughInd_walkGrows {outer : Volume → Bool → Nat → Nat → BmapStep} {level : Nat}
    (outerGrows : WalkGrows outer level) : WalkGrows (throughInd outer) (level + 1) := by
  intro vol roots place alloc nr forest deep small
  have quotient : nr / vol.super.addrPerBlock < vol.super.addrPerBlock ^ (level + 1) :=
    Nat.div_lt_of_lt_mul (by rwa [← pow_succ'])
  have remainder := Nat.mod_lt nr vol.super.addrPerBlock_pos
  obtain ⟨grows, fresh, reaches⟩ := outerGrows vol roots place alloc _ forest (by omega) quotient
  have further : digits vol.super.addrPerBlock level (nr / vol.super.addrPerBlock) <+:
    digits vol.super.addrPerBlock (level + 1) nr := List.prefix_append _ _
  simp only [throughInd]
  rcases outcome : outer vol alloc (roots place)
    (nr / vol.super.addrPerBlock) with ⟨_ | ⟨ind, first⟩, vol₁⟩
  all_goals
    rw [outcome] at grows fresh reaches
    dsimp only at grows fresh reaches ⊢
  · exact ⟨grows, fresh.trans grows.super (.refl _ _ _ _) further, by rintro _ _ ⟨⟩⟩
  obtain ⟨reached, present⟩ := reaches ind first rfl
  have addr : vol₁.Addr place (digits vol.super.addrPerBlock level (nr / vol.super.addrPerBlock)) :=
    grows.addr ⟨by rw [length_digits]; exact deep.le, digits_lt quotient⟩
  obtain ⟨grows', fresh', entry⟩ := blockIndBmap_grows grows.forest alloc addr
    (by rw [length_digits]; exact deep) (by rw [grows.super]; exact remainder)
  rw [grows.super, reached] at *
  rcases inner : vol₁.blockIndBmap alloc ind
    (nr % vol.super.addrPerBlock) with ⟨_ | ⟨blk, more⟩, vol₂⟩
  all_goals
    rw [inner] at grows' fresh' entry
    dsimp only at grows' fresh' entry ⊢
  · exact ⟨grows.trans grows', fresh.trans grows.super fresh' further, by rintro _ _ ⟨⟩⟩
  refine ⟨grows.trans grows', fresh.trans grows.super fresh' further, fun blk' allocated same => ?_⟩
  cases same
  obtain ⟨stored, notZero⟩ := entry blk more rfl
  exact ⟨stored, fun allocates hasRoot => notZero allocates (present allocates hasRoot)⟩

end Walks

section Pointers

variable {pointers : Nat → Nat → Nat} {owner : Nat}

/-- Listing a file with its own pointers changes no place. -/
theorem places_same : places
    (Function.update pointers owner (pointers owner)) = places pointers := by
  rw [Function.update_eq_self]

/-- Changing one slot of a file changes one place. -/
theorem places_update (slot : Fin EXT2_N_BLOCKS) (blk : Nat) :
    places (Function.update pointers owner (Function.update (pointers owner) slot blk)) =
      Function.update (places pointers) (owner, slot) blk := by
  funext ⟨ino, other⟩
  simp only [places, Function.update_apply, Prod.mk.injEq]
  by_cases own : ino = owner
  · simp [own, Function.update_apply, Fin.ext_iff]
  · simp [own]

/-- What mapping a logical block of `owner` comes to. -/
structure Maps (vol : Volume) (pointers : Nat → Nat → Nat) (owner : Nat)
    (alloc : Bool) (block : Nat)
    (out : Except Errcode (Nat × Nat) × (Nat → Nat) × Volume) : Prop where
  grows : Grows owner vol out.2.2 (places pointers)
    (places (Function.update pointers owner out.2.1))
  fresh : ∀ other < capacity vol.super.addrPerBlock, vol.mapped (pointers owner) other = 0 →
    out.2.2.mapped out.2.1 other ≠ 0 → other = block
  found : ∀ blk allocated, out.1 = .ok (blk, allocated) →
    out.2.2.mapped out.2.1 block = blk ∧ (alloc = true → blk ≠ 0)

/-- Where only the way to a logical block is fresh, no other logical block has got one. -/
theorem FreshOn.mapped {vol' : Volume} {iBlock : Nat → Nat} {slot : Fin EXT2_N_BLOCKS}
    {path : List Nat} (super : vol'.super = vol.super)
    (fresh : FreshOn vol vol' (places pointers) (places (Function.update pointers owner iBlock))
      (owner, slot) path) {block : Nat} (small : block < capacity vol.super.addrPerBlock)
    (target : blockPath vol.super.addrPerBlock block = (slot.val, path)) :
    ∀ other < capacity vol.super.addrPerBlock, vol.mapped (pointers owner) other = 0 →
      vol'.mapped iBlock other ≠ 0 → other = block := by
  intro other small' absent present
  obtain ⟨slot', path', found', level', addr', label'⟩ := mapped_label vol small'
  have label'' : vol'.mapped iBlock other =
      vol'.label (places (Function.update pointers owner iBlock)) (owner, slot') path' := by
    rw [Volume.mapped, super, found', label, places, Function.update_self]
  rw [label' pointers owner] at absent
  rw [label''] at present
  obtain ⟨samePlace, onWay⟩ := fresh (owner, slot') path' (addr' owner) absent present
  obtain ⟨-, rfl⟩ := Prod.mk.inj samePlace
  obtain ⟨slot, path₁, found, level, -⟩ := blockPath_addr small
  rw [target] at found
  obtain ⟨sameSlot, rfl⟩ := Prod.mk.inj found
  refine blockPath_injective small' small ?_
  rw [found', target, onWay.eq_of_length (by rw [level', level, sameSlot])]

/-- Nothing has been mapped. -/
theorem Maps.of_same {out : Except Errcode (Nat × Nat) × (Nat → Nat) × Volume}
    {alloc : Bool} {block : Nat}
    (forest : Forest vol (places pointers)) (same : out.2 = (pointers owner, vol))
    (found : ∀ blk allocated, out.1 = .ok (blk, allocated) →
      vol.mapped (pointers owner) block = blk ∧ (alloc = true → blk ≠ 0)) :
    Maps vol pointers owner alloc block out := by
  obtain ⟨result, iBlock, vol'⟩ := out
  obtain ⟨rfl, rfl⟩ := Prod.mk.inj same
  refine ⟨?_, fun _ _ absent present => absurd absent present, found⟩
  rw [places_same]
  exact .refl forest owner

/-- A direct block is mapped in the inode itself. -/
theorem bmapDirect_maps (forest : Forest vol (places pointers)) (owner : Nat)
    (alloc : Bool) {block : Nat} (direct : block < EXT2_NDIR_BLOCKS) :
    Maps vol pointers owner alloc block (vol.bmapDirect (pointers owner) alloc block) := by
  have mapped : ∀ (vol : Volume) (iBlock : Nat → Nat), vol.mapped iBlock block = iBlock block :=
    fun vol iBlock => Fs.mapped_direct vol iBlock direct
  simp only [bmapDirect]
  split
  · rename_i missing
    simp only [Bool.and_eq_true, decide_eq_true_eq] at missing
    generalize (if block = 0 then 0 else pointers owner (block - 1)) = goal
    obtain ⟨rc, failed⟩ | ⟨blk, vol', outcome, -⟩ := ext2fsAllocBlock_cases goal forest.sound
    · rw [failed]
      exact .of_same forest rfl (by rintro _ _ ⟨⟩)
    · rw [outcome]
      have inside : block < EXT2_N_BLOCKS := direct.trans (by decide)
      have empty : places pointers (owner, ⟨block, inside⟩) = 0 := missing.1
      obtain ⟨notZero, grows⟩ := grows_root forest empty outcome
      have fresh := FreshOn.of_grown (grown_alloc_root forest empty outcome)
      rw [← places_update] at grows fresh
      have inVolume : block < capacity vol.super.addrPerBlock := by
        rw [capacity]
        omega
      refine ⟨grows, fresh.mapped grows.super inVolume (by rw [blockPath, if_pos direct]),
        fun blk' allocated same => ?_⟩
      cases same
      exact ⟨(mapped _ _).trans (Function.update_self ..), fun _ => notZero⟩
  · rename_i present
    refine .of_same forest rfl fun blk allocated same => ?_
    cases same
    refine ⟨mapped _ _, fun allocates zero => present (by simp [zero, allocates])⟩

/-- The indirect ranges, one for each of the last three pointers. -/
theorem bmapFromSlot_maps {walk : Volume → Bool → Nat → Nat → BmapStep} {level : Nat}
    (walkGrows : WalkGrows walk level) (forest : Forest vol (places pointers))
    (owner : Nat) (alloc : Bool)
    {block nr : Nat} (slot : Fin EXT2_N_BLOCKS) (deep : level < slot.val - 11)
    (small : nr < vol.super.addrPerBlock ^ (level + 1))
    (inVolume : block < capacity vol.super.addrPerBlock)
    (found : blockPath vol.super.addrPerBlock block =
      (slot.val, digits vol.super.addrPerBlock level nr)) :
    Maps vol pointers owner alloc block (bmapFromSlot walk vol (pointers owner) alloc slot nr) := by
  have mapped : ∀ (vol' : Volume) (iBlock : Nat → Nat), vol'.super = vol.super →
      vol'.mapped iBlock block =
        follow vol'.ptrs (iBlock slot) (digits vol.super.addrPerBlock level nr) := by
    intro vol' iBlock super
    rw [Volume.mapped, super, found]
  simp only [bmapFromSlot]
  by_cases absent : pointers owner slot = 0
  · rw [if_pos absent]
    cases alloc with
    | false =>
        rw [if_neg Bool.false_ne_true]
        refine .of_same forest rfl fun blk allocated same => ?_
        cases same
        refine ⟨(mapped _ _ rfl).trans ?_, by rintro ⟨⟩⟩
        rw [absent, follow_zero]
    | true =>
        obtain ⟨rc, failed⟩ | ⟨ind, vol₁, outcome, -⟩ :=
          ext2fsAllocBlock_cases (pointers owner (slot - 1)) forest.sound
        · rw [if_pos rfl, failed]
          exact .of_same forest rfl (by rintro _ _ ⟨⟩)
        rw [if_pos rfl, outcome]
        dsimp only
        have empty : places pointers (owner, slot) = 0 := absent
        obtain ⟨notZero, first⟩ := grows_root forest empty outcome
        have fresh := FreshOn.of_grown (grown_alloc_root forest empty outcome)
        obtain ⟨second, fresh', reaches⟩ := walkGrows vol₁ _ (owner, slot) true nr first.forest deep
          (by rw [first.super]; exact small)
        rw [Function.update_self] at second fresh' reaches
        rw [first.super] at fresh' reaches
        rw [← places_update] at first second fresh fresh'
        have both := fresh.trans first.super fresh' List.nil_prefix
        rcases walked : walk vol₁ true ind nr with ⟨_ | ⟨blk, more⟩, vol₂⟩
        all_goals
          rw [walked] at second both reaches
          dsimp only at second both reaches ⊢
          have others := both.mapped (second.super.trans first.super) inVolume found
        · exact ⟨first.trans second, others, by rintro _ _ ⟨⟩⟩
        refine ⟨first.trans second, others, fun blk' allocated same => ?_⟩
        cases same
        obtain ⟨stored, present⟩ := reaches blk more rfl
        refine ⟨(mapped _ _ (second.super.trans first.super)).trans ?_,
          fun _ => present rfl notZero⟩
        rw [label, Function.update_self] at stored
        dsimp only
        rw [Function.update_self, stored]
  · rw [if_neg absent]
    obtain ⟨grows, fresh, reaches⟩ := walkGrows vol _ (owner, slot) alloc nr forest deep small
    change Grows owner vol (walk vol alloc (pointers owner slot) nr).2 _ _ at grows
    change FreshOn vol (walk vol alloc (pointers owner slot) nr).2 _ _ _ _ at fresh
    change ∀ blk allocated, (walk vol alloc (pointers owner slot) nr).1 = .ok (blk, allocated) →
      (walk vol alloc (pointers owner slot) nr).2.label (places pointers) (owner, slot)
          (digits vol.super.addrPerBlock level nr) = blk ∧
        (alloc = true → pointers owner slot ≠ 0 → blk ≠ 0) at reaches
    rcases walked : walk vol alloc (pointers owner slot) nr with ⟨_ | ⟨blk, more⟩, vol₁⟩
    all_goals
      rw [walked] at grows fresh reaches
      dsimp only at grows fresh reaches ⊢
      have stands : Grows owner vol vol₁ (places pointers)
          (places (Function.update pointers owner (pointers owner))) := by rwa [places_same]
      have fresh' : FreshOn vol vol₁ (places pointers)
          (places (Function.update pointers owner (pointers owner))) (owner, slot)
          (digits vol.super.addrPerBlock level nr) := by rwa [places_same]
      have others := fresh'.mapped grows.super inVolume found
    · exact ⟨stands, others, by rintro _ _ ⟨⟩⟩
    refine ⟨stands, others, fun blk' allocated same => ?_⟩
    cases same
    obtain ⟨stored, present⟩ := reaches blk more rfl
    exact ⟨(mapped _ _ grows.super).trans stored, fun allocates => present allocates absent⟩

/-- `ext2fs_bmap` up to its `done:` label. -/
theorem bmapBlocks_maps (forest : Forest vol (places pointers)) (owner : Nat)
    (alloc : Bool) {block : Nat} (small : block < capacity vol.super.addrPerBlock) :
    Maps vol pointers owner alloc block (vol.bmapBlocks (pointers owner) alloc block) := by
  have square : vol.super.addrPerBlock ^ 2 = vol.super.addrPerBlock * vol.super.addrPerBlock := sq _
  have cube : vol.super.addrPerBlock ^ 3 =
      vol.super.addrPerBlock * vol.super.addrPerBlock * vol.super.addrPerBlock := by ring
  have inVolume := small
  rw [capacity] at small
  simp only [bmapBlocks]
  split
  · exact bmapDirect_maps forest owner alloc ‹_›
  rename_i behindDirect
  split
  · rename_i inInd
    exact bmapFromSlot_maps blockIndBmap_walkGrows forest owner alloc ⟨EXT2_IND_BLOCK, by decide⟩
      (by decide) (by rw [zero_add, pow_one]; exact inInd) inVolume
      (by rw [blockPath, if_neg behindDirect, if_pos inInd])
  rename_i behindInd
  split
  · rename_i inDind
    exact bmapFromSlot_maps (throughInd_walkGrows blockIndBmap_walkGrows) forest owner alloc
      ⟨EXT2_DIND_BLOCK, by decide⟩ (by decide) (by rw [square]; exact inDind) inVolume
      (by rw [blockPath, if_neg behindDirect, if_neg behindInd, if_pos inDind])
  · rename_i behindDind
    exact bmapFromSlot_maps (throughInd_walkGrows
      (throughInd_walkGrows blockIndBmap_walkGrows)) forest
      owner alloc ⟨EXT2_TIND_BLOCK, by decide⟩ (by decide) (by rw [cube]; omega) inVolume
      (by rw [blockPath, if_neg behindDirect, if_neg behindInd, if_neg behindDind])

end Pointers

end Allocating

section Touching

variable {owner ino ino' block block' : Nat} {vol vol' vol'' : Volume}
  {pointers pointers' pointers'' : Nat → Nat → Nat}

/-- Where there are direct pointers only, it is enough that these differ and are in use. -/
theorem forest_of_direct (sound : vol.Sound)
    (direct : ∀ ino slot, EXT2_NDIR_BLOCKS ≤ slot → pointers ino slot = 0)
    (inUse : ∀ ino slot, pointers ino slot ≠ 0 → vol.InUse (pointers ino slot))
    (separate : ∀ ino slot ino' slot', pointers ino slot ≠ 0 →
      pointers ino slot = pointers ino' slot' →
      ino = ino' ∧ slot = slot') : Forest vol (places pointers) := by
  -- below a root there is nothing, and the root of a deeper tree is 0
  have labels : ∀ (place : Place Nat) path, vol.Addr place path →
      follow vol.ptrs (places pointers place) path ≠ 0 → path = [] := by
    rintro ⟨ino, slot⟩ path addr present
    by_cases early : slot.val < EXT2_NDIR_BLOCKS
    · have short : path.length ≤ slot.val - 11 := addr.1
      rw [EXT2_NDIR_BLOCKS] at early
      exact List.eq_nil_of_length_eq_zero (by omega)
    · refine absurd ?_ present
      rw [places, direct ino slot (Nat.le_of_not_lt early), follow_zero]
  refine ⟨sound, ⟨fun place path addr present => ?_, ?_⟩⟩
  · obtain rfl := labels place path addr present
    exact inUse place.1 place.2 present
  · intro place path place' path' addr addr' same present
    obtain rfl := labels place path addr present
    have present' : follow vol.ptrs (places pointers place') path' ≠ 0 := by rwa [← same]
    obtain rfl := labels place' path' addr' present'
    obtain ⟨sameIno, sameSlot⟩ := separate place.1 place.2 place'.1 place'.2 present same
    exact ⟨Prod.ext sameIno (Fin.ext sameSlot), rfl⟩

/-- The files other than `owner` have their pointers, their blocks and what these hold. -/
structure Spares (owner : Nat) (vol vol' : Volume)
    (pointers pointers' : Nat → Nat → Nat) : Prop where
  super : vol'.super = vol.super
  forest : Forest vol' (places pointers')
  others : ∀ ino, ino ≠ owner → pointers' ino = pointers ino
  mapped : ∀ ino block, ino ≠ owner → block < capacity vol.super.addrPerBlock →
    vol'.mapped (pointers' ino) block = vol.mapped (pointers ino) block
  contents : ∀ ino block, ino ≠ owner → block < capacity vol.super.addrPerBlock →
    vol'.blockOf (pointers' ino) block = vol.blockOf (pointers ino) block
  tidy : vol.Tidy → vol'.Tidy

/-- Only the file `owner` has been touched, and a pointer of its inode that was set is the same. -/
structure Touches (owner : Nat) (vol vol' : Volume) (pointers pointers' : Nat → Nat → Nat) : Prop
    extends Spares owner vol vol' pointers pointers' where
  slots : ∀ slot : Fin EXT2_N_BLOCKS, pointers owner slot ≠ 0 →
    pointers' owner slot = pointers owner slot

/-- Nothing was done, so the other files are spared. -/
theorem Spares.refl (forest : Forest vol (places pointers)) (owner : Nat) :
    Spares owner vol vol pointers pointers :=
  ⟨rfl, forest, fun _ _ => rfl, fun _ _ _ _ => rfl, fun _ _ _ _ => rfl, id⟩

/-- Nothing was done, so one file is touched at most. -/
theorem Touches.refl (forest : Forest vol (places pointers)) (owner : Nat) :
    Touches owner vol vol pointers pointers :=
  ⟨.refl forest owner, fun _ _ => rfl⟩

/-- Two steps that spare the other files spare them together. -/
theorem Spares.trans (first : Spares owner vol vol' pointers pointers')
    (second : Spares owner vol' vol'' pointers' pointers'') :
    Spares owner vol vol'' pointers pointers'' where
  super := second.super.trans first.super
  forest := second.forest
  others _ other := (second.others _ other).trans (first.others _ other)
  mapped ino block other small :=
    (second.mapped ino block other (by rw [first.super]; exact small)).trans
      (first.mapped ino block other small)
  contents ino block other small :=
    (second.contents ino block other (by rw [first.super]; exact small)).trans
      (first.contents ino block other small)
  tidy before := second.tidy (first.tidy before)

/-- Two steps that touch one file touch it together. -/
theorem Touches.trans (first : Touches owner vol vol' pointers pointers')
    (second : Touches owner vol' vol'' pointers' pointers'') :
    Touches owner vol vol'' pointers pointers'' where
  toSpares := first.toSpares.trans second.toSpares
  slots slot present := by
    have kept := first.slots slot present
    rw [second.slots slot (by rwa [kept]), kept]

/-- Mapping a logical block touches its file. -/
theorem Maps.touches {alloc : Bool} {out : Except Errcode (Nat × Nat) × (Nat → Nat) × Volume}
    (maps : Maps vol pointers owner alloc block out) (forest : Forest vol (places pointers)) :
    Touches owner vol out.2.2 pointers (Function.update pointers owner out.2.1) where
  super := maps.grows.super
  forest := maps.grows.forest
  others _ other := Function.update_of_ne other _ _
  slots slot present := maps.grows.keeps (owner, slot) [] Shape.Addr.nil present
  mapped _ _ other small := maps.grows.mapped_eq small (.inl other)
  contents _ _ _ small := maps.grows.blockOf_eq forest small
  tidy := maps.grows.tidy

/-- Writing a logical block that is mapped: the forest stands, and it alone reads otherwise. -/
theorem Forest.writeBlk (forest : Forest vol (places pointers))
    (small : block < capacity vol.super.addrPerBlock)
    (present : vol.mapped (pointers ino) block ≠ 0) (contents : Block) :
    let vol' := vol.writeBlk (vol.mapped (pointers ino) block) contents
    Forest vol' (places pointers) ∧ ∀ ino' block', block' < capacity vol.super.addrPerBlock →
      vol'.mapped (pointers ino') block' = vol.mapped (pointers ino') block' ∧
      vol'.blockOf (pointers ino') block' =
        if ino' = ino ∧ block' = block then contents else vol.blockOf (pointers ino') block' := by
  intro vol'
  obtain ⟨inUse, apart⟩ := forest.mapped_inUse small present
  have same : ∀ place path, (treeShape Nat vol.super.addrPerBlock).Addr place path →
      path.length < (treeShape Nat vol.super.addrPerBlock).depth place →
      follow vol.ptrs (places pointers place) path ≠ 0 → ∀ index < vol.super.addrPerBlock,
        vol'.ptrs (follow vol.ptrs (places pointers place) path) index =
          vol.ptrs (follow vol.ptrs (places pointers place) path) index := by
    intro place path addr inner _ index _
    have different : follow vol.ptrs (places pointers place) path ≠ vol.mapped
      (pointers ino) block :=
      apart place path addr inner
    rw [ptrs, writeBlk_io, Function.update_of_ne different, ptrs]
  have labels : ∀ place path, vol.Addr place path →
      follow vol'.ptrs (places pointers place) path =
        follow vol.ptrs (places pointers place) path :=
    fun place path addr => Planted.follow_congr (same place) addr
  refine ⟨⟨⟨forest.sound.firstData, forest.sound.count, forest.sound.reserved⟩,
    forest.planted.congr same⟩, fun ino' block' small' => ?_⟩
  have mapped : vol'.mapped (pointers ino') block' = vol.mapped (pointers ino') block' := by
    obtain ⟨slot, path, found, -, addr, label⟩ := mapped_label vol small'
    have label' : vol'.mapped (pointers ino') block' =
        follow vol'.ptrs (places pointers (ino', slot)) path := by
      rw [Volume.mapped, writeBlk_super, found]
      rfl
    rw [label pointers ino', label']
    exact labels _ path (addr ino')
  refine ⟨mapped, ?_⟩
  rw [blockOf, mapped]
  by_cases here : ino' = ino ∧ block' = block
  · obtain ⟨rfl, rfl⟩ := here
    rw [if_neg present, if_pos ⟨rfl, rfl⟩, writeBlk_io, Function.update_self]
  · rw [if_neg here, blockOf]
    split
    · rfl
    · rename_i mappedHere
      rw [writeBlk_io, Function.update_of_ne]
      intro equal
      exact here (forest.mapped_inj small' small mappedHere equal)

/-- Writing a mapped block touches its own file only. -/
theorem Forest.touches_write (forest : Forest vol (places pointers))
    (small : block < capacity vol.super.addrPerBlock)
    (present : vol.mapped (pointers owner) block ≠ 0) (contents : Block) :
    Touches owner vol
      (vol.writeBlk (vol.mapped (pointers owner) block) contents) pointers pointers := by
  obtain ⟨planted, reads⟩ := forest.writeBlk small present contents
  have inUse := (forest.mapped_inUse small present).1
  refine ⟨⟨rfl, planted, fun _ _ => rfl, fun ino block' _ small' => (reads ino block' small').1,
    fun ino block' other small' => ?_,
      fun before => before.writeBlk inUse contents⟩, fun _ _ => rfl⟩
  rw [(reads ino block' small').2, if_neg fun here => other here.1]

end Touching

end Volume

end Ext2Fuse
