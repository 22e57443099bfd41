import Ext2Fuse.ShortenedFiles
import Ext2Fuse.HandleView

/-!
# Shortening one file among others

The trees `do_shorten` walks are those of the forest of all files. What it releases belongs to its
file, so that the other files read as before and the blocks that are left do not overlap.
-/

namespace Ext2Fuse

open Lib

namespace Volume

variable {vol vol' : Volume} {pointers : Nat → Nat → Nat} {ino : Nat}

section Visits

variable {iBlock : Nat → Nat} {visit : Visit}

/-- A visit of an inode's trees as an address: the pointer it lies below, the level, and the number
of its first logical block. -/
theorem visit_addr (member : visit ∈ vol.inodeVisits iBlock) :
    ∃ (slot : Fin EXT2_N_BLOCKS) (above nr : Nat), above + visit.level = slotLevel slot ∧
      visit.first = slotFirst vol.super.addrPerBlock slot +
        nr * vol.super.addrPerBlock ^ visit.level ∧
      nr < vol.super.addrPerBlock ^ above ∧ visit.block ≠ 0 ∧
      follow vol.ptrs (iBlock slot) (numberPath vol.super.addrPerBlock above nr) = visit.block := by
  obtain ⟨slot, inside, below, lower, starts, -, aligned⟩ := inodeVisit_range member
  obtain ⟨nr, multiple⟩ := aligned
  have first : visit.first =
      slotFirst vol.super.addrPerBlock slot + nr * vol.super.addrPerBlock ^ visit.level := by
    rw [Nat.mul_comm]
    omega
  have levels : slotLevel slot - visit.level + visit.level = slotLevel slot :=
    Nat.sub_add_cancel lower
  have found := (@mem_visits_iff vol.ptrs vol.super.addrPerBlock (iBlock slot) visit.block
    (slotFirst vol.super.addrPerBlock slot) vol.super.addrPerBlock_pos visit.level
    (slotLevel slot - visit.level) nr).mp (by rw [← first, levels]; exact below)
  exact ⟨⟨slot, inside⟩, _, nr, levels, first, found⟩

/-- What an address of the forest leads to is visited. -/
theorem exists_visit_of_addr {slot : Fin EXT2_N_BLOCKS} {path : List Nat}
    (addr : vol.Addr (ino, slot) path)
    (present : vol.label (places pointers) (ino, slot) path ≠ 0) :
    ∃ visit ∈ vol.inodeVisits (pointers ino),
      visit.block = vol.label (places pointers) (ino, slot) path ∧
        visit.level + path.length = slotLevel slot := by
  obtain ⟨visit, member, reached, level⟩ := @exists_visit_of_path vol.ptrs vol.super.addrPerBlock
    (slotLevel slot) (pointers ino slot) (slotFirst vol.super.addrPerBlock slot) path
      addr.1 addr.2 present
  exact ⟨visit, mem_entryVisits.mpr ⟨slot, ⟨Nat.zero_le _, by omega⟩, member⟩, reached, level⟩

/-- A block that is visited has an address. -/
theorem label_of_visit (member : visit ∈ vol.inodeVisits (pointers ino)) :
    ∃ (slot : Fin EXT2_N_BLOCKS) (path : List Nat), vol.Addr (ino, slot) path ∧
      vol.label (places pointers) (ino, slot) path = visit.block := by
  obtain ⟨slot, above, nr, levels, -, small, -, reached⟩ := visit_addr member
  refine ⟨slot, numberPath vol.super.addrPerBlock above nr, ⟨?_, numberPath_lt small⟩, reached⟩
  rw [length_numberPath]
  change above ≤ slotLevel slot
  omega

/-- The blocks of the files are in use. -/
theorem Forest.visit_inUse (forest : Forest vol (places pointers))
    (member : visit ∈ vol.inodeVisits (pointers ino)) :
    vol.InUse visit.block := by
  obtain ⟨slot, path, addr, reached⟩ := label_of_visit member
  have owned := forest.planted.owned (ino, slot) path addr
  rw [show follow vol.ptrs (places pointers (ino, slot)) path = visit.block from reached] at owned
  exact owned (entryVisits_block_ne_zero member)

/-- No block belongs to two files. -/
theorem Forest.visits_apart (forest : Forest vol (places pointers))
    (member : visit ∈ vol.inodeVisits (pointers ino))
    {other : Nat} (apart : other ≠ ino) {visit' : Visit}
    (member' : visit' ∈ vol.inodeVisits (pointers other)) :
    visit'.block ≠ visit.block := by
  intro same
  obtain ⟨slot, path, addr, reached⟩ := label_of_visit member
  obtain ⟨slot', path', addr', reached'⟩ := label_of_visit member'
  have present : vol.label (places pointers) (other, slot') path' ≠ 0 := by
    rw [reached']
    exact entryVisits_block_ne_zero member'
  obtain ⟨samePlace, -⟩ := forest.planted.separate (other, slot') path' (ino, slot) path addr' addr
    (reached'.trans (same.trans reached.symm)) present
  exact apart (congrArg Prod.fst samePlace)

/-- Pointers that are not set lead nowhere. -/
theorem inodeVisits_subset {iBlock' : Nat → Nat}
    (behind : ∀ slot : Fin EXT2_N_BLOCKS, iBlock slot ≠ 0 → iBlock' slot = iBlock slot) :
    vol.inodeVisits iBlock ⊆ vol.inodeVisits iBlock' := by
  intro visit member
  obtain ⟨slot, range, below⟩ := mem_entryVisits.mp member
  refine mem_entryVisits.mpr ⟨slot, range, ?_⟩
  by_cases absent : iBlock slot = 0
  · rw [absent, visits_zero] at below
    cases below
  · rwa [behind ⟨slot, by omega⟩ absent]

/-- The trees of a file in a forest do not overlap. -/
theorem Forest.treesApart (forest : Forest vol (places pointers)) (ino : Nat) :
    TreesApart vol (pointers ino) := by
  refine ⟨fun visit member => (forest.visit_inUse member).1, ?_⟩
  have distinct : (vol.inodeVisits (pointers ino)).Nodup := by
    refine nodup_flatMap (slotFirst_monotone vol.super.addrPerBlock) (fun slot visit member => ?_)
      (fun _ => visits_nodup vol.super.addrPerBlock_pos) _ _
    obtain ⟨-, starts, ends, -⟩ := visit_range member
    have room : 0 < vol.super.addrPerBlock ^ visit.level := Nat.pow_pos vol.super.addrPerBlock_pos
    simp only [Visit.bound] at ends
    exact ⟨starts, by rw [slotFirst]; omega⟩
  refine distinct.map_on fun first firstMember second secondMember same => ?_
  obtain ⟨slot, above, nr, levels, starts, small, present, reached⟩ := visit_addr firstMember
  obtain ⟨slot', above', nr', levels', starts', small', -, reached'⟩ := visit_addr secondMember
  obtain ⟨samePlace, samePath⟩ := forest.planted.separate (ino, slot)
    (numberPath vol.super.addrPerBlock above nr) (ino, slot')
      (numberPath vol.super.addrPerBlock above' nr')
    ⟨by rw [length_numberPath]; change above ≤ slotLevel slot; omega, numberPath_lt small⟩
    ⟨by rw [length_numberPath]; change above' ≤ slotLevel slot'; omega, numberPath_lt small'⟩
    (reached.trans (same.trans reached'.symm)) (by
      rw [show follow vol.ptrs (places pointers (ino, slot)) _ = first.block from reached]
      exact present)
  obtain ⟨-, rfl⟩ := Prod.mk.inj samePlace
  have lengths := congrArg List.length samePath
  rw [length_numberPath, length_numberPath] at lengths
  subst lengths
  have level : first.level = second.level := by omega
  obtain rfl := numberPath_injective small small' samePath
  rw [← level] at starts'
  obtain ⟨block, firstLevel, number⟩ := first
  obtain ⟨block', secondLevel, number'⟩ := second
  dsimp only at same level starts starts'
  subst same level starts starts'
  rfl

/-- The blocks of a file in a forest are a well-formed block tree. -/
theorem Forest.blockTree (forest : Forest vol (places pointers))
    (numbered : ∀ block < capacity vol.super.addrPerBlock, vol.mapped (pointers ino) block ≠ 0 →
      block < 2 ^ 31) : BlockTree vol (pointers ino) := by
  refine ⟨forest.treesApart ino, fun visit member isData => ?_⟩
  obtain ⟨block, level, number⟩ := visit
  dsimp only at isData
  subst isData
  obtain ⟨small, present, found⟩ := mem_inodeVisits_data.mp member
  exact numbered number small (by rwa [found])

end Visits

end Volume

section Shrinking

open Volume

variable {vol vol' : Volume} {pointers : Nat → Nat → Nat} {ino : Nat}

/-- What becomes of a volume when some of the blocks of one file are released: no other block is
written to, and what pointed to a block that is gone is cleared. -/
structure Sheds (vol vol' : Volume) (pointers : Nat → Nat → Nat) (ino : Nat) (iBlock' : Nat → Nat)
    (released : List Nat) : Prop where
  super : vol'.super = vol.super
  among : ∀ blk ∈ released, ∃ visit ∈ vol.inodeVisits (pointers ino), visit.block = blk
  outside : ∀ blk, (∀ visit ∈ vol.inodeVisits (pointers ino), visit.block ≠ blk) →
    vol'.io blk = vol.io blk
  blockMap : ∀ blk, vol'.blockMap blk =
    (vol.blockMap blk && !(vol.inRange blk && decide (blk ∈ released)))
  roots : ∀ slot : Fin EXT2_N_BLOCKS,
    iBlock' slot = 0 ∨ iBlock' slot = pointers ino slot ∧ pointers ino slot ∉ released
  inner : ∀ visit ∈ vol.inodeVisits (pointers ino), 0 < visit.level → visit.block ∉ released →
    ∀ index < vol.super.addrPerBlock, vol'.ptrs visit.block index =
      if vol.ptrs visit.block index ∈ released then 0 else vol.ptrs visit.block index
  tidy : vol.Tidy → vol'.Tidy

section Sheds

variable {iBlock' : Nat → Nat} {released : List Nat}

/-- A block of another file is none of those the file has. -/
theorem Volume.Forest.label_apart (forest : Forest vol (places pointers)) {place : Place Nat}
    {path : List Nat}
    (other : place.1 ≠ ino) (addr : vol.Addr place path)
    (present : vol.label (places pointers) place path ≠ 0) :
    ∀ visit ∈ vol.inodeVisits (pointers ino), visit.block ≠ vol.label
      (places pointers) place path := by
  intro visit member same
  obtain ⟨slot, path', addr', reached⟩ := label_of_visit member
  obtain ⟨rfl, -⟩ := forest.planted.separate place path (ino, slot) path' addr addr'
    (same.symm.trans reached.symm) present
  exact other rfl

/-- Nor is it one of those that are gone. -/
theorem Sheds.kept (sheds : Sheds vol vol' pointers ino iBlock' released)
    (forest : Forest vol (places pointers))
    {place : Place Nat} {path : List Nat} (other : place.1 ≠ ino) (addr : vol.Addr place path) :
    vol.label (places pointers) place path ∉ released := by
  intro member
  obtain ⟨visit, inTree, same⟩ := sheds.among _ member
  refine forest.label_apart other addr ?_ visit inTree same
  rw [← same]
  exact entryVisits_block_ne_zero inTree

/-- The pointers within the other files' trees stay. -/
theorem Sheds.ptrs (sheds : Sheds vol vol' pointers ino iBlock' released)
    (forest : Forest vol (places pointers))
    {place : Place Nat} {path : List Nat} (other : place.1 ≠ ino) (addr : vol.Addr place path)
    (present : vol.label (places pointers) place path ≠ 0) (index : Nat) :
    vol'.ptrs (vol.label (places pointers) place path) index =
      vol.ptrs (vol.label (places pointers) place path) index := by
  rw [Volume.ptrs, sheds.outside _ (forest.label_apart other addr present), Volume.ptrs]

/-- The other files have the blocks they had. -/
theorem Sheds.label (sheds : Sheds vol vol' pointers ino iBlock' released)
    (forest : Forest vol (places pointers))
    {place : Place Nat} {path : List Nat} (other : place.1 ≠ ino) (addr : vol.Addr place path) :
    vol'.label (places (Function.update pointers ino iBlock')) place path =
      vol.label (places pointers) place path := by
  rw [Volume.label, places, Function.update_of_ne other]
  exact @Planted.follow_congr _ (treeShape Nat vol.super.addrPerBlock) vol.ptrs vol'.ptrs
    (places pointers)
    place path (fun path' addr' _ present index _ => sheds.ptrs forest other addr'
      present index) addr

/-- An address has lost its block or has the block it had, which is not gone. -/
theorem Sheds.left (sheds : Sheds vol vol' pointers ino iBlock' released)
    (forest : Forest vol (places pointers))
    (place : Place Nat) (path : List Nat)
    (addr : (treeShape Nat vol.super.addrPerBlock).Addr place path) :
    follow vol'.ptrs (places (Function.update pointers ino iBlock') place) path = 0 ∨
      follow vol'.ptrs (places (Function.update pointers ino iBlock') place) path =
          follow vol.ptrs (places pointers place) path ∧
        ¬ follow vol.ptrs (places pointers place) path ∈ released := by
  refine Planted.follow_pruned ?_ ?_ addr
  · rintro ⟨owner, slot⟩
    by_cases own : owner = ino
    · subst own
      change Function.update pointers owner iBlock' owner slot = 0 ∨
        Function.update pointers owner iBlock' owner slot = pointers owner slot ∧ _
      rw [Function.update_self]
      exact sheds.roots slot
    · refine .inr ⟨?_, sheds.kept forest own Shape.Addr.nil⟩
      rw [places, places, Function.update_of_ne own]
  · rintro ⟨owner, slot⟩ path addr inner present kept index small
    have longer : vol.label (places pointers) (owner, slot) (path ++ [index]) =
        vol.ptrs (follow vol.ptrs (places pointers (owner, slot)) path) index := by
      rw [Volume.label, follow_snoc, hop, if_neg present]
    by_cases own : owner = ino
    · subst own
      obtain ⟨visit, inTree, reached, level⟩ := exists_visit_of_addr addr present
      change visit.block = follow vol.ptrs (places pointers (owner, slot)) path at reached
      have innerVisit : 0 < visit.level := by
        change path.length < slotLevel slot at inner
        omega
      rw [← reached] at kept ⊢
      rw [sheds.inner visit inTree innerVisit kept index small]
      split
      · exact .inl rfl
      · exact .inr ⟨rfl, ‹_›⟩
    · refine .inr ⟨sheds.ptrs forest own addr present index, ?_⟩
      rw [← longer]
      exact sheds.kept forest own (Shape.Addr.snoc addr inner small)

/-- Releasing blocks of one file spares the others. -/
theorem Sheds.spares (sheds : Sheds vol vol' pointers ino iBlock' released)
    (forest : Forest vol (places pointers)) :
    Spares ino vol vol' pointers (Function.update pointers ino iBlock') := by
  have unlabelled : 0 ∉ released := by
    intro member
    obtain ⟨visit, inTree, zero⟩ := sheds.among 0 member
    exact entryVisits_block_ne_zero inTree zero
  have sameMapped : ∀ other block, other ≠ ino → block < capacity vol.super.addrPerBlock →
      vol'.mapped (Function.update pointers ino iBlock' other) block =
        vol.mapped (pointers other) block := by
    intro other block different small
    obtain ⟨slot, path, found, -, addr, label⟩ := mapped_label vol small
    rw [label pointers other, ← sheds.label forest different (addr other), mapped,
      sheds.super, found]
    rfl
  refine ⟨sheds.super, ⟨⟨?_, ?_, fun first => ?_⟩, ?_⟩,
    fun other different => Function.update_of_ne different _ _,
    sameMapped, fun other block different small => ?_, sheds.tidy⟩
  · rw [sheds.super]
    exact forest.sound.firstData
  · rw [sheds.super]
    exact forest.sound.count
  · rw [sheds.super] at first
    rw [sheds.blockMap, forest.sound.reserved first]
    simp [unlabelled]
  · rw [sheds.super]
    refine forest.planted.pruned (sheds.left forest) fun blk inUse kept => ⟨?_, ?_⟩
    · rw [inRange_congr sheds.super]
      exact inUse.1
    · rw [sheds.blockMap, inUse.2]
      simp [kept]
  · obtain ⟨slot, path, found, -, addr, label⟩ := mapped_label vol small
    rw [blockOf, blockOf, sameMapped other block different small]
    split
    · rfl
    · rename_i present
      rw [label pointers other] at present ⊢
      exact sheds.outside _ (forest.label_apart different (addr other) present)

end Sheds

/-- What shortening a file does to the forest: the other files are spared. -/
theorem Shortened.spares {iBlock' : Nat → Nat} {last : Int} {released : List Nat}
    (forest : Forest vol (places pointers))
    (shortened : Shortened vol vol' (pointers ino) iBlock' last released) :
    Spares ino vol vol' pointers (Function.update pointers ino iBlock') := by
  have sheds : Sheds vol vol' pointers ino iBlock' released := by
    refine ⟨shortened.super,
      fun blk member => ?_, shortened.walked.outside, shortened.walked.blockMap,
      fun slot => ?_, shortened.walked.inner, shortened.walked.tidy
        fun visit member => forest.visit_inUse member⟩
    · rw [shortened.record] at member
      exact List.mem_map.mp (lost_subset _ _ _ member)
    · rw [shortened.blocks slot slot.isLt]
      split
      · exact .inl rfl
      · exact .inr ⟨rfl, ‹_›⟩
  exact sheds.spares forest

/-- The blocks that are kept hold what they held. -/
theorem Shortened.blockOf_eq {iBlock iBlock' : Nat → Nat} {length : Nat} {released : List Nat}
    (tree : BlockTree vol iBlock)
    (shortened : Shortened vol vol' iBlock iBlock' (lastBlock vol.super.blocksize length) released)
    {block : Nat} (small : block < capacity vol.super.addrPerBlock)
    (kept : block * vol.super.blocksize < length) :
    vol'.blockOf iBlock' block = vol.blockOf iBlock block := by
  have mapped := shortened.mapped_eq tree small
  rw [if_pos kept] at mapped
  rw [blockOf, blockOf, mapped]
  split
  · rfl
  · rename_i present
    refine shortened.walked.data _ (mem_inodeVisits_data.mpr ⟨small, present, rfl⟩) rfl
      fun released => ?_
    have beyond := (shortened.mapped_released tree small present).mp released
    omega

end Shrinking

end Ext2Fuse
