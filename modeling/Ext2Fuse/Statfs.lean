import Mathlib.Algebra.BigOperators.Intervals
import Mathlib.Algebra.BigOperators.Ring.Finset
import Mathlib.Algebra.Order.BigOperators.Group.Finset
import Mathlib.Data.Nat.Log
import Mathlib.Tactic.Ring
import Ext2Fuse.Filesystem

/-!
# Opening a volume and `statfs`

What `ext2fs_open2` checks of a superblock, the blocks `ext2fs_super_and_bgd_loc` leaves to each
group, and the counts `do_statvfs` reports.
-/

namespace Ext2Fuse

/-- `ext2fs_div_ceil`. -/
def ext2fsDivCeil (a b : Nat) : Nat := if a = 0 then 0 else (a - 1) / b + 1

namespace Closefs

/-- The loop of `test_root` in `closefs.c`: divide until 1 is left. -/
def testRootLoop (b : Nat) : Nat → Nat → Bool
  | 0, _ => false
  | fuel + 1, a => if a = 1 then true else if a % b ≠ 0 then false else testRootLoop b fuel (a / b)

/-- `test_root` in `closefs.c`. -/
def testRoot (a b : Nat) : Bool := if a = 0 then true else testRootLoop b a a

end Closefs

/-- The fields of `ext2_filsys` that `ext2fs_open2` computes from the superblock. -/
structure Filsys where
  blocksize : Nat
  groupDescCount : Nat
  descBlocks : Nat
  inodeBlocksPerGroup : Nat

def EXT2_SUPER_MAGIC : UInt16 := 0xEF53
def EXT2_FEATURE_RO_COMPAT_LARGE_FILE : UInt32 := 0x0002
def EXT2_FEATURE_INCOMPAT_FILETYPE : UInt32 := 0x0002
def EXT3_FEATURE_INCOMPAT_RECOVER : UInt32 := 0x0004
def EXT3_FEATURE_INCOMPAT_JOURNAL_DEV : UInt32 := 0x0008
def EXT2_FEATURE_INCOMPAT_META_BG : UInt32 := 0x0010

def EXT2_ET_BAD_MAGIC : Errcode := 2133571347
def EXT2_ET_REV_TOO_HIGH : Errcode := 2133571348
def EXT2_ET_CORRUPT_SUPERBLOCK : Errcode := 2133571388
def EXT2_ET_UNSUPP_FEATURE : Errcode := 2133571395
def EXT2_ET_RO_UNSUPP_FEATURE : Errcode := 2133571396

namespace SuperBlock

variable (sb : SuperBlock)

/-- The volume is an external journal. -/
def journalDev : Bool := sb.sFeatureIncompat &&& EXT3_FEATURE_INCOMPAT_JOURNAL_DEV != 0

/-- The group descriptors are spread over the volume. -/
def metaBg : Bool := sb.sFeatureIncompat &&& EXT2_FEATURE_INCOMPAT_META_BG != 0

/-- The fields `ext2fs_open2` computes; a journal has no groups. -/
def filsys : Filsys :=
  let blocksize := (sb.ext2BlockSize % 2 ^ 32).toNat
  let inodeBlocksPerGroup :=
    ((sb.sInodesPerGroup.toNat * sb.ext2InodeSize + blocksize + (2 ^ 32 - 1)) % 2 ^ 32) / blocksize
  if sb.journalDev then
    { blocksize, groupDescCount := 0, descBlocks := 0, inodeBlocksPerGroup }
  else
    let groupDescCount :=
      ext2fsDivCeil (sb.sBlocksCount - sb.sFirstDataBlock).toNat sb.sBlocksPerGroup.toNat
    { blocksize, groupDescCount
      descBlocks := ext2fsDivCeil groupDescCount sb.ext2DescPerBlock
      inodeBlocksPerGroup }

/-- `ext2fs_open2` with the flags `EXT2_FLAG_RW | EXT2_FLAG_JOURNAL_DEV_OK`, when the device can be
read and there is memory for the descriptors. -/
def ext2fsOpen2 : Option (Except Errcode Filsys) :=
  if sb.sMagic ≠ EXT2_SUPER_MAGIC then some (.error EXT2_ET_BAD_MAGIC)
  else if sb.sRevLevel > 1 then some (.error EXT2_ET_REV_TOO_HIGH)
  else if sb.sFeatureIncompat &&& ~~~(EXT2_FEATURE_INCOMPAT_FILETYPE |||
      EXT3_FEATURE_INCOMPAT_JOURNAL_DEV ||| EXT2_FEATURE_INCOMPAT_META_BG |||
      EXT3_FEATURE_INCOMPAT_RECOVER) ≠ 0 then some (.error EXT2_ET_UNSUPP_FEATURE)
  else if sb.sFeatureRoCompat &&& ~~~(EXT2_FEATURE_RO_COMPAT_SPARSE_SUPER |||
      EXT2_FEATURE_RO_COMPAT_LARGE_FILE) ≠ 0 then some (.error EXT2_ET_RO_UNSUPP_FEATURE)
  else if sb.ext2BlockSize = 0 then some (.error EXT2_ET_CORRUPT_SUPERBLOCK)
  else if sb.journalDev then some (.ok sb.filsys)
  else
    let blocksPerGroup := sb.sBlocksPerGroup.toInt32.toInt
    if blocksPerGroup = 0 ∨ blocksPerGroup > 2 ^ 16 - 8 then
      some (.error EXT2_ET_CORRUPT_SUPERBLOCK)
    else do
      let inodesPerBlock ← sb.ext2InodesPerBlock
      if (sb.filsys.inodeBlocksPerGroup : Int) > 2 ^ 16 - inodesPerBlock then
        return .error EXT2_ET_CORRUPT_SUPERBLOCK
      return .ok sb.filsys

/-- `ext2fs_bg_has_super`. -/
def ext2fsBgHasSuper (group : Nat) : Bool :=
  !sb.sparse || Closefs.testRoot group 3 || Closefs.testRoot group 5 || Closefs.testRoot group 7

/-- The blocks `ext2fs_super_and_bgd_loc` returns: those left of a group after the copy of the
superblock, the descriptors, the bitmaps and the inode table. -/
def ext2fsSuperAndBgdLoc (group : Nat) : Int :=
  let fs := sb.filsys
  let oldDescBlocks :=
    if sb.metaBg then sb.sFirstMetaBg.toNat else fs.descBlocks + sb.sReservedGdtBlocks.toNat
  let numblocks : Int :=
    if group + 1 = fs.groupDescCount then
      let rest := (sb.sBlocksCount - sb.sFirstDataBlock).toNat % sb.sBlocksPerGroup.toNat
      if rest = 0 then sb.sBlocksPerGroup.toNat else rest
    else sb.sBlocksPerGroup.toNat
  let hasSuper := sb.ext2fsBgHasSuper group
  let numblocks := if hasSuper then numblocks - 1 else numblocks
  let metaBgSize := fs.blocksize / 32
  let numblocks :=
    if !sb.metaBg || decide (group / metaBgSize < sb.sFirstMetaBg.toNat) then
      if hasSuper then numblocks - oldDescBlocks else numblocks
    else if group % metaBgSize = 0 ∨ group % metaBgSize = 1 ∨
        group % metaBgSize + 1 = metaBgSize then
      numblocks - 1
    else numblocks
  Fs.toInt32 (numblocks - (2 + fs.inodeBlocksPerGroup))

/-- A volume of 64 blocks in one group with 16 inodes. -/
def oneGroup : SuperBlock where
  sInodesCount := 16
  sBlocksCount := 64
  sFreeBlocksCount := 44
  sFirstDataBlock := 1
  sBlocksPerGroup := 8192
  sInodesPerGroup := 16
  sMagic := EXT2_SUPER_MAGIC

/-- The same with another number of inodes in a group. -/
def withInodes (sb : SuperBlock) (inodes : UInt32) : SuperBlock :=
    { sb with sInodesPerGroup := inodes }

/-- A sparse volume of six groups, the last one of 500 blocks. -/
def sixGroups : SuperBlock where
  sInodesCount := 12288
  sBlocksCount := 41461
  sRBlocksCount := 2073
  sFreeBlocksCount := 39000
  sFirstDataBlock := 1
  sBlocksPerGroup := 8192
  sInodesPerGroup := 2048
  sMagic := EXT2_SUPER_MAGIC
  sFeatureRoCompat := EXT2_FEATURE_RO_COMPAT_SPARSE_SUPER

/-- A journal whose groups have no blocks. -/
def journal : SuperBlock :=
  { oneGroup with sBlocksPerGroup := 0, sFeatureIncompat := EXT3_FEATURE_INCOMPAT_JOURNAL_DEV }

/-- The superblock is accepted. -/
def accepted (sb : SuperBlock) : Bool :=
  match sb.ext2fsOpen2 with
  | some (.ok _) => true
  | _ => false

end SuperBlock

section Roots

variable {a b : Nat}

/-- The multiplying loop stops at the first power that is not below `a`. -/
theorem testRootLoop_reaches (base : 0 < b) (steps : Nat) : ∀ fuel num, steps < fuel →
    a ≤ num * b ^ steps → (steps ≠ 0 → num * b ^ (steps - 1) < a) → num * b ^ steps < 2 ^ 31 →
      testRootLoop a b fuel num = some (num * b ^ steps) := by
  induction steps with
  | zero =>
      rintro (_ | fuel) num enough reached - -
      · omega
      · rw [pow_zero, mul_one] at reached ⊢
        rw [testRootLoop, if_neg (by omega)]
  | succ steps inductionHypothesis =>
      rintro (_ | fuel) num enough reached before fits
      · omega
      have below : num < a := lt_of_le_of_lt (Nat.le_mul_of_pos_right _ (Nat.pow_pos base))
        (before (by omega))
      have shifted : num * b ^ (steps + 1) = num * b * b ^ steps := by ring
      rw [shifted] at reached fits ⊢
      have small : num * b < 2 ^ 31 :=
        lt_of_le_of_lt (Nat.le_mul_of_pos_right _ (Nat.pow_pos base)) fits
      rw [testRootLoop, if_pos below, if_pos small]
      refine inductionHypothesis fuel _ (by omega) reached (fun some => ?_) fits
      have same : num * b * b ^ (steps - 1) = num * b ^ (steps + 1 - 1) := by
        obtain ⟨rest, rfl⟩ := Nat.exists_eq_succ_of_ne_zero some
        simp only [Nat.succ_eq_add_one, Nat.add_sub_cancel]
        ring
      rw [same]
      exact before (by omega)

/-- It overflows when all powers in the range of `int` are below `a`. -/
theorem testRootLoop_overflows : ∀ fuel num, num < 2 ^ 31 →
    (∀ steps, num * b ^ steps < 2 ^ 31 → num * b ^ steps < a) → testRootLoop a b fuel num = none
  | 0, _, _, _ => rfl
  | fuel + 1, num, small, below => by
      have first := below 0
      rw [pow_zero, mul_one] at first
      rw [testRootLoop, if_pos (first small)]
      split
      · rename_i fits
        refine testRootLoop_overflows fuel _ fits fun steps => ?_
        have same : num * b * b ^ steps = num * b ^ (steps + 1) := by ring
        rw [same]
        exact below (steps + 1)
      · rfl

/-- `test_root` compares with the first power that is not below `a`. -/
theorem testRoot_eq (base : 1 < b) (small : b < 2 ^ 31) (big : 1 < a) :
    testRoot a b = if b ^ Nat.clog b a < 2 ^ 31 then some (b ^ Nat.clog b a == a) else none := by
  have positive : 0 < Nat.clog b a := Nat.clog_pos base big
  have split : b * b ^ (Nat.clog b a - 1) = b ^ Nat.clog b a := by
    rw [← pow_succ', Nat.sub_add_cancel positive]
  rw [testRoot]
  by_cases fits : b ^ Nat.clog b a < 2 ^ 31
  · have few : Nat.clog b a < 31 := by
      have grows : 2 ^ Nat.clog b a ≤ b ^ Nat.clog b a := Nat.pow_le_pow_left base _
      exact (Nat.pow_lt_pow_iff_right (by decide)).mp (lt_of_le_of_lt grows fits)
    have reached := @testRootLoop_reaches a b (by omega) (Nat.clog b a - 1) 31 b (by omega)
      (by rw [split]; exact Nat.le_pow_clog base a) ?_ (by rw [split]; exact fits)
    · rw [if_pos fits, reached, split]
      rfl
    · intro more
      have same : b * b ^ (Nat.clog b a - 1 - 1) = b ^ (Nat.clog b a).pred := by
        rw [← pow_succ', Nat.pred_eq_sub_one, Nat.sub_add_cancel (by omega)]
      rw [same]
      exact Nat.pow_pred_clog_lt_self base big
  · have overflows := @testRootLoop_overflows a b 31 b small fun steps inRange => ?_
    · rw [if_neg fits, overflows]
      rfl
    · rw [← pow_succ'] at inRange ⊢
      by_contra reached
      exact fits (lt_of_le_of_lt
        (Nat.pow_le_pow_right (by omega)
          ((Nat.clog_le_iff_le_pow base).mpr (not_lt.mp reached))) inRange)

/-- The dividing loop recognises the powers. -/
theorem Closefs.testRootLoop_eq (base : 1 < b) : ∀ fuel a, 0 < a → a ≤ fuel →
    Closefs.testRootLoop b fuel a = (b ^ Nat.clog b a == a)
  | 0, _, positive, enough => by omega
  | fuel + 1, a, positive, enough => by
      rw [Closefs.testRootLoop]
      by_cases one : a = 1
      · simp [one]
      rw [if_neg one]
      have isPower : ∀ c, (b ^ Nat.clog b c == c) = true ↔ ∃ exponent, c = b ^ exponent := by
        intro c
        rw [beq_iff_eq]
        refine ⟨fun same => ⟨_, same.symm⟩, ?_⟩
        rintro ⟨exponent, rfl⟩
        rw [Nat.clog_pow _ _ base]
      rw [Bool.eq_iff_iff, isPower]
      by_cases divides : a % b = 0
      · obtain ⟨rest, rfl⟩ := Nat.dvd_of_mod_eq_zero divides
        have restPositive : 0 < rest := Nat.pos_of_mul_pos_left positive
        have smaller : rest < b * rest := (Nat.lt_mul_iff_one_lt_left restPositive).mpr base
        rw [if_neg (not_not.mpr divides), Nat.mul_div_cancel_left _ (by omega),
          Closefs.testRootLoop_eq base fuel rest restPositive (by omega), isPower]
        constructor
        · rintro ⟨exponent, rfl⟩
          exact ⟨exponent + 1, (pow_succ' _ _).symm⟩
        · rintro ⟨_ | exponent, same⟩
          · rw [pow_zero] at same
            exact absurd same one
          · rw [pow_succ'] at same
            exact ⟨exponent, Nat.eq_of_mul_eq_mul_left (by omega) same⟩
      · rw [if_pos divides]
        refine iff_of_false (by simp) ?_
        rintro ⟨_ | exponent, rfl⟩
        · exact one (pow_zero _)
        · exact divides (by rw [pow_succ', Nat.mul_mod_right])

/-- The library's test by multiplication tells whether the number is a power. -/
theorem Closefs.testRoot_eq (base : 1 < b) (positive : 0 < a) :
    Closefs.testRoot a b = (b ^ Nat.clog b a == a) := by
  rw [Closefs.testRoot, if_neg (by omega), Closefs.testRootLoop_eq base a a positive le_rfl]

end Roots

section Groups

/-- Up to 3^19 no power of 3, 5 or 7 that `test_root` reaches leaves the range of `int`. -/
theorem pow_clog_lt {group b top : Nat} (base : 1 < b) (below : group ≤ b ^ top)
    (fits : b ^ top < 2 ^ 31) :
    b ^ Nat.clog b group < 2 ^ 31 :=
  lt_of_le_of_lt (Nat.pow_le_pow_right (by omega) ((Nat.clog_le_iff_le_pow base).mpr below)) fits

/-- The multiplying loop ends for every group of a volume with at least 8 blocks per group. -/
theorem testRoot_isSome {group : Nat} (base : Nat) (bases : base = 3 ∨ base = 5 ∨ base = 7)
    (below : group < 2 ^ 29) :
    (testRoot group base).isSome = true := by
  by_cases big : 1 < group
  · have fits : 1 < base ∧ base < 2 ^ 31 ∧ base ^ Nat.clog base group < 2 ^ 31 := by
      rcases bases with rfl | rfl | rfl
      · exact ⟨by decide, by decide, @pow_clog_lt group 3 19 (by decide) (by omega) (by decide)⟩
      · exact ⟨by decide, by decide, @pow_clog_lt group 5 13 (by decide) (by omega) (by decide)⟩
      · exact ⟨by decide, by decide, @pow_clog_lt group 7 11 (by decide) (by omega) (by decide)⟩
    rw [testRoot_eq fits.1 fits.2.1 big, if_pos fits.2.2]
    rfl
  · rw [testRoot, testRootLoop, if_neg (by omega)]
    rfl

/-- The dividing loop accepts the positive powers, of the groups from 2 on. -/
theorem Closefs.testRoot_iff {group base : Nat} (large : 1 < base) (big : 1 < group) :
    Closefs.testRoot group base = true ↔ ∃ exponent, 0 < exponent ∧ group = base ^ exponent := by
  rw [Closefs.testRoot_eq large (by omega), beq_iff_eq]
  constructor
  · exact fun same => ⟨_, Nat.clog_pos large big, same.symm⟩
  · rintro ⟨exponent, -, rfl⟩
    rw [Nat.clog_pow _ _ large]

/-- The two tests for a copy of the superblock agree as long as the first has a value. -/
theorem ext2GroupSparse_eq {group : Nat} (below : group ≤ 3 ^ 19) :
    ext2GroupSparse group =
      some (Closefs.testRoot group 3 || Closefs.testRoot group 5 || Closefs.testRoot group 7) := by
  rw [ext2GroupSparse]
  by_cases small : group ≤ 1
  · rw [if_pos small]
    obtain rfl | rfl : group = 0 ∨ group = 1 := by omega
    · rfl
    · rfl
  · rw [if_neg small]
    have three : testRoot group 3 = some (Closefs.testRoot group 3) := by
      rw [testRoot_eq (by decide) (by decide) (by omega),
        if_pos (pow_clog_lt (by decide) below (by decide)),
          Closefs.testRoot_eq (by decide) (by omega)]
    have five : testRoot group 5 = some (Closefs.testRoot group 5) := by
      have fits : group ≤ 5 ^ 13 := le_trans below (by decide)
      rw [testRoot_eq (by decide) (by decide) (by omega),
        if_pos (pow_clog_lt (by decide) fits (by decide)),
          Closefs.testRoot_eq (by decide) (by omega)]
    have seven : testRoot group 7 = some (Closefs.testRoot group 7) := by
      have fits : group ≤ 7 ^ 11 := le_trans below (by decide)
      rw [testRoot_eq (by decide) (by decide) (by omega),
        if_pos (pow_clog_lt (by decide) fits (by decide)),
          Closefs.testRoot_eq (by decide) (by omega)]
    rw [three, five, seven]
    cases Closefs.testRoot group 3 <;> cases Closefs.testRoot group 5 <;> rfl

/-- Above the last power of three that fits an int the program's test overflows. -/
theorem ext2GroupSparse_overflows {group : Nat} (above : 3 ^ 19 < group) :
    ext2GroupSparse group = none := by
  have three : testRoot group 3 = none := by
    rw [testRoot_eq (by decide) (by decide) (by omega), if_neg]
    have more : 3 ^ 20 ≤ 3 ^ Nat.clog 3 group :=
      Nat.pow_le_pow_right (by decide) ((Nat.lt_clog_iff_pow_lt (by decide)).mpr above)
    omega
  rw [ext2GroupSparse, if_neg (by omega), three]
  rfl

namespace SuperBlock

variable (sb : SuperBlock)

/-- How many of the first groups have a copy of the superblock. -/
def supers (groups : Nat) : Nat :=
  ((Finset.range groups).filter fun group => sb.ext2fsBgHasSuper group = true).card

/-- One more group has a superblock copy or has none. -/
theorem supers_succ (groups : Nat) : sb.supers (groups + 1) =
    sb.supers groups + if sb.ext2fsBgHasSuper groups then 1 else 0 := by
  rw [supers, supers, Finset.range_add_one, Finset.filter_insert]
  split
  · rw [Finset.card_insert_of_notMem (by simp)]
  · rfl

/-- No group has more than one copy. -/
theorem supers_le (groups : Nat) : sb.supers groups ≤ groups := by
  have few := Finset.card_filter_le (Finset.range groups)
    fun group => sb.ext2fsBgHasSuper group = true
  rwa [Finset.card_range] at few

/-- Below the overflow both tests for a copy agree. -/
theorem ext2BgHasSuper_eq {group : Nat} (below : sb.sparse = true → group ≤ 3 ^ 19) :
    sb.ext2BgHasSuper group = some (sb.ext2fsBgHasSuper group) := by
  rw [ext2BgHasSuper, ext2fsBgHasSuper]
  cases isSparse : sb.sparse with
  | false => rfl
  | true => simpa using ext2GroupSparse_eq (below isSparse)

/-- **The two tests for a copy of the superblock agree on every group of a volume with at least 8
blocks per group.** The multiplying loops end within the range of `int`, for each base and every
group, and the sparse groups are 0, 1 and the powers of 3, 5 and 7. -/
theorem groupTests_agree {group : Nat} (below : group < 2 ^ 29) :
    (∀ base, base = 3 ∨ base = 5 ∨ base = 7 → (testRoot group base).isSome = true) ∧
    (ext2GroupSparse group = some true ↔ group = 0 ∨ group = 1 ∨
      ∃ base exponent, (base = 3 ∨ base = 5 ∨ base = 7) ∧ 0 < exponent ∧ group = base ^ exponent) ∧
    sb.ext2BgHasSuper group = some (sb.ext2fsBgHasSuper group) := by
  have inRange : group ≤ 3 ^ 19 := by omega
  refine ⟨fun base bases => testRoot_isSome base bases below, ?_, sb.ext2BgHasSuper_eq
    fun _ => inRange⟩
  rw [ext2GroupSparse_eq inRange, Option.some_inj, Bool.or_eq_true, Bool.or_eq_true]
  by_cases small : group ≤ 1
  · obtain rfl | rfl : group = 0 ∨ group = 1 := by omega
    · exact iff_of_true (.inl (.inl rfl)) (.inl rfl)
    · exact iff_of_true (.inl (.inl rfl)) (.inr (.inl rfl))
  · have roots : ∀ base, 1 < base → (Closefs.testRoot group base = true ↔
        ∃ exponent, 0 < exponent ∧ group = base ^ exponent) :=
      fun base large => Closefs.testRoot_iff large (by omega)
    rw [roots 3 (by decide), roots 5 (by decide), roots 7 (by decide)]
    constructor
    · rintro ((⟨exponent, powers⟩ | ⟨exponent, powers⟩) | ⟨exponent, powers⟩)
      · exact .inr (.inr ⟨3, exponent, .inl rfl, powers⟩)
      · exact .inr (.inr ⟨5, exponent, .inr (.inl rfl), powers⟩)
      · exact .inr (.inr ⟨7, exponent, .inr (.inr rfl), powers⟩)
    · rintro (rfl | rfl | ⟨base, exponent, rfl | rfl | rfl, powers⟩)
      · omega
      · omega
      · exact .inl (.inl ⟨exponent, powers⟩)
      · exact .inl (.inr ⟨exponent, powers⟩)
      · exact .inr ⟨exponent, powers⟩

/-- The largest power of 3 among these groups. -/
theorem groupTests_agree_eighteen :
    (testRoot (3 ^ 18) 3).isSome = true ∧ ext2GroupSparse (3 ^ 18) = some true :=
  let agree := ({} : SuperBlock).groupTests_agree (show 3 ^ 18 < 2 ^ 29 by decide)
  ⟨agree.1 3 (.inl rfl), agree.2.1.mpr (.inr (.inr ⟨3, 18, .inl rfl, by decide, rfl⟩))⟩

/-- The loop counts the copies, unless a test or the index leaves the range of `int`. -/
theorem overheadLoop_eq (dbCount groups : Nat) : sb.overheadLoop dbCount groups =
    if (sb.sparse = true → groups ≤ 3 ^ 19 + 1) ∧ groups < 2 ^ 31 then
      some ((sb.sFirstDataBlock.toNat + sb.supers groups * (1 + dbCount)) % 2 ^ 64)
    else none := by
  induction groups with
  | zero =>
      have small := sb.sFirstDataBlock.toNat_lt
      rw [overheadLoop, if_pos ⟨fun _ => by omega, by omega⟩, supers]
      simp only [Finset.range_zero, Finset.filter_empty, Finset.card_empty, zero_mul, add_zero]
      rw [Nat.mod_eq_of_lt (by omega)]
  | succ groups inductionHypothesis =>
      rw [overheadLoop, inductionHypothesis]
      by_cases before : (sb.sparse = true → groups ≤ 3 ^ 19 + 1) ∧ groups < 2 ^ 31
      swap
      · rw [if_neg before, if_neg]
        · rfl
        · rintro ⟨roots, index⟩
          exact before ⟨fun isSparse => by have := roots isSparse; omega, by omega⟩
      rw [if_pos before]
      by_cases roots : sb.sparse = true → groups + 1 ≤ 3 ^ 19 + 1
      swap
      · rw [if_neg fun both => roots both.1]
        push Not at roots
        obtain ⟨isSparse, above⟩ := roots
        rw [ext2BgHasSuper, if_pos isSparse, ext2GroupSparse_overflows (by omega)]
        rfl
      rw [sb.ext2BgHasSuper_eq fun isSparse => by have := roots isSparse; omega]
      by_cases index : 2 ^ 31 ≤ groups + 1
      · rw [if_neg fun both => absurd both.2 (by omega)]
        exact if_pos index
      · rw [if_pos ⟨roots, by omega⟩, supers_succ]
        change (if 2 ^ 31 ≤ groups + 1 then none else some _) = _
        rw [if_neg index]
        split
        · rw [Nat.mod_add_mod, add_mul, one_mul, add_assoc]
        · rw [add_zero]

end SuperBlock

end Groups

section BlockSize

namespace SuperBlock

variable (sb : SuperBlock)

/-- The shift as the machine does it, by the exponent's lowest five bits. -/
theorem ext2BlockSize_eq : sb.ext2BlockSize = if sb.sLogBlockSize.toNat % 32 ≤ 20 then
    1024 * 2 ^ (sb.sLogBlockSize.toNat % 32) else if sb.sLogBlockSize.toNat % 32 =
      21 then -2 ^ 31 else 0 := by
  have values : ∀ count < 32, ((1024 : UInt32) <<< UInt32.ofNat count).toInt32.toInt =
      if count ≤ 20 then (1024 * 2 ^ count : Int) else if count = 21 then -2 ^ 31 else 0 := by
    decide
  have same : (1024 : UInt32) <<< sb.sLogBlockSize =
      1024 <<< UInt32.ofNat (sb.sLogBlockSize.toNat % 32) := by
    rw [← UInt32.toNat_inj, UInt32.toNat_shiftLeft, UInt32.toNat_shiftLeft, UInt32.toNat_ofNat']
    congr 2
    omega
  rw [ext2BlockSize, same]
  exact values _ (Nat.mod_lt _ (by decide))

end SuperBlock

end BlockSize

section Safety

namespace SuperBlock

variable (sb : SuperBlock)

/-- The groups of the volume. -/
def groups : Nat :=
  (sb.sBlocksCount.toNat - sb.sFirstDataBlock.toNat - 1) / sb.sBlocksPerGroup.toNat + 1

/-- The blocks that hold no data: those before the first group, the copies of the superblock and of
the descriptors, the bitmaps and the inode tables. -/
def metadata : Nat :=
  let blockSize := sb.ext2BlockSize.toNat
  sb.sFirstDataBlock.toNat +
    sb.supers sb.groups * (1 + (sb.groups + blockSize / 32 - 1) / (blockSize / 32)) +
    sb.groups * (2 + sb.sInodesPerGroup.toNat / (blockSize / sb.ext2InodeSize))

/-- `do_statvfs` divides by nothing that is 0 and no shift, sum, product or difference it computes
leaves the range of its type; and it reports no more blocks than there are. -/
structure StatvfsSafe : Prop where
  blockSize : 1024 * 2 ^ sb.sLogBlockSize.toNat < 2 ^ 31
  inodesPerBlock : ∃ count, sb.ext2InodesPerBlock = some count ∧ count ≠ 0
  descPerBlock : sb.ext2DescPerBlock ≠ 0
  blocksPerGroup : sb.sBlocksPerGroup.toNat ≠ 0
  groups : sb.sFirstDataBlock.toNat + 1 ≤ sb.sBlocksCount.toNat
  overhead : ∃ layout supers, sb.layout = some layout ∧
    sb.overheadLoop layout.dbCount layout.groupsCount = some supers ∧
    sb.sFirstDataBlock.toNat + sb.supers layout.groupsCount * (1 + layout.dbCount) +
      layout.groupsCount * (2 + layout.itbPerGroup) < 2 ^ 64 ∧
    (supers + layout.groupsCount * (2 + layout.itbPerGroup)) % 2 ^ 64 ≤ sb.sBlocksCount.toNat
  reported : ∃ statvfs, sb.doStatvfs = some statvfs ∧ statvfs.fBavail ≤ statvfs.fBfree ∧
    statvfs.fBlocks ≤ sb.sBlocksCount.toNat

/-- The block size is below 2^31, a block has room for an inode, groups have blocks, there is a
block to start with, the groups of a sparse volume are no more than `test_root` can tell, and the
volume has room for its metadata. -/
structure Roomy : Prop where
  blockSize : sb.sLogBlockSize.toNat ≤ 20
  inodeSize : 0 < sb.ext2InodeSize ∧ sb.ext2InodeSize ≤ 1024 * 2 ^ sb.sLogBlockSize.toNat
  blocksPerGroup : 0 < sb.sBlocksPerGroup.toNat
  first : sb.sFirstDataBlock.toNat < sb.sBlocksCount.toNat
  roots : sb.sparse = true → sb.groups ≤ 3 ^ 19 + 1
  room : sb.metadata ≤ sb.sBlocksCount.toNat

/-- A block size that is an `int`. -/
theorem ext2BlockSize_small {count : Nat} (shift : sb.sLogBlockSize.toNat % 32 = count)
    (small : count ≤ 20) :
    sb.ext2BlockSize = (1024 * 2 ^ count : Nat) := by
  rw [ext2BlockSize_eq, shift, if_pos small]
  push_cast
  rfl

variable {sb}

/-- A shift that does not overflow gives a block size between 1024 and 2^30. -/
theorem blockSize_bounds {count : Nat} (small : count ≤ 20) :
    1024 ≤ 1024 * 2 ^ count ∧ 1024 * 2 ^ count ≤ 2 ^ 30 := by
  have low : 1 ≤ 2 ^ count := Nat.one_le_two_pow
  have high : 2 ^ count ≤ 2 ^ 20 := Nat.pow_le_pow_right (by decide) small
  omega

/-- A block holds one descriptor for each 32 bytes. -/
theorem ext2DescPerBlock_eq {blockSize : Nat} (isSize : sb.ext2BlockSize = blockSize)
    (small : blockSize ≤ 2 ^ 30) : sb.ext2DescPerBlock = blockSize / 32 := by
  rw [ext2DescPerBlock, isSize]
  omega

/-- A block holds as many inodes as fit, in signed arithmetic. -/
theorem ext2InodesPerBlock_eq {blockSize : Nat} (isSize : sb.ext2BlockSize = blockSize)
    (inodes : 0 < sb.ext2InodeSize) :
    sb.ext2InodesPerBlock = some ((blockSize / sb.ext2InodeSize : Nat) : Int) := by
  rw [ext2InodesPerBlock, if_neg (by omega), isSize, Int.ofNat_tdiv]

/-- The layout of a volume whose fields can be divided by. -/
theorem layout_eq {blockSize : Nat} (isSize : sb.ext2BlockSize = blockSize)
    (large : 1024 ≤ blockSize) (small : blockSize ≤ 2 ^ 30)
    (inodes : 0 < sb.ext2InodeSize ∧ sb.ext2InodeSize ≤ blockSize)
    (perGroup : 0 < sb.sBlocksPerGroup.toNat)
    (first : sb.sFirstDataBlock.toNat < sb.sBlocksCount.toNat) :
    sb.layout = some ⟨sb.groups, (sb.groups + blockSize / 32 - 1) / (blockSize / 32),
      sb.sInodesPerGroup.toNat / (blockSize / sb.ext2InodeSize)⟩ := by
  have blocksBound := sb.sBlocksCount.toNat_lt
  have difference : (sb.sBlocksCount - sb.sFirstDataBlock - 1).toNat =
      sb.sBlocksCount.toNat - sb.sFirstDataBlock.toNat - 1 := by
    rw [UInt32.toNat_sub, UInt32.toNat_sub]
    simp only [UInt32.toNat_one]
    omega
  have groupsBound : sb.groups ≤ 2 ^ 32 - 1 := by
    have few := Nat.div_le_self (sb.sBlocksCount.toNat - sb.sFirstDataBlock.toNat - 1)
      sb.sBlocksPerGroup.toNat
    simp only [groups]
    omega
  have descs := ext2DescPerBlock_eq isSize small
  have perBlock : 0 < blockSize / sb.ext2InodeSize := Nat.div_pos inodes.2 inodes.1
  have perBlockBound : blockSize / sb.ext2InodeSize ≤ 2 ^ 30 := le_trans (Nat.div_le_self _ _) small
  rw [layout, difference, divide, if_neg (by omega)]
  change (do
    let dbCount ← divide ((sb.groups % 2 ^ 32 + sb.ext2DescPerBlock + (2 ^ 64 - 1)) % 2 ^ 64)
      sb.ext2DescPerBlock
    let inodesPerBlock ← sb.ext2InodesPerBlock
    let itbPerGroup ← divide sb.sInodesPerGroup.toNat (inodesPerBlock % 2 ^ 32).toNat
    return (⟨sb.groups % 2 ^ 32, dbCount, itbPerGroup⟩ : Layout)) = _
  have wrapped : (sb.groups % 2 ^ 32 + blockSize / 32 + (2 ^ 64 - 1)) % 2 ^ 64 =
      sb.groups + blockSize / 32 - 1 := by
    omega
  have plain : ((blockSize / sb.ext2InodeSize : Nat) % 2 ^ 32 : Int).toNat =
    blockSize / sb.ext2InodeSize := by
    omega
  rw [descs, wrapped, ext2InodesPerBlock_eq isSize inodes.1, divide, if_neg (by omega)]
  change (divide sb.sInodesPerGroup.toNat
    ((blockSize / sb.ext2InodeSize : Nat) % 2 ^ 32 : Int).toNat).bind _ = _
  rw [plain, divide, if_neg (by omega), Nat.mod_eq_of_lt (show sb.groups < 2 ^ 32 by omega)]
  rfl

/-- What do_statvfs gives once its divisions and its loop have succeeded. -/
theorem doStatvfs_eq {layout : Layout} {supers : Nat} (isLayout : sb.layout = some layout)
    (isSupers : sb.overheadLoop layout.dbCount layout.groupsCount = some supers) :
    ∃ statvfs, sb.doStatvfs = some statvfs ∧
      statvfs.fBlocks = (sb.sBlocksCount.toNat +
        (2 ^ 64 - (supers + layout.groupsCount * (2 + layout.itbPerGroup)) % 2 ^ 64)) % 2 ^ 64 ∧
      statvfs.fBfree = sb.sFreeBlocksCount.toNat ∧
      statvfs.fBavail = sb.sFreeBlocksCount.toNat - sb.sRBlocksCount.toNat := by
  simp only [doStatvfs, isLayout, isSupers, Option.bind_eq_bind, Option.bind_some, Option.pure_def]
  refine ⟨_, rfl, rfl, rfl, ?_⟩
  dsimp only
  split
  · rfl
  · omega

variable (sb) in
/-- The number of groups as `do_statvfs` computes it. -/
def groupsCount : Nat :=
  ((sb.sBlocksCount - sb.sFirstDataBlock - 1).toNat / sb.sBlocksPerGroup.toNat + 1) % 2 ^ 32

variable (sb) in
/-- Nothing that `do_statvfs` divides by is 0, and neither its index nor `test_root` leaves the
range of `int`. -/
structure Computable : Prop where
  blocksPerGroup : sb.sBlocksPerGroup.toNat ≠ 0
  descPerBlock : sb.ext2DescPerBlock ≠ 0
  inodesPerBlock : ∃ count, sb.ext2InodesPerBlock = some count ∧ (count % 2 ^ 32).toNat ≠ 0
  groups : sb.groupsCount < 2 ^ 31
  roots : sb.sparse = true → sb.groupsCount ≤ 3 ^ 19 + 1

/-- A layout that was computed has the group count, and nothing was divided by zero. -/
theorem layout_groupsCount {layout : Layout} (isLayout : sb.layout = some layout) :
    layout.groupsCount = sb.groupsCount ∧ sb.sBlocksPerGroup.toNat ≠ 0 ∧ sb.ext2DescPerBlock ≠ 0 ∧
      ∃ count, sb.ext2InodesPerBlock = some count ∧ (count % 2 ^ 32).toNat ≠ 0 := by
  simp only [SuperBlock.layout, divide, Option.bind_eq_bind, Option.bind_eq_some_iff,
    Option.ite_none_left_eq_some, Option.pure_def, Option.some.injEq] at isLayout
  obtain ⟨groups, ⟨perGroup, rfl⟩, dbCount, ⟨perBlock, -⟩, count, isCount, tables,
    ⟨inodes, -⟩, rfl⟩ := isLayout
  exact ⟨rfl, perGroup, perBlock, count, isCount, inodes⟩

/-- Those are the superblocks of which `do_statvfs` computes something. -/
theorem doStatvfs_isSome_iff : sb.doStatvfs.isSome = true ↔ sb.Computable := by
  constructor
  · intro computes
    cases isLayout : sb.layout with
    | none => simp [doStatvfs, isLayout] at computes
    | some layout =>
        obtain ⟨groups, perGroup, perBlock, inodes⟩ := layout_groupsCount isLayout
        cases isSupers : sb.overheadLoop layout.dbCount layout.groupsCount with
        | none => simp [doStatvfs, isLayout, isSupers] at computes
        | some supers =>
            rw [overheadLoop_eq] at isSupers
            split at isSupers
            · rename_i ran
              rw [groups] at ran
              exact ⟨perGroup, perBlock, inodes, ran.2, ran.1⟩
            · cases isSupers
  · rintro ⟨perGroup, perBlock, ⟨count, isCount, inodes⟩, groups, roots⟩
    obtain ⟨layout, isLayout⟩ : ∃ layout, sb.layout = some layout := by
      simp only [SuperBlock.layout, divide, perGroup, perBlock, isCount, inodes, if_false,
        Option.bind_eq_bind, Option.bind_some, Option.pure_def]
      exact ⟨_, rfl⟩
    obtain ⟨same, -⟩ := layout_groupsCount isLayout
    have isSupers := sb.overheadLoop_eq layout.dbCount layout.groupsCount
    rw [same, if_pos ⟨roots, groups⟩, ← same] at isSupers
    obtain ⟨statvfs, isStatvfs, -⟩ := doStatvfs_eq isLayout isSupers
    rw [isStatvfs]
    rfl

/-- The overhead of the routine written with naturals. -/
theorem metadata_eq {blockSize : Nat} (isSize : sb.ext2BlockSize = blockSize) :
    sb.metadata = sb.sFirstDataBlock.toNat +
      sb.supers sb.groups * (1 + (sb.groups + blockSize / 32 - 1) / (blockSize / 32)) +
      sb.groups * (2 + sb.sInodesPerGroup.toNat / (blockSize / sb.ext2InodeSize)) := by
  rw [metadata, isSize]
  rfl

/-- **Statfs computes safely exactly on the volumes that have room for their metadata**, with fields
that can be divided by. -/
theorem statvfsSafe_iff : sb.StatvfsSafe ↔ sb.Roomy := by
  constructor
  · intro safe
    have shift : sb.sLogBlockSize.toNat ≤ 20 := by
      have power : 2 ^ sb.sLogBlockSize.toNat < 2 ^ 21 := by
        have := safe.blockSize
        omega
      have := (Nat.pow_lt_pow_iff_right (by decide)).mp power
      omega
    have isSize := sb.ext2BlockSize_small (Nat.mod_eq_of_lt (by omega)) shift
    obtain ⟨large, small⟩ := blockSize_bounds shift
    generalize blockSizeEq : 1024 * 2 ^ sb.sLogBlockSize.toNat = blockSize at *
    have inodes : 0 < sb.ext2InodeSize ∧ sb.ext2InodeSize ≤ blockSize := by
      obtain ⟨count, isCount, nonzero⟩ := safe.inodesPerBlock
      have positive : 0 < sb.ext2InodeSize := by
        rw [ext2InodesPerBlock] at isCount
        split at isCount
        · cases isCount
        · omega
      rw [ext2InodesPerBlock_eq isSize positive, Option.some.injEq] at isCount
      refine ⟨positive, ?_⟩
      by_contra tooLarge
      rw [Nat.div_eq_of_lt (by omega)] at isCount
      exact nonzero isCount.symm
    have perGroup : 0 < sb.sBlocksPerGroup.toNat := Nat.pos_of_ne_zero safe.blocksPerGroup
    have first : sb.sFirstDataBlock.toNat < sb.sBlocksCount.toNat := safe.groups
    obtain ⟨layout, supers, isLayout, isSupers, exact, below⟩ := safe.overhead
    rw [layout_eq isSize large small inodes perGroup first, Option.some.injEq] at isLayout
    subst isLayout
    rw [overheadLoop_eq] at isSupers
    split at isSupers
    swap
    · cases isSupers
    rename_i ran
    rw [Option.some.injEq] at isSupers
    subst isSupers
    refine ⟨shift, blockSizeEq ▸ inodes, perGroup, first, ran.1, ?_⟩
    rw [metadata_eq isSize]
    rwa [Nat.mod_add_mod, Nat.mod_eq_of_lt exact] at below
  · intro roomy
    have isSize := sb.ext2BlockSize_small
      (Nat.mod_eq_of_lt (by have := roomy.blockSize; omega)) roomy.blockSize
    obtain ⟨large, small⟩ := blockSize_bounds roomy.blockSize
    have inodes := roomy.inodeSize
    generalize blockSizeEq : 1024 * 2 ^ sb.sLogBlockSize.toNat = blockSize at *
    have isLayout := layout_eq isSize large small inodes roomy.blocksPerGroup roomy.first
    have room := roomy.room
    rw [metadata_eq isSize] at room
    have blocksBound := sb.sBlocksCount.toNat_lt
    have few : sb.groups < 2 ^ 31 := by
      have twice : sb.groups * 2 ≤
          sb.groups * (2 + sb.sInodesPerGroup.toNat / (blockSize / sb.ext2InodeSize)) :=
        Nat.mul_le_mul_left _ (Nat.le_add_right _ _)
      omega
    have isSupers := sb.overheadLoop_eq
      ((sb.groups + blockSize / 32 - 1) / (blockSize / 32)) sb.groups
    rw [if_pos ⟨roomy.roots, few⟩] at isSupers
    have isOverhead : (((sb.sFirstDataBlock.toNat +
        sb.supers sb.groups * (1 + (sb.groups + blockSize / 32 - 1) / (blockSize / 32))) % 2 ^ 64) +
        sb.groups * (2 + sb.sInodesPerGroup.toNat / (blockSize / sb.ext2InodeSize))) % 2 ^ 64 =
        sb.metadata := by
      rw [metadata_eq isSize, Nat.mod_add_mod, Nat.mod_eq_of_lt (by omega)]
    obtain ⟨statvfs, isStatvfs, fBlocks, fBfree, fBavail⟩ := doStatvfs_eq isLayout isSupers
    have positive : 0 < blockSize / sb.ext2InodeSize := Nat.div_pos inodes.2 inodes.1
    refine ⟨by omega, ⟨_, ext2InodesPerBlock_eq isSize inodes.1, by omega⟩, ?_, ?_, roomy.first,
      ⟨_, _, isLayout, isSupers, ?_, ?_⟩, statvfs, isStatvfs, ?_, ?_⟩
    · rw [ext2DescPerBlock_eq isSize small]
      omega
    · exact Nat.pos_iff_ne_zero.mp roomy.blocksPerGroup
    · dsimp only
      omega
    · dsimp only
      rw [isOverhead, metadata_eq isSize]
      exact room
    · omega
    · dsimp only at fBlocks
      rw [isOverhead] at fBlocks
      rw [← metadata_eq isSize] at room
      omega

/-- What `ext2fs_open2` checks. The inode size is checked by a division, and of the blocks of a
group and its inode table it looks at a journal device's not at all. -/
structure Validated (sb : SuperBlock) : Prop where
  magic : sb.sMagic = EXT2_SUPER_MAGIC
  revLevel : ¬ sb.sRevLevel > 1
  featureIncompat : sb.sFeatureIncompat &&& ~~~(EXT2_FEATURE_INCOMPAT_FILETYPE |||
    EXT3_FEATURE_INCOMPAT_JOURNAL_DEV ||| EXT2_FEATURE_INCOMPAT_META_BG |||
    EXT3_FEATURE_INCOMPAT_RECOVER) = 0
  featureRoCompat : sb.sFeatureRoCompat &&& ~~~(EXT2_FEATURE_RO_COMPAT_SPARSE_SUPER |||
    EXT2_FEATURE_RO_COMPAT_LARGE_FILE) = 0
  blockSize : sb.ext2BlockSize ≠ 0
  groups : sb.journalDev = false → sb.sBlocksPerGroup.toInt32.toInt ≠ 0 ∧
    sb.sBlocksPerGroup.toInt32.toInt ≤ 2 ^ 16 - 8 ∧ ∃ inodesPerBlock,
      sb.ext2InodesPerBlock = some inodesPerBlock ∧
      (sb.filsys.inodeBlocksPerGroup : Int) ≤ 2 ^ 16 - inodesPerBlock

/-- A superblock is accepted exactly when these checks succeed. -/
theorem accepted_iff : sb.accepted = true ↔ sb.Validated := by
  constructor
  · intro accepted
    rw [SuperBlock.accepted, ext2fsOpen2] at accepted
    dsimp only at accepted
    split_ifs at accepted with magic revLevel incompat roCompat blockSize journal groups
    · exact ⟨not_not.mp magic, revLevel, not_not.mp incompat, not_not.mp roCompat,
        blockSize, fun none => absurd (journal.symm.trans none) (by decide)⟩
    · refine ⟨not_not.mp magic, revLevel, not_not.mp incompat, not_not.mp roCompat,
        blockSize, fun _ => ⟨fun none => groups (Or.inl none),
          not_lt.mp fun many => groups (Or.inr many), ?_⟩⟩
      cases perBlock : sb.ext2InodesPerBlock with
      | none =>
          rw [perBlock] at accepted
          cases accepted
      | some inodesPerBlock =>
          refine ⟨inodesPerBlock, rfl, not_lt.mp fun large => ?_⟩
          rw [perBlock, Option.bind_eq_bind, Option.bind_some, if_pos large] at accepted
          cases accepted
  · intro validated
    rw [SuperBlock.accepted, ext2fsOpen2, if_neg (not_not.mpr validated.magic),
      if_neg validated.revLevel, if_neg (not_not.mpr validated.featureIncompat),
      if_neg (not_not.mpr validated.featureRoCompat), if_neg validated.blockSize]
    cases journal : sb.journalDev with
    | true => rfl
    | false =>
        obtain ⟨some, few, inodesPerBlock, perBlock, fits⟩ := validated.groups journal
        have counted : ¬ (sb.sBlocksPerGroup.toInt32.toInt = 0 ∨
            sb.sBlocksPerGroup.toInt32.toInt > 2 ^ 16 - 8) := by omega
        dsimp only
        rw [if_neg (by simp), if_neg counted, perBlock, Option.bind_eq_bind, Option.bind_some,
          if_neg (not_lt.mpr fits)]
        rfl

/-- A validated superblock has a block size to divide by and, but for a journal, groups with blocks
and inodes of some size. -/
theorem Validated.divisors (validated : sb.Validated) : sb.ext2DescPerBlock ≠ 0 ∧
    (sb.journalDev = false → 0 < sb.sBlocksPerGroup.toNat ∧ 0 < sb.ext2InodeSize) := by
  constructor
  · have nonzero := validated.blockSize
    rw [ext2DescPerBlock]
    rw [ext2BlockSize_eq] at nonzero ⊢
    split
    · rename_i shift
      have bounds := blockSize_bounds shift
      have isSize : (1024 * 2 ^ (sb.sLogBlockSize.toNat % 32) : Int) =
          (1024 * 2 ^ (sb.sLogBlockSize.toNat % 32) : Nat) := by
        push_cast
        rfl
      rw [isSize]
      omega
    · rename_i shift
      rw [if_neg shift] at nonzero
      split at nonzero
      · rename_i last
        rw [if_pos last]
        decide
      · exact absurd rfl nonzero
  · intro journal
    obtain ⟨some, -, inodesPerBlock, perBlock, -⟩ := validated.groups journal
    constructor
    · refine Nat.pos_of_ne_zero fun none => some ?_
      have isZero : sb.sBlocksPerGroup = 0 := UInt32.toNat_inj.mp none
      rw [isZero]
      rfl
    · refine Nat.pos_of_ne_zero fun none => ?_
      rw [ext2InodesPerBlock, if_pos none] at perBlock
      cases perBlock

/-- The blocks before the first group and the copies of the superblock and of the descriptors. -/
def copies (sb : SuperBlock) : Nat :=
  sb.sFirstDataBlock.toNat + sb.supers sb.groups *
    (1 + (sb.groups + sb.ext2BlockSize.toNat / 32 - 1) / (sb.ext2BlockSize.toNat / 32))

/-- The ranges that `do_statvfs` relies on and `ext2fs_open2` does not check: a journal's divisors;
that the exponent of the block size is no more than 20, as shifts take it modulo 32; that an inode
is no longer than a block, the first data block is one of the volume and the groups of a sparse
volume are no more than `test_root` can tell; and that the copies and, in each group's share of the
remaining blocks, the bitmaps and the inode table have room. -/
structure LeftUnchecked (sb : SuperBlock) : Prop where
  journal : sb.journalDev = true → 0 < sb.sBlocksPerGroup.toNat ∧ 0 < sb.ext2InodeSize
  logBlockSize : sb.sLogBlockSize.toNat ≤ 20
  inodeSize : sb.ext2InodeSize ≤ 1024 * 2 ^ sb.sLogBlockSize.toNat
  firstDataBlock : sb.sFirstDataBlock.toNat < sb.sBlocksCount.toNat
  sparseGroups : sb.sparse = true → sb.groups ≤ 3 ^ 19 + 1
  copies : sb.copies ≤ sb.sBlocksCount.toNat
  inodesPerGroup : 2 + sb.sInodesPerGroup.toNat / (sb.ext2BlockSize.toNat / sb.ext2InodeSize) ≤
    (sb.sBlocksCount.toNat - sb.copies) / sb.groups

/-- The metadata has room when the copies have and the tables have in what is left. -/
theorem metadata_le_iff : sb.metadata ≤ sb.sBlocksCount.toNat ↔ sb.copies ≤ sb.sBlocksCount.toNat ∧
    2 + sb.sInodesPerGroup.toNat / (sb.ext2BlockSize.toNat / sb.ext2InodeSize) ≤
      (sb.sBlocksCount.toNat - sb.copies) / sb.groups := by
  have some : 0 < sb.groups := Nat.succ_pos _
  have isMetadata : sb.metadata = sb.copies + sb.groups *
      (2 + sb.sInodesPerGroup.toNat / (sb.ext2BlockSize.toNat / sb.ext2InodeSize)) := rfl
  rw [isMetadata, Nat.le_div_iff_mul_le some, mul_comm sb.groups]
  generalize (2 + sb.sInodesPerGroup.toNat / (sb.ext2BlockSize.toNat / sb.ext2InodeSize)) *
    sb.groups = tables
  omega

/-- **On an accepted volume `statfs` computes safely exactly when what `ext2fs_open2` leaves
unchecked is in range.** What it checks makes the descriptors of a block, and on a volume with
groups the blocks of a group and the size of an inode, something to divide by; and never are more
blocks reported available than free. -/
theorem accepted_statvfsSafe_iff (accepted : sb.accepted = true) :
    (sb.ext2DescPerBlock ≠ 0 ∧
      (sb.journalDev = false → 0 < sb.sBlocksPerGroup.toNat ∧ 0 < sb.ext2InodeSize)) ∧
    (∀ statvfs, sb.doStatvfs = some statvfs → statvfs.fBavail ≤ statvfs.fBfree) ∧
    (sb.StatvfsSafe ↔ sb.LeftUnchecked) := by
  have validated := accepted_iff.mp accepted
  have divisors := validated.divisors
  refine ⟨divisors, fun statvfs isStatvfs => ?_, ?_⟩
  · cases isLayout : sb.layout with
    | none => simp [doStatvfs, isLayout] at isStatvfs
    | some layout =>
        cases isSupers : sb.overheadLoop layout.dbCount layout.groupsCount with
        | none => simp [doStatvfs, isLayout, isSupers] at isStatvfs
        | some supers =>
            obtain ⟨other, isOther, -, fBfree, fBavail⟩ := doStatvfs_eq isLayout isSupers
            rw [isStatvfs, Option.some.injEq] at isOther
            subst isOther
            omega
  · rw [statvfsSafe_iff]
    constructor
    · intro roomy
      obtain ⟨copies, tables⟩ := metadata_le_iff.mp roomy.room
      exact ⟨fun _ => ⟨roomy.blocksPerGroup, roomy.inodeSize.1⟩, roomy.blockSize, roomy.inodeSize.2,
        roomy.first, roomy.roots, copies, tables⟩
    · intro unchecked
      have positive : 0 < sb.sBlocksPerGroup.toNat ∧ 0 < sb.ext2InodeSize := by
        cases journal : sb.journalDev with
        | true => exact unchecked.journal journal
        | false => exact divisors.2 journal
      exact ⟨unchecked.logBlockSize, ⟨positive.2, unchecked.inodeSize⟩, positive.1,
        unchecked.firstDataBlock, unchecked.sparseGroups,
        metadata_le_iff.mpr ⟨unchecked.copies, unchecked.inodesPerGroup⟩⟩

/-- The copies of the six groups are in the groups 0, 1, 3 and 5. -/
theorem sixGroups_statvfsSafe : sixGroups.StatvfsSafe :=
  (accepted_statvfsSafe_iff (show sixGroups.accepted = true by decide +kernel)).2.2.mpr
    ⟨by decide +kernel, by decide, by decide, by decide, fun _ => by decide, by decide +kernel,
      by decide +kernel⟩

/-- A journal is accepted with groups of no blocks, by which `do_statvfs` divides, and a volume
is whose inode table is longer than it is. -/
theorem statvfs_unsafe :
    (journal.accepted = true ∧ journal.doStatvfs.isNone = true ∧ ¬ journal.StatvfsSafe) ∧
    (oneGroup.withInodes 8192).accepted = true ∧
    (oneGroup.withInodes 8192).doStatvfs.map Statvfs.fBlocks = some (2 ^ 64 - 965) ∧
      ¬ (oneGroup.withInodes 8192).StatvfsSafe := by
  have reported : (oneGroup.withInodes 8192).doStatvfs.map Statvfs.fBlocks =
    some (2 ^ 64 - 965) := by
    decide +kernel
  refine ⟨⟨by decide +kernel, by decide +kernel, fun safe => safe.blocksPerGroup rfl⟩,
    by decide +kernel, reported, fun safe => ?_⟩
  obtain ⟨statvfs, isStatvfs, -, few⟩ := safe.reported
  rw [isStatvfs, Option.map_some, Option.some.injEq] at reported
  rw [reported] at few
  exact absurd few (by decide)

end SuperBlock

end Safety

section Layouts

namespace SuperBlock

/-- The blocks the library's layout leaves for data. -/
def usable (sb : SuperBlock) : Int :=
  ∑ group ∈ Finset.range sb.filsys.groupDescCount, sb.ext2fsSuperAndBgdLoc group

/-- The length of a group; the last one may be shorter. -/
def numblocks (sb : SuperBlock) (group : Nat) : Nat :=
  if group + 1 = sb.groups then
    if (sb.sBlocksCount - sb.sFirstDataBlock).toNat % sb.sBlocksPerGroup.toNat = 0 then
      sb.sBlocksPerGroup.toNat
    else (sb.sBlocksCount - sb.sFirstDataBlock).toNat % sb.sBlocksPerGroup.toNat
  else sb.sBlocksPerGroup.toNat

/-- There are blocks, groups of eight or more and blocks full of inodes, no blocks are kept back for
further descriptors and the descriptors stand together. -/
structure Geometry (sb : SuperBlock) : Prop where
  first : sb.sFirstDataBlock.toNat < sb.sBlocksCount.toNat
  blocksPerGroup : 8 ≤ sb.sBlocksPerGroup.toNat
  blockSize : 0 < sb.ext2BlockSize
  inodeSize : (sb.ext2InodeSize : Int) ∣ sb.ext2BlockSize
  inodes : sb.ext2BlockSize.toNat / sb.ext2InodeSize ∣ sb.sInodesPerGroup.toNat
  reserved : sb.sReservedGdtBlocks = 0
  together : sb.metaBg = false

variable {sb : SuperBlock}

/-- A word as a signed number wraps from 2^31 on. -/
theorem toInt32_eq {value : Int} (low : -2 ^ 31 ≤ value) (high : value < 2 ^ 32) :
    Fs.toInt32 value = value - if 2 ^ 31 ≤ value then 2 ^ 32 else 0 := by
  rw [Fs.toInt32]
  split
  · omega
  · omega

/-- A sum of numbers that wrap to negative ones is negative, so that none has wrapped when it is
not. -/
theorem sum_toInt32 {count : Nat} {value : Nat → Int} (low : ∀ index < count, -2 ^ 31 ≤ value index)
    (high : ∀ index < count, value index < 2 ^ 32)
    (few : ∑ index ∈ Finset.range count, value index < 2 ^ 32)
    (nonneg : 0 ≤ ∑ index ∈ Finset.range count, Fs.toInt32 (value index)) :
    ∑ index ∈ Finset.range count, Fs.toInt32
      (value index) = ∑ index ∈ Finset.range count, value index := by
  have split : ∑ index ∈ Finset.range count, Fs.toInt32 (value index) =
      ∑ index ∈ Finset.range count, value index -
        ∑ index ∈ Finset.range count, if 2 ^ 31 ≤ value index then (2 ^ 32 : Int) else 0 := by
    rw [← Finset.sum_sub_distrib]
    refine Finset.sum_congr rfl fun index inRange => ?_
    have below := Finset.mem_range.mp inRange
    exact toInt32_eq (low index below) (high index below)
  have none : ∀ index ∈ Finset.range count, ¬ 2 ^ 31 ≤ value index := by
    intro index inRange wraps
    have least := Finset.single_le_sum (f :=
      fun index => if 2 ^ 31 ≤ value index then (2 ^ 32 : Int) else 0)
      (fun other _ => by split <;> omega) inRange
    rw [if_pos wraps] at least
    omega
  refine Finset.sum_congr rfl fun index inRange => ?_
  have below := Finset.mem_range.mp inRange
  rw [toInt32_eq (low index below) (high index below), if_neg (none index inRange), sub_zero]

section Geometry

variable (geometry : sb.Geometry)

include geometry

/-- A sane superblock has a block size that its inode size divides. -/
theorem Geometry.size : ∃ blockSize : Nat, sb.ext2BlockSize = blockSize ∧ 1024 ≤ blockSize ∧
    blockSize ≤ 2 ^ 30 ∧ blockSize ∣ 2 ^ 32 ∧ sb.ext2InodeSize ∣ blockSize ∧
      0 < sb.ext2InodeSize := by
  have positive := geometry.blockSize
  have shift : sb.sLogBlockSize.toNat % 32 ≤ 20 := by
    by_contra large
    rw [ext2BlockSize_eq, if_neg large] at positive
    split at positive
    · omega
    · omega
  obtain ⟨large, small⟩ := blockSize_bounds shift
  have isSize := sb.ext2BlockSize_small rfl shift
  have divides := geometry.inodeSize
  rw [isSize, Int.natCast_dvd_natCast] at divides
  refine ⟨_, isSize, large, small, ?_, divides, Nat.pos_of_dvd_of_pos divides (by omega)⟩
  have power : 1024 * 2 ^ (sb.sLogBlockSize.toNat % 32) =
    2 ^ (10 + sb.sLogBlockSize.toNat % 32) := by
    rw [pow_add]
    rfl
  rw [power]
  exact pow_dvd_pow 2 (by omega)

/-- The blocks behind the first data block, without wrapping. -/
theorem Geometry.difference : (sb.sBlocksCount - sb.sFirstDataBlock).toNat =
    sb.sBlocksCount.toNat - sb.sFirstDataBlock.toNat := by
  have first := geometry.first
  have bound := sb.sBlocksCount.toNat_lt
  rw [UInt32.toNat_sub]
  omega

/-- A sane superblock has at most 2^29 groups. -/
theorem Geometry.groups_le : sb.groups ≤ 2 ^ 29 := by
  have bound := sb.sBlocksCount.toNat_lt
  have few := Nat.div_le_div_left (a := sb.sBlocksCount.toNat - sb.sFirstDataBlock.toNat - 1)
    geometry.blocksPerGroup (by decide)
  rw [groups]
  omega

/-- Every group has at least one block. -/
theorem Geometry.numblocks_bounds {group : Nat} :
    1 ≤ sb.numblocks group ∧ sb.numblocks group < 2 ^ 32 := by
  have perGroup := geometry.blocksPerGroup
  have bound := sb.sBlocksPerGroup.toNat_lt
  have rest := Nat.mod_lt (sb.sBlocksCount - sb.sFirstDataBlock).toNat
    (show sb.sBlocksPerGroup.toNat > 0 by omega)
  rw [numblocks]
  split
  · split <;> omega
  · omega

/-- The groups are as long as the volume. -/
theorem Geometry.sum_numblocks : ∑ group ∈ Finset.range sb.groups, sb.numblocks group =
    sb.sBlocksCount.toNat - sb.sFirstDataBlock.toNat := by
  simp only [numblocks]
  rw [geometry.difference]
  have first := geometry.first
  have perGroup := geometry.blocksPerGroup
  generalize totalEq : sb.sBlocksCount.toNat - sb.sFirstDataBlock.toNat = total at *
  have isGroups : sb.groups = (total - 1) / sb.sBlocksPerGroup.toNat + 1 := by rw [groups, totalEq]
  generalize sb.sBlocksPerGroup.toNat = length at *
  have quotient := Nat.div_add_mod (total - 1) length
  have rest := Nat.mod_lt (total - 1) (show length > 0 by omega)
  generalize quotientEq : (total - 1) / length = full at *
  generalize restEq : (total - 1) % length = last at *
  have others : ∀ group ∈ Finset.range full, (if group + 1 = full + 1 then
      (if total % length = 0 then length else total % length) else length) = length := by
    intro group inRange
    rw [if_neg (by have := Finset.mem_range.mp inRange; omega)]
  rw [isGroups, Finset.sum_range_succ, Finset.sum_const_nat others, if_pos rfl, Finset.card_range,
    mul_comm]
  have whole : total = length * full + (last + 1) := by omega
  by_cases isFull : last + 1 = length
  · have none : total % length = 0 := by
      rw [whole, isFull, Nat.mul_add_mod, Nat.mod_self]
    rw [if_pos none]
    omega
  · have some : total % length = last + 1 := by
      rw [whole, Nat.mul_add_mod, Nat.mod_eq_of_lt (by omega)]
    rw [if_neg (by omega), some]
    omega

omit geometry in
/-- ext2fs_open2 counts the groups as the layout does. -/
theorem groupDescCount_eq (journal : sb.journalDev = false) (geometry : sb.Geometry) :
    sb.filsys.groupDescCount = sb.groups := by
  have first := geometry.first
  rw [filsys, journal, if_neg (by simp), ext2fsDivCeil, geometry.difference,
    if_neg (by omega), groups]

omit geometry in
/-- ext2fs_open2 counts the descriptor blocks as the layout does. -/
theorem descBlocks_eq (journal : sb.journalDev = false) (geometry : sb.Geometry) {blockSize : Nat}
    (isSize : sb.ext2BlockSize = blockSize) (large : 1024 ≤ blockSize)
    (small : blockSize ≤ 2 ^ 30) :
    sb.filsys.descBlocks = (sb.groups + blockSize / 32 - 1) / (blockSize / 32) := by
  have count := groupDescCount_eq journal geometry
  have some : sb.groups ≠ 0 := by simp [groups]
  have isDescs : sb.filsys.descBlocks =
    ext2fsDivCeil sb.filsys.groupDescCount sb.ext2DescPerBlock := by
    simp [filsys, journal]
  have positive : 0 < blockSize / 32 := by omega
  rw [isDescs, count, ext2fsDivCeil, if_neg some, ext2DescPerBlock_eq isSize small,
    ← Nat.add_div_right _ positive]
  congr 1
  omega

/-- What the layout leaves, if that is something: the volume without its metadata, with the inode
tables as the library counts their blocks. -/
theorem Geometry.usable_eq (journal : sb.journalDev = false) {blockSize : Nat}
    (isSize : sb.ext2BlockSize = blockSize) (large : 1024 ≤ blockSize) (small : blockSize ≤ 2 ^ 30)
    (nonneg : 0 ≤ sb.usable) :
    sb.usable + (sb.supers sb.groups * (1 + (sb.groups + blockSize / 32 - 1) / (blockSize / 32)) +
      sb.groups * (2 + sb.filsys.inodeBlocksPerGroup) : Nat) =
        (sb.sBlocksCount.toNat - sb.sFirstDataBlock.toNat : Nat) := by
  have groupsBound := geometry.groups_le
  have inodeBlocksBound : sb.filsys.inodeBlocksPerGroup < 2 ^ 22 := by
    have few : ∀ count, count % 2 ^ 32 / blockSize < 2 ^ 22 := fun count =>
      Nat.div_lt_of_lt_mul (lt_of_lt_of_le (Nat.mod_lt count (by decide)) (by omega))
    have isBlocks : (sb.ext2BlockSize % 2 ^ 32).toNat = blockSize := by
      rw [isSize]
      omega
    rw [filsys]
    split
    · simp only [isBlocks]
      exact few _
    · simp only [isBlocks]
      exact few _
  have descs := descBlocks_eq journal geometry isSize large small
  have descsBound : sb.filsys.descBlocks ≤ 2 ^ 29 := by
    rw [descs]
    refine Nat.div_le_of_le_mul ?_
    have positive : 1 ≤ blockSize / 32 := by omega
    have grows := Nat.mul_le_mul_left (blockSize / 32) groupsBound
    have more := Nat.mul_le_mul_right (2 ^ 29 - 1) positive
    omega
  rw [← descs]
  have each : ∀ group, sb.ext2fsSuperAndBgdLoc group = Fs.toInt32 ((sb.numblocks group : Nat) -
      (if sb.ext2fsBgHasSuper group then 1 + sb.filsys.descBlocks else 0 : Nat) -
        (2 + sb.filsys.inodeBlocksPerGroup : Nat)) := by
    intro group
    have length : (if group + 1 = sb.groups then
        if (sb.sBlocksCount - sb.sFirstDataBlock).toNat % sb.sBlocksPerGroup.toNat = 0 then
          (sb.sBlocksPerGroup.toNat : Int)
        else ((sb.sBlocksCount - sb.sFirstDataBlock).toNat % sb.sBlocksPerGroup.toNat : Nat)
        else sb.sBlocksPerGroup.toNat) = sb.numblocks group := by
      simp only [numblocks, Nat.cast_ite]
    simp only [ext2fsSuperAndBgdLoc, geometry.together, geometry.reserved,
      groupDescCount_eq journal geometry, Bool.not_false, Bool.true_or, if_true, Bool.false_eq_true,
      if_false, UInt16.toNat_zero, Nat.add_zero, length]
    congr 1
    cases sb.ext2fsBgHasSuper group with
    | true =>
        simp only [if_true]
        push_cast
        ring
    | false =>
        simp only [Bool.false_eq_true, if_false]
        push_cast
        ring
  rw [usable, groupDescCount_eq journal geometry] at nonneg ⊢
  have total := geometry.sum_numblocks
  have copies : ∑ group ∈ Finset.range sb.groups,
      (if sb.ext2fsBgHasSuper group then 1 + sb.filsys.descBlocks else 0) =
        sb.supers sb.groups * (1 + sb.filsys.descBlocks) := by
    rw [← Finset.sum_filter, Finset.sum_const_nat fun _ _ => rfl, supers]
  have sums : ∑ group ∈ Finset.range sb.groups, ((sb.numblocks group : Nat) -
      (if sb.ext2fsBgHasSuper group then 1 + sb.filsys.descBlocks else 0 : Nat) -
        (2 + sb.filsys.inodeBlocksPerGroup : Nat) : Int) =
      (sb.sBlocksCount.toNat - sb.sFirstDataBlock.toNat : Nat) -
        (sb.supers sb.groups * (1 + sb.filsys.descBlocks) : Nat) -
          (sb.groups * (2 + sb.filsys.inodeBlocksPerGroup) : Nat) := by
    rw [Finset.sum_sub_distrib, Finset.sum_sub_distrib, ← Nat.cast_sum,
      ← Nat.cast_sum, total, copies,
      ← Nat.cast_sum, Finset.sum_const_nat fun _ _ => rfl, Finset.card_range]
  simp only [each] at nonneg ⊢
  have bound := sb.sBlocksCount.toNat_lt
  rw [sum_toInt32 ?_ ?_ ?_ nonneg, sums]
  · push_cast
    ring
  · intro group _
    have least : 1 ≤ sb.numblocks group := geometry.numblocks_bounds.1
    split <;> omega
  · intro group _
    have most : sb.numblocks group < 2 ^ 32 := geometry.numblocks_bounds.2
    split <;> omega
  · rw [sums]
    omega

/-- How the library and `do_statvfs` count the blocks of an inode table: the same unless the product
wraps in 32 bits. -/
theorem Geometry.inodeBlocks {blockSize : Nat} (isSize : sb.ext2BlockSize = blockSize)
    (large : 1024 ≤ blockSize) (small : blockSize ≤ 2 ^ 30) (divides : blockSize ∣ 2 ^ 32)
    (inodes : sb.ext2InodeSize ∣ blockSize) :
    sb.filsys.inodeBlocksPerGroup ≤ sb.sInodesPerGroup.toNat / (blockSize / sb.ext2InodeSize) ∧
      (sb.filsys.inodeBlocksPerGroup = sb.sInodesPerGroup.toNat / (blockSize / sb.ext2InodeSize) ↔
        sb.sInodesPerGroup.toNat * sb.ext2InodeSize + blockSize - 1 < 2 ^ 32) := by
  have isBlocks : (sb.ext2BlockSize % 2 ^ 32).toNat = blockSize := by
    rw [isSize]
    omega
  have isCount : sb.filsys.inodeBlocksPerGroup =
      ((sb.sInodesPerGroup.toNat * sb.ext2InodeSize + blockSize + (2 ^ 32 - 1)) % 2 ^ 32)
        / blockSize := by
    rw [filsys]
    split
    · simp only [isBlocks]
    · simp only [isBlocks]
  have full := geometry.inodes
  rw [isSize, Int.toNat_natCast] at full
  obtain ⟨perBlock, rfl⟩ := inodes
  have inodeSize : 0 < sb.ext2InodeSize :=
    Nat.pos_of_mul_pos_right (by omega : 0 < sb.ext2InodeSize * perBlock)
  have positive : 0 < perBlock :=
    Nat.pos_of_mul_pos_left (by omega : 0 < sb.ext2InodeSize * perBlock)
  rw [Nat.mul_div_cancel_left _ inodeSize] at full ⊢
  obtain ⟨table, isTable⟩ := full
  rw [isTable] at isCount ⊢
  rw [Nat.mul_div_cancel_left _ positive]
  have product : perBlock * table * sb.ext2InodeSize = sb.ext2InodeSize * perBlock * table := by
    ring
  rw [product] at isCount ⊢
  generalize sb.ext2InodeSize * perBlock = blockSize at *
  obtain ⟨most, whole⟩ := divides
  have below : table < most ↔ blockSize * table + blockSize - 1 < 2 ^ 32 := by
    rw [whole]
    constructor
    · intro fewer
      have next := Nat.mul_le_mul_left blockSize (Nat.succ_le_of_lt fewer)
      rw [Nat.succ_eq_add_one, mul_add, mul_one] at next
      omega
    · intro fits
      by_contra more
      have next := Nat.mul_le_mul_left blockSize (not_lt.mp more)
      omega
  rw [isCount, ← below]
  by_cases fewer : table < most
  · have exact : (blockSize * table + blockSize + (2 ^ 32 - 1)) % 2 ^ 32 = blockSize * table +
      (blockSize - 1) := by
      have := below.mp fewer
      omega
    rw [exact, Nat.mul_add_div (by omega),
      Nat.div_eq_of_lt (show blockSize - 1 < blockSize by omega)]
    simpa using fewer
  · have wraps : (blockSize * table + blockSize + (2 ^ 32 - 1)) % 2 ^ 32 / blockSize < most := by
      refine Nat.div_lt_of_lt_mul ?_
      rw [← whole]
      exact Nat.mod_lt _ (by decide)
    omega

/-- **Statfs counts what the library's layout leaves, unless the library's count of inode blocks
wraps.** A journal has no groups, so that there the count agrees only when nothing is left. -/
theorem statvfs_layout_iff :
    (∃ statvfs, sb.doStatvfs = some statvfs ∧
      (0 ≤ sb.usable → (statvfs.fBlocks : Int) = sb.usable) ∧
      statvfs.fBavail = sb.sFreeBlocksCount.toNat - sb.sRBlocksCount.toNat) ↔
    (0 ≤ sb.usable → if sb.journalDev then sb.sBlocksCount.toNat = sb.metadata
      else sb.sInodesPerGroup.toNat * sb.ext2InodeSize + sb.ext2BlockSize.toNat - 1 < 2 ^ 32) := by
  obtain ⟨blockSize, isSize, large, small, divides, inodes, positive⟩ := geometry.size
  have fits : sb.ext2InodeSize ≤ blockSize := Nat.le_of_dvd (by omega) inodes
  have first := geometry.first
  have isLayout := layout_eq isSize large small ⟨positive, fits⟩
    (by have := geometry.blocksPerGroup; omega) first
  have groupsBound := geometry.groups_le
  have isSupers := sb.overheadLoop_eq
    ((sb.groups + blockSize / 32 - 1) / (blockSize / 32)) sb.groups
  rw [if_pos ⟨fun _ => by omega, by omega⟩] at isSupers
  obtain ⟨statvfs, isStatvfs, fBlocks, -, fBavail⟩ := doStatvfs_eq isLayout isSupers
  rw [Nat.mod_add_mod, ← metadata_eq isSize] at fBlocks
  have metadataBound : sb.metadata < 2 ^ 63 := by
    have copies := sb.supers_le sb.groups
    have descs : (sb.groups + blockSize / 32 - 1) / (blockSize / 32) ≤ 2 ^ 29 + 2 ^ 25 :=
      le_trans (Nat.div_le_self _ _) (by omega)
    have tables : sb.sInodesPerGroup.toNat / (blockSize / sb.ext2InodeSize) < 2 ^ 32 :=
      lt_of_le_of_lt (Nat.div_le_self _ _) sb.sInodesPerGroup.toNat_lt
    have one := Nat.mul_le_mul (le_trans copies groupsBound)
      (show 1 + (sb.groups + blockSize / 32 - 1) / (blockSize / 32) ≤ 1 +
        (2 ^ 29 + 2 ^ 25) by omega)
    have other := Nat.mul_le_mul groupsBound
      (show 2 + sb.sInodesPerGroup.toNat / (blockSize / sb.ext2InodeSize) ≤ 2 + 2 ^ 32 by omega)
    have start := sb.sFirstDataBlock.toNat_lt
    rw [metadata_eq isSize]
    omega
  have blocksBound := sb.sBlocksCount.toNat_lt
  have agrees : (0 ≤ sb.usable → ((statvfs.fBlocks : Int) = sb.usable ↔
      if sb.journalDev then sb.sBlocksCount.toNat = sb.metadata
      else
        sb.sInodesPerGroup.toNat * sb.ext2InodeSize + sb.ext2BlockSize.toNat - 1 < 2 ^ 32)) := by
    intro nonneg
    cases journal : sb.journalDev with
    | true =>
        have empty : sb.usable = 0 := by
          have none : sb.filsys.groupDescCount = 0 := by simp [filsys, journal]
          rw [usable, none, Finset.sum_range_zero]
        rw [if_pos rfl, empty, fBlocks]
        omega
    | false =>
        obtain ⟨fewer, exact⟩ := geometry.inodeBlocks isSize large small divides inodes
        have left := geometry.usable_eq journal isSize large small nonneg
        rw [if_neg (by simp), isSize, Int.toNat_natCast, ← exact, fBlocks]
        rw [metadata_eq isSize] at metadataBound ⊢
        have groupsPositive : 0 < sb.groups := by simp [groups]
        generalize sb.sInodesPerGroup.toNat / (blockSize / sb.ext2InodeSize) = table at *
        generalize sb.filsys.inodeBlocksPerGroup = counted at *
        obtain ⟨missing, rfl⟩ := Nat.exists_eq_add_of_le fewer
        have split : sb.groups * (2 + (counted + missing)) = sb.groups * (2 + counted) +
          sb.groups * missing := by
          ring
        rw [split] at metadataBound ⊢
        constructor
        · intro same
          have none : sb.groups * missing = 0 := by omega
          have zero := (Nat.mul_eq_zero.mp none).resolve_left (by omega)
          omega
        · intro same
          obtain rfl : missing = 0 := by omega
          rw [Nat.mul_zero] at metadataBound ⊢
          omega
  constructor
  · rintro ⟨other, isOther, same, -⟩ nonneg
    rw [isStatvfs, Option.some.injEq] at isOther
    subst isOther
    exact (agrees nonneg).mp (same nonneg)
  · exact fun holds => ⟨statvfs, isStatvfs,
      fun nonneg => (agrees nonneg).mpr (holds nonneg), fBavail⟩

end Geometry

/-- With copies in four of six groups and a last group of 500 blocks both counts are the same. -/
theorem statvfs_layout_sixGroups : sixGroups.usable = 39904 ∧
    ∃ statvfs, sixGroups.doStatvfs = some statvfs ∧
      (0 ≤ sixGroups.usable → (statvfs.fBlocks : Int) = sixGroups.usable) ∧
      statvfs.fBavail = 36927 := by
  have isUsable : sixGroups.usable = 39904 := by decide +kernel
  exact ⟨isUsable, (statvfs_layout_iff
    ⟨by decide, by decide, by decide, by decide, by decide, rfl, rfl⟩).mpr
      fun _ => show 2048 * 128 + 1024 - 1 < 2 ^ 32 by decide⟩

/-- Inodes of 4 GiB in a group: the library finds no blocks for them and `do_statvfs` 2^22, more
than the volume has. -/
theorem statvfs_layout_wraps : (oneGroup.withInodes (2 ^ 25)).Geometry ∧
    (oneGroup.withInodes (2 ^ 25)).accepted = true ∧ 0 ≤ (oneGroup.withInodes (2 ^ 25)).usable ∧
      ¬ ∃ statvfs, (oneGroup.withInodes (2 ^ 25)).doStatvfs = some statvfs ∧
        (statvfs.fBlocks : Int) = (oneGroup.withInodes (2 ^ 25)).usable := by
  have isUsable : (oneGroup.withInodes (2 ^ 25)).usable = 59 := by decide +kernel
  have reported : (oneGroup.withInodes (2 ^ 25)).doStatvfs.map Statvfs.fBlocks =
      some (2 ^ 64 + 59 - 2 ^ 22) := by decide +kernel
  refine ⟨⟨by decide, by decide, by decide, by decide, by decide, rfl, rfl⟩,
    by decide +kernel, by rw [isUsable]; decide, ?_⟩
  rintro ⟨statvfs, isStatvfs, same⟩
  rw [isStatvfs, Option.map_some, Option.some.injEq] at reported
  rw [isUsable, reported] at same
  cases same

end SuperBlock

end Layouts

end Ext2Fuse
