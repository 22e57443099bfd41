import Mathlib.Data.List.Nodup
import Mathlib.Data.List.Perm.Basic
import Mathlib.Tactic.Ring
import Ext2Fuse.Lib.Forest

/-!
# Walking a tree of pointer blocks

The blocks of a tree are met in post-order: a block after everything below it. Each has a
level above the data and the first of the numbers below it; the numbers of the data
blocks grow along the walk. A selector decides, visit by visit, which blocks are dropped; when
it drops nothing above a block it keeps, the tree that is left is walked in the same order.
In pre-order the same blocks are met, each before everything below it.
-/

namespace Ext2Fuse.Lib

/-- A block met on the walk, at `level` levels above the data; `first` is the first of the
numbers below it. -/
structure Visit where
  block : Nat
  level : Nat
  first : Nat
deriving DecidableEq

/-- One past the last number below the block. -/
def Visit.bound (fanout : Nat) (visit : Visit) : Nat := visit.first + fanout ^ visit.level

/-- The visits of the tree below `block`, whose numbers start at `first`. -/
def visits (ptrs : Nat → Nat → Nat) (fanout : Nat) : Nat → Nat → Nat → List Visit
  | 0, block, first => if block = 0 then [] else [⟨block, 0, first⟩]
  | level + 1, block, first =>
      if block = 0 then []
      else
        (List.range' 0 fanout).flatMap (fun index =>
          visits ptrs fanout level (ptrs block index) (first + index * fanout ^ level)) ++
        [⟨block, level + 1, first⟩]

section Visits

variable {ptrs ptrs' : Nat → Nat → Nat} {fanout level root block first : Nat} {visit : Visit}

@[simp] theorem visits_zero : visits ptrs fanout level 0 first = [] := by
  cases level <;> simp [visits]

/-- The visits of a tree: those below the entries of its root, or the root. -/
theorem mem_visits_succ : visit ∈ visits ptrs fanout (level + 1) block first ↔ block ≠ 0 ∧
    ((∃ index < fanout, visit ∈ visits ptrs fanout level (ptrs block index)
      (first + index * fanout ^ level)) ∨ visit = ⟨block, level + 1, first⟩) := by
  by_cases absent : block = 0
  · simp [absent]
  · simp [visits, absent, List.mem_range']

/-- A walk never visits block 0, which stands for a hole. -/
theorem block_ne_zero (member : visit ∈ visits ptrs fanout level block first) :
    visit.block ≠ 0 := by
  induction level generalizing block first with
  | zero =>
      by_cases absent : block = 0
      · simp [absent] at member
      · simp only [visits, if_neg absent, List.mem_singleton] at member
        rwa [member]
  | succ level inductionHypothesis =>
      obtain ⟨present, ⟨index, -, below⟩ | rfl⟩ := mem_visits_succ.mp member
      · exact inductionHypothesis below
      · exact present

/-- A tree that is there has its own root among its visits. -/
theorem root_mem_visits (present : block ≠ 0) :
    ⟨block, level, first⟩ ∈ visits ptrs fanout level block first := by
  cases level with
  | zero => simp [visits, present]
  | succ level => exact mem_visits_succ.mpr ⟨present, .inr rfl⟩

/-- The numbers below the entries of a block lie among its own. -/
theorem entry_bound {index : Nat} (small : index < fanout) :
    first + index * fanout ^ level + fanout ^ level ≤ first + fanout ^ (level + 1) := by
  have step : (index + 1) * fanout ^ level ≤ fanout * fanout ^ level :=
    Nat.mul_le_mul_right _ small
  rw [pow_succ, Nat.mul_comm (fanout ^ level)]
  rw [Nat.add_mul, Nat.one_mul] at step
  omega

/-- A visit's numbers are an aligned range of the numbers of the tree. -/
theorem visit_range (member : visit ∈ visits ptrs fanout level block first) :
    visit.level ≤ level ∧ first ≤ visit.first ∧ visit.bound fanout ≤ first + fanout ^ level ∧
      fanout ^ visit.level ∣ visit.first - first := by
  induction level generalizing block first with
  | zero =>
      by_cases absent : block = 0
      · simp [absent] at member
      · simp only [visits, if_neg absent, List.mem_singleton] at member
        subst member
        simp [Visit.bound]
  | succ level inductionHypothesis =>
      obtain ⟨present, ⟨index, small, below⟩ | rfl⟩ := mem_visits_succ.mp member
      · obtain ⟨lower, starts, ends, aligned⟩ := inductionHypothesis below
        have room := @entry_bound fanout level first index small
        refine ⟨by omega, by omega, by omega, ?_⟩
        have split : visit.first - first =
            visit.first - (first + index * fanout ^ level) + index * fanout ^ level := by omega
        rw [split]
        exact Nat.dvd_add aligned (Dvd.dvd.mul_left (Nat.pow_dvd_pow _ lower) _)
      · simp [Visit.bound]

/-- What an entry of a visited block points to is visited. -/
theorem entry_mem_visits (member : visit ∈ visits ptrs fanout level block first) {lower index : Nat}
    (inner : visit.level = lower + 1) (small : index < fanout)
    (present : ptrs visit.block index ≠ 0) :
    ⟨ptrs visit.block index, lower, visit.first + index * fanout ^ lower⟩ ∈
      visits ptrs fanout level block first := by
  induction level generalizing block first with
  | zero =>
      have bounded := (visit_range member).1
      omega
  | succ level inductionHypothesis =>
      obtain ⟨notZero, ⟨entry, entrySmall, below⟩ | rfl⟩ := mem_visits_succ.mp member
      · exact mem_visits_succ.mpr ⟨notZero, .inl ⟨entry, entrySmall, inductionHypothesis below⟩⟩
      · cases inner
        exact mem_visits_succ.mpr ⟨notZero, .inl ⟨index, small, root_mem_visits present⟩⟩

/-- The walk depends on the pointers in the blocks it meets only. -/
theorem visits_congr (same : ∀ visit ∈ visits ptrs fanout level block first, 0 < visit.level →
    ∀ index < fanout, ptrs' visit.block index = ptrs visit.block index) :
    visits ptrs' fanout level block first = visits ptrs fanout level block first := by
  induction level generalizing block first with
  | zero => rfl
  | succ level inductionHypothesis =>
      by_cases absent : block = 0
      · simp [absent]
      · have root := same _ (root_mem_visits absent) (Nat.succ_pos level)
        simp only [visits, if_neg absent]
        congr 1
        refine List.flatMap_congr fun index member => ?_
        have small : index < fanout := by simpa [List.mem_range'] using member
        rw [root index small]
        exact inductionHypothesis fun visit below =>
          same visit (mem_visits_succ.mpr ⟨absent, .inl ⟨index, small, below⟩⟩)

/-- `earlier` ends no later than `later`, and before it if `later` is a data block. -/
def Visit.Before (fanout : Nat) (earlier later : Visit) : Prop :=
  earlier.bound fanout ≤ later.bound fanout ∧
    (later.level = 0 → earlier.bound fanout ≤ later.first)

/-- Segments of visits whose numbers follow each other are in order. -/
theorem pairwise_flatMap {segment : Nat → List Visit} {start : Nat → Nat} (grows : Monotone start)
    (inside : ∀ index, ∀ visit ∈ segment index, start index ≤ visit.first ∧
      visit.bound fanout ≤ start (index + 1))
    (ordered : ∀ index, (segment index).Pairwise (Visit.Before fanout)) (index count : Nat) :
    ((List.range' index count).flatMap segment).Pairwise (Visit.Before fanout) := by
  induction count generalizing index with
  | zero => simp
  | succ count inductionHypothesis =>
      rw [List.range'_succ, List.flatMap_cons, List.pairwise_append]
      refine ⟨ordered index, inductionHypothesis _, fun earlier inHead later inTail => ?_⟩
      obtain ⟨other, otherMember, inOther⟩ := List.mem_flatMap.mp inTail
      obtain ⟨-, headEnds⟩ := inside index earlier inHead
      obtain ⟨tailStarts, -⟩ := inside other later inOther
      have after : start (index + 1) ≤ start other := grows (List.mem_range'_1.mp otherMember).1
      have bounded : later.first ≤ later.bound fanout := Nat.le_add_right _ _
      exact ⟨by omega, fun _ => by omega⟩

/-- Segments of visits whose numbers follow each other have no visit in common. -/
theorem nodup_flatMap {segment : Nat → List Visit} {start : Nat → Nat} (grows : Monotone start)
    (inside : ∀ index, ∀ visit ∈ segment index, start index ≤ visit.first ∧
      visit.first < start (index + 1))
    (distinct : ∀ index, (segment index).Nodup) (index count : Nat) :
    ((List.range' index count).flatMap segment).Nodup := by
  refine List.nodup_flatMap.mpr ⟨fun index _ => distinct index, ?_⟩
  refine (List.pairwise_lt_range').imp fun {earlier later} before => ?_
  rintro visit inEarlier inLater
  obtain ⟨-, ends⟩ := inside earlier visit inEarlier
  obtain ⟨starts, -⟩ := inside later visit inLater
  have after : start (earlier + 1) ≤ start later := grows before
  omega

/-- No visit is made twice. -/
theorem visits_nodup (positive : 0 < fanout) : (visits ptrs fanout level block first).Nodup := by
  induction level generalizing block first with
  | zero =>
      by_cases absent : block = 0
      · simp [absent]
      · simp [visits, absent]
  | succ level inductionHypothesis =>
      by_cases absent : block = 0
      · simp [absent]
      · simp only [visits, if_neg absent]
        have grows : Monotone fun index => first + index * fanout ^ level :=
          fun _ _ le => Nat.add_le_add_left (Nat.mul_le_mul_right _ le) _
        have room : ∀ level, 0 < fanout ^ level := fun level => Nat.pow_pos positive
        refine List.Nodup.append (nodup_flatMap grows ?_ (fun _ => inductionHypothesis) _ _)
          (List.nodup_singleton _) ?_
        · intro index visit member
          obtain ⟨-, starts, ends, -⟩ := visit_range member
          have stride : first + (index + 1) * fanout ^ level =
              first + index * fanout ^ level + fanout ^ level := by ring
          have covers := room visit.level
          simp only [Visit.bound] at ends
          exact ⟨starts, by omega⟩
        · rintro visit below isRoot
          obtain rfl := List.mem_singleton.mp isRoot
          obtain ⟨index, -, below⟩ := List.mem_flatMap.mp below
          have lower := (visit_range below).1
          dsimp only at lower
          omega

/-- The walk meets the blocks in the order of their numbers. -/
theorem visits_pairwise :
    (visits ptrs fanout level block first).Pairwise (Visit.Before fanout) := by
  induction level generalizing block first with
  | zero =>
      by_cases absent : block = 0
      · simp [absent]
      · simp [visits, absent]
  | succ level inductionHypothesis =>
      by_cases absent : block = 0
      · simp [absent]
      · simp only [visits, if_neg absent]
        have grows : Monotone fun index => first + index * fanout ^ level :=
          fun _ _ le => Nat.add_le_add_left (Nat.mul_le_mul_right _ le) _
        refine List.pairwise_append.mpr ⟨pairwise_flatMap grows ?_
          (fun _ => inductionHypothesis) _ _, List.pairwise_singleton _ _, ?_⟩
        · intro index visit member
          obtain ⟨-, starts, ends, -⟩ := visit_range member
          have stride : first + (index + 1) * fanout ^ level =
              first + index * fanout ^ level + fanout ^ level := by ring
          exact ⟨starts, ends.trans stride.ge⟩
        · intro earlier below root isRoot
          obtain rfl := List.mem_singleton.mp isRoot
          obtain ⟨index, indexMember, below⟩ := List.mem_flatMap.mp below
          have small : index < fanout := by simpa [List.mem_range'] using indexMember
          obtain ⟨-, -, ends, -⟩ := visit_range below
          have room := @entry_bound fanout level first index small
          exact ⟨ends.trans room, fun isData => by cases isData⟩

/-- If the pointers in what is left are those that led to blocks not gone, and nothing above
a block that is left has gone, then the walk over what is left leaves out the blocks gone. -/
theorem visits_pruned {gone : List Nat} (unlabelled : 0 ∉ gone)
    (cut : ∀ visit ∈ visits ptrs fanout level block first, 0 < visit.level → visit.block ∉ gone →
      ∀ index < fanout, ptrs' visit.block index =
        if ptrs visit.block index ∈ gone then 0 else ptrs visit.block index)
    (downward : ∀ visit ∈ visits ptrs fanout level block first, 0 < visit.level →
      visit.block ∈ gone → ∀ index < fanout, ptrs visit.block index ≠ 0 →
        ptrs visit.block index ∈ gone) :
    visits ptrs' fanout level (if block ∈ gone then 0 else block) first =
      (visits ptrs fanout level block first).filter (fun visit => decide (visit.block ∉ gone)) := by
  induction level generalizing block first with
  | zero =>
      by_cases absent : block = 0
      · simp [absent, unlabelled]
      · by_cases dropped : block ∈ gone
        · simp [visits, absent, dropped]
        · simp [visits, absent, dropped]
  | succ level inductionHypothesis =>
      by_cases absent : block = 0
      · simp [absent, unlabelled]
      · have below : ∀ index < fanout, ∀ visit ∈ visits ptrs fanout level (ptrs block index)
            (first + index * fanout ^ level), visit ∈ visits ptrs fanout (level + 1) block first :=
          fun index small visit member =>
            mem_visits_succ.mpr ⟨absent, .inl ⟨index, small, member⟩⟩
        have entries : ∀ index < fanout,
            visits ptrs' fanout level (if ptrs block index ∈ gone then 0 else ptrs block index)
              (first + index * fanout ^ level) =
            (visits ptrs fanout level (ptrs block index) (first + index * fanout ^ level)).filter
              (fun visit => decide (visit.block ∉ gone)) :=
          fun index small => inductionHypothesis
            (fun visit member => cut visit (below index small visit member))
            (fun visit member => downward visit (below index small visit member))
        have rootMember : (⟨block, level + 1, first⟩ : Visit) ∈
            visits ptrs fanout (level + 1) block first := root_mem_visits absent
        have filtered : (visits ptrs fanout (level + 1) block first).filter
              (fun visit => decide (visit.block ∉ gone)) =
            (List.range' 0 fanout).flatMap (fun index => visits ptrs' fanout level
              (if ptrs block index ∈ gone then 0 else ptrs block index)
              (first + index * fanout ^ level)) ++
            (if block ∈ gone then [] else [⟨block, level + 1, first⟩]) := by
          rw [visits, if_neg absent, List.filter_append, List.filter_flatMap]
          congr 1
          · refine List.flatMap_congr fun index member => ?_
            exact (entries index (by simpa [List.mem_range'] using member)).symm
          · by_cases dropped : block ∈ gone <;> simp [dropped]
        rw [filtered]
        by_cases dropped : block ∈ gone
        · have nothing : ∀ index < fanout,
              (if ptrs block index ∈ gone then 0 else ptrs block index) = 0 := by
            intro index small
            by_cases empty : ptrs block index = 0
            · simp [empty]
            · rw [if_pos (downward _ rootMember (Nat.succ_pos level) dropped index small empty)]
          rw [if_pos dropped, if_pos dropped, List.append_nil, visits_zero, eq_comm,
            List.flatMap_eq_nil_iff]
          intro index member
          rw [nothing index (by simpa [List.mem_range'] using member), visits_zero]
        · rw [if_neg dropped, if_neg dropped, visits, if_neg absent]
          congr 1
          refine List.flatMap_congr fun index member => ?_
          rw [cut _ rootMember (Nat.succ_pos level) dropped index
            (by simpa [List.mem_range'] using member)]

/-- The indices that lead to the number `nr` of a tree with `level` levels. -/
def numberPath (fanout : Nat) : Nat → Nat → List Nat
  | 0, _ => []
  | level + 1, nr => nr / fanout ^ level :: numberPath fanout level (nr % fanout ^ level)

/-- The path to what covers a number `lower` levels above the data is the beginning of the
path to the number. -/
theorem numberPath_take (lower above nr : Nat) :
    (numberPath fanout (above + lower) nr).take above =
      numberPath fanout above (nr / fanout ^ lower) := by
  induction above generalizing nr with
  | zero => simp [numberPath]
  | succ above inductionHypothesis =>
      have quotient : nr / fanout ^ lower / fanout ^ above = nr / fanout ^ (above + lower) := by
        rw [Nat.div_div_eq_div_mul, ← pow_add, Nat.add_comm lower]
      have remainder : nr % fanout ^ (above + lower) / fanout ^ lower =
          nr / fanout ^ lower % fanout ^ above := by
        rw [pow_add, Nat.mul_comm, Nat.mod_mul_right_div_self]
      rw [Nat.succ_add, numberPath, List.take_succ_cons, inductionHypothesis, numberPath, quotient,
        remainder]

/-- The path to a data block of a tree of some level has that many indices. -/
theorem length_numberPath (level nr : Nat) : (numberPath fanout level nr).length = level := by
  induction level generalizing nr with
  | zero => rfl
  | succ level inductionHypothesis => rw [numberPath, List.length_cons, inductionHypothesis]

/-- Every index on a path is within the fan-out. -/
theorem numberPath_lt {level nr : Nat} (inside : nr < fanout ^ level) :
    ∀ index ∈ numberPath fanout level nr, index < fanout := by
  induction level generalizing nr with
  | zero => simp [numberPath]
  | succ level inductionHypothesis =>
      have room : 0 < fanout ^ level := by
        by_contra none
        rw [pow_succ, Nat.eq_zero_of_not_pos none, Nat.zero_mul] at inside
        omega
      intro index member
      obtain rfl | later := List.mem_cons.mp member
      · exact Nat.div_lt_of_lt_mul (by rwa [← pow_succ])
      · exact inductionHypothesis (Nat.mod_lt _ room) index later

/-- Different numbers have different paths. -/
theorem numberPath_injective {level nr nr' : Nat} (inside : nr < fanout ^ level)
    (inside' : nr' < fanout ^ level)
    (same : numberPath fanout level nr = numberPath fanout level nr') :
    nr = nr' := by
  induction level generalizing nr nr' with
  | zero =>
      rw [pow_zero] at inside inside'
      omega
  | succ level inductionHypothesis =>
      have room : 0 < fanout ^ level := by
        by_contra none
        rw [pow_succ, Nat.eq_zero_of_not_pos none, Nat.zero_mul] at inside
        omega
      obtain ⟨quotients, rests⟩ := List.cons.inj same
      have remainders := inductionHypothesis (Nat.mod_lt nr room) (Nat.mod_lt nr' room) rests
      rw [← Nat.div_add_mod nr (fanout ^ level), ← Nat.div_add_mod nr' (fanout ^ level), quotients,
        remainders]

/-- What a path leads to is visited. -/
theorem exists_visit_of_path {path : List Nat} (short : path.length ≤ level)
    (small : ∀ index ∈ path, index < fanout) (present : follow ptrs root path ≠ 0) :
    ∃ visit ∈ visits ptrs fanout level root first,
      visit.block = follow ptrs root path ∧ visit.level + path.length = level := by
  induction path using List.reverseRecOn with
  | nil => exact ⟨_, root_mem_visits present, rfl, rfl⟩
  | append_singleton path index inductionHypothesis =>
      rw [List.length_append, List.length_singleton] at short
      have before := follow_ne_zero_of_snoc present
      obtain ⟨visit, member, reached, level_eq⟩ := inductionHypothesis (by omega)
        (fun other inPath => small other (List.mem_append_left _ inPath)) before
      rw [follow_snoc, hop, if_neg before, ← reached] at present ⊢
      refine ⟨_, entry_mem_visits member (show visit.level = level - (path.length + 1) + 1 by omega)
        (small index (by simp)) present, rfl, ?_⟩
      simp only [List.length_append, List.length_singleton]
      omega

/-- At its own level a tree has its root alone. -/
theorem eq_root_of_level (member : visit ∈ visits ptrs fanout level root first)
    (top : visit.level = level) : visit = ⟨root, level, first⟩ := by
  cases level with
  | zero =>
      by_cases absent : root = 0
      · simp [absent] at member
      · simpa [visits, absent] using member
  | succ level =>
      obtain ⟨-, ⟨index, -, below⟩ | isRoot⟩ := mem_visits_succ.mp member
      · have bounded := (visit_range below).1
        omega
      · exact isRoot

/-- The blocks are met where the paths to what they cover lead. -/
theorem mem_visits_iff (positive : 0 < fanout) {lower above nr : Nat} :
    ⟨block, lower, first + nr * fanout ^ lower⟩ ∈ visits ptrs fanout (above + lower) root first ↔
      nr < fanout ^ above ∧ block ≠ 0 ∧ follow ptrs root (numberPath fanout above nr) = block := by
  have room : ∀ level, 0 < fanout ^ level := fun level => Nat.pow_pos positive
  induction above generalizing root first nr with
  | zero =>
      rw [Nat.zero_add, numberPath, follow_nil, pow_zero, Nat.lt_one_iff]
      constructor
      · intro member
        have isRoot := eq_root_of_level member rfl
        rw [Visit.mk.injEq] at isRoot
        obtain ⟨rfl, -, sameFirst⟩ := isRoot
        have zero : nr * fanout ^ lower = 0 := by omega
        exact ⟨(Nat.mul_eq_zero.mp zero).resolve_right (room lower).ne', block_ne_zero member, rfl⟩
      · rintro ⟨rfl, present, rfl⟩
        rw [Nat.zero_mul, Nat.add_zero]
        exact root_mem_visits present
  | succ above inductionHypothesis =>
      have stepped : ∀ index rest, root ≠ 0 →
          follow ptrs root (index :: rest) = follow ptrs (ptrs root index) rest := by
        intro index rest present
        simp [follow, hop, present]
      rw [Nat.succ_add]
      constructor
      · intro member
        obtain ⟨present, ⟨index, small, below⟩ | isRoot⟩ := mem_visits_succ.mp member
        · obtain ⟨-, starts, ends, -⟩ := visit_range below
          simp only [Visit.bound, pow_add, ← Nat.mul_assoc] at starts ends
          have low : index * fanout ^ above ≤ nr := by
            have scaled : index * fanout ^ above * fanout ^ lower ≤ nr * fanout ^ lower := by omega
            exact Nat.le_of_mul_le_mul_right scaled (room lower)
          obtain ⟨rest, rfl⟩ := Nat.exists_eq_add_of_le low
          have shift : first + (index * fanout ^ above + rest) * fanout ^ lower =
              first + index * fanout ^ (above + lower) + rest * fanout ^ lower := by ring
          rw [shift] at below
          obtain ⟨inside, notZero, reached⟩ := inductionHypothesis.mp below
          have quotient : (index * fanout ^ above + rest) / fanout ^ above = index := by
            rw [Nat.mul_comm, Nat.mul_add_div (room above), Nat.div_eq_of_lt inside, Nat.add_zero]
          have remainder : (index * fanout ^ above + rest) % fanout ^ above = rest := by
            rw [Nat.mul_comm, Nat.mul_add_mod, Nat.mod_eq_of_lt inside]
          refine ⟨?_, notZero, ?_⟩
          · have bounded := @entry_bound fanout above 0 index small
            omega
          · rw [numberPath, quotient, remainder, stepped _ _ present, reached]
        · rw [Visit.mk.injEq] at isRoot
          omega
      · rintro ⟨small, notZero, reached⟩
        have present : root ≠ 0 := by
          rintro rfl
          rw [follow_zero] at reached
          exact notZero reached.symm
        rw [numberPath, stepped _ _ present] at reached
        have below := (@inductionHypothesis (ptrs root (nr / fanout ^ above))
          (first + nr / fanout ^ above * fanout ^ (above + lower)) (nr % fanout ^ above)).mpr
            ⟨Nat.mod_lt _ (room above), notZero, reached⟩
        have sum : first + nr / fanout ^ above * fanout ^ (above + lower) +
            nr % fanout ^ above * fanout ^ lower = first + nr * fanout ^ lower := by
          have division := Nat.div_add_mod nr (fanout ^ above)
          calc first + nr / fanout ^ above * fanout ^ (above + lower) +
                nr % fanout ^ above * fanout ^ lower
              = first + (fanout ^ above * (nr / fanout ^ above) + nr % fanout ^ above) *
                  fanout ^ lower := by ring
            _ = first + nr * fanout ^ lower := by rw [division]
        rw [sum] at below
        refine mem_visits_succ.mpr ⟨present, .inl ⟨nr / fanout ^ above, ?_, below⟩⟩
        exact Nat.div_lt_of_lt_mul (by rwa [← pow_succ])

/-- The data blocks are met where the paths to their numbers lead. -/
theorem mem_visits_data (positive : 0 < fanout) {nr : Nat} :
    ⟨block, 0, first + nr⟩ ∈ visits ptrs fanout level root first ↔
      nr < fanout ^ level ∧ block ≠ 0 ∧ follow ptrs root (numberPath fanout level nr) = block := by
  have data := @mem_visits_iff ptrs fanout root block first positive 0 level nr
  rwa [pow_zero, Nat.mul_one] at data

end Visits

/-- The visits of the tree below `block` with every block before what is below it. -/
def preorder (ptrs : Nat → Nat → Nat) (fanout : Nat) : Nat → Nat → Nat → List Visit
  | 0, block, first => if block = 0 then [] else [⟨block, 0, first⟩]
  | level + 1, block, first =>
      if block = 0 then []
      else
        ⟨block, level + 1, first⟩ :: (List.range' 0 fanout).flatMap (fun index =>
          preorder ptrs fanout level (ptrs block index) (first + index * fanout ^ level))

section Preorder

variable {ptrs ptrs' : Nat → Nat → Nat} {fanout level block first : Nat}

@[simp] theorem preorder_zero : preorder ptrs fanout level 0 first = [] := by
  cases level <;> simp [preorder]

/-- Both orders meet the same blocks. -/
theorem preorder_perm : (preorder ptrs fanout level block first).Perm
    (visits ptrs fanout level block first) := by
  induction level generalizing block first with
  | zero => exact List.Perm.refl _
  | succ level inductionHypothesis =>
      by_cases absent : block = 0
      · simp [absent]
      · rw [preorder, visits, if_neg absent, if_neg absent]
        refine List.Perm.trans ?_ (List.perm_append_singleton _ _).symm
        exact (List.Perm.flatMap_left _ fun _ _ => inductionHypothesis).cons _

/-- The walk depends on the pointers in the blocks it meets only. -/
theorem preorder_congr (same : ∀ visit ∈ preorder ptrs fanout level block first, 0 < visit.level →
    ∀ index < fanout, ptrs' visit.block index = ptrs visit.block index) :
    preorder ptrs' fanout level block first = preorder ptrs fanout level block first := by
  induction level generalizing block first with
  | zero => rfl
  | succ level inductionHypothesis =>
      by_cases absent : block = 0
      · simp [absent]
      · have root := same ⟨block, level + 1, first⟩ (by simp [preorder, absent])
          (Nat.succ_pos level)
        simp only [preorder, if_neg absent]
        congr 1
        refine List.flatMap_congr fun index member => ?_
        rw [root index (by simpa [List.mem_range'] using member)]
        refine inductionHypothesis fun visit below => same visit ?_
        rw [preorder, if_neg absent]
        exact List.mem_cons_of_mem _ (List.mem_flatMap.mpr ⟨index, member, below⟩)

end Preorder

/-- What decides visit by visit: which blocks it drops, and what it remembers. -/
structure Selector (ρ : Type) where
  drops : ρ → Visit → Bool
  next : ρ → Visit → ρ

namespace Selector

variable {ρ : Type} (selector : Selector ρ)

/-- What the selector remembers after some visits. -/
def after (memory : ρ) (seen : List Visit) : ρ := seen.foldl selector.next memory

/-- The visits whose blocks it drops, in order. -/
def dropped : ρ → List Visit → List Visit
  | _, [] => []
  | memory, visit :: rest =>
      if selector.drops memory visit then visit :: dropped (selector.next memory visit) rest
      else dropped (selector.next memory visit) rest

variable {selector} {memory : ρ}

@[simp] theorem after_append (seen later : List Visit) :
    selector.after memory (seen ++ later) = selector.after (selector.after memory seen) later := by
  simp [after]

@[simp] theorem dropped_append (seen later : List Visit) :
    selector.dropped memory (seen ++ later) =
      selector.dropped memory seen ++ selector.dropped (selector.after memory seen) later := by
  induction seen generalizing memory with
  | nil => rfl
  | cons visit seen inductionHypothesis =>
      simp only [List.cons_append, dropped, inductionHypothesis, after, List.foldl_cons]
      split <;> rfl

/-- What a selector drops is taken out of the visits in their order. -/
theorem dropped_sublist (seen : List Visit) : (selector.dropped memory seen).Sublist seen := by
  induction seen generalizing memory with
  | nil => exact List.Sublist.slnil
  | cons visit seen inductionHypothesis =>
      simp only [dropped]
      split
      · exact inductionHypothesis.cons_cons visit
      · exact inductionHypothesis.cons visit

/-- A visit is dropped if the selector says so after what came before it. -/
theorem mem_dropped {seen : List Visit} {visit : Visit} :
    visit ∈ selector.dropped memory seen ↔ ∃ earlier later, seen = earlier ++ visit :: later ∧
      selector.drops (selector.after memory earlier) visit = true := by
  constructor
  · intro member
    induction seen generalizing memory with
    | nil => cases member
    | cons head seen inductionHypothesis =>
        have rest : visit ∈ selector.dropped (selector.next memory head) seen →
            ∃ earlier later, head :: seen = earlier ++ visit :: later ∧
              selector.drops (selector.after memory earlier) visit = true := by
          intro inRest
          obtain ⟨earlier, later, rfl, drops⟩ := inductionHypothesis inRest
          exact ⟨head :: earlier, later, rfl, drops⟩
        simp only [dropped] at member
        split at member
        · rename_i drops
          obtain rfl | inRest := List.mem_cons.mp member
          · exact ⟨[], seen, rfl, drops⟩
          · exact rest inRest
        · exact rest member
  · rintro ⟨earlier, later, rfl, drops⟩
    rw [dropped_append, List.mem_append]
    exact .inr (by simp [dropped, drops])

/-- A block is dropped if one of its visits is. -/
theorem mem_dropped_blocks {seen : List Visit}
    (apart : (seen.map Visit.block).Nodup) {visit : Visit}
    (member : visit ∈ seen) : visit.block ∈ (selector.dropped memory seen).map Visit.block ↔
      visit ∈ selector.dropped memory seen := by
  constructor
  · intro inBlocks
    obtain ⟨other, inDropped, same⟩ := List.mem_map.mp inBlocks
    rwa [← List.inj_on_of_nodup_map apart ((dropped_sublist seen).subset inDropped) member same]
  · exact List.mem_map_of_mem

/-- What is left and what is dropped make up all visits. -/
theorem length_left {seen : List Visit} (apart : (seen.map Visit.block).Nodup) :
    (seen.filter fun visit =>
        decide (visit.block ∉ (selector.dropped memory seen).map Visit.block)).length +
      (selector.dropped memory seen).length = seen.length := by
  have visitsApart : seen.Nodup := List.Nodup.of_map _ apart
  have same : (seen.filter fun visit =>
        decide (visit.block ∈ (selector.dropped memory seen).map Visit.block)).Perm
      (selector.dropped memory seen) := by
    refine (List.perm_ext_iff_of_nodup (visitsApart.filter _)
      (visitsApart.sublist (dropped_sublist seen))).mpr fun visit => ?_
    rw [List.mem_filter, decide_eq_true_eq]
    constructor
    · rintro ⟨member, inBlocks⟩
      exact (mem_dropped_blocks apart member).mp inBlocks
    · intro inDropped
      exact ⟨(dropped_sublist seen).subset inDropped, List.mem_map_of_mem inDropped⟩
  rw [← same.length_eq, Nat.add_comm]
  simp only [decide_not]
  exact (List.length_eq_length_filter_add _).symm

/-- The selector with a record of the blocks it drops. -/
def logged (selector : Selector ρ) : Selector (ρ × List Nat) where
  drops memory visit := selector.drops memory.1 visit
  next memory visit := (selector.next memory.1 visit,
    if selector.drops memory.1 visit then memory.2 ++ [visit.block] else memory.2)

/-- The record has the blocks dropped, in order. -/
theorem logged_after (log : List Nat) (seen : List Visit) :
    selector.logged.after (memory, log) seen =
      (selector.after memory seen, log ++ (selector.dropped memory seen).map Visit.block) := by
  induction seen generalizing memory log with
  | nil => simp [after, dropped]
  | cons visit seen inductionHypothesis =>
      have step : selector.logged.after (memory, log) (visit :: seen) =
          selector.logged.after (selector.next memory visit,
            if selector.drops memory visit then log ++ [visit.block] else log) seen := rfl
      have rest : selector.after memory (visit :: seen) =
        selector.after (selector.next memory visit) seen := rfl
      rw [step, inductionHypothesis, rest, dropped]
      split
      · rw [List.map_cons, List.append_assoc, List.singleton_append]
      · rfl

/-- Keeping a log beside the memory changes nothing about what is dropped. -/
theorem logged_dropped (log : List Nat) (seen : List Visit) :
    selector.logged.dropped (memory, log) seen = selector.dropped memory seen := by
  induction seen generalizing memory log with
  | nil => rfl
  | cons visit seen inductionHypothesis =>
      have step : selector.logged.next (memory, log) visit = (selector.next memory visit,
        if selector.drops memory visit then log ++ [visit.block] else log) := rfl
      rw [dropped, dropped, step, inductionHypothesis]
      rfl

end Selector

end Ext2Fuse.Lib
