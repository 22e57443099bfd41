import Mathlib.Logic.Function.Basic
import Mathlib.Data.List.Induction

/-!
# Forests of pointer blocks

Blocks that hold pointers to blocks, with trees of a bounded depth hanging from places
outside: a block is found by its place and the path of indices to it. A forest is
planted when every block has one such address at most, and every block in it passes a
test (it is owned). Trees grow by storing a fresh block, empty of pointers, where there
was none, and they are cut by clearing a pointer or a root.
-/

namespace Ext2Fuse.Lib

/-- One pointer further; behind 0 there is nothing. -/
def hop (ptrs : Nat → Nat → Nat) (block index : Nat) : Nat :=
  if block = 0 then 0 else ptrs block index

/-- The block at the end of a path from a root. -/
def follow (ptrs : Nat → Nat → Nat) (root : Nat) (path : List Nat) : Nat :=
  path.foldl (hop ptrs) root

section Follow

variable {ptrs ptrs' : Nat → Nat → Nat} {root : Nat}

@[simp] theorem follow_nil : follow ptrs root [] = root := rfl

@[simp] theorem follow_snoc (path : List Nat) (index : Nat) :
    follow ptrs root (path ++ [index]) = hop ptrs (follow ptrs root path) index := by
  simp [follow]

/-- Following two paths in a row is following their concatenation. -/
theorem follow_append (path rest : List Nat) :
    follow ptrs root (path ++ rest) = follow ptrs (follow ptrs root path) rest := by
  simp [follow]

@[simp] theorem follow_zero (path : List Nat) : follow ptrs 0 path = 0 := by
  induction path using List.reverseRecOn with
  | nil => rfl
  | append_singleton path index inductionHypothesis => simp [inductionHypothesis, hop]

/-- On the way to a block there are blocks only. -/
theorem follow_ne_zero_of_snoc {path : List Nat} {index : Nat}
    (reached : follow ptrs root (path ++ [index]) ≠ 0) : follow ptrs root path ≠ 0 := by
  intro zero
  rw [follow_snoc, zero] at reached
  exact reached rfl

end Follow

/-- Trees of a bounded depth and fanout that hang from places. -/
structure Shape (σ : Type) where
  depth : σ → Nat
  fanout : Nat

/-- The place and path of a block that the shape allows. -/
def Shape.Addr {σ : Type} (shape : Shape σ) (place : σ) (path : List Nat) : Prop :=
  path.length ≤ shape.depth place ∧ ∀ index ∈ path, index < shape.fanout

/-- Every block has one address at most, and is owned. -/
structure Planted {σ : Type} (shape : Shape σ) (owned : Nat → Prop) (ptrs : Nat → Nat → Nat)
    (root : σ → Nat) : Prop where
  owned : ∀ place path, shape.Addr place path → follow ptrs (root place) path ≠ 0 →
    owned (follow ptrs (root place) path)
  separate : ∀ place path place' path', shape.Addr place path → shape.Addr place' path' →
    follow ptrs (root place) path = follow ptrs (root place') path' →
    follow ptrs (root place) path ≠ 0 → place = place' ∧ path = path'

namespace Shape.Addr

variable {σ : Type} {shape : Shape σ} {place : σ} {path : List Nat} {index : Nat}

/-- The empty path is an address of every place. -/
theorem nil : shape.Addr place [] := ⟨Nat.zero_le _, by simp⟩

/-- What a longer address says of its prefix and of its last index. -/
theorem of_snoc (addr : shape.Addr place (path ++ [index])) :
    shape.Addr place path ∧ path.length < shape.depth place ∧ index < shape.fanout := by
  obtain ⟨short, small⟩ := addr
  rw [List.length_append, List.length_singleton] at short
  exact ⟨⟨by omega, fun other member => small other (List.mem_append_left _ member)⟩, short,
    small index (by simp)⟩

/-- An address of an inner node extends by any index of its fan-out. -/
theorem snoc (addr : shape.Addr place path) (inner : path.length < shape.depth place)
    (small : index < shape.fanout) : shape.Addr place (path ++ [index]) := by
  refine ⟨by rw [List.length_append]; exact inner, fun other member => ?_⟩
  obtain inPath | rfl := by simpa using member
  · exact addr.2 other inPath
  · exact small

end Shape.Addr

namespace Planted

variable {σ : Type} {shape : Shape σ} {owned : Nat → Prop} {ptrs ptrs' : Nat → Nat → Nat}
  {root : σ → Nat} {place : σ} {path : List Nat} {index fresh : Nat}

/-- The addresses stay the same as long as the pointers in the blocks with room below
them do. -/
theorem follow_congr (same : ∀ path, shape.Addr place path →
      path.length < shape.depth place → follow ptrs (root place) path ≠ 0 →
      ∀ index < shape.fanout, ptrs' (follow ptrs (root place) path) index =
        ptrs (follow ptrs (root place) path) index)
    (addr : shape.Addr place path) :
    follow ptrs' (root place) path = follow ptrs (root place) path := by
  induction path using List.reverseRecOn with
  | nil => rfl
  | append_singleton path index inductionHypothesis =>
      obtain ⟨before, inner, small⟩ := addr.of_snoc
      rw [follow_snoc, follow_snoc, inductionHypothesis before]
      simp only [hop]
      split
      · rfl
      · exact same path before inner ‹_› index small

/-- Being planted depends on the pointers of the inner nodes reached alone. -/
theorem congr (planted : Planted shape owned ptrs root)
    (same : ∀ place path, shape.Addr place path → path.length < shape.depth place →
      follow ptrs (root place) path ≠ 0 → ∀ index < shape.fanout,
        ptrs' (follow ptrs (root place) path) index = ptrs (follow ptrs (root place) path) index) :
    Planted shape owned ptrs' root := by
  refine ⟨?_, ?_⟩
  · intro place path addr
    rw [follow_congr (same place) addr]
    exact planted.owned place path addr
  · intro place path place' path' addr addr'
    rw [follow_congr (same place) addr, follow_congr (same place') addr']
    exact planted.separate place path place' path' addr addr'

section Grow

variable [DecidableEq σ] {root' : σ → Nat}

/-- The forest has the block `fresh` at one address, where it had none, and is
otherwise the same. -/
def Grown (shape : Shape σ) (ptrs ptrs' : Nat → Nat → Nat) (root root' : σ → Nat) (place : σ)
    (path : List Nat) (fresh : Nat) : Prop :=
  ∀ place' path', shape.Addr place' path' → follow ptrs' (root' place') path' =
    if place' = place ∧ path' = path then fresh else follow ptrs (root place') path'

/-- A root that was 0 is set to a fresh block without pointers. -/
theorem grown_root (empty : root place = 0)
    (blank : ∀ index < shape.fanout, ptrs' fresh index = 0)
    (same : ∀ place path, shape.Addr place path → follow ptrs (root place) path ≠ 0 →
      ∀ index < shape.fanout, ptrs' (follow ptrs (root place) path) index =
        ptrs (follow ptrs (root place) path) index) :
    Grown shape ptrs ptrs' root (Function.update root place fresh) place [] fresh := by
  intro place' path' addr
  induction path' using List.reverseRecOn with
  | nil =>
      by_cases here : place' = place
      · simp [here]
      · simp [here]
  | append_singleton path' index inductionHypothesis =>
      obtain ⟨before, inner, small⟩ := addr.of_snoc
      have longer : ¬ (place' = place ∧ path' ++ [index] = []) := by simp
      rw [if_neg longer, follow_snoc, follow_snoc, inductionHypothesis before]
      by_cases atNew : place' = place ∧ path' = []
      · obtain ⟨rfl, rfl⟩ := atNew
        simp [hop, blank index small, empty]
      · rw [if_neg atNew]
        simp only [hop]
        split
        · rfl
        · exact same place' path' before ‹_› index small

/-- A pointer that was 0 is set to a fresh block without pointers. -/
theorem grown_ptr (planted : Planted shape owned ptrs root) (addr : shape.Addr place path)
    (reached : follow ptrs (root place) path ≠ 0)
    (empty : ptrs (follow ptrs (root place) path) index = 0)
    (blank : ∀ index < shape.fanout, ptrs' fresh index = 0)
    (stored : ptrs' (follow ptrs (root place) path) index = fresh)
    (others : ∀ other < shape.fanout, other ≠ index →
      ptrs' (follow ptrs (root place) path) other = ptrs (follow ptrs (root place) path) other)
    (same : ∀ place' path', shape.Addr place' path' → follow ptrs (root place') path' ≠ 0 →
      follow ptrs (root place') path' ≠ follow ptrs (root place) path → ∀ index < shape.fanout,
        ptrs' (follow ptrs (root place') path') index =
          ptrs (follow ptrs (root place') path') index) :
    Grown shape ptrs ptrs' root root place (path ++ [index]) fresh := by
  intro place' path' addr'
  induction path' using List.reverseRecOn with
  | nil => simp
  | append_singleton path' index' inductionHypothesis =>
      obtain ⟨before, inner, small⟩ := addr'.of_snoc
      rw [follow_snoc, follow_snoc, inductionHypothesis before]
      by_cases atNew : place' = place ∧ path' = path ++ [index]
      · -- below the fresh block there is nothing, as there was nothing before
        obtain ⟨rfl, rfl⟩ := atNew
        rw [if_pos ⟨rfl, rfl⟩, if_neg (by simp), follow_snoc]
        have nothing : hop ptrs (follow ptrs (root place') path) index = 0 := by
          simp [hop, reached, empty]
        rw [nothing]
        simp [hop, blank index' small]
      · rw [if_neg atNew]
        by_cases absent : follow ptrs (root place') path' = 0
        · rw [if_neg ?_]
          · simp [hop, absent]
          · rintro ⟨rfl, samePath⟩
            obtain ⟨rfl, -⟩ := List.append_inj' samePath rfl
            exact reached absent
        · by_cases atParent : follow ptrs (root place') path' = follow ptrs (root place) path
          · obtain ⟨rfl, rfl⟩ := planted.separate _ _ _ _ before addr atParent absent
            simp only [hop, absent, if_false]
            by_cases sameIndex : index' = index
            · simp [sameIndex, stored]
            · rw [if_neg (by simp [sameIndex])]
              exact others index' small sameIndex
          · rw [if_neg ?_]
            · simp only [hop, absent, if_false]
              exact same place' path' before absent atParent index' small
            · rintro ⟨rfl, samePath⟩
              obtain ⟨rfl, -⟩ := List.append_inj' samePath rfl
              exact atParent rfl

/-- A grown forest is planted, the fresh block being owned now. -/
theorem grow {owned' : Nat → Prop} (planted : Planted shape owned ptrs root)
    (grown : Grown shape ptrs ptrs' root root' place path fresh)
    (unowned : ¬ owned fresh) (more : ∀ block, owned block → owned' block)
    (freshOwned : owned' fresh) : Planted shape owned' ptrs' root' := by
  refine ⟨?_, ?_⟩
  · intro place' path' addr
    rw [grown place' path' addr]
    split
    · exact fun _ => freshOwned
    · exact fun reached => more _ (planted.owned place' path' addr reached)
  · intro first firstPath second secondPath firstAddr secondAddr
    rw [grown first firstPath firstAddr, grown second secondPath secondAddr]
    split
    · rename_i atFirst
      split
      · rename_i atSecond
        obtain ⟨rfl, rfl⟩ := atFirst
        obtain ⟨rfl, rfl⟩ := atSecond
        exact fun _ _ => ⟨rfl, rfl⟩
      · intro equal notZero
        exact absurd (planted.owned second secondPath secondAddr (equal ▸ notZero))
          (equal ▸ unowned)
    · split
      · intro equal notZero
        exact absurd (planted.owned first firstPath firstAddr notZero) (equal ▸ unowned)
      · exact planted.separate first firstPath second secondPath firstAddr secondAddr

end Grow

section Prune

variable {root' : σ → Nat} {gone : Nat → Prop}

/-- Some blocks are gone: what pointed to them is cleared, and of the other pointers some may be.
What an address still leads to, it led to before. -/
theorem follow_pruned
    (roots : ∀ place, root' place = 0 ∨ root' place = root place ∧ ¬ gone (root place))
    (entries : ∀ place path, shape.Addr place path → path.length < shape.depth place →
      follow ptrs (root place) path ≠ 0 → ¬ gone (follow ptrs (root place) path) →
      ∀ index < shape.fanout, ptrs' (follow ptrs (root place) path) index = 0 ∨
        ptrs' (follow ptrs (root place) path) index = ptrs (follow ptrs (root place) path) index ∧
          ¬ gone (ptrs (follow ptrs (root place) path) index))
    (addr : shape.Addr place path) :
    follow ptrs' (root' place) path = 0 ∨
      follow ptrs' (root' place) path = follow ptrs (root place) path ∧
        ¬ gone (follow ptrs (root place) path) := by
  induction path using List.reverseRecOn with
  | nil => exact roots place
  | append_singleton path index inductionHypothesis =>
      obtain ⟨before, inner, small⟩ := addr.of_snoc
      rw [follow_snoc, follow_snoc]
      obtain absent | ⟨same, kept⟩ := inductionHypothesis before
      · exact .inl (by simp [hop, absent])
      · by_cases absent : follow ptrs (root place) path = 0
        · exact .inl (by simp [hop, same, absent])
        · rw [same]
          simp only [hop, absent, if_false]
          exact entries place path before inner absent kept index small

/-- A forest stays planted when some nodes are taken out and no node left is one of them. -/
theorem pruned {owned' : Nat → Prop} (planted : Planted shape owned ptrs root)
    (left : ∀ place path, shape.Addr place path → follow ptrs' (root' place) path = 0 ∨
      follow ptrs' (root' place) path = follow ptrs (root place) path ∧
        ¬ gone (follow ptrs (root place) path))
    (kept : ∀ block, owned block → ¬ gone block → owned' block) :
    Planted shape owned' ptrs' root' := by
  refine ⟨?_, ?_⟩
  · intro place path addr present
    obtain absent | ⟨same, stays⟩ := left place path addr
    · exact absurd absent present
    · rw [same] at present ⊢
      exact kept _ (planted.owned place path addr present) stays
  · intro place path place' path' addr addr' equal present
    obtain absent | ⟨same, -⟩ := left place path addr
    · exact absurd absent present
    obtain absent | ⟨same', -⟩ := left place' path' addr'
    · exact absurd (equal.trans absent) present
    rw [same, same'] at equal
    rw [same] at present
    exact planted.separate place path place' path' addr addr' equal present

end Prune

end Planted

end Ext2Fuse.Lib
