import Mathlib.Logic.Function.Iterate

/-!
# Parent maps

A tree given by a parent map: a node is rooted when going from parent to parent leads
to the root. Hanging a subtree somewhere else, outside of itself, keeps every node
rooted.
-/

namespace Ext2Fuse.Lib

variable {α : Type} {parent : α → α} {root node moved target : α}

/-- Going up from `node` leads to `above`. -/
def Under (parent : α → α) (above node : α) : Prop := ∃ steps, parent^[steps] node = above

/-- Going up from `node` leads to the root. -/
abbrev Rooted (parent : α → α) (root node : α) : Prop := Under parent root node

/-- Every node is under itself. -/
theorem Under.refl (parent : α → α) (node : α) : Under parent node node := ⟨0, rfl⟩

/-- A node is under whatever its parent is under. -/
theorem Under.of_parent {above : α} (under : Under parent above (parent node)) :
    Under parent above node := by
  obtain ⟨steps, reaches⟩ := under
  exact ⟨steps + 1, by rwa [Function.iterate_succ_apply]⟩

/-- What holds of the root and passes from a parent to its children holds of every
rooted node. -/
theorem Rooted.induct {motive : α → Prop} (rooted : Rooted parent root node)
    (base : motive root) (step : ∀ node, node ≠ root → Rooted parent root (parent node) →
      motive (parent node) → motive node) : motive node := by
  obtain ⟨steps, reaches⟩ := rooted
  induction steps generalizing node with
  | zero =>
      obtain rfl : node = root := reaches
      exact base
  | succ steps inductionHypothesis =>
      rw [Function.iterate_succ_apply] at reaches
      by_cases atRoot : node = root
      · exact atRoot ▸ base
      · exact step node atRoot ⟨steps, reaches⟩ (inductionHypothesis reaches)

section Move

variable [DecidableEq α]

/-- The way up from a node outside the moved subtree stays the same. -/
theorem Rooted.update_of_not_under (rooted : Rooted parent root node)
    (outside : ¬ Under parent moved node) :
    Rooted (Function.update parent moved target) root node := by
  refine rooted.induct (motive := fun node => ¬ Under parent moved node →
    Rooted (Function.update parent moved target) root node) (fun _ => Under.refl _ _) ?_ outside
  intro node _ _ continues outside
  have different : node ≠ moved := fun same => outside (same ▸ Under.refl _ _)
  refine Under.of_parent ?_
  rw [Function.update_of_ne different]
  exact continues fun under => outside under.of_parent

/-- Moving a subtree below a rooted node that is not inside it keeps every node rooted. -/
theorem Rooted.update (rooted : Rooted parent root node) (targetRooted : Rooted parent root target)
    (outside : ¬ Under parent moved target) :
    Rooted (Function.update parent moved target) root node := by
  refine rooted.induct (Under.refl _ _) fun node _ _ continues => Under.of_parent ?_
  by_cases isMoved : node = moved
  · subst isMoved
    rw [Function.update_self]
    exact targetRooted.update_of_not_under outside
  · rwa [Function.update_of_ne isMoved]

end Move

end Ext2Fuse.Lib
