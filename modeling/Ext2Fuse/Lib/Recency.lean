import Mathlib.Data.List.Nodup

/-!
# Lists by recency

Items in the order they were used in, the last one first. A cache of so many items that makes
room by giving up what was not used for longest has the first ones of the list: when an item is
used that is among them it moves to the front, and another one pushes out the last.
-/

namespace Ext2Fuse.Lib

namespace Recency

variable {α : Type*} [DecidableEq α] {used : List α} {item : α} {room : Nat}

/-- Use an item. -/
def use (used : List α) (item : α) : List α := item :: used.erase item

/-- Using an item keeps the list of uses free of doubles. -/
theorem nodup_use (nodup : used.Nodup) : (use used item).Nodup :=
  List.nodup_cons.mpr ⟨fun member => (nodup.mem_erase_iff.mp member).1 rfl, nodup.erase item⟩

/-- An item behind the first ones may go without their changing. -/
theorem take_erase_of_notMem (absent : item ∉ used.take room) :
    (used.erase item).take room = used.take room := by
  induction used generalizing room with
  | nil => rfl
  | cons first rest inductionHypothesis =>
      cases room with
      | zero => rfl
      | succ room =>
          rw [List.take_succ_cons, List.mem_cons, not_or] at absent
          rw [List.erase_cons_tail (by simpa using Ne.symm absent.1), List.take_succ_cons,
            List.take_succ_cons, inductionHypothesis absent.2]

/-- An item among the first ones makes room for one more of the others. -/
theorem take_erase_of_mem (present : item ∈ used.take (room + 1)) :
    (used.erase item).take room = (used.take (room + 1)).erase item := by
  induction used generalizing room with
  | nil => simp
  | cons first rest inductionHypothesis =>
      rw [List.take_succ_cons] at present ⊢
      by_cases here : first = item
      · subst here
        rw [List.erase_cons_head, List.erase_cons_head]
      · have later : item ∈ rest.take room := (List.mem_cons.mp present).resolve_left (Ne.symm here)
        rw [List.erase_cons_tail (by simpa using here), List.erase_cons_tail (by simpa using here)]
        cases room with
        | zero => simp at later
        | succ room => rw [List.take_succ_cons, inductionHypothesis later]

/-- Using an item that is kept moves it to the front of what is kept. -/
theorem take_use_of_mem (present : item ∈ used.take (room + 1)) :
    (use used item).take (room + 1) = use (used.take (room + 1)) item := by
  rw [use, List.take_succ_cons, take_erase_of_mem present, use]

/-- Using another item gives up the last one that is kept, if all room is taken. -/
theorem take_use_of_notMem (absent : item ∉ used.take (room + 1)) :
    (use used item).take (room + 1) = item :: used.take room := by
  have behind : item ∉ used.take room :=
    fun member => absent (List.take_subset_take_left used (Nat.le_succ room) member)
  rw [use, List.take_succ_cons, take_erase_of_notMem behind]

end Recency

end Ext2Fuse.Lib
