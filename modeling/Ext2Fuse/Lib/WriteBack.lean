import Mathlib.Data.Set.Function
import Mathlib.Data.Set.Lattice
import Mathlib.Logic.Pairwise
import Mathlib.Order.CompletePartialOrder

/-!
# Write-back caches

A cache keeps lines in front of a store. A line stands for some addresses, and for none while it
is unused; a dirty line knows values the store has yet to be told. `Coherent` relates a cache to
the plain memory it stands for, up to addresses nothing is promised about. `Sealed` says that an
area of the store is out of the reach of every line that is still to be written back. `Serves` is
the contract of an operation: what it writes, and that it disturbs neither relation elsewhere.
-/

namespace Ext2Fuse.Lib

open Set

/-- One line of a cache. -/
structure Line (α β : Type*) where
  covers : Set α
  holds : α → β
  dirty : Prop

/-- The lines of a cache and the store behind them. -/
structure WriteBack (ι α β : Type*) where
  lines : ι → Line α β
  store : α → β

namespace WriteBack

variable {ι α β : Type*} {cache before middle after : WriteBack ι α β}
  {stale stale' area written writtenToo : Set α} {plain plain' pattern : α → β} {slot : ι}

/-- The cache stands for `plain`, except at the `stale` addresses. -/
structure Coherent (cache : WriteBack ι α β) (stale : Set α) (plain : α → β) : Prop where
  apart : ∀ slot other, slot ≠ other → Disjoint (cache.lines slot).covers (cache.lines other).covers
  held : ∀ slot, EqOn (cache.lines slot).holds plain ((cache.lines slot).covers \ stale)
  behind : ∀ address, address ∉ stale →
    (∀ slot, (cache.lines slot).dirty → address ∉ (cache.lines slot).covers) →
    cache.store address = plain address

/-- The store holds `pattern` on the area, and no line to be written back covers any of it. -/
structure Sealed (cache : WriteBack ι α β) (area : Set α) (pattern : α → β) : Prop where
  covered : ∀ slot, (cache.lines slot).dirty → Disjoint (cache.lines slot).covers area
  stored : EqOn cache.store pattern area

/-- The contract of an operation on a cache that writes to the addresses `written`, to the
`effect` that writing has on a plain memory. The store is left alone or told what the cache stands
for, before or after the write. -/
structure Serves (before after : WriteBack ι α β) (written : Set α)
    (effect : (α → β) → α → β) : Prop where
  coherent : ∀ {stale : Set α} {plain : α → β}, before.Coherent stale plain →
    after.Coherent (stale \ written) (effect plain)
  keeps : ∀ {area : Set α} {pattern : α → β}, Disjoint area written → before.Sealed area pattern →
    after.Sealed area pattern
  between : ∀ {stale : Set α} {plain : α → β}, before.Coherent stale plain →
    ∀ address, address ∉ stale →
    after.store address = before.store address ∨ after.store address = plain address ∨
      after.store address = effect plain address

/-- An operation that writes nothing: it moves lines about. -/
abbrev Quiet (before after : WriteBack ι α β) : Prop := Serves before after ∅ id

/-- One operation after the other, where no address is written to twice with different values. -/
theorem Serves.trans {effect effectToo : (α → β) → α → β}
    (first : Serves before middle written effect)
    (second : Serves middle after writtenToo effectToo)
    (once : ∀ plain address, effect plain address = plain address ∨
      effectToo (effect plain) address = effect plain address) :
    Serves before after (written ∪ writtenToo) (effectToo ∘ effect) where
  coherent coherent := by
    rw [← sdiff_sdiff]
    exact second.coherent (first.coherent coherent)
  keeps outside isSealed := by
    rw [disjoint_union_right] at outside
    exact second.keeps outside.2 (first.keeps outside.1 isSealed)
  between {stale plain} coherent address known := by
    rcases second.between (first.coherent coherent) address
      fun old => known old.1 with kept | told | new
    · rw [kept]
      rcases first.between coherent address known with still | before | told
      · exact .inl still
      · exact .inr (.inl before)
      · rcases once plain address with same | same
        · exact .inr (.inl (told.trans same))
        · exact .inr (.inr (told.trans same.symm))
    · rcases once plain address with same | same
      · exact .inr (.inl (told.trans same))
      · exact .inr (.inr (told.trans same.symm))
    · exact .inr (.inr new)

/-- Doing nothing is quiet. -/
theorem Quiet.refl (cache : WriteBack ι α β) : Quiet cache cache where
  coherent coherent := by rwa [sdiff_empty]
  keeps _ isSealed := isSealed
  between _ _ _ := .inl rfl

/-- Two quiet steps in a row are quiet. -/
theorem Quiet.trans (first : Quiet before middle) (second : Quiet middle after) :
    Quiet before after := by
  have both := Serves.trans first second fun _ _ => .inl rfl
  rwa [union_empty, Function.comp_id] at both

/-- A quiet step before one that serves changes nothing about what is served. -/
theorem Quiet.serves {effect : (α → β) → α → β} (first : Quiet before middle)
    (second : Serves middle after written effect) : Serves before after written effect := by
  have both := Serves.trans first second fun _ _ => .inl rfl
  rwa [empty_union, Function.comp_id] at both

/-- Less may be known, and only what is known matters. -/
theorem Coherent.mono (coherent : cache.Coherent stale plain) (more : stale ⊆ stale')
    (same : EqOn plain plain' stale'ᶜ) : cache.Coherent stale' plain' where
  apart := coherent.apart
  held slot := by
    rintro address ⟨covered, known⟩
    exact (coherent.held slot ⟨covered, fun old => known (more old)⟩).trans (same known)
  behind address known uncovered :=
    (coherent.behind address (fun old => known (more old)) uncovered).trans (same known)

/-- What a line holds is what the cache stands for. -/
theorem Coherent.hit (coherent : cache.Coherent stale plain) {address : α}
    (covered : address ∈ (cache.lines slot).covers) (known : address ∉ stale) :
    (cache.lines slot).holds address = plain address :=
  coherent.held slot ⟨covered, known⟩

/-- Where no line covers it, the store has what the cache stands for. -/
theorem Coherent.miss (coherent : cache.Coherent stale plain) {address : α}
    (uncovered : ∀ slot, address ∉ (cache.lines slot).covers) (known : address ∉ stale) :
    cache.store address = plain address :=
  coherent.behind address known fun slot _ => uncovered slot

/-- With nothing left to write back, the store is what the cache stands for. -/
theorem Coherent.settled (coherent : cache.Coherent stale plain)
    (clean : ∀ slot, (cache.lines slot).dirty → (cache.lines slot).covers = ∅) :
    EqOn cache.store plain staleᶜ := by
  intro address known
  refine coherent.behind address known fun slot dirty covered => ?_
  rw [clean slot dirty] at covered
  exact covered

/-- Writing to the store below a dirty line changes nothing: the line comes on top of it. -/
theorem Coherent.beneath_dirty (coherent : cache.Coherent stale plain)
    (dirty : (cache.lines slot).dirty)
    {store : α → β} (same : EqOn store cache.store (cache.lines slot).coversᶜ) :
    Coherent { cache with store } stale plain where
  apart := coherent.apart
  held := coherent.held
  behind address known uncovered := by
    show store address = plain address
    rw [same (uncovered slot dirty)]
    exact coherent.behind address known uncovered

/-- Writing to the store below the lines leaves the addresses written to open. -/
theorem Coherent.beneath (coherent : cache.Coherent stale plain) {store : α → β}
    (same : EqOn store cache.store writtenᶜ) :
    Coherent { cache with store } (stale ∪ written) plain where
  apart := coherent.apart
  held slot := (coherent.held slot).mono (sdiff_subset_sdiff_right subset_union_left)
  behind address known uncovered := by
    show store address = plain address
    rw [mem_union, not_or] at known
    rw [same known.2]
    exact coherent.behind address known.1 uncovered

/-- Writing to the store where no dirty line covers it seals what was written. -/
theorem sealed_beneath
    (uncovered : ∀ slot, (cache.lines slot).dirty → Disjoint (cache.lines slot).covers area)
    {store : α → β} (same : EqOn store pattern area) : Sealed { cache with store } area pattern :=
  ⟨uncovered, same⟩

/-- Writing to the store elsewhere leaves an area sealed. -/
theorem Sealed.beneath (isSealed : cache.Sealed area pattern) {store : α → β}
    (same : EqOn store cache.store area) : Sealed { cache with store } area pattern :=
  ⟨isSealed.covered, same.trans isSealed.stored⟩

/-- An operation that changes no line and, where no line covers it, writes to the store. -/
theorem serves_direct (uncovered : ∀ slot, Disjoint (cache.lines slot).covers written)
    {store : α → β} {effect : (α → β) → α → β} (same : EqOn store cache.store writtenᶜ)
    (off : ∀ plain, EqOn (effect plain) plain writtenᶜ)
    (on : ∀ plain, EqOn store (effect plain) written) :
    Serves cache { cache with store } written effect where
  coherent {stale plain} coherent :=
    { apart := coherent.apart
      held := by
        rintro slot address ⟨covered, known⟩
        have outside : address ∉ written := disjoint_left.mp (uncovered slot) covered
        rw [off plain outside]
        exact coherent.hit covered fun old => known ⟨old, outside⟩
      behind := by
        intro address known below
        show store address = effect plain address
        by_cases inside : address ∈ written
        · exact on plain inside
        · rw [same inside, off plain inside]
          exact coherent.behind address (fun old => known ⟨old, inside⟩) below }
  keeps outside isSealed :=
    isSealed.beneath (same.mono (subset_compl_iff_disjoint_right.mpr outside))
  between {_ plain} _ address _ := by
    by_cases inside : address ∈ written
    · exact .inr (.inr (on plain inside))
    · exact .inl (same inside)

/-- With nothing left to write back, all lines may be forgotten. -/
theorem quiet_forget (clean : ∀ slot, ¬ (cache.lines slot).dirty) {lines : ι → Line α β}
    (empty : ∀ slot, (lines slot).covers = ∅) : Quiet cache { cache with lines } where
  coherent {stale plain} coherent := by
    rw [sdiff_empty]
    refine ⟨fun slot other _ => ?_, fun slot => ?_, fun address known _ => ?_⟩
    · show Disjoint (lines slot).covers _
      rw [empty]
      exact Set.empty_disjoint _
    · show EqOn (lines slot).holds _ ((lines slot).covers \ _)
      rw [empty, Set.empty_sdiff]
      exact Set.eqOn_empty _ _
    · exact coherent.behind address known fun slot dirty => absurd dirty (clean slot)
  keeps {area pattern} _ isSealed := by
    refine ⟨fun slot _ => ?_, isSealed.stored⟩
    show Disjoint (lines slot).covers _
    rw [empty]
    exact Set.empty_disjoint _
  between _ _ _ := .inl rfl

section OneLine

variable [DecidableEq ι] {line : Line α β} {store : α → β}

/-- The cache with one line exchanged. -/
def setLine (cache : WriteBack ι α β) (slot : ι) (line : Line α β) : WriteBack ι α β :=
  { cache with lines := Function.update cache.lines slot line }

@[simp] theorem setLine_store : (cache.setLine slot line).store = cache.store := rfl

@[simp] theorem setLine_same :
    (cache.setLine slot line).lines slot = line := Function.update_self _ _ _

/-- Setting one line leaves the others as they were. -/
theorem setLine_other {other : ι} (different : other ≠ slot) :
    (cache.setLine slot line).lines other = cache.lines other :=
  Function.update_of_ne different _ _

/-- A line that is clean may lose some of what it covers, or all of it. -/
theorem quiet_shrink (clean : ¬ (cache.lines slot).dirty)
    (less : line.covers ⊆ (cache.lines slot).covers)
    (same : EqOn line.holds (cache.lines slot).holds line.covers) (cleanToo : ¬ line.dirty) :
    Quiet cache (cache.setLine slot line) where
  coherent {stale plain} coherent :=
    { apart := by
        intro one other different
        by_cases first : one = slot
        · subst first
          rw [setLine_same, setLine_other different.symm]
          exact (coherent.apart one other different).mono_left less
        · rw [setLine_other first]
          by_cases second : other = slot
          · subst second
            rw [setLine_same]
            exact (coherent.apart one other different).mono_right less
          · rw [setLine_other second]
            exact coherent.apart one other different
      held := by
        rw [sdiff_empty]
        intro one
        by_cases first : one = slot
        · subst first
          rw [setLine_same]
          rintro address ⟨covered, known⟩
          exact (same covered).trans (coherent.hit (less covered) known)
        · rw [setLine_other first]
          exact coherent.held one
      behind := by
        rw [sdiff_empty]
        intro address known below
        refine coherent.behind address known fun one dirty covered => ?_
        have different : one ≠ slot := by
          rintro rfl
          exact clean dirty
        refine below one ?_ ?_
        · rwa [setLine_other different]
        · rwa [setLine_other different] }
  keeps _ isSealed :=
    { covered := by
        intro one dirty
        by_cases first : one = slot
        · subst first
          rw [setLine_same] at dirty
          exact absurd dirty cleanToo
        · rw [setLine_other first] at dirty ⊢
          exact isSealed.covered one dirty
      stored := isSealed.stored }
  between _ _ _ := .inl rfl

/-- Writing a dirty line back to the store makes it clean. -/
theorem quiet_writeBack (dirty : (cache.lines slot).dirty)
    (covers : line.covers = (cache.lines slot).covers)
    (holds : EqOn line.holds (cache.lines slot).holds line.covers) (clean : ¬ line.dirty)
    (on : EqOn store (cache.lines slot).holds (cache.lines slot).covers)
    (off : EqOn store cache.store (cache.lines slot).coversᶜ) :
    Quiet cache { cache.setLine slot line with store } where
  coherent {stale plain} coherent :=
    { apart := by
        have same : ∀ one, ((cache.setLine slot line).lines one).covers =
          (cache.lines one).covers := by
          intro one
          by_cases first : one = slot
          · subst first
            rw [setLine_same, covers]
          · rw [setLine_other first]
        intro one other different
        show Disjoint ((cache.setLine slot line).lines one).covers
          ((cache.setLine slot line).lines other).covers
        rw [same, same]
        exact coherent.apart one other different
      held := by
        rw [sdiff_empty]
        intro one
        show EqOn ((cache.setLine slot line).lines one).holds _
          (((cache.setLine slot line).lines one).covers \ _)
        by_cases first : one = slot
        · subst first
          rw [setLine_same]
          rintro address ⟨covered, known⟩
          exact (holds covered).trans (coherent.hit (covers ▸ covered) known)
        · rw [setLine_other first]
          exact coherent.held one
      behind := by
        rw [sdiff_empty]
        intro address known below
        show store address = plain address
        by_cases covered : address ∈ (cache.lines slot).covers
        · rw [on covered]
          exact coherent.hit covered known
        · rw [off covered]
          refine coherent.behind address known fun one dirty => ?_
          by_cases first : one = slot
          · exact first ▸ covered
          · have still := below one
            rw [setLine_other first] at still
            exact still dirty }
  keeps _ isSealed :=
    { covered := by
        intro one dirty
        by_cases first : one = slot
        · subst first
          rw [setLine_same] at dirty
          exact absurd dirty clean
        · rw [setLine_other first] at dirty ⊢
          exact isSealed.covered one dirty
      stored := by
        intro address inside
        show store address = _
        have outside := disjoint_right.mp (isSealed.covered slot dirty) inside
        rw [off outside]
        exact isSealed.stored inside }
  between {_ plain} coherent address known := by
    by_cases covered : address ∈ (cache.lines slot).covers
    · exact .inr (.inl ((on covered).trans (coherent.hit covered known)))
    · exact .inl (off covered)

/-- A line set over the addresses it covers, which no other line covers. Either it is dirty, or
the store has the values already. -/
theorem Coherent.place (coherent : cache.Coherent stale plain)
    (contained : (cache.lines slot).dirty → (cache.lines slot).covers ⊆ line.covers)
    (alone : ∀ other, other ≠ slot → Disjoint (cache.lines other).covers line.covers)
    (off : EqOn plain' plain line.coversᶜ) (left : stale \ line.covers ⊆ stale')
    (on : EqOn line.holds plain' (line.covers \ stale'))
    (known : ¬ line.dirty → EqOn cache.store plain' (line.covers \ stale')) :
    (cache.setLine slot line).Coherent stale' plain' where
  apart one other different := by
    by_cases first : one = slot
    · subst first
      rw [setLine_same, setLine_other different.symm]
      exact (alone other different.symm).symm
    · rw [setLine_other first]
      by_cases second : other = slot
      · subst second
        rw [setLine_same]
        exact alone one different
      · rw [setLine_other second]
        exact coherent.apart one other different
  held one := by
    by_cases first : one = slot
    · subst first
      rw [setLine_same]
      exact on
    · rw [setLine_other first]
      rintro address ⟨covered, fresh⟩
      have outside := disjoint_left.mp (alone one first) covered
      rw [off outside]
      exact coherent.hit covered fun old => fresh (left ⟨old, outside⟩)
  behind address fresh below := by
    rw [setLine_store]
    by_cases covered : address ∈ line.covers
    · refine known (fun dirty => ?_) ⟨covered, fresh⟩
      have above := below slot
      rw [setLine_same] at above
      exact above dirty covered
    · rw [off covered]
      refine coherent.behind address (fun old => fresh (left ⟨old, covered⟩)) fun one dirty => ?_
      by_cases first : one = slot
      · subst first
        exact fun inside => covered (contained dirty inside)
      · have above := below one
        rw [setLine_other first] at above
        exact above dirty

/-- A line set where it does not cover a sealed area, or set clean. -/
theorem Sealed.place (isSealed : cache.Sealed area pattern)
    (apart : line.dirty → Disjoint line.covers area) :
    (cache.setLine slot line).Sealed area pattern where
  covered one dirty := by
    by_cases first : one = slot
    · subst first
      rw [setLine_same] at dirty ⊢
      exact apart dirty
    · rw [setLine_other first] at dirty ⊢
      exact isSealed.covered one dirty
  stored := isSealed.stored

/-- A clean line filled from the store, in the place of a clean one. -/
theorem quiet_fill (clean : ¬ (cache.lines slot).dirty)
    (alone : ∀ other, other ≠ slot → Disjoint (cache.lines other).covers line.covers)
    (free : Disjoint (cache.lines slot).covers line.covers)
    (from_store : EqOn line.holds cache.store line.covers)
    (cleanToo : ¬ line.dirty) : Quiet cache (cache.setLine slot line) where
  coherent {stale plain} coherent := by
    have agree : EqOn cache.store plain (line.covers \ stale) := by
      rintro address ⟨covered, known⟩
      refine coherent.miss (fun one => ?_) known
      by_cases first : one = slot
      · exact first ▸ disjoint_right.mp free covered
      · exact disjoint_right.mp (alone one first) covered
    rw [sdiff_empty]
    refine coherent.place (fun dirty => absurd dirty clean) alone
      (fun _ _ => rfl) sdiff_subset ?_ fun _ => agree
    exact (from_store.mono sdiff_subset).trans agree
  keeps _ isSealed := isSealed.place fun dirty => absurd dirty cleanToo
  between _ _ _ := .inl rfl

/-- A line set to new values: a write. -/
theorem serves_set {effect : (α → β) → α → β}
    (contained : (cache.lines slot).dirty → (cache.lines slot).covers ⊆ line.covers)
    (alone : ∀ other, other ≠ slot → Disjoint (cache.lines other).covers line.covers)
    (off : ∀ plain, EqOn (effect plain) plain line.coversᶜ)
    (on : ∀ plain, EqOn line.holds (effect plain) line.covers)
    (known : ¬ line.dirty → EqOn cache.store line.holds line.covers) :
    Serves cache (cache.setLine slot line) line.covers effect where
  coherent {stale plain} coherent := by
    refine coherent.place contained alone (off plain) subset_rfl
      ((on plain).mono sdiff_subset) fun clean => ?_
    exact ((known clean).trans (on plain)).mono sdiff_subset
  keeps outside isSealed := isSealed.place fun _ => outside.symm
  between _ _ _ := .inl rfl

end OneLine

end WriteBack

end Ext2Fuse.Lib
