/-!
# Programs over a library of calls

A `Program` is the text of a routine with every library call left visible: it
either ends with a result or names the next call and what to do with the
response. An `Interp` supplies what each call does to the state. `run` executes
to the end, `cut` stops after a given number of calls, and `Always` is the
predicate transformer that speaks about both at once: an invariant of every
state a call leaves behind, and a postcondition of the end. `Ends` asks for a
postcondition whatever the calls respond.
-/

namespace Ext2Fuse.Lib

/-- A routine over the calls `Call`, where a call of type `Call β` responds
with a `β`. -/
inductive Program (Call : Type → Type) (α : Type) : Type 1 where
  | done (result : α) : Program Call α
  | call {β : Type} (operation : Call β) (next : β → Program Call α) : Program Call α

/-- A deterministic meaning for the calls over the states `σ`. -/
structure Interp (Call : Type → Type) (σ : Type) where
  exec : {β : Type} → Call β → σ → β × σ

/-- The failure of a call: an error code, which is not 0, and whether the call had come to its work
before it failed. -/
structure Fault where
  code : Nat
  nonzero : code ≠ 0
  late : Bool := false

/-- The meaning with calls that fail: the state carries a schedule that says for each call in turn
whether it fails. A failing call responds with what `failed` says and leaves what `leaves` says; a
call for which `failed` says nothing cannot fail. After the end of the schedule nothing fails. -/
def Interp.faulty {Call : Type → Type} {σ : Type} (interp : Interp Call σ)
    (failed : {β : Type} → Call β → Fault → Option β)
    (leaves : {β : Type} → Call β → Fault → σ → σ) : Interp Call (σ × List (Option Fault)) where
  exec operation state :=
    match state.2.head?.join.bind fun fault =>
        (failed operation fault).map fun response => (response, leaves operation fault state.1) with
    | some (response, left) => (response, (left, state.2.tail))
    | none => ((interp.exec operation state.1).1, ((interp.exec operation state.1).2, state.2.tail))

/-- The meaning with calls whose outcome is given: for such a call `outcome` says what an entry of
the schedule makes of it. The other calls take no entry. After the end of the schedule no fault is
given. -/
def Interp.scheduled {Call : Type → Type} {σ : Type} (interp : Interp Call σ)
    (outcome : {β : Type} → Call β → Option (Option Fault → σ → β × σ)) :
    Interp Call (σ × List (Option Fault)) where
  exec operation state :=
    match outcome operation with
    | some given =>
        ((given state.2.head?.join state.1).1, ((given state.2.head?.join state.1).2, state.2.tail))
    | none => ((interp.exec operation state.1).1, ((interp.exec operation state.1).2, state.2))

namespace Program

variable {Call : Type → Type} {σ α β γ : Type}

/-- Sequential composition: the second routine continues from the first one's result. -/
def bind : Program Call α → (α → Program Call β) → Program Call β
  | done result, rest => rest result
  | call operation next, rest => call operation fun response => (next response).bind rest

instance : Monad (Program Call) where
  pure := done
  bind := bind

/-- The routine that makes one call and returns its response. -/
def lift (operation : Call α) : Program Call α :=
  call operation done

/-- Execute to the end. -/
def run (interp : Interp Call σ) : Program Call α → σ → α × σ
  | done result, state => (result, state)
  | call operation next, state =>
      run interp (next (interp.exec operation state).1) (interp.exec operation state).2

/-- The state after the first `count` calls, or the final state when the
routine makes fewer. -/
def cut (interp : Interp Call σ) : Nat → Program Call α → σ → σ
  | 0, _, state => state
  | _ + 1, done _, state => state
  | count + 1, call operation next, state =>
      cut interp count (next (interp.exec operation state).1) (interp.exec operation state).2

/-- Every state a call leaves behind satisfies `inv`, and the result and final
state satisfy `post`. -/
def Always (interp : Interp Call σ) (inv : σ → Prop) :
    Program Call α → (α → σ → Prop) → σ → Prop
  | done result, post, state => post result state
  | call operation next, post, state =>
      inv (interp.exec operation state).2 ∧
        Always interp inv (next (interp.exec operation state).1) post
          (interp.exec operation state).2

/-- Whatever the calls respond, the result satisfies `post`. -/
def Ends (post : α → Prop) : Program Call α → Prop
  | done result => post result
  | call _ next => ∀ response, Ends post (next response)

section Outcomes

variable {post post' : α → Prop}

@[simp] theorem ends_pure (result : α) :
    Ends post (pure result : Program Call α) ↔ post result := Iff.rfl

@[simp] theorem ends_lift (operation : Call α) :
    Ends post (lift operation) ↔ ∀ response, post response := Iff.rfl

@[simp] theorem ends_bind {post : β → Prop} (first : Program Call α)
    (rest : α → Program Call β) :
    Ends post (first >>= rest) ↔ Ends (fun result => Ends post (rest result)) first := by
  induction first with
  | done result => exact Iff.rfl
  | call operation next inductionHypothesis =>
      exact forall_congr' fun response => inductionHypothesis response

/-- The postcondition can be weakened. -/
theorem Ends.mono {program : Program Call α} (holds : Ends post program)
    (weaker : ∀ result, post result → post' result) : Ends post' program := by
  induction program with
  | done result => exact weaker _ holds
  | call operation next inductionHypothesis =>
      exact fun response => inductionHypothesis response (holds response)

/-- A postcondition every result satisfies. -/
theorem ends_of_forall (holds : ∀ result, post result) (program : Program Call α) :
    Ends post program := by
  induction program with
  | done result => exact holds result
  | call operation next inductionHypothesis => exact inductionHypothesis

/-- When it does not matter what the first routine does. -/
theorem ends_bind_of_forall {post : β → Prop} {first : Program Call α}
    {rest : α → Program Call β} (holds : ∀ result, Ends post (rest result)) :
    Ends post (first >>= rest) :=
  (ends_bind first rest).mpr (ends_of_forall holds first)

/-- The postcondition holds of every run, over every meaning of the calls. -/
theorem Ends.run {program : Program Call α} (holds : Ends post program)
    (interp : Interp Call σ) (state : σ) : post (program.run interp state).1 := by
  induction program generalizing state with
  | done result => exact holds
  | call operation next inductionHypothesis => exact inductionHypothesis _ (holds _) _

/-- A run of a program whose every end meets the condition meets it. -/
theorem Ends.outcome {program : Program Call α} (holds : Ends post program)
    {interp : Interp Call σ} {state next : σ} {result : α}
    (outcome : program.run interp state = (result, next)) : post result := by
  have ended := holds.run interp state
  rw [outcome] at ended
  exact ended

end Outcomes

section Rules

variable {interp : Interp Call σ} {inv : σ → Prop}

@[simp] theorem run_pure (result : α) (state : σ) :
    run interp (pure result : Program Call α) state = (result, state) := rfl

@[simp] theorem run_lift (operation : Call α) (state : σ) :
    run interp (lift operation) state = interp.exec operation state := rfl

@[simp] theorem run_bind (first : Program Call α) (rest : α → Program Call β) (state : σ) :
    run interp (first >>= rest) state =
      run interp (rest (run interp first state).1) (run interp first state).2 := by
  induction first generalizing state with
  | done result => rfl
  | call operation next inductionHypothesis => exact inductionHypothesis _ _

/-- The same first routine: what follows decides. -/
theorem run_bind_congr {first : Program Call α} {rest rest' : α → Program Call β} {state : σ}
    (same : ∀ result next, first.run interp state = (result, next) →
      (rest result).run interp next = (rest' result).run interp next) :
    (first >>= rest).run interp state = (first >>= rest').run interp state := by
  rw [run_bind, run_bind]
  exact same _ _ rfl

@[simp] theorem run_ite (condition : Prop) [Decidable condition]
    (first second : Program Call α) (state : σ) :
    run interp (if condition then first else second) state =
      if condition then run interp first state else run interp second state := by
  split <;> rfl

@[simp] theorem always_lift (operation : Call α) (post : α → σ → Prop) (state : σ) :
    Always interp inv (lift operation) post state ↔
      inv (interp.exec operation state).2 ∧
        post (interp.exec operation state).1 (interp.exec operation state).2 := Iff.rfl

/-- Composition: the first routine has to establish what the second needs. -/
@[simp] theorem always_bind (first : Program Call α) (rest : α → Program Call β)
    (post : β → σ → Prop) (state : σ) :
    Always interp inv (first >>= rest) post state ↔
      Always interp inv first (fun result next => Always interp inv (rest result) post next)
        state := by
  induction first generalizing state with
  | done result => exact Iff.rfl
  | call operation next inductionHypothesis =>
      exact and_congr_right fun _ => inductionHypothesis _ _

/-- The postcondition can be weakened. -/
theorem Always.mono {program : Program Call α} {post post' : α → σ → Prop} {state : σ}
    (holds : Always interp inv program post state)
    (weaker : ∀ result next, post result next → post' result next) :
    Always interp inv program post' state := by
  induction program generalizing state with
  | done result => exact weaker _ _ holds
  | call operation next inductionHypothesis =>
      exact ⟨holds.1, inductionHypothesis _ holds.2⟩

/-- The invariant also holds at the end, provided it held at the start. -/
theorem Always.and_inv {program : Program Call α} {post : α → σ → Prop} {state : σ}
    (holds : Always interp inv program post state) (initial : inv state) :
    Always interp inv program (fun result next => inv next ∧ post result next) state := by
  induction program generalizing state with
  | done result => exact ⟨initial, holds⟩
  | call operation next inductionHypothesis =>
      exact ⟨holds.1, inductionHypothesis _ holds.2 holds.1⟩

/-- The postcondition holds of the completed run. -/
theorem Always.run {program : Program Call α} {post : α → σ → Prop} {state : σ}
    (holds : Always interp inv program post state) :
    post (program.run interp state).1 (program.run interp state).2 := by
  induction program generalizing state with
  | done result => exact holds
  | call operation next inductionHypothesis => exact inductionHypothesis _ holds.2

/-- The invariant holds wherever the routine is cut off, provided it held at
the start. -/
theorem Always.cut {program : Program Call α} {post : α → σ → Prop} {state : σ}
    (holds : Always interp inv program post state) (initial : inv state) (count : Nat) :
    inv (program.cut interp count state) := by
  induction count generalizing program state with
  | zero => exact initial
  | succ count inductionHypothesis =>
      cases program with
      | done result => exact initial
      | call operation next => exact inductionHypothesis holds.2 holds.1

/-- Run from `state`, the routine ends with `post`. -/
def Leads (interp : Interp Call σ) (program : Program Call α) (post : α → σ → Prop)
    (state : σ) : Prop :=
  post (program.run interp state).1 (program.run interp state).2

@[simp] theorem leads_pure (result : α) (post : α → σ → Prop) (state : σ) :
    Leads interp (pure result : Program Call α) post state ↔ post result state := Iff.rfl

@[simp] theorem leads_lift (operation : Call α) (post : α → σ → Prop) (state : σ) :
    Leads interp (lift operation) post state ↔
      post (interp.exec operation state).1 (interp.exec operation state).2 := Iff.rfl

@[simp] theorem leads_bind (first : Program Call α) (rest : α → Program Call β)
    (post : β → σ → Prop) (state : σ) :
    Leads interp (first >>= rest) post state ↔
      Leads interp first (fun result next => Leads interp (rest result) post next) state := by
  simp only [Leads, run_bind]

/-- A weaker condition follows on the same run. -/
theorem Leads.mono {program : Program Call α} {post post' : α → σ → Prop} {state : σ}
    (holds : Leads interp program post state)
    (weaker : ∀ result next, post result next → post' result next) :
    Leads interp program post' state :=
  weaker _ _ holds

/-- The outcome of a run that leads to a condition meets it. -/
theorem Leads.outcome {program : Program Call α} {post : α → σ → Prop} {state next : σ}
    {result : α} (holds : Leads interp program post state)
    (outcome : program.run interp state = (result, next)) : post result next := by
  rw [Leads, outcome] at holds
  exact holds

/-- A routine at the head, with its result and the state it leaves named. -/
theorem leads_bind_of {first : Program Call α} {rest : α → Program Call β}
    {post : β → σ → Prop} {state : σ}
    (holds : ∀ result next, first.run interp state = (result, next) →
      Leads interp (rest result) post next) :
    Leads interp (first >>= rest) post state :=
  (leads_bind first rest post state).mpr (holds _ _ rfl)

/-- One call at the head, with its response and the state it leaves named. -/
theorem leads_lift_bind {operation : Call α} {rest : α → Program Call β}
    {post : β → σ → Prop} {state : σ}
    (holds : ∀ response next, interp.exec operation state = (response, next) →
      Leads interp (rest response) post next) :
    Leads interp (lift operation >>= rest) post state :=
  leads_bind_of holds

variable (interp inv) in
/-- Started where `inv` holds, the routine keeps it. -/
def Keeps (program : Program Call α) : Prop :=
  ∀ state, inv state → Leads interp program (fun _ => inv) state

/-- An answer alone changes no state. -/
theorem keeps_pure (result : α) : Keeps interp inv (pure result : Program Call α) :=
  fun _ holds => holds

/-- A call keeps the invariant when its execution does. -/
theorem keeps_lift {operation : Call α}
    (keeps : ∀ state, inv state → inv (interp.exec operation state).2) :
    Keeps interp inv (lift operation) :=
  keeps

/-- A sequence of two keeping programs keeps the invariant. -/
theorem keeps_bind {first : Program Call α} {rest : α → Program Call β}
    (keepsFirst : Keeps interp inv first) (keepsRest : ∀ result, Keeps interp inv (rest result)) :
    Keeps interp inv (first >>= rest) := by
  intro state holds
  rw [leads_bind]
  exact (keepsFirst state holds).mono fun result next kept => keepsRest result next kept

/-- A choice between two keeping programs keeps the invariant. -/
theorem keeps_ite {condition : Prop} [Decidable condition] {first second : Program Call α}
    (keepsFirst : Keeps interp inv first) (keepsSecond : Keeps interp inv second) :
    Keeps interp inv (if condition then first else second) := by
  split
  · exact keepsFirst
  · exact keepsSecond

variable (interp) in
/-- Every call of the run meets a condition on the call and the state it is made in. -/
def Meets (ok : ∀ β, Call β → σ → Prop) : Program Call α → σ → Prop
  | done _, _ => True
  | call operation next, state =>
      ok _ operation state ∧ Meets ok (next (interp.exec operation state).1)
        (interp.exec operation state).2

variable {ok : ∀ β, Call β → σ → Prop}

/-- A single call meets its precondition when the state it starts from does. -/
theorem meets_lift {operation : Call α} {state : σ} :
    Meets interp ok (lift operation) state ↔ ok _ operation state :=
  and_iff_left trivial

/-- A sequence meets its preconditions when both parts do, each from its own start. -/
theorem meets_bind {first : Program Call α} {rest : α → Program Call β} {state : σ} :
    Meets interp ok (first >>= rest) state ↔ Meets interp ok first state ∧
      Meets interp ok (rest (first.run interp state).1) (first.run interp state).2 := by
  induction first generalizing state with
  | done result => exact (and_iff_right trivial).symm
  | call operation next inductionHypothesis =>
      exact (and_congr_right fun _ => inductionHypothesis _).trans (and_assoc).symm

variable (interp) in
/-- Some call of the run meets a condition on the call and the state it is made in. -/
def Performs (event : ∀ β, Call β → σ → Prop) : Program Call α → σ → Prop
  | done _, _ => False
  | call operation next, state =>
      event _ operation state ∨
        Performs event (next (interp.exec operation state).1) (interp.exec operation state).2

variable {event : ∀ β, Call β → σ → Prop}

@[simp] theorem performs_pure (result : α) (state : σ) :
    Performs interp event (pure result : Program Call α) state ↔ False := Iff.rfl

@[simp] theorem performs_lift {operation : Call α} {state : σ} :
    Performs interp event (lift operation) state ↔ event _ operation state :=
  or_iff_left not_false

/-- A sequence performs an event in its first part or in its second. -/
theorem performs_bind {first : Program Call α} {rest : α → Program Call β} {state : σ} :
    Performs interp event (first >>= rest) state ↔ Performs interp event first state ∨
      Performs interp event (rest (first.run interp state).1) (first.run interp state).2 := by
  induction first generalizing state with
  | done result => exact (or_iff_right not_false).symm
  | call operation next inductionHypothesis =>
      exact (or_congr_right (inductionHypothesis _)).trans or_assoc.symm

/-- A call at the head that is not the event. -/
theorem performs_lift_bind {operation : Call α} {rest : α → Program Call β} {state : σ}
    (other : ¬ event _ operation state) :
    Performs interp event (lift operation >>= rest) state ↔
      Performs interp event (rest (interp.exec operation state).1)
        (interp.exec operation state).2 := by
  rw [performs_bind, performs_lift, or_iff_right other]
  rfl

variable (interp inv ok) in
/-- A run from a state with `inv`, all of whose calls meet the condition, ends in such a state,
with a result of which `fact` is true. -/
def Preserves (program : Program Call α) (fact : α → Prop) : Prop :=
  ∀ state, inv state → Meets interp ok program state →
    inv (program.run interp state).2 ∧ fact (program.run interp state).1

/-- There is no condition to meet. -/
theorem meets_trivial (program : Program Call α) (state : σ) :
    Meets interp (fun _ _ _ => True) program state := by
  induction program generalizing state with
  | done result => trivial
  | call operation next inductionHypothesis => exact ⟨trivial, inductionHypothesis _ _⟩

/-- An answer alone preserves the invariant, and the fact holds of the answer. -/
theorem preserves_pure {result : α} {fact : α → Prop} (holds : fact result) :
    Preserves interp inv ok (pure result : Program Call α) fact :=
  fun _ kept _ => ⟨kept, holds⟩

/-- A call preserves when its execution does wherever its precondition is met. -/
theorem preserves_lift {operation : Call α} {fact : α → Prop}
    (step : ∀ state, inv state → ok _ operation state →
      inv (interp.exec operation state).2 ∧ fact (interp.exec operation state).1) :
    Preserves interp inv ok (lift operation) fact :=
  fun state kept meets => step state kept meets.1

/-- The second part may use the fact that the first one established. -/
theorem preserves_bind {first : Program Call α} {rest : α → Program Call β} {fact : α → Prop}
    {fact' : β → Prop} (preserves : Preserves interp inv ok first fact)
    (next : ∀ result, fact result → Preserves interp inv ok (rest result) fact') :
    Preserves interp inv ok (first >>= rest) fact' := by
  intro state kept meets
  obtain ⟨meetsFirst, meetsRest⟩ := meets_bind.mp meets
  obtain ⟨keptNext, holds⟩ := preserves state kept meetsFirst
  rw [run_bind]
  exact next _ holds _ keptNext meetsRest

/-- A choice between two preserving programs preserves the invariant. -/
theorem preserves_ite {condition : Prop} [Decidable condition] {first second : Program Call α}
    {fact : α → Prop} (preserves : Preserves interp inv ok first fact)
    (preserves' : Preserves interp inv ok second fact) :
    Preserves interp inv ok (if condition then first else second) fact := by
  split
  · exact preserves
  · exact preserves'

/-- A weaker fact about the result follows. -/
theorem Preserves.mono {program : Program Call α} {fact fact' : α → Prop}
    (preserves : Preserves interp inv ok program fact)
    (weaker : ∀ result, fact result → fact' result) :
    Preserves interp inv ok program fact' :=
  fun state kept meets => (preserves state kept meets).imp_right (weaker _)

/-- The routines preserve both. -/
theorem Preserves.and {inv' : σ → Prop} {program : Program Call α} {fact fact' : α → Prop}
    (preserves : Preserves interp inv ok program fact)
    (preserves' : Preserves interp inv' ok program fact') :
    Preserves interp (fun state => inv state ∧ inv' state) ok program
      fun result => fact result ∧ fact' result := by
  rintro state ⟨kept, kept'⟩ meets
  obtain ⟨next, holds⟩ := preserves state kept meets
  obtain ⟨next', holds'⟩ := preserves' state kept' meets
  exact ⟨⟨next, next'⟩, holds, holds'⟩

variable (interp ok) in
/-- The run from `state` ends with `post` if all of its calls meet the condition. -/
def Ensures (program : Program Call α) (post : α → σ → Prop) (state : σ) : Prop :=
  Meets interp ok program state → Leads interp program post state

/-- An answer alone ensures what holds of it at once. -/
theorem ensures_pure {result : α} {post : α → σ → Prop} {state : σ} (holds : post result state) :
    Ensures interp ok (pure result : Program Call α) post state :=
  fun _ => holds

/-- Ensuring composes over the condition between the two parts. -/
theorem ensures_bind {first : Program Call α} {rest : α → Program Call β} {middle : α → σ → Prop}
    {post : β → σ → Prop} {state : σ} (ensures : Ensures interp ok first middle state)
    (next : ∀ result later, middle result later → Ensures interp ok (rest result) post later) :
    Ensures interp ok (first >>= rest) post state := by
  intro meets
  obtain ⟨meetsFirst, meetsRest⟩ := meets_bind.mp meets
  rw [leads_bind]
  exact next _ _ (ensures meetsFirst) meetsRest

/-- One call at the head, which meets the condition. -/
theorem ensures_lift_bind {operation : Call α} {rest : α → Program Call β} {post : β → σ → Prop}
    {state : σ} (holds : ∀ response next, interp.exec operation state = (response, next) →
      ok _ operation state → Ensures interp ok (rest response) post next) :
    Ensures interp ok (lift operation >>= rest) post state := by
  intro meets
  obtain ⟨meetsFirst, meetsRest⟩ := meets_bind.mp meets
  exact leads_lift_bind fun response next outcome => by
    have later := holds response next outcome (meets_lift.mp meetsFirst)
    rw [run_lift, outcome] at meetsRest
    exact later meetsRest

/-- What a run leads to is ensured whatever the preconditions are. -/
theorem Leads.ensures {program : Program Call α} {post : α → σ → Prop} {state : σ}
    (leads : Leads interp program post state) : Ensures interp ok program post state :=
  fun _ => leads

/-- A weaker condition is ensured as well. -/
theorem Ensures.mono {program : Program Call α} {post post' : α → σ → Prop} {state : σ}
    (ensures : Ensures interp ok program post state)
    (weaker : ∀ result next, post result next → post' result next) :
    Ensures interp ok program post' state :=
  fun meets => (ensures meets).mono weaker

variable (interp ok) in
/-- A run from a state with `pre`, all of whose calls meet the condition, ends with `post`. -/
def Secures (pre : σ → Prop) (program : Program Call α) (post : α → σ → Prop) : Prop :=
  ∀ state, pre state → Meets interp ok program state → Leads interp program post state

/-- An answer alone secures what the precondition gives of it. -/
theorem secures_pure {pre : σ → Prop} {result : α} {post : α → σ → Prop}
    (holds : ∀ state, pre state → post result state) :
    Secures interp ok pre (pure result : Program Call α) post :=
  fun state kept _ => holds state kept

/-- Securing composes: the condition between the parts is the second one's precondition. -/
theorem secures_bind {pre : σ → Prop} {first : Program Call α} {rest : α → Program Call β}
    {middle : α → σ → Prop} {post : β → σ → Prop} (secures : Secures interp ok pre first middle)
    (next : ∀ result, Secures interp ok (middle result) (rest result) post) :
    Secures interp ok pre (first >>= rest) post := by
  intro state kept meets
  obtain ⟨meetsFirst, meetsRest⟩ := meets_bind.mp meets
  rw [leads_bind]
  exact next _ _ (secures state kept meetsFirst) meetsRest

/-- Each branch may use the condition it stands under. -/
theorem secures_ite {condition : Prop} [Decidable condition] {pre : σ → Prop}
    {first second : Program Call α} {post : α → σ → Prop}
    (secures : condition → Secures interp ok pre first post)
    (secures' : ¬ condition → Secures interp ok pre second post) :
    Secures interp ok pre (if condition then first else second) post := by
  split
  · exact secures ‹_›
  · exact secures' ‹_›

/-- A weaker postcondition is secured as well. -/
theorem Secures.mono {pre : σ → Prop} {program : Program Call α} {post post' : α → σ → Prop}
    (secures : Secures interp ok pre program post)
    (weaker : ∀ result state, post result state → post' result state) :
    Secures interp ok pre program post' :=
  fun state kept meets => (secures state kept meets).mono weaker

/-- A program that preserves an invariant secures what follows from it and from the fact. -/
theorem Preserves.secures {program : Program Call α} {fact : α → Prop} {post : α → σ → Prop}
    (preserves : Preserves interp inv ok program fact)
    (weaker : ∀ result state, inv state → fact result → post result state) :
    Secures interp ok inv program post :=
  fun state kept meets => weaker _ _ (preserves state kept meets).1 (preserves state kept meets).2

/-- What a routine keeps still holds for the next one. -/
theorem secures_after {first : Program Call α} {rest : α → Program Call β} {fact : α → Prop}
    {post : β → σ → Prop} (preserves : Preserves interp inv ok first fact)
    (next : ∀ result, fact result → Secures interp ok inv (rest result) post) :
    Secures interp ok inv (first >>= rest) post := by
  have keeps : Secures interp ok inv first fun result state => inv state ∧ fact result := preserves
  refine secures_bind keeps fun result => ?_
  rintro state ⟨kept, holds⟩ meets
  exact next result holds state kept meets

end Rules

section Schedules

variable {interp : Interp Call σ}

section Faulty

variable {failed : {β : Type} → Call β → Fault → Option β}
  {leaves : {β : Type} → Call β → Fault → σ → σ}

/-- A call that cannot fail. -/
theorem exec_faulty_never {operation : Call α} (never : ∀ fault, failed operation fault = none)
    (state : σ) (faults : List (Option Fault)) :
    (interp.faulty failed leaves).exec operation (state, faults) =
      ((interp.exec operation state).1, ((interp.exec operation state).2, faults.tail)) := by
  have none : (faults.head?.join.bind fun fault => (failed operation fault).map
      fun response => (response, leaves operation fault state)) = none := by
    cases faults.head?.join with
    | none => rfl
    | some fault => rw [Option.bind_some, never, Option.map_none]
  simp only [Interp.faulty, none]

/-- Whether the call fails or not. -/
theorem leads_lift_faulty {operation : Call α} {state : σ} {faults : List (Option Fault)}
    {post : α → σ × List (Option Fault) → Prop}
    (ok : post (interp.exec operation state).1 ((interp.exec operation state).2, faults.tail))
    (fails : ∀ fault response, failed operation fault = some response →
      post response (leaves operation fault state, faults.tail)) :
    Leads (interp.faulty failed leaves) (lift operation) post (state, faults) := by
  rw [leads_lift]
  simp only [Interp.faulty]
  split
  · rename_i response left found
    obtain ⟨fault, -, given⟩ := Option.bind_eq_some_iff.mp found
    obtain ⟨other, responds, same⟩ := Option.map_eq_some_iff.mp given
    obtain ⟨rfl, rfl⟩ := Prod.mk.inj same
    exact fails fault other responds
  · exact ok

end Faulty

section Scheduled

variable {outcome : {β : Type} → Call β → Option (Option Fault → σ → β × σ)}

/-- A call that is not in the schedule. -/
theorem exec_scheduled_none {operation : Call α} (free : outcome operation = none) (state : σ)
    (faults : List (Option Fault)) :
    (interp.scheduled outcome).exec operation (state, faults) =
      ((interp.exec operation state).1, ((interp.exec operation state).2, faults)) := by
  simp only [Interp.scheduled, free]

/-- A call that is. -/
theorem exec_scheduled_some {operation : Call α} {given : Option Fault → σ → α × σ}
    (isGiven : outcome operation = some given) (state : σ) (faults : List (Option Fault)) :
    (interp.scheduled outcome).exec operation (state, faults) =
      ((given faults.head?.join state).1, ((given faults.head?.join state).2, faults.tail)) := by
  simp only [Interp.scheduled, isGiven]

variable (outcome) in
/-- No call of the routine is in the schedule. -/
def Exempt : Program Call α → Prop
  | done _ => True
  | call operation next => outcome operation = none ∧ ∀ response, Exempt (next response)

/-- An answer alone makes no call that can be given a fixed outcome. -/
theorem exempt_pure (result : α) : Exempt outcome (pure result : Program Call α) := trivial

/-- A call without an outcome of its own is exempt. -/
theorem exempt_lift {operation : Call α} (free : outcome operation = none) :
    Exempt outcome (lift operation) :=
  ⟨free, fun _ => trivial⟩

/-- A sequence of two exempt programs is exempt. -/
theorem exempt_bind {first : Program Call α} {rest : α → Program Call β}
    (exempt : Exempt outcome first) (next : ∀ result, Exempt outcome (rest result)) :
    Exempt outcome (first >>= rest) := by
  induction first with
  | done result => exact next result
  | call operation continues inductionHypothesis =>
      exact ⟨exempt.1, fun response => inductionHypothesis response (exempt.2 response)⟩

/-- A choice between two exempt programs is exempt. -/
theorem exempt_ite {condition : Prop} [Decidable condition] {first second : Program Call α}
    (exempt : Exempt outcome first) (exempt' : Exempt outcome second) :
    Exempt outcome (if condition then first else second) := by
  split
  · exact exempt
  · exact exempt'

/-- Such a routine does what it does without a schedule, and takes nothing from it. -/
theorem Exempt.leads {program : Program Call α} (exempt : Exempt outcome program) {state : σ}
    {faults : List (Option Fault)} {post : α → σ × List (Option Fault) → Prop}
    (holds : Leads interp program (fun result next => post result (next, faults)) state) :
    Leads (interp.scheduled outcome) program post (state, faults) := by
  induction program generalizing state with
  | done result => exact holds
  | call operation next inductionHypothesis =>
      rw [Leads, run, exec_scheduled_none exempt.1]
      exact inductionHypothesis _ (exempt.2 _) holds

end Scheduled

end Schedules

/-- A meaning over states with more to them, which does the same to the part that is kept. -/
theorem run_erases {τ : Type} {interp : Interp Call σ} {recording : Interp Call τ} {erase : τ → σ}
    (erases : ∀ {β} (operation : Call β) (state : τ),
      ((recording.exec operation state).1, erase (recording.exec operation state).2) =
        interp.exec operation (erase state)) (program : Program Call α) (state : τ) :
    ((program.run recording state).1, erase (program.run recording state).2) =
      program.run interp (erase state) := by
  induction program generalizing state with
  | done result => rfl
  | call operation next inductionHypothesis =>
      rw [run, run, ← erases operation state]
      exact inductionHypothesis _ _

section Views

variable {α' β' : Type} {interp : Interp Call σ} {view : σ → σ}

variable (interp view) in
/-- Seen through `view`, a run of `program` is the run of `image` from the state as it is
seen, and the result is seen through `seen`. -/
def Mirrors (seen : α → α') (program : Program Call α) (image : Program Call α')
    (state : σ) : Prop :=
  image.run interp (view state) =
    (seen (program.run interp state).1, view (program.run interp state).2)

/-- Two answers mirror each other when one is seen as the other. -/
theorem mirrors_pure {seen : α → α'} {result : α} {result' : α'} (same : result' = seen result)
    (state : σ) : Mirrors interp view seen (pure result) (pure result') state := by
  rw [Mirrors, run_pure, run_pure, same]

/-- Sequences mirror each other when their first parts do and, after these, their rests. -/
theorem mirrors_bind {seen : α → α'} {seenNext : β → β'} {first : Program Call α}
    {first' : Program Call α'} {rest : α → Program Call β}
    {rest' : α' → Program Call β'} {state : σ}
    (mirrors : Mirrors interp view seen first first' state)
    (next : ∀ result later, first.run interp state = (result, later) →
      Mirrors interp view seenNext (rest result) (rest' (seen result)) later) :
    Mirrors interp view seenNext (first >>= rest) (first' >>= rest') state := by
  rw [Mirrors, run_bind, run_bind, mirrors]
  exact next _ _ rfl

/-- The same continuation on both sides. -/
theorem mirrors_bind_self {seen : α → α} {seenNext : β → β} {first first' : Program Call α}
    {rest : α → Program Call β} {state : σ}
    (mirrors : Mirrors interp view seen first first' state)
    (next : ∀ result later, first.run interp state = (result, later) →
      Mirrors interp view seenNext (rest result) (rest (seen result)) later) :
    Mirrors interp view seenNext (first >>= rest) (first' >>= rest) state :=
  mirrors_bind mirrors next

/-- Two programs with the same image have the same results, as they are seen. -/
theorem Mirrors.congr {seen : α → α'} {first second : Program Call α} {image : Program Call α'}
    {state : σ} (one : Mirrors interp view seen first image state)
    (other : Mirrors interp view seen second image state) :
    seen (first.run interp state).1 = seen (second.run interp state).1 ∧
      view (first.run interp state).2 = view (second.run interp state).2 :=
  Prod.mk.inj (one.symm.trans other)

end Views

end Program

end Ext2Fuse.Lib
