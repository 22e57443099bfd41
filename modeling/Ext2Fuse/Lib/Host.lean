import Ext2Fuse.Lib.Program

/-!
# Calls the process may not come back from

A `Host` gives the calls a meaning in which one of them can end the process. `runOn` is the run in
such a process, `Answered` says of its calls that none faults and that each is answered as needed,
and `tally` counts the answers of a kind. `Decides` is the bridge: a routine whose result is a good
one exactly when its calls are answered as needed.
-/

namespace Ext2Fuse.Lib

/-- How a call ends the process: by leaving it, or by a fault. -/
inductive Halt where
  | exit
  | fault

/-- A meaning for the calls over the states `σ` in which the process may end. -/
structure Host (Call : Type → Type) (σ : Type) where
  exec : {β : Type} → Call β → σ → Except Halt (β × σ)

/-- A process that never ends in a call. -/
def Interp.host {Call : Type → Type} {σ : Type} (interp : Interp Call σ) : Host Call σ where
  exec operation state := .ok (interp.exec operation state)

namespace Program

variable {Call : Type → Type} {σ α β : Type}

/-- Execute to the end, or to the end of the process. -/
def runOn (host : Host Call σ) : Program Call α → σ → Except Halt (α × σ)
  | done result, state => .ok (result, state)
  | call operation next, state =>
      (host.exec operation state).bind fun answer => runOn host (next answer.1) answer.2

/-- No call of the run faults, and each answer is as needed. -/
def Answered (host : Host Call σ) (needs : {β : Type} → Call β → β → Prop) :
    Program Call α → σ → Prop
  | done _, _ => True
  | call operation next, state =>
      host.exec operation state ≠ .error .fault ∧
        ∀ response later, host.exec operation state = .ok (response, later) →
          needs operation response ∧ Answered host needs (next response) later

/-- How many calls of the run have an answer that counts. -/
def tally (host : Host Call σ) (counts : {β : Type} → Call β → β → Bool) : Program Call α → σ → Nat
  | done _, _ => 0
  | call operation next, state =>
      match host.exec operation state with
      | .error _ => 0
      | .ok (response, later) =>
          (if counts operation response then 1 else 0) + tally host counts (next response) later

/-- The run has not faulted, and the result, if there is one, is a good one. -/
def Completes (post : α → Prop) (outcome : Except Halt (α × σ)) : Prop :=
  outcome ≠ .error .fault ∧ ∀ result state, outcome = .ok (result, state) → post result

section Runs

variable {host : Host Call σ}

/-- Over the host of a total interpretation a program runs as before and never halts. -/
theorem runOn_host (interp : Interp Call σ) (program : Program Call α) (state : σ) :
    program.runOn interp.host state = .ok (program.run interp state) := by
  induction program generalizing state with
  | done result => rfl
  | call operation next inductionHypothesis => exact inductionHypothesis _ _

/-- A sequence runs its second part from where the first one ended, unless that halted. -/
theorem runOn_bind (first : Program Call α) (rest : α → Program Call β) (state : σ) :
    (first >>= rest).runOn host state =
      (first.runOn host state).bind fun answer => (rest answer.1).runOn host answer.2 := by
  induction first generalizing state with
  | done result => rfl
  | call operation next inductionHypothesis =>
      change (host.exec operation state).bind
        (fun answer => (next answer.1 >>= rest).runOn host answer.2) =
        ((host.exec operation state).bind _).bind _
      cases host.exec operation state with
      | error halt => rfl
      | ok answer => exact inductionHypothesis _ _

/-- A single call is executed by the host. -/
theorem runOn_lift (operation : Call α) (state : σ) :
    (lift operation).runOn host state = host.exec operation state := by
  change (host.exec operation state).bind (fun answer => .ok (answer.1, answer.2)) = _
  cases host.exec operation state with
  | error halt => rfl
  | ok answer => rfl

/-- A run that ended completes when its result meets the condition. -/
theorem completes_ok {post : α → Prop} {result : α} {state : σ} :
    Completes post (.ok (result, state) : Except Halt (α × σ)) ↔ post result := by
  refine ⟨fun completes => completes.2 result state rfl, fun holds => ⟨?_, ?_⟩⟩
  · intro fault
    cases fault
  · rintro other later same
    cases same
    exact holds

/-- What holds whatever the calls respond holds of the result. -/
theorem Ends.runOn {post : α → Prop} {program : Program Call α} (ends : Ends post program)
    {state later : σ} {result : α} (outcome : program.runOn host state = .ok (result, later)) :
    post result := by
  induction program generalizing state with
  | done other =>
      cases outcome
      exact ends
  | call operation next inductionHypothesis =>
      change (host.exec operation state).bind _ = _ at outcome
      cases answered : host.exec operation state with
      | error halt =>
          rw [answered] at outcome
          cases outcome
      | ok answer =>
          rw [answered] at outcome
          exact inductionHypothesis _ (ends _) outcome

end Runs

section Decisions

variable {needs : {β : Type} → Call β → β → Prop} {post : α → Prop}

variable (needs) in
/-- As long as the calls are answered as needed the routine goes on to a good result; with the first
other answer it ends at once with another one. -/
def Decides (post : α → Prop) : Program Call α → Prop
  | done result => post result
  | call operation next => ∀ response,
      (needs operation response → Decides post (next response)) ∧
        (¬ needs operation response → ∃ result, next response = done result ∧ ¬ post result)

/-- A program that only answers decides when its answer is good. -/
theorem decides_pure {result : α} (holds : post result) :
    Decides needs post (pure result : Program Call α) := holds

/-- A call decides when a bad answer to it ends the program with a bad result, and a good one
leaves the rest to decide. -/
theorem decides_lift_bind {operation : Call α} {rest : α → Program Call β} {post : β → Prop}
    (good : ∀ response, needs operation response → Decides needs post (rest response))
    (bad : ∀ response, ¬ needs operation response →
      ∃ result, rest response = done result ∧ ¬ post result) :
    Decides needs post (lift operation >>= rest) :=
  fun response => ⟨good response, bad response⟩

/-- A call that may be answered with anything. -/
theorem decides_lift_any {operation : Call α} {rest : α → Program Call β} {post : β → Prop}
    (free : ∀ response, needs operation response)
    (good : ∀ response, Decides needs post (rest response)) :
    Decides needs post (lift operation >>= rest) :=
  decides_lift_bind (fun response _ => good response)
    fun response refused => absurd (free response) refused

/-- Deciding composes over a sequence whose first part's bad results end it. -/
theorem decides_bind {middle : α → Prop} {first : Program Call α} {rest : α → Program Call β}
    {post : β → Prop} (decides : Decides needs middle first)
    (good : ∀ result, middle result → Decides needs post (rest result))
    (bad : ∀ result, ¬ middle result → ∃ last, rest result = done last ∧ ¬ post last) :
    Decides needs post (first >>= rest) := by
  induction first with
  | done result => exact good result decides
  | call operation next inductionHypothesis =>
      intro response
      refine ⟨fun needed => inductionHypothesis response ((decides response).1 needed),
        fun refused => ?_⟩
      obtain ⟨result, ended, other⟩ := (decides response).2 refused
      obtain ⟨last, isLast, worse⟩ := bad result other
      refine ⟨last, ?_, worse⟩
      change (next response).bind rest = _
      rw [ended]
      exact isLast

/-- When every answer will do the result is a good one anyway. -/
theorem Ends.decides {program : Program Call α} (ends : Ends post program)
    (free : ∀ {β : Type} (operation : Call β) (response : β), needs operation response) :
    Decides needs post program := by
  induction program with
  | done result => exact ends
  | call operation next inductionHypothesis =>
      exact fun response => ⟨fun _ => inductionHypothesis response (ends response),
        fun refused => absurd (free operation response) refused⟩

/-- In a process that may end, such a routine completes with a good result exactly when its calls do
not fault and are answered as needed. -/
theorem Decides.completes_iff {program : Program Call α} (decides : Decides needs post program)
    (host : Host Call σ) (state : σ) :
    Completes post (program.runOn host state) ↔ Answered host needs program state := by
  induction program generalizing state with
  | done result => exact iff_of_true (completes_ok.mpr decides) trivial
  | call operation next inductionHypothesis =>
      change Completes post ((host.exec operation state).bind _) ↔ _ ∧ _
      cases answered : host.exec operation state with
      | error halt =>
          constructor
          · rintro ⟨going, -⟩
            refine ⟨fun fault => going ?_, ?_⟩
            · cases fault
              rfl
            · rintro response later same
              cases same
          · rintro ⟨going, -⟩
            refine ⟨fun fault => going ?_, ?_⟩
            · cases fault
              rfl
            · rintro result last same
              cases same
      | ok answer =>
          obtain ⟨response, later⟩ := answer
          have goes : (Except.ok (response, later) : Except Halt _) ≠ .error .fault := by
            intro fault
            cases fault
          by_cases needed : needs operation response
          · refine (inductionHypothesis response ((decides response).1 needed) later).trans ?_
            constructor
            · rintro rest
              refine ⟨goes, ?_⟩
              rintro other after same
              cases same
              exact ⟨needed, rest⟩
            · exact fun rest => (rest.2 response later rfl).2
          · obtain ⟨result, ended, other⟩ := (decides response).2 needed
            refine iff_of_false (fun completes => other ?_)
              fun rest => needed (rest.2 response later rfl).1
            refine completes.2 result later ?_
            change (next response).runOn host later = _
            rw [ended]
            rfl

end Decisions

section Tallies

variable {host : Host Call σ} {counts : {β : Type} → Call β → β → Bool}

/-- A call that halts counts nothing. -/
theorem tally_lift_bind_error {operation : Call α} {next : α → Program Call β}
    {state : σ} {halt : Halt} (ended : host.exec operation state = .error halt) :
    tally host counts (lift operation >>= next) state = 0 := by
  change tally host counts (call operation next) state = 0
  rw [tally, ended]

/-- An answered call counts if its answer is of the counted kind, and the rest goes on from there.
-/
theorem tally_lift_bind_ok {operation : Call α} {next : α → Program Call β} {state later : σ}
    {response : α} (answered : host.exec operation state = .ok (response, later)) :
    tally host counts (lift operation >>= next) state =
      (if counts operation response then 1 else 0) + tally host counts (next response) later := by
  change tally host counts (call operation next) state = _
  rw [tally, answered]

variable (counts) in
/-- No answer to a call of the routine counts. -/
def Uncounted : Program Call α → Prop
  | done _ => True
  | call operation next => ∀ response, counts operation response = false ∧ Uncounted (next response)

/-- An answer alone makes no counted call. -/
theorem uncounted_pure (result : α) : Uncounted counts (pure result : Program Call α) := trivial

/-- A call of another kind adds nothing to the count. -/
theorem uncounted_lift_bind {operation : Call α} {rest : α → Program Call β}
    (free : ∀ response, counts operation response = false)
    (next : ∀ response, Uncounted counts (rest response)) :
    Uncounted counts (lift operation >>= rest) :=
  fun response => ⟨free response, next response⟩

/-- A choice between two uncounted programs is uncounted. -/
theorem uncounted_ite {condition : Prop} [Decidable condition] {first second : Program Call α}
    (uncounted : Uncounted counts first) (uncounted' : Uncounted counts second) :
    Uncounted counts (if condition then first else second) := by
  split
  · exact uncounted
  · exact uncounted'

/-- On every host and from every state the tally of an uncounted program is zero. -/
theorem Uncounted.tally {program : Program Call α} (uncounted : Uncounted counts program)
    (host : Host Call σ) (state : σ) : program.tally host counts state = 0 := by
  induction program generalizing state with
  | done result => rfl
  | call operation next inductionHypothesis =>
      rw [Program.tally]
      split
      · rfl
      · rename_i response later _
        obtain ⟨free, rest⟩ := uncounted response
        rw [if_neg (by simp [free]), inductionHypothesis response rest]

/-- What a routine counts before another one goes on. -/
theorem tally_bind {first : Program Call α} {rest : α → Program Call β}
    {state later : σ} {result : α} (outcome : first.runOn host state = .ok (result, later)) :
    (first >>= rest).tally host counts state =
      first.tally host counts state + (rest result).tally host counts later := by
  induction first generalizing state with
  | done other =>
      cases outcome
      exact (Nat.zero_add _).symm
  | call operation next inductionHypothesis =>
      change (host.exec operation state).bind _ = _ at outcome
      change tally host counts (call operation fun response => next response >>= rest) state = _
      rw [tally, tally]
      cases answered : host.exec operation state with
      | error halt =>
          rw [answered] at outcome
          cases outcome
      | ok answer =>
          rw [answered] at outcome
          obtain ⟨response, after⟩ := answer
          dsimp only
          rw [inductionHypothesis _ outcome, Nat.add_assoc]

/-- The process has ended in it. -/
theorem tally_bind_error {first : Program Call α} {rest : α → Program Call β}
    {state : σ} {halt : Halt} (outcome : first.runOn host state = .error halt) :
    (first >>= rest).tally host counts state = first.tally host counts state := by
  induction first generalizing state with
  | done other => cases outcome
  | call operation next inductionHypothesis =>
      change (host.exec operation state).bind _ = _ at outcome
      change tally host counts (call operation fun response => next response >>= rest) state = _
      rw [tally, tally]
      cases answered : host.exec operation state with
      | error halt => rfl
      | ok answer =>
          rw [answered] at outcome
          obtain ⟨response, after⟩ := answer
          dsimp only
          rw [inductionHypothesis _ outcome]

end Tallies

end Program

end Ext2Fuse.Lib
