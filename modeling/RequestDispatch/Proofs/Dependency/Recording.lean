import RequestDispatch.Proofs.Dependency.Simulation

/-!
Runs of code on record. A resolver can be made to write down when the code of a dependency
begins, with its input, and when it ends with a value. That changes nothing else: without the
record, its resolutions are those of the resolver itself.
-/

namespace RequestDispatch

variable {n : Nat} {σ : Type}

/-- What happens to the code of a dependency. -/
inductive Event (n : Nat) where
  | began (identity : Fin n) (input : DependencyInput)
  | ended (identity : Fin n) (value : Provided)

/-- The effects of code with what happened so far. -/
structure Recorded (n : Nat) (σ : Type) where
  effects : Effects σ
  log : List (Event n)

/-- The end of code, if it has ended with a value. -/
def Event.endings (identity : Fin n) : Option (Outcome Provided) → List (Event n)
  | some (.value value) => [.ended identity value]
  | _ => []

/-- Writes down a poll of code and what it did. -/
def Recorded.note (identity : Fin n) (first : Bool) (input : DependencyInput)
    (before : Effects (Recorded n σ)) (outcome : Option (Outcome Provided))
    (effects : Effects σ) : Effects (Recorded n σ) :=
  let begun := if first then [.began identity input] else []
  { before with state := ⟨effects, before.state.log ++ (begun ++ Event.endings identity outcome)⟩ }

/-- Code that is recorded. -/
def Routine.recorded (identity : Fin n) :
    Routine σ DependencyInput Provided → Routine (Recorded n σ) DependencyInput Provided
  | .inline run => .inline fun input before =>
      let (outcome, effects) := run input before.state.effects
      (outcome, Recorded.note identity true input before (some outcome) effects)
  | .suspending pauses attempt conclude => .suspending pauses
      (fun k input before =>
        let (outcome, effects) := attempt k input before.state.effects
        (outcome, Recorded.note identity (k = 0) input before outcome effects))
      (fun input before =>
        let (outcome, effects) := conclude input before.state.effects
        (outcome, Recorded.note identity (pauses = 0) input before (some outcome) effects))

/-- The record is a way to keep notes. -/
def Recorded.notes (identity : Fin n) :
    Notes (fun before : Effects (Recorded n σ) => before.state.effects) DependencyInput
      Provided where
  note := Recorded.note identity
  plain_note _ _ _ _ _ := rfl

theorem Routine.recorded_eq (routine : Routine σ DependencyInput Provided) (identity : Fin n) :
    routine.recorded identity = routine.noted (Recorded.notes identity) := by
  cases routine <;> rfl

/-- What a recording resolver has changed, without the record. -/
def Progress.erase (p : Progress n (Recorded n σ)) : Progress n σ :=
  ⟨p.cache, p.effects.state.effects, p.journal⟩

/-- The same progress with an empty record. -/
def Progress.onRecord (p : Progress n σ) : Progress n (Recorded n σ) :=
  ⟨p.cache, ⟨⟨p.effects, []⟩, []⟩, p.journal⟩

namespace Resolver

/-- The code of every dependency is logged: a poll adds that the code begins, if it is the first
one, and that it ends, if it does. -/
def Logs (r : Resolver n σ) (log : Effects σ → List (Event n)) : Prop :=
  ∀ (node : Node n) (polls : Nat) (input : DependencyInput) (effects : Effects σ),
    let result := (r.graph.dependency node).routine.poll polls input effects
    ∃ begun, (polls = 0 → begun = [.began node.identity input]) ∧
      (0 < polls → polls ≤ (r.graph.dependency node).routine.pauses → begun = []) ∧
      log result.2 = log effects ++ (begun ++ Event.endings node.identity result.1)

/-- Polled code is logged: that it begins, if this is the first poll, and that it ends. -/
theorem Logs.runBody {r : Resolver n σ} {log : Effects σ → List (Event n)} (hlogs : r.Logs log)
    {visit : Visit n} {provided : Provisions} {polls : Nat} {p after : Progress n σ}
    {b : Branch n} (hrun : r.runBody visit provided polls p = (.ok b, after)) :
    ∃ begun, (polls = 0 → begun = [.began visit.node.identity (r.inputOf visit provided)]) ∧
      (0 < polls → polls ≤ r.pausesOf visit → begun = []) ∧
      ((b = .running visit provided (polls + 1) ∧ polls < r.pausesOf visit ∧
          after.cache = p.cache ∧ log after.effects = log p.effects ++ begun) ∨
        ∃ value, b = .resolved value ∧ after.cache = r.keep visit value p.cache ∧
          log after.effects =
            log p.effects ++ (begun ++ [.ended visit.node.identity value])) := by
  obtain ⟨begun, hfirst, hlater, hlog⟩ :=
    hlogs visit.node polls (r.inputOf visit provided) p.effects
  refine ⟨begun, hfirst, hlater, ?_⟩
  simp only [Resolver.runBody] at hrun
  split at hrun
  · rename_i effects hpoll
    rw [hpoll] at hlog
    cases hrun
    refine Or.inl ⟨rfl, Routine.lt_pauses_of_poll _ _ _ _ _ hpoll, rfl, ?_⟩
    simpa [Event.endings] using hlog
  · rename_i outcome effects hpoll
    rw [hpoll] at hlog
    cases outcome with
    | value value =>
        cases hrun
        exact Or.inr ⟨value, rfl, rfl, hlog⟩
    | failed e => cases hrun
    | panicked panic => cases hrun

/-- A resolver that records what happens to code. -/
def recorded (r : Resolver n σ) : Resolver n (Recorded n σ) where
  graph :=
    { catalog :=
        { dependency := fun i =>
            let dependency := r.graph.catalog.dependency i
            { name := dependency.name
              parameters := dependency.parameters
              references := dependency.references
              scopes := dependency.scopes
              provider := dependency.provider
              cached := dependency.cached
              routine := dependency.routine.recorded i }
          overrides := r.graph.catalog.overrides }
      nodes := r.graph.nodes }
  params := r.params
  request := r.request
  requestId := r.requestId

/-- A step does the same as a recorded one, apart from the record. -/
def Mirrors {α : Type} (plain : Step n σ α) (recorded : Step n (Recorded n σ) α) : Prop :=
  ∀ p, plain p.erase = ((recorded p).1, (recorded p).2.erase)

theorem recorded_eq (r : Resolver n σ) : r.recorded = r.noted Recorded.notes := by
  simp only [recorded, noted, Graph.noted, Catalog.noted, Routine.recorded_eq]

variable {r : Resolver n σ}

/-- Recording changes nothing else. -/
theorem mirrors_resolve (plan : Plan) :
    Mirrors (r.resolve plan) (r.recorded.resolve plan) := by
  rw [recorded_eq]
  intro p
  exact reflects_resolve r Recorded.notes plan p

theorem logs_recorded (r : Resolver n σ) : r.recorded.Logs (·.state.log) := by
  rw [recorded_eq]
  intro node polls input effects
  have hroutine : ((r.noted Recorded.notes).graph.dependency node).routine =
      (r.graph.dependency node).routine.noted (Recorded.notes node.identity) := rfl
  obtain ⟨first, hfirst, hlater, hpoll⟩ := (r.graph.dependency node).routine.poll_noted
    (Recorded.notes node.identity) polls input effects
  simp only [hroutine, hpoll, Routine.pauses_noted]
  refine ⟨if first then [.began node.identity input] else [], ?_, ?_, rfl⟩
  · intro hzero
    simp only [hfirst hzero, ↓reduceIte]
  · intro hpositive hpauses
    simp only [hlater hpositive hpauses, Bool.false_eq_true, ↓reduceIte]

/-- What happens to code during a resolution. -/
def history (r : Resolver n σ) (plan : Plan) (p : Progress n σ) : List (Event n) :=
  (r.recorded.resolve plan p.onRecord).2.effects.state.log

end Resolver

end RequestDispatch
