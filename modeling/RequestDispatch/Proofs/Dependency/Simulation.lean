import RequestDispatch.Proofs.Dependency.Likeness

/-!
Code that keeps notes. Application code can be made to act upon richer effects, in which every poll
of it leaves a note. A resolver whose dependencies keep notes takes the same steps as before: what
is left of them without the notes are the steps of the resolver itself.
-/

namespace RequestDispatch

variable {n : Nat} {σ τ : Type} {plain : Effects τ → Effects σ}

/-- How code is noted in richer effects, which hold the plain ones. -/
structure Notes (plain : Effects τ → Effects σ) (ι α : Type) where
  /-- The effects after a poll of code and what it did. The first poll is noted as one. -/
  note : (first : Bool) → ι → Effects τ → Option (Outcome α) → Effects σ → Effects τ
  plain_note : ∀ first input before outcome effects,
    plain (note first input before outcome effects) = effects

namespace Routine

variable {ι α : Type}

/-- Code that keeps notes. -/
def noted (notes : Notes plain ι α) : Routine σ ι α → Routine τ ι α
  | .inline run => .inline fun input before =>
      let (outcome, effects) := run input (plain before)
      (outcome, notes.note true input before (some outcome) effects)
  | .suspending pauses attempt conclude => .suspending pauses
      (fun k input before =>
        let (outcome, effects) := attempt k input (plain before)
        (outcome, notes.note (k = 0) input before outcome effects))
      (fun input before =>
        let (outcome, effects) := conclude input (plain before)
        (outcome, notes.note (pauses = 0) input before (some outcome) effects))

theorem pauses_noted (routine : Routine σ ι α) (notes : Notes plain ι α) :
    (routine.noted notes).pauses = routine.pauses := by
  cases routine <;> rfl

/-- A poll of code that keeps notes is a poll of the code and a note. -/
theorem poll_noted (routine : Routine σ ι α) (notes : Notes plain ι α) (polls : Nat)
    (input : ι) (before : Effects τ) :
    ∃ first, (polls = 0 → first = true) ∧
      (0 < polls → polls ≤ routine.pauses → first = false) ∧
      (routine.noted notes).poll polls input before =
        ((routine.poll polls input (plain before)).1,
          notes.note first input before (routine.poll polls input (plain before)).1
            (routine.poll polls input (plain before)).2) := by
  -- Code without pauses is polled once, and that poll is both the first and the last.
  cases routine with
  | inline run =>
      refine ⟨true, fun _ => rfl, ?_, rfl⟩
      intro hpositive hpauses
      simp only [pauses] at hpauses
      omega
  | suspending pauses attempt conclude =>
      by_cases hless : polls < pauses
      · refine ⟨polls = 0, by simp, ?_, ?_⟩
        · intro hpositive _
          simp only [decide_eq_false_iff_not]
          omega
        · simp only [noted, poll, hless, ↓reduceIte]
      · refine ⟨pauses = 0, ?_, ?_, ?_⟩
        · intro hzero
          simp only [decide_eq_true_eq]
          omega
        · intro hpositive hpauses
          simp only [Routine.pauses] at hpauses
          simp only [decide_eq_false_iff_not]
          omega
        · simp only [noted, poll, hless, ↓reduceIte]
          rfl

end Routine

/-- Code that keeps notes acts like the code itself, when plain effects and richer ones still
correspond to each other after any poll and its note. -/
theorem Likeness.Routines.of_notes {L : Likeness σ τ} {ι α : Type} (routine : Routine σ ι α)
    (notes : Notes plain ι α) (hplain : ∀ e f, L.effects e f → plain f = e)
    (hnote : ∀ polls first input e f outcome after, L.effects e f →
      routine.poll polls input e = (outcome, after) →
        L.effects after (notes.note first input f outcome after)) :
    L.Routines Eq routine (routine.noted notes) := by
  cases routine with
  | inline run =>
      refine .inline fun input e f heffects => ?_
      obtain rfl := hplain e f heffects
      exact ⟨.refl _, hnote 0 true input _ f _ _ heffects rfl⟩
  | suspending pauses attempt conclude =>
      refine .suspending pauses (fun k input e f hless heffects => ?_)
        (fun input e f heffects => ?_)
      · obtain rfl := hplain e f heffects
        refine ⟨?_, hnote k (k = 0) input _ f _ _ heffects (if_pos hless)⟩
        dsimp only
        cases (attempt k input (plain f)).1 with
        | none => exact .none
        | some outcome => exact .some (.refl outcome)
      · obtain rfl := hplain e f heffects
        exact ⟨.refl _, hnote pauses (pauses = 0) input _ f _ _ heffects
          (if_neg (Nat.lt_irrefl pauses))⟩

/-- Everything is compared of runs upon plain effects and richer ones. -/
def Likeness.through (plain : Effects τ → Effects σ) : Likeness σ τ :=
  ⟨fun effects rich => effects = plain rich, True⟩

/-- Code that keeps notes acts like the code itself. -/
theorem Likeness.Routines.noted {ι α : Type} (routine : Routine σ ι α) (notes : Notes plain ι α) :
    (Likeness.through plain).Routines Eq routine (routine.noted notes) := by
  apply of_notes
  · rintro e f rfl
    rfl
  · intro polls first input e f outcome after _ _
    exact (notes.plain_note first input f outcome after).symm

/-- The same declarations with code that keeps notes. -/
def Catalog.noted (catalog : Catalog n σ)
    (notes : Fin n → Notes plain DependencyInput Provided) : Catalog n τ where
  dependency := fun i =>
    let dependency := catalog.dependency i
    { name := dependency.name
      parameters := dependency.parameters
      references := dependency.references
      scopes := dependency.scopes
      provider := dependency.provider
      cached := dependency.cached
      routine := dependency.routine.noted (notes i) }
  overrides := catalog.overrides

def Graph.noted (graph : Graph n σ) (notes : Fin n → Notes plain DependencyInput Provided) :
    Graph n τ :=
  ⟨graph.catalog.noted notes, graph.nodes⟩

/-- What was changed, with the richer effects seen as the plain ones. -/
def Progress.through (plain : Effects τ → Effects σ) (p : Progress n τ) : Progress n σ :=
  ⟨p.cache, plain p.effects, p.journal⟩

namespace Resolver

/-- A resolver of code that keeps notes. -/
def noted (r : Resolver n σ) (notes : Fin n → Notes plain DependencyInput Provided) :
    Resolver n τ where
  graph := r.graph.noted notes
  params := r.params
  request := r.request
  requestId := r.requestId

/-- A step upon richer effects does the same as a step upon the plain ones. -/
def Reflects {α : Type} (plain : Effects τ → Effects σ) (step : Step n σ α)
    (rich : Step n τ α) : Prop :=
  ∀ p, step (p.through plain) = ((rich p).1, (rich p).2.through plain)

/-- Steps that come to the same, with the plain effects on one side and richer ones on the other. -/
theorem eq_of_steps {α : Type} {one : Except DispatchError α × Progress n σ}
    {two : Except DispatchError α × Progress n τ}
    (hsteps : (Likeness.through plain).Steps one two) : one = (two.1, two.2.through plain) := by
  have hprogress : one.2 = two.2.through plain := by
    obtain ⟨hcache, heffects, hjournal⟩ := hsteps.progress
    have hplain : one.2.effects = plain two.2.effects := heffects
    simp only [Progress.through, ← hcache, ← hjournal trivial, ← hplain]
  obtain ⟨e, f, p, q, rfl, rfl, herrors, _⟩ | ⟨a, p, q, rfl, rfl, _⟩ := hsteps.failed_or_done
  · exact Prod.ext (congrArg Except.error (herrors.same (.inl trivial))) hprogress
  · exact Prod.ext rfl hprogress

/-- Keeping notes changes nothing else. -/
theorem reflects_resolve (r : Resolver n σ)
    (notes : Fin n → Notes plain DependencyInput Provided) (plan : Plan) :
    Reflects plain (r.resolve plan) ((r.noted notes).resolve plan) := by
  have hnoted : (Likeness.through plain).Resolvers r (r.noted notes) :=
    ⟨rfl, rfl, rfl, rfl, fun i => ⟨rfl, rfl, rfl, rfl, rfl, rfl, .noted _ (notes i)⟩⟩
  intro p
  exact eq_of_steps (hnoted.resolve plan ⟨rfl, rfl, fun _ => rfl⟩)

end Resolver

end RequestDispatch
