import RequestDispatch.Handler

/-!
What two runs have in common. Application code of one run corresponds to code of another when both
act alike on effects that correspond to each other. The wording of internal errors and of panics
may be left out of the comparison.
-/

namespace RequestDispatch

/-- What is compared of two runs. -/
structure Likeness (σ τ : Type) where
  /-- Effects that correspond to each other. -/
  effects : Effects σ → Effects τ → Prop
  /-- Internal errors and panics have the same wording, and so has the journal. -/
  verbatim : Prop

namespace Likeness

variable {σ τ ι α β : Type} (L : Likeness σ τ)

/-- Errors of one kind, which are the same unless only their wording is internal. -/
structure Errors (one two : DispatchError) : Prop where
  kind : one.kind = two.kind
  same : L.verbatim ∨ one.kind ≠ .internal → one = two

def Panics (one two : Panic) : Prop :=
  L.verbatim → one = two

def Journals (one two : Journal) : Prop :=
  L.verbatim → one = two

/-- Results that are values which correspond to each other, or errors. -/
inductive Results (same : α → β → Prop) :
    Except DispatchError α → Except DispatchError β → Prop
  | ok {a : α} {b : β} (hsame : same a b) : Results same (.ok a) (.ok b)
  | error {one two : DispatchError} (herrors : L.Errors one two) :
      Results same (.error one) (.error two)

/-- Outcomes of code that correspond to each other. -/
inductive Outcomes (same : α → β → Prop) : Outcome α → Outcome β → Prop
  | value {a : α} {b : β} (hsame : same a b) : Outcomes same (.value a) (.value b)
  | failed {one two : DispatchError} (herrors : L.Errors one two) :
      Outcomes same (.failed one) (.failed two)
  | panicked {one two : Panic} (hpanics : L.Panics one two) :
      Outcomes same (.panicked one) (.panicked two)

/-- Code that has come to an end in both runs. -/
def Ends (same : α → β → Prop) (one : Outcome α × Effects σ) (two : Outcome β × Effects τ) : Prop :=
  L.Outcomes same one.1 two.1 ∧ L.effects one.2 two.2

/-- Code that was polled in both runs, and either has ended or pauses. -/
def Polls (same : α → β → Prop) (one : Option (Outcome α) × Effects σ)
    (two : Option (Outcome β) × Effects τ) : Prop :=
  Option.Rel (L.Outcomes same) one.1 two.1 ∧ L.effects one.2 two.2

/-- Code that acts alike on the same inputs. -/
inductive Routines (same : α → β → Prop) : Routine σ ι α → Routine τ ι β → Prop
  | inline {one : ι → Effects σ → Outcome α × Effects σ}
      {two : ι → Effects τ → Outcome β × Effects τ}
      (hrun : ∀ input e f, L.effects e f → L.Ends same (one input e) (two input f)) :
      Routines same (.inline one) (.inline two)
  | suspending (pauses : Nat)
      {attempt : Nat → ι → Effects σ → Option (Outcome α) × Effects σ}
      {other : Nat → ι → Effects τ → Option (Outcome β) × Effects τ}
      {conclude : ι → Effects σ → Outcome α × Effects σ}
      {finish : ι → Effects τ → Outcome β × Effects τ}
      (hattempt : ∀ k input e f, k < pauses → L.effects e f →
        L.Polls same (attempt k input e) (other k input f))
      (hconclude : ∀ input e f, L.effects e f →
        L.Ends same (conclude input e) (finish input f)) :
      Routines same (.suspending pauses attempt conclude) (.suspending pauses other finish)

variable {L} {same : α → β → Prop}

theorem Errors.refl (e : DispatchError) : L.Errors e e :=
  ⟨rfl, fun _ => rfl⟩

/-- Internal errors are alike when their wording is the same or not compared. -/
theorem Errors.of_internal {one two : List String} (hsame : L.verbatim → one = two) :
    L.Errors (.internal one) (.internal two) where
  kind := rfl
  same := by
    rintro (hverbatim | hkind)
    · rw [hsame hverbatim]
    · exact absurd rfl hkind

theorem Panics.refl (panic : Panic) : L.Panics panic panic :=
  fun _ => rfl

theorem Journals.append {one two more others : Journal} (hjournals : L.Journals one two)
    (hmore : L.Journals more others) : L.Journals (one ++ more) (two ++ others) := by
  intro hverbatim
  rw [hjournals hverbatim, hmore hverbatim]

theorem Results.refl (result : Except DispatchError α) : L.Results Eq result result := by
  cases result with
  | ok a => exact .ok rfl
  | error e => exact .error (.refl e)

theorem Outcomes.refl (outcome : Outcome α) : L.Outcomes Eq outcome outcome := by
  cases outcome with
  | value a => exact .value rfl
  | failed e => exact .failed (.refl e)
  | panicked panic => exact .panicked (.refl panic)

theorem Outcomes.mono {other : α → β → Prop} {one : Outcome α} {two : Outcome β}
    (houtcomes : L.Outcomes same one two) (hsame : ∀ a b, same a b → other a b) :
    L.Outcomes other one two := by
  cases houtcomes with
  | value h => exact .value (hsame _ _ h)
  | failed herrors => exact .failed herrors
  | panicked hpanics => exact .panicked hpanics

theorem Ends.polls {one : Outcome α × Effects σ} {two : Outcome β × Effects τ}
    (hends : L.Ends same one two) : L.Polls same (one.map some id) (two.map some id) :=
  ⟨.some hends.1, hends.2⟩

theorem Ends.mono {other : α → β → Prop} {one : Outcome α × Effects σ}
    {two : Outcome β × Effects τ} (hends : L.Ends same one two)
    (hsame : ∀ a b, same a b → other a b) : L.Ends other one two :=
  ⟨hends.1.mono hsame, hends.2⟩

theorem Polls.mono {other : α → β → Prop} {one : Option (Outcome α) × Effects σ}
    {two : Option (Outcome β) × Effects τ} (hpolls : L.Polls same one two)
    (hsame : ∀ a b, same a b → other a b) : L.Polls other one two := by
  obtain ⟨ended, e⟩ := one
  obtain ⟨finished, f⟩ := two
  obtain ⟨houtcomes, heffects⟩ := hpolls
  refine ⟨?_, heffects⟩
  cases houtcomes with
  | none => exact .none
  | some houtcome => exact .some (houtcome.mono hsame)

namespace Routines

variable {one : Routine σ ι α} {two : Routine τ ι β}

theorem pauses_eq (hcode : L.Routines same one two) : one.pauses = two.pauses := by
  cases hcode <;> rfl

theorem poll (hcode : L.Routines same one two) (polls : Nat) (input : ι) {e : Effects σ}
    {f : Effects τ} (heffects : L.effects e f) :
    L.Polls same (one.poll polls input e) (two.poll polls input f) := by
  cases hcode with
  | inline hrun => exact (hrun input e f heffects).polls
  | suspending pauses hattempt hconclude =>
      simp only [Routine.poll]
      split
      · rename_i hless
        exact hattempt polls input e f hless heffects
      · exact (hconclude input e f heffects).polls

theorem mono {other : α → β → Prop} (hcode : L.Routines same one two)
    (hsame : ∀ a b, same a b → other a b) : L.Routines other one two := by
  cases hcode with
  | inline hrun =>
      exact .inline fun input e f heffects => (hrun input e f heffects).mono hsame
  | suspending pauses hattempt hconclude =>
      refine .suspending pauses (fun k input e f hless heffects => ?_) fun input e f heffects => ?_
      · exact (hattempt k input e f hless heffects).mono hsame
      · exact (hconclude input e f heffects).mono hsame

theorem run (hcode : L.Routines same one two) (input : ι) {e : Effects σ} {f : Effects τ}
    (heffects : L.effects e f) : L.Ends same (one.run input e) (two.run input f) := by
  cases hcode with
  | inline hrun => exact hrun input e f heffects
  | @suspending pauses attempt other conclude finish hattempt hconclude =>
      have hattempts (left polls : Nat) (hpauses : polls + left = pauses) (e : Effects σ)
          (f : Effects τ) (heffects : L.effects e f) :
          L.Ends same
            (Routine.runAttempts (fun k => attempt k input) (conclude input) left polls e)
            (Routine.runAttempts (fun k => other k input) (finish input) left polls f) := by
        induction left generalizing polls e f with
        | zero => exact hconclude input e f heffects
        | succ left ih =>
            have hpolled := hattempt polls input e f (by omega) heffects
            simp only [Routine.runAttempts]
            cases hfirst : attempt polls input e with
            | mk ended after =>
                cases hsecond : other polls input f with
                | mk finished last =>
                    rw [hfirst, hsecond] at hpolled
                    obtain ⟨houtcomes, hafter⟩ := hpolled
                    cases houtcomes with
                    | none => exact ih (polls + 1) (by omega) after last hafter
                    | some houtcome => exact ⟨houtcome, hafter⟩
      exact hattempts pauses 0 (Nat.zero_add pauses) e f heffects

end Routines

end Likeness

end RequestDispatch
