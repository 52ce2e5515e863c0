import RequestDispatch.Proofs.Dependency.Completion
import RequestDispatch.Proofs.Dependency.Simulation
import RequestDispatch.Proofs.Logged

/-!
How code ends. A resolver can be made to log all code that it runs to an end, with the input that
it handed to it and with what it ended with. Nothing else changes, and when a request is authorized
everywhere, its resolution succeeds exactly if all that is logged are values.
-/

namespace RequestDispatch

variable {n : Nat} {σ ε : Type}

/-- Code of a dependency that has come to its end. -/
structure Ending (n : Nat) where
  identity : Fin n
  input : DependencyInput
  outcome : Outcome Provided

namespace Ending

/-- The code has ended with a value. -/
def Succeeds (ending : Ending n) : Prop :=
  ∃ value, ending.outcome = .value value

/-- The notes that log code when it ends. -/
def notes (identity : Fin n) :
    Notes (fun before : Effects (Logged (Ending n) σ) => before.state.effects) DependencyInput
      Provided where
  note _ input before outcome effects :=
    { before with
      state := ⟨effects, before.state.log ++ outcome.toList.map (⟨identity, input, ·⟩)⟩ }
  plain_note _ _ _ _ _ := rfl

/-- Some code in a log has ended without a value. -/
def Faulty (before : Effects (Logged (Ending n) σ)) : Prop :=
  ∃ ending ∈ before.state.log, ¬ending.Succeeds

theorem not_faulty_iff {before : Effects (Logged (Ending n) σ)} :
    ¬Faulty before ↔ ∀ ending ∈ before.state.log, ending.Succeeds := by
  simp only [Faulty, not_exists, not_and, not_not]

end Ending

namespace Progress

/-- What a logged run has changed, without the log. -/
def plain (p : Progress n (Logged ε σ)) : Progress n σ :=
  p.through fun before => before.state.effects

/-- The same progress with an empty log. -/
def logging (p : Progress n σ) : Progress n (Logged ε σ) :=
  ⟨p.cache, ⟨⟨p.effects, []⟩, []⟩, p.journal⟩

def log (p : Progress n (Logged ε σ)) : List ε :=
  p.effects.state.log

end Progress

section Noted

variable {τ : Type} {plain : Effects τ → Effects σ}
  {notes : Fin n → Notes plain DependencyInput Provided}

/-- Ways do not depend on the notes that code keeps. -/
theorem Graph.Way.of_noted {graph : Graph n σ} {edges way : List Edge} {last : Node n}
    (hway : (graph.noted notes).Way edges way last) : graph.Way edges way last := by
  induction hway with
  | here hedge hnode => exact .here hedge hnode
  | further hedge hnode _ ih => exact .further hedge hnode ih

theorem Arena.noted {catalog : Catalog n σ} {nodes : List (Node n)}
    (harena : Arena catalog nodes) : Arena (catalog.noted notes) nodes :=
  ⟨harena.distinct, fun i node hnode =>
    (harena.follows i node hnode).imp fun _ _ hfollows =>
      ⟨hfollows.name, hfollows.scopes, hfollows.target⟩⟩

end Noted

namespace Resolver

/-- A resolver that logs how code ends. -/
def attested (r : Resolver n σ) : Resolver n (Logged (Ending n) σ) :=
  r.noted Ending.notes

/-- Logging how code ends changes nothing else. -/
theorem resolve_attested (r : Resolver n σ) (plan : Plan) (p : Progress n σ) :
    let run := r.attested.resolve plan p.logging
    (run.1, run.2.plain) = r.resolve plan p :=
  (reflects_resolve r Ending.notes plan p.logging).symm

theorem marks_attested (r : Resolver n σ) : r.attested.Marks Ending.Faulty := by
  intro node polls input effects hsound
  have hroutine : (r.attested.graph.dependency node).routine =
      (r.graph.dependency node).routine.noted (Ending.notes node.identity) := rfl
  obtain ⟨first, _, _, hpoll⟩ := (r.graph.dependency node).routine.poll_noted
    (Ending.notes node.identity) polls input effects
  rw [Ending.not_faulty_iff] at hsound
  rw [hroutine, hpoll]
  constructor
  · rintro ⟨ending, hending, hfails⟩
    obtain hbefore | hnow := List.mem_append.mp hending
    · exact absurd (hsound ending hbefore) hfails
    · obtain ⟨outcome, houtcome, rfl⟩ := List.mem_map.mp hnow
      exact ⟨outcome, Option.mem_toList.mp houtcome, hfails⟩
  · rintro ⟨outcome, houtcome, hfails⟩
    refine ⟨⟨node.identity, input, outcome⟩, List.mem_append_right _ ?_, hfails⟩
    exact List.mem_map_of_mem (Option.mem_toList.mpr houtcome)

theorem authorized_attested {r : Resolver n σ} {inherited : Scopes} {edges : List Edge}
    (hauthorized : r.graph.Authorized r.request inherited edges) :
    r.attested.graph.Authorized r.attested.request inherited edges :=
  fun way last hway => hauthorized way last hway.of_noted

/-- A resolution that is authorized everywhere succeeds exactly if all code that it runs to an end
ends with a value. -/
theorem resolve_ok_iff {r : Resolver n σ} {catalog : Catalog n σ}
    (harena : Arena catalog r.graph.nodes) (plan : Plan) (hreaches : r.Reaches r.top plan.roots)
    (hauthorized : r.graph.Authorized r.request [] plan.roots) (p : Progress n σ)
    (hsettled : p.cache.Settled) :
    (∃ provisions after, r.resolve plan p = (.ok provisions, after)) ↔
      ∀ ending ∈ (r.attested.resolve plan p.logging).2.log, ending.Succeeds := by
  have hsame := r.resolve_attested plan p
  have hsound : ¬Ending.Faulty (p.logging : Progress n (Logged (Ending n) σ)).effects := by
    rintro ⟨ending, ⟨⟩, _⟩
  have hattested : Arena (catalog.noted Ending.notes) r.attested.graph.nodes := harena.noted
  have hblames := blames_resolve hattested (marks_attested r) plan hreaches
    (authorized_attested hauthorized) p.logging hsettled hsound
  have hlogged : (∀ ending ∈ (r.attested.resolve plan p.logging).2.log, ending.Succeeds) ↔
      ∃ provisions after, r.attested.resolve plan p.logging = (.ok provisions, after) := by
    rw [hblames.ok_iff]
    exact Ending.not_faulty_iff.symm
  rw [hlogged]
  constructor
  · rintro ⟨provisions, after, hrun⟩
    rw [hrun] at hsame
    have hresult : (r.attested.resolve plan p.logging).1 = .ok provisions :=
      congrArg Prod.fst hsame
    exact ⟨provisions, _, Prod.ext hresult rfl⟩
  · rintro ⟨provisions, after, hrun⟩
    rw [hrun] at hsame
    exact ⟨provisions, _, hsame.symm⟩

end Resolver

end RequestDispatch
