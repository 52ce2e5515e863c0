import RequestDispatch.Proofs.Dependency.Steps
import RequestDispatch.Proofs.Likeness

/-!
Resolutions that are alike. When the dependencies of two resolvers differ in nothing but their
code, and that acts alike, then the resolvers take steps that are alike: they evaluate the same
dependencies, and come to the same values or to errors that are alike.
-/

namespace RequestDispatch

variable {n : Nat} {σ τ : Type}

namespace Likeness

variable (L : Likeness σ τ)

/-- Declarations of a dependency with code that acts alike. -/
structure Dependencies (one : Dependency n σ) (two : Dependency n τ) : Prop where
  name : one.name = two.name
  parameters : one.parameters = two.parameters
  references : one.references = two.references
  scopes : one.scopes = two.scopes
  provider : one.provider = two.provider
  cached : one.cached = two.cached
  routine : L.Routines Eq one.routine two.routine

/-- Resolvers of the same request in the same graph. -/
structure Resolvers (one : Resolver n σ) (two : Resolver n τ) : Prop where
  nodes : one.graph.nodes = two.graph.nodes
  params : one.params = two.params
  request : one.request = two.request
  requestId : one.requestId = two.requestId
  dependency : ∀ i, L.Dependencies (one.graph.catalog.dependency i)
    (two.graph.catalog.dependency i)

structure Progresses (one : Progress n σ) (two : Progress n τ) : Prop where
  cache : one.cache = two.cache
  effects : L.effects one.effects two.effects
  journal : L.Journals one.journal two.journal

/-- What a step of a resolution has come to in both runs. -/
structure Steps {α : Type} (one : Except DispatchError α × Progress n σ)
    (two : Except DispatchError α × Progress n τ) : Prop where
  result : L.Results Eq one.1 two.1
  progress : L.Progresses one.2 two.2

variable {L}

namespace Steps

variable {α β : Type} {p : Progress n σ} {q : Progress n τ}

theorem ok (a : α) (hpq : L.Progresses p q) : L.Steps (.ok a, p) (.ok a, q) :=
  ⟨.ok rfl, hpq⟩

theorem error {e f : DispatchError} (herrors : L.Errors e f) (hpq : L.Progresses p q) :
    L.Steps (α := α) (.error e, p) (.error f, q) :=
  ⟨.error herrors, hpq⟩

/-- Steps that are alike have both failed or both come to the same value. -/
theorem failed_or_done {one : Except DispatchError α × Progress n σ}
    {two : Except DispatchError α × Progress n τ} (hsteps : L.Steps one two) :
    (∃ e f p q, one = (.error e, p) ∧ two = (.error f, q) ∧ L.Errors e f ∧ L.Progresses p q) ∨
      ∃ a p q, one = (.ok a, p) ∧ two = (.ok a, q) ∧ L.Progresses p q := by
  obtain ⟨result, p⟩ := one
  obtain ⟨final, q⟩ := two
  obtain ⟨hresult, hprogress⟩ := hsteps
  cases hresult with
  | error herrors => exact .inl ⟨_, _, p, q, rfl, rfl, herrors, hprogress⟩
  | ok hsame =>
      cases hsame
      exact .inr ⟨_, p, q, rfl, rfl, hprogress⟩

end Steps

namespace Progresses

variable {p : Progress n σ} {q : Progress n τ}

theorem withEffects (hpq : L.Progresses p q) {e : Effects σ} {f : Effects τ}
    (heffects : L.effects e f) : L.Progresses { p with effects := e } { q with effects := f } :=
  ⟨hpq.cache, heffects, hpq.journal⟩

theorem withCache (hpq : L.Progresses p q) (cache : Cache n) :
    L.Progresses { p with cache } { q with cache } :=
  ⟨rfl, hpq.effects, hpq.journal⟩

end Progresses

namespace Resolvers

open Resolver

variable {r : Resolver n σ} {s : Resolver n τ}

section

variable (hrs : L.Resolvers r s)
include hrs

theorem at_node (node : Node n) :
    L.Dependencies (r.graph.dependency node) (s.graph.dependency node) :=
  hrs.dependency node.identity

theorem accumulate_eq (inherited : Scopes) (edge : Edge) (node : Node n) :
    accumulate inherited edge (r.graph.dependency node) =
      accumulate inherited edge (s.graph.dependency node) := by
  simp only [accumulate, (hrs.at_node node).scopes]

theorem authorize_eq (node : Node n) (scopes : Scopes) :
    authorize r.request (r.graph.dependency node) scopes =
      authorize s.request (s.graph.dependency node) scopes := by
  simp only [authorize, (hrs.at_node node).provider, hrs.request]

theorem authorizeBelow_eq (level : Nat) (inherited : Scopes) (edges : List Edge) :
    r.authorizeBelow level inherited edges = s.authorizeBelow level inherited edges := by
  induction level generalizing inherited edges with
  | zero => cases edges <;> rfl
  | succ level ih =>
      cases edges with
      | nil => rfl
      | cons edge rest =>
          simp only [authorizeBelow, ih, hrs.nodes, hrs.accumulate_eq, hrs.authorize_eq]

theorem inputOf_eq (visit : Visit n) (provided : Provisions) :
    r.inputOf visit provided = s.inputOf visit provided := by
  simp only [inputOf, hrs.params, hrs.request, hrs.requestId]

theorem settle (visit : Visit n) {one two : Outcome Provided} (houtcomes : L.Outcomes Eq one two)
    {p : Progress n σ} {q : Progress n τ} (hpq : L.Progresses p q) :
    L.Steps (r.settle visit one p) (s.settle visit two q) := by
  cases houtcomes with
  | value hsame =>
      cases hsame
      simp only [Resolver.settle, (hrs.at_node visit.node).cached, hpq.cache]
      exact .ok _ ⟨rfl, hpq.effects, hpq.journal⟩
  | failed herrors => exact .error herrors hpq
  | panicked hpanics =>
      simp only [Resolver.settle, panicked, (hrs.at_node visit.node).name]
      refine .error (.of_internal ?_) ⟨hpq.cache, hpq.effects, hpq.journal.append ?_⟩
      · intro hverbatim
        rw [hpanics hverbatim]
      · intro hverbatim
        rw [hpanics hverbatim]

theorem runBody (visit : Visit n) (provided : Provisions) (polls : Nat)
    {p : Progress n σ} {q : Progress n τ} (hpq : L.Progresses p q) :
    L.Steps (r.runBody visit provided polls p) (s.runBody visit provided polls q) := by
  have hpolled := (hrs.at_node visit.node).routine.poll polls (r.inputOf visit provided) hpq.effects
  simp only [Resolver.runBody, ← hrs.inputOf_eq]
  cases hone : (r.graph.dependency visit.node).routine.poll polls (r.inputOf visit provided)
      p.effects with
  | mk ended e =>
      cases htwo : (s.graph.dependency visit.node).routine.poll polls (r.inputOf visit provided)
          q.effects with
      | mk finished f =>
          rw [hone, htwo] at hpolled
          obtain ⟨houtcomes, heffects⟩ := hpolled
          cases houtcomes with
          | none => exact .ok _ (hpq.withEffects heffects)
          | some houtcome => exact hrs.settle visit houtcome (hpq.withEffects heffects)

theorem gathered (visit : Visit n) (below : List (Branch n)) {p : Progress n σ}
    {q : Progress n τ} (hpq : L.Progresses p q) :
    L.Steps (r.gathered visit below p) (s.gathered visit below q) := by
  simp only [Resolver.gathered]
  cases below.mapM Branch.value? with
  | none => exact .ok _ hpq
  | some values => exact hrs.runBody visit _ 0 hpq

omit hrs in
theorem pollEach {α β : Type} {poll : α → Step n σ β} {further : α → Step n τ β}
    (hpoll : ∀ a p q, L.Progresses p q → L.Steps (poll a p) (further a q)) (items : List α)
    {p : Progress n σ} {q : Progress n τ} (hpq : L.Progresses p q) :
    L.Steps (pollEach poll items p) (Resolver.pollEach further items q) := by
  induction items generalizing p q with
  | nil => exact .ok _ hpq
  | cons a rest ih =>
      obtain ⟨e, f, p', q', hone, htwo, herrors, hpq⟩ | ⟨b, p', q', hone, htwo, hpq⟩ :=
        (hpoll a p q hpq).failed_or_done
      · simp only [Resolver.pollEach, hone, htwo]
        exact .error herrors hpq
      · obtain ⟨e, f, p', q', hrest, hmore, herrors, hpq⟩ | ⟨bs, p', q', hrest, hmore, hpq⟩ :=
          (ih hpq).failed_or_done
        · simp only [Resolver.pollEach, hone, htwo, hrest, hmore]
          exact .error herrors hpq
        · simp only [Resolver.pollEach, hone, htwo, hrest, hmore]
          exact .ok _ hpq

theorem evaluate {start : Scopes → Edge → Step n σ (Branch n)}
    {further : Scopes → Edge → Step n τ (Branch n)}
    (hstart : ∀ inherited edge p q, L.Progresses p q →
      L.Steps (start inherited edge p) (further inherited edge q))
    (visit : Visit n) {p : Progress n σ} {q : Progress n τ} (hpq : L.Progresses p q) :
    L.Steps (r.evaluate start visit p) (s.evaluate further visit q) := by
  obtain ⟨e, f, p', q', hone, htwo, herrors, hpq⟩ | ⟨below, p', q', hone, htwo, hpq⟩ :=
    (pollEach (hstart visit.scopes) visit.node.edges hpq).failed_or_done
  · simp only [Resolver.evaluate, hone, htwo]
    exact .error herrors hpq
  · simp only [Resolver.evaluate, hone, htwo]
    exact hrs.gathered visit below hpq

theorem arrive (level : Nat) {start : Scopes → Edge → Step n σ (Branch n)}
    {further : Scopes → Edge → Step n τ (Branch n)}
    (hstart : ∀ inherited edge p q, L.Progresses p q →
      L.Steps (start inherited edge p) (further inherited edge q))
    (visit : Visit n) {p : Progress n σ} {q : Progress n τ} (hpq : L.Progresses p q) :
    L.Steps (r.arrive level start visit p) (s.arrive level further visit q) := by
  simp only [Resolver.arrive, (hrs.at_node visit.node).cached, hrs.authorizeBelow_eq, hpq.cache]
  cases (s.graph.dependency visit.node).cached with
  | false => exact hrs.evaluate hstart visit hpq
  | true =>
      simp only [Bool.not_true, Bool.false_eq_true, ↓reduceIte]
      cases q.cache.gate visit.node.identity with
      | taken => exact .ok _ hpq
      | filled value =>
          cases s.authorizeBelow level visit.scopes visit.node.edges with
          | error e => exact .error (.refl e) hpq
          | ok _ => exact .ok _ hpq
      | untouched => exact hrs.evaluate hstart visit (hpq.withCache _)
      | free => exact hrs.evaluate hstart visit (hpq.withCache _)

theorem start (level : Nat) (inherited : Scopes) (edge : Edge) {p : Progress n σ}
    {q : Progress n τ} (hpq : L.Progresses p q) :
    L.Steps (r.start level inherited edge p) (s.start level inherited edge q) := by
  induction level generalizing inherited edge p q with
  | zero => exact .error (.refl _) hpq
  | succ level ih =>
      simp only [Resolver.start, hrs.nodes, hrs.accumulate_eq, hrs.authorize_eq]
      cases s.graph.nodes[edge.node]? with
      | none => exact .error (.refl _) hpq
      | some node =>
          dsimp only
          cases authorize s.request (s.graph.dependency node)
              (accumulate inherited edge (s.graph.dependency node)) with
          | error e => exact .error (.refl e) hpq
          | ok credentials =>
              exact hrs.arrive level (fun inherited edge _ _ hpq => ih inherited edge hpq) _ hpq

theorem top_eq : r.top = s.top := by
  simp only [top, hrs.nodes]

end

mutual

theorem poll (hrs : L.Resolvers r s) (b : Branch n) {p : Progress n σ} {q : Progress n τ}
    (hpq : L.Progresses p q) : L.Steps (r.poll b p) (s.poll b q) := by
  cases b with
  | resolved value => exact .ok _ hpq
  | waiting visit =>
      simp only [Resolver.poll, hrs.top_eq]
      exact hrs.arrive _ (fun inherited edge _ _ hpq => hrs.start _ inherited edge hpq) visit hpq
  | gathering visit below =>
      obtain ⟨e, f, p', q', hone, htwo, herrors, hpq⟩ | ⟨more, p', q', hone, htwo, hpq⟩ :=
        (pollAll hrs below hpq).failed_or_done
      · simp only [Resolver.poll, hone, htwo]
        exact .error herrors hpq
      · simp only [Resolver.poll, hone, htwo]
        exact hrs.gathered visit more hpq
  | running visit provided polls =>
      simp only [Resolver.poll]
      exact hrs.runBody visit provided polls hpq

theorem pollAll (hrs : L.Resolvers r s) (branches : List (Branch n)) {p : Progress n σ}
    {q : Progress n τ} (hpq : L.Progresses p q) :
    L.Steps (r.pollAll branches p) (s.pollAll branches q) := by
  cases branches with
  | nil => exact .ok _ hpq
  | cons b rest =>
      obtain ⟨e, f, p', q', hone, htwo, herrors, hpq⟩ | ⟨next, p', q', hone, htwo, hpq⟩ :=
        (poll hrs b hpq).failed_or_done
      · simp only [Resolver.pollAll, hone, htwo]
        exact .error herrors hpq
      · obtain ⟨e, f, p', q', hrest, hmore, herrors, hpq⟩ | ⟨bs, p', q', hrest, hmore, hpq⟩ :=
          (pollAll hrs rest hpq).failed_or_done
        · simp only [Resolver.pollAll, hone, htwo, hrest, hmore]
          exact .error herrors hpq
        · simp only [Resolver.pollAll, hone, htwo, hrest, hmore]
          exact .ok _ hpq

end

variable (hrs : L.Resolvers r s)
include hrs

theorem finish (rounds : Nat) (branches : List (Branch n)) {p : Progress n σ}
    {q : Progress n τ} (hpq : L.Progresses p q) :
    L.Steps (r.finish rounds branches p) (s.finish rounds branches q) := by
  induction rounds generalizing branches p q with
  | zero =>
      cases hvalues : branches.mapM Branch.value? with
      | some values =>
          simp only [finish_of_values hvalues]
          exact .ok _ hpq
      | none =>
          simp only [Resolver.finish, hvalues]
          exact .error (.refl _) hpq
  | succ rounds ih =>
      cases hvalues : branches.mapM Branch.value? with
      | some values =>
          simp only [finish_of_values hvalues]
          exact .ok _ hpq
      | none =>
          obtain ⟨e, f, p', q', hone, htwo, herrors, hpq⟩ | ⟨more, p', q', hone, htwo, hpq⟩ :=
            (hrs.pollAll branches hpq).failed_or_done
          · simp only [Resolver.finish, hvalues, hone, htwo]
            exact .error herrors hpq
          · simp only [Resolver.finish, hvalues, hone, htwo]
            exact ih more hpq

theorem allowance_eq (edges : List Edge) : r.allowance edges = s.allowance edges := by
  have hpauses (node : Node n) : (r.graph.dependency node).routine.pauses =
      (s.graph.dependency node).routine.pauses :=
    (hrs.at_node node).routine.pauses_eq
  simp only [allowance, efforts, hrs.nodes, hpauses]

theorem followAll (edges : List Edge) {p : Progress n σ} {q : Progress n τ}
    (hpq : L.Progresses p q) : L.Steps (r.followAll edges p) (s.followAll edges q) := by
  obtain ⟨e, f, p', q', hone, htwo, herrors, hpq⟩ | ⟨branches, p', q', hone, htwo, hpq⟩ :=
    (pollEach (fun edge _ _ hpq => hrs.start s.top [] edge hpq) edges hpq).failed_or_done
  · simp only [Resolver.followAll, hrs.top_eq, hone, htwo]
    exact .error herrors hpq
  · simp only [Resolver.followAll, hrs.top_eq, hrs.allowance_eq, hone, htwo]
    exact hrs.finish _ branches hpq

/-- Resolvers that are alike come to resolutions that are alike. -/
theorem resolve (plan : Plan) {p : Progress n σ} {q : Progress n τ} (hpq : L.Progresses p q) :
    L.Steps (r.resolve plan p) (s.resolve plan q) := by
  obtain ⟨e, f, p', q', hone, htwo, herrors, hpq⟩ | ⟨values, p', q', hone, htwo, hpq⟩ :=
    (hrs.followAll plan.roots hpq).failed_or_done
  · simp only [Resolver.resolve, hone, htwo]
    exact .error herrors ⟨congrArg Cache.release hpq.cache, hpq.effects, hpq.journal⟩
  · simp only [Resolver.resolve, hone, htwo]
    exact .ok _ hpq

end Resolvers

end Likeness

end RequestDispatch
