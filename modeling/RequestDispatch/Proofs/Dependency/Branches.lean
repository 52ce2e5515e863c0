import RequestDispatch.Proofs.Dependency.Authorization
import RequestDispatch.Proofs.Dependency.Steps

/-!
What a branch stands for. A branch belongs to an edge and to scopes inherited from above; it
keeps to that edge however often it is polled, and when it is resolved, every way down from
its edge has been authorized, whether its value was computed or taken from the cache. So a
resolution that succeeds has authorized every way from the roots, whatever the cache holds.
-/

namespace RequestDispatch

variable {n : Nat} {σ : Type}

namespace Resolver

variable (r : Resolver n σ)

/-- A visit of the node that an edge leads to, authorized with the scopes collected there. -/
structure Visits (inherited : Scopes) (edge : Edge) (visit : Visit n) : Prop where
  index : visit.index = edge.node
  node : r.graph.nodes[edge.node]? = some visit.node
  scopes : visit.scopes = accumulate inherited edge (r.graph.dependency visit.node)
  credentials : authorize r.request (r.graph.dependency visit.node) visit.scopes =
    .ok visit.credentials

mutual

/-- A branch that belongs to an edge. What it has passed over is authorized. -/
def Covers : Branch n → Scopes → Edge → Prop
  | .resolved _, inherited, edge => r.graph.Authorized r.request inherited [edge]
  | .waiting visit, inherited, edge => r.Visits inherited edge visit
  | .gathering visit below, inherited, edge =>
      r.Visits inherited edge visit ∧ CoversAll below visit.scopes visit.node.edges
  | .running visit _ polls, inherited, edge =>
      r.Visits inherited edge visit ∧ polls ≤ r.pausesOf visit ∧
        r.graph.Authorized r.request visit.scopes visit.node.edges

/-- Branches that belong to edges, one to each. -/
def CoversAll : List (Branch n) → Scopes → List Edge → Prop
  | [], _, [] => True
  | b :: rest, inherited, edge :: edges =>
      Covers b inherited edge ∧ CoversAll rest inherited edges
  | _, _, _ => False

end

variable {r}

theorem Visits.stands {inherited : Scopes} {edge : Edge} {visit : Visit n}
    (hvisit : r.Visits inherited edge visit) :
    r.graph.nodes[visit.index]? = some visit.node := by
  rw [hvisit.index]
  exact hvisit.node

theorem Visits.authorized {inherited : Scopes} {edge : Edge} {visit : Visit n}
    (hvisit : r.Visits inherited edge visit)
    (hbelow : r.graph.Authorized r.request visit.scopes visit.node.edges) :
    r.graph.Authorized r.request inherited [edge] := by
  rw [Graph.authorized_iff]
  intro other hother node hnode
  rw [List.mem_singleton] at hother
  subst hother
  have hsame : node = visit.node := Option.some.inj (hnode.symm.trans hvisit.node)
  subst hsame
  rw [← hvisit.scopes]
  exact ⟨(authorize_ok_iff _ _ _).mp ⟨_, hvisit.credentials⟩, hbelow⟩

theorem coversAll_iff (branches : List (Branch n)) (inherited : Scopes) (edges : List Edge) :
    r.CoversAll branches inherited edges ↔
      List.Forall₂ (fun edge b => r.Covers b inherited edge) edges branches := by
  induction branches generalizing edges with
  | nil => cases edges <;> simp [CoversAll]
  | cons b rest ih => cases edges <;> simp [CoversAll, ih]

/-- Branches that all have a value cover authorized edges. -/
theorem authorized_of_values {branches : List (Branch n)} {inherited : Scopes}
    {edges : List Edge} {values : List Provided}
    (hcovers : r.CoversAll branches inherited edges)
    (hvalues : branches.mapM Branch.value? = some values) :
    r.graph.Authorized r.request inherited edges := by
  obtain rfl := values_eq_some_iff.mp hvalues
  rw [coversAll_iff, List.forall₂_map_right_iff] at hcovers
  rw [Graph.authorized_each]
  intro edge hedge
  obtain ⟨value, _, hauthorized⟩ := exists_of_forall₂ hcovers hedge
  exact hauthorized

/-- What holds of every branch that is begun holds of all that are begun one after another. -/
theorem forall₂_of_pollEach {α β : Type} {holds : α → β → Prop} {poll : α → Step n σ β}
    (hpoll : ∀ a p b after, poll a p = (.ok b, after) → holds a b) (items : List α)
    (p after : Progress n σ) (results : List β)
    (hrun : pollEach poll items p = (.ok results, after)) : List.Forall₂ holds items results := by
  induction items generalizing p results with
  | nil =>
      obtain ⟨rfl, _⟩ := pollEach_nil_ok hrun
      exact List.Forall₂.nil
  | cons a rest ih =>
      obtain ⟨b, next, more, hfirst, hmore, rfl⟩ := pollEach_cons_ok hrun
      exact List.Forall₂.cons (hpoll _ _ _ _ hfirst) (ih _ _ hmore)

theorem covers_of_runBody {inherited : Scopes} {edge : Edge} {visit : Visit n}
    (hvisit : r.Visits inherited edge visit)
    (hbelow : r.graph.Authorized r.request visit.scopes visit.node.edges)
    (provided : Provisions) (polls : Nat) (p after : Progress n σ) (b : Branch n)
    (hrun : r.runBody visit provided polls p = (.ok b, after)) : r.Covers b inherited edge := by
  rcases runBody_ok hrun with ⟨rfl, hless, _⟩ | ⟨value, rfl, _⟩
  · exact ⟨hvisit, hless, hbelow⟩
  · exact hvisit.authorized hbelow

theorem covers_of_gathered {inherited : Scopes} {edge : Edge} {visit : Visit n}
    (hvisit : r.Visits inherited edge visit) (below : List (Branch n))
    (hbelow : r.CoversAll below visit.scopes visit.node.edges) (p after : Progress n σ)
    (b : Branch n) (hrun : r.gathered visit below p = (.ok b, after)) :
    r.Covers b inherited edge := by
  rcases gathered_ok hrun with ⟨values, hvalues, hbody⟩ | ⟨_, rfl, _⟩
  · exact covers_of_runBody hvisit (authorized_of_values hbelow hvalues) _ _ _ _ _ hbody
  · exact ⟨hvisit, hbelow⟩

/-- An authorized branch that goes on covers its edge, when branches that are begun below it
cover theirs. -/
theorem covers_of_arrive {inherited : Scopes} {edge : Edge} {visit : Visit n}
    (hvisit : r.Visits inherited edge visit) (level : Nat)
    (start : Scopes → Edge → Step n σ (Branch n))
    (hstart : ∀ inherited edge p b after, start inherited edge p = (.ok b, after) →
      r.Covers b inherited edge)
    (p after : Progress n σ) (b : Branch n)
    (hrun : r.arrive level start visit p = (.ok b, after)) : r.Covers b inherited edge := by
  have hevaluate (p : Progress n σ) (hrun : r.evaluate start visit p = (.ok b, after)) :
      r.Covers b inherited edge := by
    obtain ⟨below, next, hbegun, hgathered⟩ := evaluate_ok hrun
    have hcovers : r.CoversAll below visit.scopes visit.node.edges :=
      (coversAll_iff _ _ _).mpr
        (forall₂_of_pollEach (hstart visit.scopes) _ _ _ _ hbegun)
    exact covers_of_gathered hvisit below hcovers _ _ _ hgathered
  cases arrive_ok hrun with
  | uncached _ hrun => exact hevaluate p hrun
  | first _ _ hrun => exact hevaluate _ hrun
  | waits _ _ => exact hvisit
  | recalls value _ _ hchecked =>
      exact hvisit.authorized (r.authorized_of_authorizeBelow _ _ _ hchecked)

theorem covers_of_start (level : Nat) (inherited : Scopes) (edge : Edge)
    (p : Progress n σ) (b : Branch n) (after : Progress n σ)
    (hrun : r.start level inherited edge p = (.ok b, after)) : r.Covers b inherited edge := by
  induction level generalizing inherited edge p after b with
  | zero => cases hrun
  | succ level ih =>
      obtain ⟨node, credentials, hnode, hcredentials, harrive⟩ := start_ok hrun
      exact covers_of_arrive ⟨rfl, hnode, rfl, hcredentials⟩ level _ ih _ _ _ harrive

mutual

/-- A branch that is polled keeps covering its edge. -/
theorem covers_of_poll (b : Branch n) (inherited : Scopes) (edge : Edge)
    (hcovers : r.Covers b inherited edge) (p after : Progress n σ) (next : Branch n)
    (hrun : r.poll b p = (.ok next, after)) : r.Covers next inherited edge := by
  cases b with
  | resolved value =>
      simp only [poll] at hrun
      cases hrun
      exact hcovers
  | waiting visit =>
      simp only [poll] at hrun
      exact covers_of_arrive hcovers _ _ (covers_of_start _) _ _ _ hrun
  | gathering visit below =>
      obtain ⟨more, last, hbelow, hgathered⟩ := poll_gathering_ok hrun
      have hmore := coversAll_of_pollAll below _ _ hcovers.2 _ _ _ hbelow
      exact covers_of_gathered hcovers.1 more hmore _ _ _ hgathered
  | running visit provided polls =>
      simp only [poll] at hrun
      exact covers_of_runBody hcovers.1 hcovers.2.2 _ _ _ _ _ hrun

theorem coversAll_of_pollAll (branches : List (Branch n)) (inherited : Scopes)
    (edges : List Edge) (hcovers : r.CoversAll branches inherited edges)
    (p after : Progress n σ) (next : List (Branch n))
    (hrun : r.pollAll branches p = (.ok next, after)) : r.CoversAll next inherited edges := by
  cases branches with
  | nil =>
      simp only [pollAll] at hrun
      cases hrun
      exact hcovers
  | cons b rest =>
      cases edges with
      | nil => cases hcovers
      | cons edge edges =>
          obtain ⟨first, middle, others, hfirst, hrest, rfl⟩ := pollAll_cons_ok hrun
          exact ⟨covers_of_poll b _ _ hcovers.1 _ _ _ hfirst,
            coversAll_of_pollAll rest _ _ hcovers.2 _ _ _ hrest⟩

end

/-- Branches that finish have covered authorized edges, after however many rounds. -/
theorem authorized_of_finish (rounds : Nat) (branches : List (Branch n)) (inherited : Scopes)
    (edges : List Edge) (hcovers : r.CoversAll branches inherited edges)
    (p after : Progress n σ) (values : List Provided)
    (hrun : r.finish rounds branches p = (.ok values, after)) :
    r.graph.Authorized r.request inherited edges := by
  induction rounds generalizing branches p with
  | zero =>
      rcases finish_ok hrun with ⟨hvalues, _⟩ | ⟨_, _, _, hrounds, _⟩
      · exact authorized_of_values hcovers hvalues
      · cases hrounds
  | succ rounds ih =>
      rcases finish_ok hrun with ⟨hvalues, _⟩ | ⟨left, next, middle, hrounds, hround, hrest⟩
      · exact authorized_of_values hcovers hvalues
      · cases hrounds
        exact ih next (coversAll_of_pollAll _ _ _ hcovers _ _ _ hround) _ hrest

/-- The branches that a resolution begins cover the edges that it follows. -/
theorem covers_of_begun {edges : List Edge} {p next : Progress n σ} {branches : List (Branch n)}
    (hbegun : pollEach (r.start r.top []) edges p = (.ok branches, next)) :
    r.CoversAll branches [] edges :=
  (coversAll_iff _ _ _).mpr (forall₂_of_pollEach (covers_of_start r.top []) _ _ _ _ hbegun)

/-- A resolution that succeeds has authorized every way from the roots of the plan. -/
theorem authorized_of_resolve (plan : Plan) (p after : Progress n σ) (provisions : Provisions)
    (hrun : r.resolve plan p = (.ok provisions, after)) :
    r.graph.Authorized r.request [] plan.roots := by
  obtain ⟨branches, next, values, hbegun, hfinish⟩ := resolve_ok hrun
  exact authorized_of_finish _ _ _ _ (covers_of_begun hbegun) _ _ _ hfinish

end Resolver

end RequestDispatch
