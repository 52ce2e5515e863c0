import RequestDispatch.Proofs.Dependency.Arena
import RequestDispatch.Proofs.Dependency.Worklist

/-!
One builder compiles the plans of all routes. Whatever becomes of each, the nodes are an arena
with a right index, no dependency is being followed between two routes, and what a plan refers to
stays where it is while more nodes are added.
-/

namespace RequestDispatch

variable {n : Nat} {σ : Type}

/-- An edge of the node at `upper` leads to the one at `lower`. -/
def RefersTo (nodes : List (Node n)) (lower upper : Nat) : Prop :=
  ∃ node, nodes[upper]? = some node ∧ ∃ edge ∈ node.edges, edge.node = lower

theorem refersTo_of_below {nodes : List (Node n)} {lower upper : Nat}
    (hlower : lower ∈ GraphBuilder.nodesBelow nodes upper) : RefersTo nodes lower upper := by
  unfold GraphBuilder.nodesBelow at hlower
  cases hnode : nodes[upper]? with
  | none => simp [hnode] at hlower
  | some node =>
      rw [hnode] at hlower
      exact ⟨node, hnode, List.mem_map.mp hlower⟩

namespace Arena

variable {catalog : Catalog n σ} {nodes : List (Node n)}

/-- Whoever follows edges down comes to an end. -/
theorem refersTo_wellFounded (harena : Arena catalog nodes) : WellFounded (RefersTo nodes) := by
  have hless : Subrelation (RefersTo nodes) (· < ·) := by
    rintro lower upper ⟨node, hnode, edge, hedge, rfl⟩
    exact (harena.edge_below hnode hedge).1
  exact hless.wf Nat.lt_wfRel.wf

/-- From nodes that are there, edges lead to nodes that are there. -/
theorem nodesBelow_lt (harena : Arena catalog nodes) {i j : Nat}
    (hj : j ∈ GraphBuilder.nodesBelow nodes i) : j < nodes.length := by
  obtain ⟨node, hnode, edge, hedge, rfl⟩ := refersTo_of_below hj
  obtain ⟨_, target, htarget⟩ := harena.edge_below hnode hedge
  exact (List.getElem?_eq_some_iff.mp htarget).1

end Arena

theorem Edge.Follows.lt_length {catalog : Catalog n σ} {nodes : List (Node n)} {edge : Edge}
    {reference : Reference n} (hfollows : edge.Follows catalog nodes reference) :
    edge.node < nodes.length := by
  obtain ⟨node, hnode, _⟩ := hfollows.target
  exact (List.getElem?_eq_some_iff.mp hnode).1

namespace GraphBuilder

theorem walks_of_plan {catalog : Catalog n σ} {references : List (Reference n)}
    {b : GraphBuilder n} {plan : Plan} (hplan : (b.plan catalog references).1 = .ok plan) :
    Walks (b.plan catalog references).2.nodes (plan.roots.map (·.node)) [] plan.reachable := by
  simp only [GraphBuilder.plan] at hplan ⊢
  split at hplan
  · cases hplan
  · cases hplan
    exact walks_reachable _ _

/-- The nodes of a plan are nodes of the builder that made it. -/
theorem plan_lt_length {catalog : Catalog n σ} {references : List (Reference n)}
    {b : GraphBuilder n} (hsound : b.Sound catalog) {plan : Plan}
    (hplan : (b.plan catalog references).1 = .ok plan) :
    ∀ i ∈ plan.roots.map (·.node) ++ plan.reachable,
      i < (b.plan catalog references).2.nodes.length := by
  obtain ⟨hkeeps, hfollows⟩ := plan_follows catalog references b hsound
  have hroots : ∀ i ∈ plan.roots.map (·.node), i < (b.plan catalog references).2.nodes.length := by
    intro i hi
    obtain ⟨edge, hedge, rfl⟩ := List.mem_map.mp hi
    obtain ⟨reference, _, hfollow⟩ := exists_of_forall₂ (hfollows plan hplan) hedge
    exact hfollow.lt_length
  intro i hi
  rcases List.mem_append.mp hi with hroot | hlisted
  · exact hroots i hroot
  · refine (walks_of_plan hplan).forall (· < _) hroots (by simp) ?_ i hlisted
    intro j _ k hk
    exact hkeeps.sound.arena.nodesBelow_lt hk

/-- Each result of compiling routes one after another is what compiling that route gives, behind
the routes before it. -/
theorem planEach_getElem? {catalog : Catalog n σ} {groups : List (List (Reference n))}
    {b : GraphBuilder n} {k : Nat} {result : Except RegistrationError Plan}
    (hresult : (planEach catalog groups b).1[k]? = some result) :
    ∃ references, ((planEach catalog (groups.take k) b).2.plan catalog references).1 = result ∧
      ((planEach catalog (groups.take k) b).2.plan catalog references).2 =
        (planEach catalog (groups.take (k + 1)) b).2 := by
  induction groups generalizing b k with
  | nil => cases hresult
  | cons references rest ih =>
      cases k with
      | zero => exact ⟨references, Option.some.inj hresult, rfl⟩
      | succ k => exact ih hresult

/-- What holds of a builder whatever routes were compiled with it, and whichever of them failed.
No dependency is being followed any more. No dependency has two nodes, and the index finds
exactly the node of each. The edges of a node follow the references of its dependency one by one,
to the nodes of the dependencies that stand in for their targets; all of these lie before the node,
so that going down along edges ends. And every place that an earlier plan mentions still has the
node that it had when the plan was made. -/
theorem planEach_invariant (catalog : Catalog n σ) (groups : List (List (Reference n))) :
    let b : GraphBuilder n := (planEach catalog groups .empty).2
    b.visiting = [] ∧
    (b.nodes.map (·.identity)).Nodup ∧
    (∀ identity i, b.index identity = some i ↔
      ∃ node, b.nodes[i]? = some node ∧ node.identity = identity) ∧
    (∀ (i : Nat) (node : Node n), b.nodes[i]? = some node →
      List.Forall₂ (Edge.Follows catalog b.nodes) node.edges
          (catalog.dependency node.identity).references ∧
        ∀ edge ∈ node.edges, edge.node < i) ∧
    WellFounded (RefersTo b.nodes) ∧
    ∀ k plan, (planEach catalog groups .empty).1[k]? = some (.ok plan) →
      ∀ i ∈ plan.roots.map (·.node) ++ plan.reachable, ∃ node,
        (planEach catalog (groups.take (k + 1)) .empty).2.nodes[i]? = some node ∧
          b.nodes[i]? = some node := by
  intro b
  have hkeeps : Keeps catalog .empty b := planEach_keeps catalog groups _ (sound_empty catalog)
  have harena := hkeeps.sound.arena
  refine ⟨hkeeps.visiting, harena.distinct, hkeeps.sound.indexed, ?_,
    harena.refersTo_wellFounded, ?_⟩
  · intro i node hnode
    constructor
    · exact (harena.follows i node hnode).imp fun _ _ hfollows =>
        hfollows.mono (List.take_prefix i _)
    · intro edge hedge
      exact (harena.edge_below hnode hedge).1
  · intro k plan hplan i hi
    obtain ⟨references, hresult, hbuilder⟩ := planEach_getElem? hplan
    have hbefore := planEach_keeps catalog (groups.take k) _ (sound_empty catalog)
    have hless := plan_lt_length hbefore.sound hresult i hi
    rw [hbuilder] at hless
    have hthen := planEach_keeps catalog (groups.take (k + 1)) _ (sound_empty catalog)
    have hlater := planEach_keeps catalog (groups.drop (k + 1)) _ hthen.sound
    rw [← planEach_append, List.take_append_drop] at hlater
    exact ⟨_, List.getElem?_eq_getElem hless, List.prefix_iff_getElem?.mp hlater.nodes i hless⟩

/-- A dependency without parameters and provider. -/
def plainDependency {n : Nat} (name : String) (references : List (Reference n))
    (scopes : List String) : Dependency n Unit where
  name := name
  parameters := []
  references := references
  scopes := scopes
  provider := none
  cached := true
  routine := .inline fun _ effects => (.value (.text name), effects)

/-- A profile that requires a session and a vault. Nothing provides the vault's scope, and a
session stands in for the login. -/
def vaultCatalog : Catalog 4 Unit where
  dependency
    | 0 => plainDependency "session" [] []
    | 1 => plainDependency "vault" [] ["admin"]
    | 2 => plainDependency "profile" [⟨"session", 0, []⟩, ⟨"vault", 1, []⟩] []
    | 3 => plainDependency "login" [] []
  overrides := [(3, 0)]

/-- The profile cannot be compiled, but the session below it has its node by then, and the next
route shares that. -/
theorem planEach_invariant_sample :
    let groups := [[⟨"profile", 2, []⟩], [⟨"login", 3, []⟩], [⟨"profile", 2, []⟩]]
    let b : GraphBuilder 4 := (planEach vaultCatalog groups .empty).2
    (planEach vaultCatalog groups .empty).1 =
        [.error (.missingSecurityProvider "vault"), .ok ⟨[⟨"login", 0, []⟩], [0]⟩,
          .error (.missingSecurityProvider "vault")] ∧
      b.visiting = [] ∧ ∃ node, b.nodes[0]? = some node ∧ b.index node.identity = some 0 := by
  intro groups b
  obtain ⟨hvisiting, _, hindex, _, _, hplans⟩ := planEach_invariant vaultCatalog groups
  obtain ⟨node, _, hnode⟩ := hplans 1 ⟨[⟨"login", 0, []⟩], [0]⟩ rfl 0 (by simp)
  exact ⟨rfl, hvisiting, node, hnode, (hindex _ _).mpr ⟨node, hnode, rfl⟩⟩

end GraphBuilder

end RequestDispatch
