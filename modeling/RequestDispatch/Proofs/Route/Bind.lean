import Mathlib.Data.List.Induction
import RequestDispatch.Proofs.Parameter.Soundness
import RequestDispatch.Route.Bind

/-!
Binding what a route needs. The route and the nodes that it reaches are bound as one list of
parameters: if any of them reports an issue, all issues are the answer, and otherwise the route
and every node have the values of their own parameters.
-/

namespace RequestDispatch

variable {n : Nat} {σ : Type}

namespace Issue

variable {issue : Issue} {issues : List Issue}

theorem distinct_concat (issues : List Issue) (issue : Issue) :
    distinct (issues ++ [issue]) =
      if ∃ other ∈ distinct issues, other.Equals issue then distinct issues
      else distinct issues ++ [issue] := by
  rw [distinct, List.foldl_append]
  rfl

theorem mem_of_mem_distinct (hissue : issue ∈ distinct issues) : issue ∈ issues := by
  induction issues using List.reverseRecOn with
  | nil => exact hissue
  | append_singleton issues last ih =>
      rw [distinct_concat] at hissue
      split at hissue
      · exact List.mem_append_left _ (ih hissue)
      · obtain hbefore | hlast := List.mem_append.mp hissue
        · exact List.mem_append_left _ (ih hbefore)
        · exact List.mem_append_right _ hlast

/-- What is left out equals something that is left. -/
theorem exists_mem_distinct (hissue : issue ∈ issues) :
    ∃ other ∈ distinct issues, other.Equals issue := by
  induction issues using List.reverseRecOn with
  | nil => cases hissue
  | append_singleton issues last ih =>
      rw [distinct_concat]
      obtain hbefore | hlast := List.mem_append.mp hissue
      · obtain ⟨other, hother, hequals⟩ := ih hbefore
        refine ⟨other, ?_, hequals⟩
        split
        · exact hother
        · exact List.mem_append_left _ hother
      · obtain rfl := List.mem_singleton.mp hlast
        split
        · assumption
        · exact ⟨issue, List.mem_append_right _ hlast, .refl issue⟩

theorem distinct_eq_nil_iff : distinct issues = [] ↔ issues = [] := by
  constructor
  · intro hnone
    rw [List.eq_nil_iff_forall_not_mem]
    intro issue hissue
    obtain ⟨other, hother, _⟩ := exists_mem_distinct hissue
    rw [hnone] at hother
    cases hother
  · rintro rfl
    rfl

end Issue

/-- A key that a list has is found in it with what it is mapped to. -/
theorem lookup_zip_map {α β : Type} [BEq α] [LawfulBEq α] (f : α → β) {items : List α} {a : α}
    (ha : a ∈ items) : (items.zip (items.map f)).lookup a = some (f a) := by
  induction items with
  | nil => cases ha
  | cons first rest ih =>
      rw [List.map_cons, List.zip_cons_cons, List.lookup_cons]
      cases hsame : a == first with
      | true => rw [eq_of_beq hsame]
      | false =>
          obtain rfl | hrest := List.mem_cons.mp ha
          · rw [beq_self_eq_true] at hsame
            cases hsame
          · exact ih hrest

namespace Binder

/-- Whatever is reported is reported for one of the parameters. -/
theorem mem_of_mem_reports {b : Binder} {reported : Bool} {params : List CompiledParameter}
    {issue : Issue} (hissue : issue ∈ b.reports reported params) :
    ∃ p ∈ params, issue ∈ (b.alone p).issues := by
  induction params generalizing reported with
  | nil => cases hissue
  | cons p rest ih =>
      rw [reports, List.mem_append] at hissue
      obtain hfirst | hrest := hissue
      · split at hfirst
        · cases hfirst
        · exact ⟨p, List.mem_cons_self, hfirst⟩
      · obtain ⟨q, hq, hlater⟩ := ih hrest
        exact ⟨q, List.mem_cons_of_mem _ hq, hlater⟩

end Binder

/-- The parameters of the node at a place. -/
def Graph.parametersAt (graph : Graph n σ) (i : Nat) : List CompiledParameter :=
  (graph.nodes[i]?.map (·.parameters)).getD []

theorem Graph.parametersAt_eq {graph : Graph n σ} {i : Nat} {node : Node n}
    (hnode : graph.nodes[i]? = some node) : graph.parametersAt i = node.parameters := by
  rw [parametersAt, hnode]
  rfl

namespace Route

variable {route : Route n σ} {graph : Graph n σ} {request : Request}
  {captures : List (String × String)}

/-- What the parameters of a matched route are bound from. -/
def binder (route : Route n σ) (request : Request) (captures : List (String × String)) : Binder :=
  ⟨request, captures, route.embedBody⟩

/-- The parameters of a route and of all nodes that it reaches. -/
def allParameters (route : Route n σ) (graph : Graph n σ) : List CompiledParameter :=
  route.parameters ++ (route.plan.reachable.map graph.parametersAt).flatten

theorem mem_allParameters_of_node {i : Nat} {node : Node n} (hi : i ∈ route.plan.reachable)
    (hnode : graph.nodes[i]? = some node) {p : CompiledParameter} (hp : p ∈ node.parameters) :
    p ∈ route.allParameters graph := by
  rw [← Graph.parametersAt_eq hnode] at hp
  exact List.mem_append_right _ (List.mem_flatten.mpr ⟨_, List.mem_map_of_mem hi, hp⟩)

/-- The issues of all parameters together. -/
theorem issues_eq (route : Route n σ) (graph : Graph n σ) (b : Binder) :
    let own := b.bindFrom .fresh route.parameters
    own.issues ++ (b.bindGroups own.toBodyMemory
        (route.plan.reachable.map graph.parametersAt)).flatMap (·.issues) =
      b.reports false (route.allParameters graph) := by
  intro own
  obtain ⟨hknows, hreported, _, hissues⟩ :=
    Binder.bindFrom_eq (b := b) route.parameters .fresh Binder.knows_fresh
  rw [Binder.issues_bindGroups _ _ hknows, allParameters, Binder.reports_append, hissues,
    hreported]
  rfl

/-- A route that is not bound has all the issues that there are, each once. -/
theorem bind_error {e : DispatchError} (hbind : route.bind graph request captures = .error e) :
    let reports := (route.binder request captures).reports false (route.allParameters graph)
    e = .validation (Issue.distinct reports) ∧ reports ≠ [] := by
  intro reports
  have hissues : _ = reports := issues_eq route graph (route.binder request captures)
  simp only [binder] at hissues
  simp only [bind] at hbind
  split at hbind
  · cases hbind
  · rename_i hsome
    cases hbind
    rw [← hissues]
    exact ⟨rfl, fun hnone => hsome (Issue.distinct_eq_nil_iff.mpr hnone)⟩

/-- Every node that a bound route reaches has the values of its own parameters, and no other node
has any. -/
theorem nodes_of_bind {bound : BoundRequest}
    (hbind : route.bind graph request captures = .ok bound) :
    let b := route.binder request captures
    bound.nodes = (List.range graph.nodes.length).map fun i =>
      if i ∈ route.plan.reachable then some (b.bindFrom .fresh (graph.parametersAt i)).values
      else none := by
  intro b
  obtain ⟨hknows, _, _, _⟩ :=
    Binder.bindFrom_eq (b := b) route.parameters .fresh Binder.knows_fresh
  have hvalues : (b.bindGroups (b.bindFrom .fresh route.parameters).toBodyMemory
      (route.plan.reachable.map graph.parametersAt)).map (·.values) =
        route.plan.reachable.map fun i => (b.bindFrom .fresh (graph.parametersAt i)).values := by
    rw [Binder.values_bindGroups _ _ hknows, List.map_map]
    apply List.map_congr_left
    intro i _
    exact (Binder.bindFrom_eq (b := b) _ .fresh Binder.knows_fresh).2.2.1.symm
  simp only [bind] at hbind
  split at hbind
  · cases hbind
    apply List.map_congr_left
    intro i _
    change List.lookup i (route.plan.reachable.zip
      ((b.bindGroups (b.bindFrom .fresh route.parameters).toBodyMemory
        (route.plan.reachable.map graph.parametersAt)).map (·.values))) = _
    rw [hvalues]
    split
    · rename_i hi
      exact lookup_zip_map _ hi
    · rename_i hi
      rw [List.lookup_eq_none_iff]
      intro pair hpair
      rw [bne_iff_ne]
      rintro rfl
      exact hi (List.of_mem_zip hpair).1
  · cases hbind

/-- A route is bound when there is no issue. It has the values of its own parameters then, and
every node that it reaches has those of its own. -/
theorem bind_ok {bound : BoundRequest} (hbind : route.bind graph request captures = .ok bound) :
    let b := route.binder request captures
    b.reports false (route.allParameters graph) = [] ∧
      bound.route = (b.bindFrom .fresh route.parameters).values ∧
      ∀ i ∈ route.plan.reachable, i < graph.nodes.length →
        bound.node i = (b.bindFrom .fresh (graph.parametersAt i)).values := by
  intro b
  have hissues := issues_eq route graph b
  have hnodes : ∀ i ∈ route.plan.reachable, i < graph.nodes.length →
      bound.node i = (b.bindFrom .fresh (graph.parametersAt i)).values := by
    intro i hi hless
    rw [BoundRequest.node, nodes_of_bind hbind, List.getElem?_map, List.getElem?_range hless,
      Option.map_some, if_pos hi]
    rfl
  simp only [bind] at hbind
  split at hbind
  · rename_i hnone
    cases hbind
    refine ⟨?_, rfl, hnodes⟩
    rw [← hissues]
    exact Issue.distinct_eq_nil_iff.mp hnone
  · cases hbind

end Route

end RequestDispatch
