import RequestDispatch.Proofs.Dependency.Authorization
import RequestDispatch.Proofs.Dependency.Plans

/-!
What the nodes of a graph hold and which of them a plan lists. Every node has the compiled
parameters of its dependency, and a plan lists exactly the nodes that ways from its roots lead to.
-/

namespace RequestDispatch

variable {n : Nat} {σ : Type}

namespace GraphBuilder

/-! ### Compiled nodes -/

/-- Every node holds what its dependency was compiled to. -/
def Declared (catalog : Catalog n σ) (b : GraphBuilder n) : Prop :=
  ∀ node ∈ b.nodes,
    compileDeclared (catalog.dependency node.identity) = .ok node.parameters

variable {catalog : Catalog n σ}

theorem declared_edges
    {follow : Fin n → GraphBuilder n → Except RegistrationError Nat × GraphBuilder n}
    (hfollow : ∀ declared b, Declared catalog b → Declared catalog (follow declared b).2)
    (references : List (Reference n)) (b : GraphBuilder n) (hdeclared : Declared catalog b) :
    Declared catalog (edges follow references b).2 := by
  induction references generalizing b with
  | nil => exact hdeclared
  | cons reference rest ih =>
      have hfirst := hfollow reference.target b hdeclared
      simp only [edges]
      cases hresult : follow reference.target b with
      | mk result next =>
          rw [hresult] at hfirst
          cases result with
          | error fault => exact hfirst
          | ok i =>
              have hrest := ih next hfirst
              dsimp only
              cases hmore : edges follow rest next with
              | mk more last =>
                  rw [hmore] at hrest
                  cases more <;> exact hrest

theorem declared_intern (steps : Nat) (declared : Fin n) (b : GraphBuilder n)
    (hdeclared : Declared catalog b) : Declared catalog (intern catalog steps declared b).2 := by
  induction steps generalizing declared b with
  | zero => exact hdeclared
  | succ steps ih =>
      simp only [intern]
      split
      · exact hdeclared
      · split
        · exact hdeclared
        · split
          · exact hdeclared
          · rename_i parameters hparameters
            have hbelow := declared_edges ih
              (catalog.dependency (catalog.effective declared)).references
              { b with visiting := b.visiting ++ [catalog.effective declared] } hdeclared
            split
            · exact hbelow
            · intro node hnode
              rcases List.mem_append.mp hnode with hold | hlast
              · exact hbelow node hold
              · rw [List.mem_singleton.mp hlast]
                exact hparameters

theorem declared_plan (references : List (Reference n)) (b : GraphBuilder n)
    (hdeclared : Declared catalog b) : Declared catalog (b.plan catalog references).2 := by
  have hedges := declared_edges (declared_intern (n + 1)) references b hdeclared
  simp only [plan]
  split
  · rename_i hresult
    rw [hresult] at hedges
    exact hedges
  · rename_i hresult
    rw [hresult] at hedges
    exact hedges

theorem declared_planEach (groups : List (List (Reference n))) (b : GraphBuilder n)
    (hdeclared : Declared catalog b) : Declared catalog (planEach catalog groups b).2 := by
  induction groups generalizing b with
  | nil => exact hdeclared
  | cons references rest ih => exact ih _ (declared_plan references b hdeclared)

theorem declared_empty (catalog : Catalog n σ) : Declared catalog (empty : GraphBuilder n) := by
  rintro node ⟨⟩

/-! ### Listed nodes -/

/-- A walk lists everything on its stack and everything it has seen, and whatever lies below what
it lists, if below what it has seen there is nothing that it has lost sight of. -/
theorem Walks.closed {nodes : List (Node n)} {stack seen listed : List Nat}
    (hwalks : Walks nodes stack seen listed)
    (hkept : ∀ i ∈ seen, ∀ j ∈ nodesBelow nodes i, j ∈ seen ∨ j ∈ stack) :
    (∀ i, i ∈ seen ∨ i ∈ stack → i ∈ listed) ∧
      ∀ i ∈ listed, ∀ j ∈ nodesBelow nodes i, j ∈ listed := by
  induction hwalks with
  | done seen =>
      constructor
      · rintro i (hi | ⟨⟨⟩⟩)
        exact List.mem_reverse.mpr hi
      · intro i hi j hj
        obtain hseen | ⟨⟨⟩⟩ := hkept i (List.mem_reverse.mp hi) j hj
        exact List.mem_reverse.mpr hseen
  | @again i stack seen listed hseen _ ih =>
      have hsame (j : Nat) : j ∈ seen ∨ j ∈ i :: stack ↔ j ∈ seen ∨ j ∈ stack := by
        rw [List.mem_cons]
        constructor
        · rintro (hj | rfl | hj)
          · exact .inl hj
          · exact .inl hseen
          · exact .inr hj
        · rintro (hj | hj)
          · exact .inl hj
          · exact .inr (.inr hj)
      simp only [hsame] at hkept ⊢
      exact ih hkept
  | @visit i stack seen listed _ _ ih =>
      have hmoved (j : Nat) (hj : j ∈ seen ∨ j ∈ i :: stack) :
          j ∈ i :: seen ∨ j ∈ nodesBelow nodes i ++ stack := by
        rw [List.mem_cons] at hj ⊢
        rw [List.mem_append]
        obtain hj | hj | hj := hj
        · exact .inl (.inr hj)
        · exact .inl (.inl hj)
        · exact .inr (.inr hj)
      obtain ⟨hlisted, hclosed⟩ := ih (by
        intro j hj k hk
        obtain rfl | hj := List.mem_cons.mp hj
        · exact .inr (List.mem_append_left _ hk)
        · exact hmoved k (hkept j hj k hk))
      exact ⟨fun j hj => hlisted j (hmoved j hj), hclosed⟩

/-- A plan lists the nodes of its roots and whatever lies below a node that it lists. -/
theorem plan_closed {references : List (Reference n)} {b : GraphBuilder n} {plan : Plan}
    (hplan : (b.plan catalog references).1 = .ok plan) :
    (∀ edge ∈ plan.roots, edge.node ∈ plan.reachable) ∧
      ∀ i ∈ plan.reachable, ∀ j ∈ nodesBelow (b.plan catalog references).2.nodes i,
        j ∈ plan.reachable := by
  obtain ⟨hlisted, hclosed⟩ := (walks_of_plan hplan).closed (by simp)
  refine ⟨?_, hclosed⟩
  intro edge hedge
  exact hlisted edge.node (.inr (List.mem_map_of_mem hedge))

end GraphBuilder

namespace Compiled

open GraphBuilder

variable {catalog : Catalog n σ} {references : List (Reference n)} {graph : Graph n σ}
  {plan : Plan}

/-- Every node of a graph holds what its dependency was compiled to. -/
theorem declared (hcompiled : Compiled catalog references graph plan) :
    ∀ node ∈ graph.nodes,
      compileDeclared (catalog.dependency node.identity) = .ok node.parameters := by
  cases hcompiled with
  | intro before after _ hplan =>
      have hbefore := declared_planEach before _ (declared_empty catalog)
      exact declared_planEach after _ (declared_plan references _ hbefore)

/-- The parameters of a node were compiled together, as those of one owner. -/
theorem compileAll_of_node (hcompiled : Compiled catalog references graph plan) {node : Node n}
    (hnode : node ∈ graph.nodes) : ∃ owner permit declared,
      Parameter.compileAll owner permit [] declared = .ok node.parameters := by
  have hdeclared := hcompiled.declared node hnode
  unfold compileDeclared at hdeclared
  split at hdeclared
  · cases hdeclared
  · exact ⟨_, _, _, hdeclared⟩

/-- A plan lists nodes of the graph: those of its roots and whatever lies below a node that it
lists. -/
theorem reachable_closed (hcompiled : Compiled catalog references graph plan) :
    (∀ edge ∈ plan.roots, edge.node ∈ plan.reachable) ∧
      ∀ i ∈ plan.reachable, ∃ node, graph.nodes[i]? = some node ∧
        ∀ edge ∈ node.edges, edge.node ∈ plan.reachable := by
  cases hcompiled with
  | intro before after _ hplan =>
      have hsound := (planEach_keeps catalog before _ (sound_empty catalog)).sound
      have hthen := (plan_follows catalog references _ hsound).1
      have hlater := (planEach_keeps catalog after _ hthen.sound).nodes
      obtain ⟨hroots, hbelow⟩ := plan_closed hplan
      refine ⟨hroots, ?_⟩
      intro i hi
      have hless := plan_lt_length hsound hplan i (List.mem_append_right _ hi)
      refine ⟨_, List.prefix_iff_getElem?.mp hlater i hless, ?_⟩
      intro edge hedge
      apply hbelow i hi
      rw [nodesBelow, List.getElem?_eq_getElem hless]
      exact List.mem_map_of_mem hedge

/-- Every way from the roots of a plan leads to a node that the plan lists. -/
theorem listed_of_way (hcompiled : Compiled catalog references graph plan) {way : List Edge}
    {last : Node n} (hway : graph.Way plan.roots way last) :
    ∃ i ∈ plan.reachable, graph.nodes[i]? = some last := by
  obtain ⟨hroots, hbelow⟩ := hcompiled.reachable_closed
  revert hroots
  generalize plan.roots = edges at hway
  intro hedges
  induction hway with
  | here hedge hnode => exact ⟨_, hedges _ hedge, hnode⟩
  | further hedge hnode _ ih =>
      obtain ⟨node, hlisted, hnext⟩ := hbelow _ (hedges _ hedge)
      rw [hnode, Option.some.injEq] at hlisted
      subst hlisted
      exact ih hnext

/-- Every node that a plan lists is led to by a way from its roots. -/
theorem way_of_listed (hcompiled : Compiled catalog references graph plan) :
    ∀ i ∈ plan.reachable, ∃ way node, graph.nodes[i]? = some node ∧
      graph.Way plan.roots way node := by
  cases hcompiled with
  | intro before after _ hplan =>
      have hsound := (planEach_keeps catalog before _ (sound_empty catalog)).sound
      have hthen := (plan_follows catalog references _ hsound).1
      have hlater := (planEach_keeps catalog after _ hthen.sound).nodes
      -- What stands at a place when the plan is made stands there in the end.
      have hstays := fun (i : Nat) hless => List.prefix_iff_getElem?.mp hlater i hless
      refine (walks_of_plan hplan).forall _ ?_ (by simp) ?_
      · intro root hroot
        have hless := plan_lt_length hsound hplan root (List.mem_append_left _ hroot)
        obtain ⟨edge, hedge, rfl⟩ := List.mem_map.mp hroot
        exact ⟨[edge], _, hstays _ hless, .here hedge (hstays _ hless)⟩
      · rintro upper ⟨way, node, hnode, hway⟩ lower hlower
        have hless := hthen.sound.arena.nodesBelow_lt hlower
        obtain ⟨found, hfound, edge, hedge, rfl⟩ := refersTo_of_below hlower
        obtain ⟨hupper, rfl⟩ := List.getElem?_eq_some_iff.mp hfound
        obtain rfl := Option.some.inj (hnode.symm.trans (hstays upper hupper))
        exact ⟨way ++ [edge], _, hstays _ hless, hway.snoc hedge (hstays _ hless)⟩

end Compiled

end RequestDispatch
