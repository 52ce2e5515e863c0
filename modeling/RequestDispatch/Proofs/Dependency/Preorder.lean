import Mathlib.Logic.Relation
import RequestDispatch.Proofs.Dependency.Nodes

/-!
The order of the nodes of a plan. The walk keeps its place on a stack of its own, where a node may
stand many times before it is visited, but what it lists is what a recursive descent lists that
takes roots and edges in their order, lists a node before whatever lies below it, and passes by the
nodes that are listed already. That is every node that edges lead to from the roots, once.
-/

namespace RequestDispatch

variable {n : Nat} {σ : Type}

namespace GraphBuilder

/-! ### The descent -/

/-- The number of nodes that are not seen. -/
def unseen (nodes : List (Node n)) (seen : List Nat) : Nat :=
  ((Finset.range nodes.length).filter (· ∉ seen)).card

theorem unseen_le (nodes : List (Node n)) {seen later : List Nat} (hlater : seen ⊆ later) :
    unseen nodes later ≤ unseen nodes seen := by
  apply Finset.card_le_card
  intro i hi
  rw [Finset.mem_filter] at hi ⊢
  exact ⟨hi.1, fun hseen => hi.2 (hlater hseen)⟩

theorem unseen_lt {nodes : List (Node n)} {seen : List Nat} {i : Nat} (hi : i < nodes.length)
    (hnew : i ∉ seen) : unseen nodes (seen ++ [i]) < unseen nodes seen := by
  apply Finset.card_lt_card
  rw [Finset.ssubset_iff_of_subset]
  · refine ⟨i, by simp [hi, hnew], by simp⟩
  · intro j hj
    simp only [Finset.mem_filter, List.mem_append, not_or] at hj ⊢
    exact ⟨hj.1, hj.2.1⟩

theorem nodesBelow_of_outside {nodes : List (Node n)} {i : Nat} (hi : ¬i < nodes.length) :
    nodesBelow nodes i = [] := by
  rw [nodesBelow, List.getElem?_eq_none (Nat.le_of_not_lt hi)]
  rfl

/-- What a recursive descent into nodes has listed in the end, behind what was seen before. A node
that was not seen yet is listed, then whatever lies below it in the order of its edges, and only
then the next one. -/
def descend (nodes : List (Node n)) (seen : List Nat) :
    (todo : List Nat) → { listed : List Nat // seen ⊆ listed }
  | [] => ⟨seen, List.Subset.refl seen⟩
  | i :: rest =>
      if i ∈ seen then descend nodes seen rest
      else
        let below := descend nodes (seen ++ [i]) (nodesBelow nodes i)
        have hbelow : seen ⊆ below.1 := List.Subset.trans (List.subset_append_left seen [i]) below.2
        let later := descend nodes below.1 rest
        ⟨later.1, List.Subset.trans hbelow later.2⟩
termination_by todo => (unseen nodes seen, todo.length)
decreasing_by
  · exact Prod.Lex.right _ (Nat.lt_succ_self _)
  · -- A node that is not there leaves as many unseen, but there is nothing below it.
    by_cases hi : i < nodes.length
    · exact Prod.Lex.left _ _ (unseen_lt hi ‹_›)
    · apply Prod.Lex.right' _ (unseen_le nodes (List.subset_append_left seen [i]))
      rw [nodesBelow_of_outside hi]
      exact Nat.zero_lt_succ _
  · exact Prod.Lex.right' _ (unseen_le nodes hbelow) (Nat.lt_succ_self _)

/-- Everything that can be reached from some nodes, in depth-first preorder. -/
def preorder (nodes : List (Node n)) (roots : List Nat) : List Nat :=
  (descend nodes [] roots).1

/-! ### The walk and the descent -/

/-- The walk comes to one end only. -/
theorem Walks.unique {nodes : List (Node n)} {stack seen listed other : List Nat}
    (hwalks : Walks nodes stack seen listed) (hother : Walks nodes stack seen other) :
    other = listed := by
  induction hwalks with
  | done seen =>
      cases hother
      rfl
  | again hseen _ ih =>
      cases hother with
      | again _ hrest => exact ih hrest
      | visit hnew _ => exact absurd hseen hnew
  | visit hnew _ ih =>
      cases hother with
      | again hseen _ => exact absurd hseen hnew
      | visit _ hrest => exact ih hrest

/-- The walk lists what the descent lists, and then goes on with what is left on the stack. What
the descent has listed is what the walk has seen, the latest first. -/
theorem walks_descend (nodes : List (Node n)) (seen todo : List Nat) {stack listed : List Nat}
    (hrest : Walks nodes stack (descend nodes seen todo).1.reverse listed) :
    Walks nodes (todo ++ stack) seen.reverse listed := by
  induction seen, todo using descend.induct nodes generalizing stack with
  | case1 seen =>
      rw [descend] at hrest
      exact hrest
  | case2 seen i rest hseen ih =>
      rw [descend, if_pos hseen] at hrest
      exact .again (List.mem_reverse.mpr hseen) (ih hrest)
  | case3 seen i rest hnew below _ ihbelow ihrest =>
      rw [descend, if_neg hnew] at hrest
      refine .visit (fun hseen => hnew (List.mem_reverse.mp hseen)) ?_
      -- What lies below the node stands on the stack above what is left to do.
      have hlater : Walks nodes (rest ++ stack) below.1.reverse listed := ihrest hrest
      have hdown := ihbelow hlater
      rwa [List.reverse_append] at hdown

/-- What the walk of a plan lists is the preorder. -/
theorem reachable_eq_preorder (nodes : List (Node n)) (roots : List Edge) :
    reachable nodes roots = preorder nodes (roots.map (·.node)) := by
  have hend : Walks nodes [] (preorder nodes (roots.map (·.node))).reverse
      (preorder nodes (roots.map (·.node))).reverse.reverse := .done _
  rw [List.reverse_reverse] at hend
  have hdescent := walks_descend nodes [] (roots.map (·.node)) hend
  rw [List.append_nil] at hdescent
  exact hdescent.unique (walks_reachable nodes roots)

/-- The walk lists a node once. -/
theorem Walks.nodup {nodes : List (Node n)} {stack seen listed : List Nat}
    (hwalks : Walks nodes stack seen listed) (hseen : seen.Nodup) : listed.Nodup := by
  induction hwalks with
  | done seen => exact List.nodup_reverse.mpr hseen
  | again _ _ ih => exact ih hseen
  | visit hnew _ ih => exact ih (List.nodup_cons.mpr ⟨hnew, hseen⟩)

theorem below_of_refersTo {nodes : List (Node n)} {lower upper : Nat}
    (hrefers : RefersTo nodes lower upper) : lower ∈ nodesBelow nodes upper := by
  obtain ⟨node, hnode, edge, hedge, rfl⟩ := hrefers
  rw [nodesBelow, hnode]
  exact List.mem_map_of_mem hedge

/-- The walk lists the nodes that edges lead to from the roots, and no others. -/
theorem mem_reachable_iff (nodes : List (Node n)) (roots : List Edge) (i : Nat) :
    i ∈ reachable nodes roots ↔
      ∃ edge ∈ roots, Relation.ReflTransGen (RefersTo nodes) i edge.node := by
  have hwalks := walks_reachable nodes roots
  let led (j : Nat) := ∃ edge ∈ roots, Relation.ReflTransGen (RefersTo nodes) j edge.node
  constructor
  · refine hwalks.forall led ?_ (by simp) ?_ i
    · intro root hroot
      obtain ⟨edge, hedge, rfl⟩ := List.mem_map.mp hroot
      exact ⟨edge, hedge, .refl⟩
    · rintro upper ⟨edge, hedge, hway⟩ lower hlower
      exact ⟨edge, hedge, .head (refersTo_of_below hlower) hway⟩
  · rintro ⟨edge, hedge, hway⟩
    obtain ⟨hlisted, hclosed⟩ := hwalks.closed (by simp)
    induction hway using Relation.ReflTransGen.head_induction_on with
    | refl => exact hlisted _ (.inr (List.mem_map_of_mem hedge))
    | head hlower _ ih => exact hclosed _ ih _ (below_of_refersTo hlower)

/-- The nodes of a plan are listed in depth-first preorder. Where nodes are found for all references
of a route, whatever was compiled before, there is a plan. The walk that lists its nodes comes to an
end by itself, and only to this one. What it lists is what a recursive descent lists that takes the
roots and the edges of each node in their order and passes by what is listed already: each node
that edges lead to from the roots, once, and no other. In a sound builder, all of them are there. -/
theorem plan_lists_preorder (catalog : Catalog n σ) (references : List (Reference n))
    {b after : GraphBuilder n} {roots : List Edge}
    (hroots : edges (intern catalog (n + 1)) references b = (.ok roots, after)) :
    ∃ plan, b.plan catalog references = (.ok plan, after) ∧ plan.roots = roots ∧
      (∀ listed, Walks after.nodes (roots.map (·.node)) [] listed ↔ listed = plan.reachable) ∧
      plan.reachable = preorder after.nodes (roots.map (·.node)) ∧
      plan.reachable.Nodup ∧
      (∀ i, i ∈ plan.reachable ↔
        ∃ edge ∈ roots, Relation.ReflTransGen (RefersTo after.nodes) i edge.node) ∧
      (b.Sound catalog → ∀ i ∈ plan.reachable, i < after.nodes.length) := by
  have hplan : b.plan catalog references = (.ok ⟨roots, reachable after.nodes roots⟩, after) := by
    rw [plan, hroots]
  have hwalks := walks_reachable after.nodes roots
  refine ⟨_, hplan, rfl, ?_, reachable_eq_preorder after.nodes roots, hwalks.nodup List.nodup_nil,
    mem_reachable_iff after.nodes roots, ?_⟩
  · intro listed
    constructor
    · exact hwalks.unique
    · rintro rfl
      exact hwalks
  · intro hsound i hi
    have hless := plan_lt_length hsound (congrArg Prod.fst hplan) i (List.mem_append_right _ hi)
    rwa [hplan] at hless

/-- A page with a user and a session, which the user requires as well. An audit cannot be compiled,
because nothing provides the scope of the vault. -/
def pageCatalog : Catalog 6 Unit where
  dependency
    | 0 => plainDependency "store" [] []
    | 1 => plainDependency "session" [⟨"store", 0, []⟩] []
    | 2 => plainDependency "user" [⟨"session", 1, []⟩, ⟨"store", 0, []⟩] []
    | 3 => plainDependency "page" [⟨"user", 2, []⟩, ⟨"session", 1, []⟩] []
    | 4 => plainDependency "vault" [] ["admin"]
    | 5 => plainDependency "audit" [⟨"store", 0, []⟩, ⟨"vault", 4, []⟩] []
  overrides := []

/-- The session stands on the stack three times. It is listed in the place of the user's reference
to it, and so the store comes after it, although the user refers to the store as well. -/
theorem plan_lists_preorder_sample :
    let b : GraphBuilder 6 := (planEach pageCatalog [[⟨"audit", 5, []⟩]] .empty).2
    let references := [⟨"page", 3, []⟩, ⟨"session", 1, []⟩]
    let roots := [⟨"page", 3, []⟩, ⟨"session", 1, []⟩]
    let found := edges (intern pageCatalog 7) references b
    found = (.ok roots, found.2) ∧
      (b.plan pageCatalog references).1 = .ok ⟨roots, [3, 2, 1, 0]⟩ ∧
      preorder found.2.nodes [3, 1] = [3, 2, 1, 0] ∧
      (∀ i, (∃ edge ∈ roots, Relation.ReflTransGen (RefersTo found.2.nodes) i edge.node) ↔
        i ∈ [3, 2, 1, 0]) ∧
      ∀ i ∈ [3, 2, 1, 0], i < found.2.nodes.length := by
  intro b references roots found
  have hfound : found = (.ok roots, found.2) := rfl
  have hlisted : (b.plan pageCatalog references).1 = .ok ⟨roots, [3, 2, 1, 0]⟩ := rfl
  have hsound : b.Sound pageCatalog :=
    (planEach_keeps pageCatalog _ _ (sound_empty pageCatalog)).sound
  obtain ⟨plan, hplan, _, _, horder, _, hreached, hthere⟩ :=
    plan_lists_preorder pageCatalog references hfound
  rw [hplan, Except.ok.injEq] at hlisted
  subst hlisted
  exact ⟨hfound, congrArg Prod.fst hplan, horder.symm, fun i => (hreached i).symm, hthere hsound⟩

end GraphBuilder

end RequestDispatch
