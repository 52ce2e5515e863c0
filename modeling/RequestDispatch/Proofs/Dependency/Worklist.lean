import Mathlib.Algebra.BigOperators.Group.Finset.Basic
import RequestDispatch.Dependency.Graph

/-!
The walk that lists the nodes of a plan. Its stack may hold a node many times and grows while
nodes are taken off, but every edge of a node is put on the stack once only, at the first visit of
the node. So the walk ends, and the steps that it is allowed are never used up.
-/

namespace RequestDispatch

variable {n : Nat}

namespace GraphBuilder

/-- The nodes that the edges of a node lead to. -/
def nodesBelow (nodes : List (Node n)) (i : Nat) : List Nat :=
  ((nodes[i]?.map (·.edges)).getD []).map (·.node)

/-- The walk from a stack, without a bound on its steps, and what it lists in the end. -/
inductive Walks (nodes : List (Node n)) : (stack seen listed : List Nat) → Prop where
  | done (seen : List Nat) : Walks nodes [] seen seen.reverse
  | again {i : Nat} {stack seen listed : List Nat} (hseen : i ∈ seen)
      (hrest : Walks nodes stack seen listed) : Walks nodes (i :: stack) seen listed
  | visit {i : Nat} {stack seen listed : List Nat} (hnew : i ∉ seen)
      (hrest : Walks nodes (nodesBelow nodes i ++ stack) (i :: seen) listed) :
      Walks nodes (i :: stack) seen listed

/-- The number of edges of nodes that were not visited yet. -/
def edgesLeft (nodes : List (Node n)) (seen : List Nat) : Nat :=
  ∑ i ∈ (Finset.range nodes.length).filter (· ∉ seen), (nodesBelow nodes i).length

/-- A first visit puts the edges of the node on the stack, which are left no more. -/
theorem edgesLeft_visit (nodes : List (Node n)) {seen : List Nat} {i : Nat} (hnew : i ∉ seen) :
    (nodesBelow nodes i).length + edgesLeft nodes (i :: seen) = edgesLeft nodes seen := by
  have herase : (Finset.range nodes.length).filter (· ∉ i :: seen) =
      ((Finset.range nodes.length).filter (· ∉ seen)).erase i := by
    ext j
    simp only [Finset.mem_filter, Finset.mem_erase, List.mem_cons, not_or]
    tauto
  unfold edgesLeft
  rw [herase]
  by_cases hi : i < nodes.length
  · exact Finset.add_sum_erase _ (fun j => (nodesBelow nodes j).length) (by simp [hi, hnew])
  · have hnone : (nodesBelow nodes i).length = 0 := by
      simp [nodesBelow, List.getElem?_eq_none (Nat.le_of_not_lt hi)]
    rw [Finset.sum_erase _ (f := fun j => (nodesBelow nodes j).length) hnone, hnone, Nat.zero_add]

theorem edgesLeft_nil (nodes : List (Node n)) :
    edgesLeft nodes [] = (nodes.flatMap (·.edges)).length := by
  have hall : edgesLeft nodes [] = ∑ i ∈ Finset.range nodes.length, (nodesBelow nodes i).length := by
    simp [edgesLeft]
  rw [hall]
  clear hall
  induction nodes with
  | nil => rfl
  | cons node rest ih =>
      rw [List.length_cons, Finset.sum_range_succ', List.flatMap_cons, List.length_append, ← ih,
        Nat.add_comm]
      simp [nodesBelow]

/-- A walk with more steps than nodes on the stack and edges left is the walk without a bound. -/
theorem walks_of_steps (nodes : List (Node n)) (steps : Nat) (stack seen : List Nat)
    (hsteps : stack.length + edgesLeft nodes seen < steps) :
    Walks nodes stack seen (walk nodes steps stack seen) := by
  induction steps generalizing stack seen with
  | zero => omega
  | succ steps ih =>
      cases stack with
      | nil => exact .done seen
      | cons i stack =>
          rw [List.length_cons] at hsteps
          by_cases hseen : i ∈ seen
          · simp only [walk, hseen, ↓reduceIte]
            apply Walks.again hseen
            apply ih
            omega
          · simp only [walk, hseen, ↓reduceIte]
            -- The stack may grow here, by no more than the edges that are left no longer.
            apply Walks.visit hseen
            apply ih
            have hvisit := edgesLeft_visit nodes hseen
            rw [List.length_append]
            omega

/-- The walk that lists the nodes of a plan comes to an end by itself. -/
theorem walks_reachable (nodes : List (Node n)) (roots : List Edge) :
    Walks nodes (roots.map (·.node)) [] (reachable nodes roots) := by
  apply walks_of_steps
  rw [edgesLeft_nil, List.length_map]
  omega

/-- What holds of the nodes on the stack, and below every node of which it holds, holds of all
that are listed. -/
theorem Walks.forall {nodes : List (Node n)} {stack seen listed : List Nat}
    (hwalks : Walks nodes stack seen listed) (holds : Nat → Prop)
    (hstack : ∀ i ∈ stack, holds i) (hseen : ∀ i ∈ seen, holds i)
    (hbelow : ∀ i, holds i → ∀ j ∈ nodesBelow nodes i, holds j) : ∀ i ∈ listed, holds i := by
  induction hwalks with
  | done seen =>
      intro i hi
      exact hseen i (List.mem_reverse.mp hi)
  | again _ _ ih =>
      apply ih
      · intro j hj
        exact hstack j (List.mem_cons_of_mem _ hj)
      · exact hseen
  | @visit i stack seen listed _ _ ih =>
      have hi := hstack i List.mem_cons_self
      apply ih
      · intro j hj
        rcases List.mem_append.mp hj with hdown | hrest
        · exact hbelow i hi j hdown
        · exact hstack j (List.mem_cons_of_mem _ hrest)
      · intro j hj
        rcases List.mem_cons.mp hj with rfl | hold
        · exact hi
        · exact hseen j hold

end GraphBuilder

end RequestDispatch
