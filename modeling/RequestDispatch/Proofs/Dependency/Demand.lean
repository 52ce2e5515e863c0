import Mathlib.Algebra.BigOperators.Group.List.Basic
import Mathlib.Algebra.Order.Ring.Int
import RequestDispatch.Proofs.Dependency.Gates
import RequestDispatch.Proofs.Dependency.Recording

/-!
How many references there are to a dependency. They come from the roots of a plan and from every
run of the dependencies above it, so that the numbers of runs satisfy a recurrence over the
graph. A record tells how often the code of a dependency began and ended, and a cache at which
dependencies somebody came first.
-/

namespace RequestDispatch

variable {n : Nat} {σ : Type}

namespace Event

/-- Whether the code of a dependency begins. -/
def begins (i : Fin n) : Event n → Bool
  | .began identity _ => identity = i
  | .ended .. => false

/-- Whether the code of a dependency ends. -/
def ends (i : Fin n) : Event n → Bool
  | .began .. => false
  | .ended identity _ => identity = i

/-- How often the code of a dependency has begun. -/
def beginnings (log : List (Event n)) (i : Fin n) : Nat :=
  log.countP (begins i)

/-- How often the code of a dependency has ended with a value. -/
def results (log : List (Event n)) (i : Fin n) : Nat :=
  log.countP (ends i)

theorem beginnings_append (log more : List (Event n)) (i : Fin n) :
    beginnings (log ++ more) i = beginnings log i + beginnings more i :=
  List.countP_append

theorem results_append (log more : List (Event n)) (i : Fin n) :
    results (log ++ more) i = results log i + results more i :=
  List.countP_append

@[simp] theorem beginnings_nil (i : Fin n) : beginnings [] i = 0 :=
  rfl

@[simp] theorem results_nil (i : Fin n) : results [] i = 0 :=
  rfl

@[simp] theorem beginnings_began (identity : Fin n) (input : DependencyInput)
    (log : List (Event n)) (i : Fin n) :
    beginnings (.began identity input :: log) i =
      beginnings log i + if identity = i then 1 else 0 := by
  simp [beginnings, begins, List.countP_cons]

@[simp] theorem beginnings_ended (identity : Fin n) (value : Provided) (log : List (Event n))
    (i : Fin n) : beginnings (.ended identity value :: log) i = beginnings log i := by
  simp [beginnings, begins]

@[simp] theorem results_began (identity : Fin n) (input : DependencyInput)
    (log : List (Event n)) (i : Fin n) :
    results (.began identity input :: log) i = results log i := by
  simp [results, ends]

@[simp] theorem results_ended (identity : Fin n) (value : Provided) (log : List (Event n))
    (i : Fin n) :
    results (.ended identity value :: log) i =
      results log i + if identity = i then 1 else 0 := by
  simp [results, ends, List.countP_cons]

end Event

namespace Graph

variable (graph : Graph n σ)

/-- The dependency that an edge leads to. -/
def target? (edge : Edge) : Option (Fin n) :=
  graph.nodes[edge.node]?.map (·.identity)

/-- The number of edges that lead to a dependency. -/
def links (edges : List Edge) (i : Fin n) : Nat :=
  edges.countP fun edge => graph.target? edge = some i

/-- The number of references to a dependency: from given edges, and from each run of a node
along the edges of the node. -/
def demand (edges : List Edge) (runs : Fin n → Nat) (i : Fin n) : Nat :=
  graph.links edges i +
    (graph.nodes.map fun node => runs node.identity * graph.links node.edges i).sum

variable {graph}

theorem demand_append (edges more : List Edge) (runs others : Fin n → Nat) (i : Fin n) :
    graph.demand (edges ++ more) (fun j => runs j + others j) i =
      graph.demand edges runs i + graph.demand more others i := by
  simp only [demand, links, List.countP_append, Nat.add_mul, List.sum_map_add]
  omega

theorem demand_nil (i : Fin n) : graph.demand [] (fun _ => 0) i = 0 := by
  simp [demand, links]

private theorem sumOfNode (nodes : List (Node n)) (hdistinct : (nodes.map (·.identity)).Nodup)
    {node : Node n} (hnode : node ∈ nodes) (weight : Node n → Nat) :
    (nodes.map fun other =>
      (if node.identity = other.identity then 1 else 0) * weight other).sum = weight node := by
  induction nodes with
  | nil => cases hnode
  | cons first rest ih =>
      rw [List.map_cons, List.nodup_cons] at hdistinct
      rw [List.map_cons, List.sum_cons]
      rcases List.mem_cons.mp hnode with rfl | hrest
      · have hnone : (rest.map fun other =>
            (if node.identity = other.identity then 1 else 0) * weight other).sum = 0 := by
          apply List.sum_eq_zero
          intro term hterm
          obtain ⟨other, hother, rfl⟩ := List.mem_map.mp hterm
          have hne : node.identity ≠ other.identity :=
            fun hsame => hdistinct.1 (hsame ▸ List.mem_map_of_mem hother)
          simp [hne]
        rw [hnone]
        simp
      · have hne : node.identity ≠ first.identity :=
          fun hsame => hdistinct.1 (hsame ▸ List.mem_map_of_mem hrest)
        rw [ih hdistinct.2 hrest]
        simp [hne]

theorem links_single {edge : Edge} {node : Node n}
    (hnode : graph.nodes[edge.node]? = some node) (i : Fin n) :
    graph.links [edge] i = if node.identity = i then 1 else 0 := by
  simp [links, target?, hnode, List.countP_cons]

/-- One more run of a node adds the references along its edges. -/
theorem demand_run (hdistinct : (graph.nodes.map (·.identity)).Nodup) {edge : Edge}
    {node : Node n} (hnode : graph.nodes[edge.node]? = some node) (runs : Fin n → Nat)
    (i : Fin n) :
    graph.demand [edge] (fun j => runs j + if node.identity = j then 1 else 0) i =
      (if node.identity = i then 1 else 0) + graph.demand node.edges runs i := by
  have hsum := sumOfNode graph.nodes hdistinct (List.mem_of_getElem? hnode)
    fun other => graph.links other.edges i
  simp only [demand, links_single hnode, Nat.add_mul, List.sum_map_add, hsum]
  omega

theorem demand_single {edge : Edge} {node : Node n}
    (hnode : graph.nodes[edge.node]? = some node) (i : Fin n) :
    graph.demand [edge] (fun _ => 0) i = if node.identity = i then 1 else 0 := by
  simp [demand, links_single hnode]

end Graph

namespace Cache

/-- Counts the dependency if its gate is engaged. -/
def engagements (cache : Cache n) (i : Fin n) : Nat :=
  match cache.gate i with
  | .taken | .filled _ => 1
  | .untouched | .free => 0

theorem engagements_le (cache : Cache n) (i : Fin n) : cache.engagements i ≤ 1 := by
  unfold engagements
  split <;> omega

theorem engagements_of_free {cache : Cache n} {i : Fin n}
    (hfree : cache.gate i = .untouched ∨ cache.gate i = .free) : cache.engagements i = 0 := by
  unfold engagements
  rcases hfree with hgate | hgate <;> rw [hgate]

/-- Engaging a gate counts its dependency and leaves the others as they were. -/
theorem engagements_set (cache : Cache n) (identity : Fin n) {gate : Gate}
    (hgate : gate = .taken ∨ ∃ value, gate = .filled value) (i : Fin n) :
    (cache.set identity gate).engagements i =
      if identity = i then 1 else cache.engagements i := by
  by_cases hsame : identity = i
  · subst hsame
    simp only [engagements, gate_set_self, ↓reduceIte]
    rcases hgate with rfl | ⟨value, rfl⟩ <;> rfl
  · simp only [engagements, gate_set_of_ne cache (Ne.symm hsame), hsame, ↓reduceIte]

end Cache

end RequestDispatch
