import Mathlib.Logic.Relation
import RequestDispatch.Proofs.Dependency.Branches
import RequestDispatch.Proofs.Dependency.Gates

/-!
References that are followed in any order. A strand is a reference at some point between two of its
pauses. Any strand may advance at any time, if it is not at a gate that is taken; of the gates
nothing is assumed but that one evaluation at a time gets past them, that its value is handed to all
who wait, and that after an evaluation which came to nothing another one may begin.
-/

namespace RequestDispatch

variable {n : Nat} {σ : Type}

/-- A reference that is followed. -/
inductive Strand (n : Nat) where
  /-- Nothing was done yet. The scopes are those inherited from above. -/
  | pending (inherited : Scopes) (edge : Edge)
  /-- Waits at the gate of a dependency that was found taken. -/
  | waiting (visit : Visit n)
  /-- Evaluates a dependency, and waits for what it refers to. -/
  | gathering (visit : Visit n) (below : List (Strand n))
  /-- Evaluates a dependency by running its code, which has paused `polls` times. -/
  | running (visit : Visit n) (provided : Provisions) (polls : Nat)
  | resolved (visit : Visit n) (value : Provided)
  | failed (error : DispatchError)

namespace Strand

def value? : Strand n → Option Provided
  | .resolved _ value => some value
  | _ => none

/-- A strand that has come to its end. -/
def Ended : Strand n → Prop
  | .resolved .. | .failed _ => True
  | _ => False

/-- The strands that a strand is gathering the values of. -/
def parts : Strand n → List (Strand n)
  | .gathering _ below => below
  | _ => []

/-- The place of the node that a strand leads to. -/
def place? : Strand n → Option Nat
  | .pending _ edge => some edge.node
  | .waiting visit | .gathering visit _ | .running visit _ _ | .resolved visit _ =>
      some visit.index
  | .failed _ => none

mutual

/-- A strand and all strands beneath it. -/
def all : Strand n → List (Strand n)
  | .gathering visit below => .gathering visit below :: allOf below
  | s => [s]

def allOf : List (Strand n) → List (Strand n)
  | [] => []
  | s :: rest => s.all ++ allOf rest

end

theorem all_eq (s : Strand n) : s.all = s :: allOf s.parts := by
  cases s <;> rfl

theorem mem_all_self (s : Strand n) : s ∈ s.all := by
  rw [all_eq]
  exact List.mem_cons_self

@[simp] theorem allOf_append (first rest : List (Strand n)) :
    allOf (first ++ rest) = allOf first ++ allOf rest := by
  induction first with
  | nil => rfl
  | cons s more ih => rw [List.cons_append, allOf, allOf, ih, List.append_assoc]

theorem mem_allOf_iff {strands : List (Strand n)} {t : Strand n} :
    t ∈ allOf strands ↔ ∃ s ∈ strands, t ∈ s.all := by
  induction strands with
  | nil => simp [allOf]
  | cons s rest ih => simp [allOf, ih]

/-- What holds of a strand whenever it holds of all that it gathers holds of every strand. -/
theorem induction_parts {motive : Strand n → Prop}
    (hstep : ∀ s : Strand n, (∀ t ∈ s.parts, motive t) → motive s) (s : Strand n) : motive s := by
  apply hstep
  intro t ht
  exact induction_parts hstep t
termination_by s
decreasing_by
  cases s with
  | gathering visit below =>
      have hsize := List.sizeOf_lt_of_mem ht
      simp only [Strand.parts, gathering.sizeOf_spec] at hsize ⊢
      omega
  | _ => cases ht

end Strand

/-- The references of a visited node, before anything was done. -/
def Visit.begun (visit : Visit n) : List (Strand n) :=
  visit.node.edges.map (.pending visit.scopes)

namespace Resolver

variable (r : Resolver n σ)

/-- Whether a strand evaluates a cached dependency, which is to hold its gate. -/
def evaluates (i : Fin n) : Strand n → Bool
  | .gathering visit _ | .running visit _ _ =>
      (r.graph.dependency visit.node).cached && visit.node.identity = i
  | _ => false

/-- The number of strands, with all beneath them, that evaluate a cached dependency. -/
def evaluators (i : Fin n) (strands : List (Strand n)) : Nat :=
  (Strand.allOf strands).countP (r.evaluates i)

/-- The cache after a strand was given up: gates that were taken for it are free again. -/
def abandon (s : Strand n) (cache : Cache n) : Cache n :=
  ⟨fun i =>
    if s.all.any (r.evaluates i) ∧ cache.gate i = .taken then .free else cache.gate i⟩

/-- How an authorized strand goes on: to the evaluation if the dependency is not cached, and else as
far as its gate permits. -/
inductive Approaches (visit : Visit n) (p : Progress n σ) : Strand n → Progress n σ → Prop where
  | uncached (hcached : (r.graph.dependency visit.node).cached = false) :
      Approaches visit p (.gathering visit visit.begun) p
  | first (hcached : (r.graph.dependency visit.node).cached = true)
      (hfree : p.cache.gate visit.node.identity = .untouched ∨
        p.cache.gate visit.node.identity = .free) :
      Approaches visit p (.gathering visit visit.begun)
        { p with cache := p.cache.set visit.node.identity .taken }
  | waits (hcached : (r.graph.dependency visit.node).cached = true)
      (htaken : p.cache.gate visit.node.identity = .taken) :
      Approaches visit p (.waiting visit) p
  /-- The value is taken over when the ways below are authorized. -/
  | recalls (value : Provided) (level : Nat)
      (hcached : (r.graph.dependency visit.node).cached = true)
      (hfilled : p.cache.gate visit.node.identity = .filled value)
      (hlevel : visit.index ≤ level)
      (hchecked : r.authorizeBelow level visit.scopes visit.node.edges = .ok ()) :
      Approaches visit p (.resolved visit value) p
  | refused (value : Provided) (level : Nat) (e : DispatchError)
      (hcached : (r.graph.dependency visit.node).cached = true)
      (hfilled : p.cache.gate visit.node.identity = .filled value)
      (hlevel : visit.index ≤ level)
      (hchecked : r.authorizeBelow level visit.scopes visit.node.edges = .error e) :
      Approaches visit p (.failed e) p

/-- What a strand, or one beneath it, does next. -/
inductive Advances : Strand n → Progress n σ → Strand n → Progress n σ → Prop where
  | refused {inherited : Scopes} {edge : Edge} {node : Node n} {e : DispatchError}
      {p : Progress n σ} (hnode : r.graph.nodes[edge.node]? = some node)
      (hrefused : authorize r.request (r.graph.dependency node)
        (accumulate inherited edge (r.graph.dependency node)) = .error e) :
      Advances (.pending inherited edge) p (.failed e) p
  | arrives {inherited : Scopes} {edge : Edge} {visit : Visit n} {s : Strand n}
      {p q : Progress n σ} (hvisit : r.Visits inherited edge visit)
      (happroach : r.Approaches visit p s q) : Advances (.pending inherited edge) p s q
  /-- Somebody who waits goes on when the gate is not taken any more. -/
  | returns {visit : Visit n} {s : Strand n} {p q : Progress n σ}
      (hopen : p.cache.gate visit.node.identity ≠ .taken)
      (happroach : r.Approaches visit p s q) : Advances (.waiting visit) p s q
  | within {visit : Visit n} {before after : List (Strand n)} {s t : Strand n}
      {p q : Progress n σ} (hadvances : Advances s p t q) :
      Advances (.gathering visit (before ++ s :: after)) p
        (.gathering visit (before ++ t :: after)) q
  | gathers {visit : Visit n} {below : List (Strand n)} {values : List Provided}
      {p : Progress n σ} (hvalues : below.mapM Strand.value? = some values) :
      Advances (.gathering visit below) p
        (.running visit ((visit.node.edges.map (·.name)).zip values) 0) p
  /-- One failure below is enough; whatever else goes on there is given up. -/
  | givesUp {visit : Visit n} {below : List (Strand n)} {e : DispatchError} {p : Progress n σ}
      (hfailed : .failed e ∈ below) :
      Advances (.gathering visit below) p (.failed e)
        { p with cache := r.abandon (.gathering visit below) p.cache }
  | pauses {visit : Visit n} {provided : Provisions} {polls : Nat} {p q : Progress n σ}
      (hrun : r.runBody visit provided polls p = (.ok (.running visit provided (polls + 1)), q)) :
      Advances (.running visit provided polls) p (.running visit provided (polls + 1)) q
  | ends {visit : Visit n} {provided : Provisions} {polls : Nat} {value : Provided}
      {p q : Progress n σ} (hrun : r.runBody visit provided polls p = (.ok (.resolved value), q)) :
      Advances (.running visit provided polls) p (.resolved visit value) q
  | fails {visit : Visit n} {provided : Provisions} {polls : Nat} {e : DispatchError}
      {p q : Progress n σ} (hrun : r.runBody visit provided polls p = (.error e, q)) :
      Advances (.running visit provided polls) p (.failed e)
        { q with cache := r.abandon (.running visit provided polls) q.cache }

/-- One strand advances. -/
inductive Turn : List (Strand n) × Progress n σ → List (Strand n) × Progress n σ → Prop where
  | intro (before after : List (Strand n)) {s t : Strand n} {p q : Progress n σ}
      (hadvances : r.Advances s p t q) : Turn (before ++ s :: after, p) (before ++ t :: after, q)

/-- Strands advance one after another, in any order. -/
abbrev Interleaves : List (Strand n) × Progress n σ → List (Strand n) × Progress n σ → Prop :=
  Relation.ReflTransGen r.Turn

end Resolver

/-- The roots of a plan, before anything was done. -/
def Plan.begun (plan : Plan) : List (Strand n) :=
  plan.roots.map (.pending [])

end RequestDispatch
