import RequestDispatch.Dependency.Declaration

/-!
The graph of the dependencies that the routes of an application require. Each dependency has
one node, compiled once, and a node comes after all the nodes it refers to, so that the graph
has no cycles. A builder adds nodes for the references of one route after another.
-/

namespace RequestDispatch

structure Edge where
  name : String
  node : Nat
  scopes : List String
deriving DecidableEq, Repr

/-- A dependency with its parameters compiled and its references followed. -/
structure Node (n : Nat) where
  identity : Fin n
  parameters : List CompiledParameter
  edges : List Edge

structure Plan where
  /-- The route's own references in order. -/
  roots : List Edge
  /-- Every node that can be reached from them, each once. -/
  reachable : List Nat
deriving DecidableEq, Repr

/-- A builder: the nodes so far, the place of the node of every dependency that has one, and the
dependencies that are being followed, the outermost first. -/
structure GraphBuilder (n : Nat) where
  nodes : List (Node n)
  index : Fin n → Option Nat
  visiting : List (Fin n)

namespace GraphBuilder

variable {n : Nat} {σ : Type}

def empty : GraphBuilder n := ⟨[], fun _ => none, []⟩

def add (b : GraphBuilder n) (node : Node n) : GraphBuilder n :=
  { b with
    nodes := b.nodes ++ [node]
    index := fun i => if i = node.identity then some b.nodes.length else b.index i }

/-- The names along the cycle that a dependency closes, if it is being followed. -/
def cycle? (b : GraphBuilder n) (catalog : Catalog n σ) (identity : Fin n) :
    Option (List String) :=
  (b.visiting.idxOf? identity).map fun start =>
    (b.visiting.drop start ++ [identity]).map fun i => (catalog.dependency i).name

/-- Follows references one after another; `follow` finds the node of each. -/
def edges (follow : Fin n → GraphBuilder n → Except RegistrationError Nat × GraphBuilder n) :
    List (Reference n) → GraphBuilder n → Except RegistrationError (List Edge) × GraphBuilder n
  | [], b => (.ok [], b)
  | r :: rest, b =>
      match follow r.target b with
      | (.error e, b) => (.error e, b)
      | (.ok node, b) =>
          match edges follow rest b with
          | (.error e, b) => (.error e, b)
          | (.ok more, b) => (.ok (⟨r.name, node, r.scopes⟩ :: more), b)

def compileDeclared (dependency : Dependency n σ) :
    Except RegistrationError (List CompiledParameter) :=
  if !dependency.scopes.isEmpty && dependency.provider.isNone then
    .error (.missingSecurityProvider dependency.name)
  else Parameter.compileAll dependency.name (fun _ => .ok ()) [] dependency.parameters

/-- Finds or adds the node of a declared dependency. What was added stays when something
fails. Every step down follows a dependency that is not being followed yet, so one more step
than there are dependencies is never needed. -/
def intern (catalog : Catalog n σ) :
    (steps : Nat) → Fin n → GraphBuilder n → Except RegistrationError Nat × GraphBuilder n
  | 0, _, b => (.error (.dependencyCycle []), b)
  | steps + 1, declared, b =>
      let identity := catalog.effective declared
      match b.index identity with
      | some node => (.ok node, b)
      | none =>
          match b.cycle? catalog identity with
          | some names => (.error (.dependencyCycle names), b)
          | none =>
              let dependency := catalog.dependency identity
              match compileDeclared dependency with
              | .error e => (.error e, b)
              | .ok parameters =>
                  let (followed, below) :=
                    edges (intern catalog steps) dependency.references
                      { b with visiting := b.visiting ++ [identity] }
                  let b := { below with visiting := below.visiting.dropLast }
                  match followed with
                  | .error e => (.error e, b)
                  | .ok edges => (.ok b.nodes.length, b.add ⟨identity, parameters, edges⟩)

/-- Walks down from the nodes on a stack, the top first, and lists every node at its first
visit; `seen` holds the nodes listed so far, the latest first. A step takes a node off the
stack. -/
def walk (nodes : List (Node n)) : (steps : Nat) → (stack seen : List Nat) → List Nat
  | 0, _, seen => seen.reverse
  | _ + 1, [], seen => seen.reverse
  | steps + 1, i :: stack, seen =>
      if i ∈ seen then walk nodes steps stack seen
      else
        let below := (nodes[i]?.map (·.edges)).getD []
        walk nodes steps (below.map (·.node) ++ stack) (i :: seen)

def reachable (nodes : List (Node n)) (roots : List Edge) : List Nat :=
  let steps := roots.length + (nodes.flatMap (·.edges)).length
  walk nodes (steps + 1) (roots.map (·.node)) []

def plan (catalog : Catalog n σ) (references : List (Reference n)) (b : GraphBuilder n) :
    Except RegistrationError Plan × GraphBuilder n :=
  match edges (intern catalog (n + 1)) references b with
  | (.error e, b) => (.error e, b)
  | (.ok roots, b) => (.ok ⟨roots, reachable b.nodes roots⟩, b)

/-- Compiles the references of routes one after another, whatever becomes of each. -/
def planEach (catalog : Catalog n σ) :
    List (List (Reference n)) → GraphBuilder n →
      List (Except RegistrationError Plan) × GraphBuilder n
  | [], b => ([], b)
  | references :: rest, b =>
      let (plan, b) := b.plan catalog references
      let (plans, b) := planEach catalog rest b
      (plan :: plans, b)

end GraphBuilder

/-- The dependencies of an application: the declarations and their nodes. -/
structure Graph (n : Nat) (σ : Type) where
  catalog : Catalog n σ
  nodes : List (Node n)

namespace Graph

variable {n : Nat} {σ : Type}

def dependency (graph : Graph n σ) (node : Node n) : Dependency n σ :=
  graph.catalog.dependency node.identity

def nodeNames (graph : Graph n σ) : List String :=
  graph.nodes.map fun node => (graph.dependency node).name

end Graph

end RequestDispatch
