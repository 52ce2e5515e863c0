import RequestDispatch.Dependency.Cache
import RequestDispatch.Dependency.Graph

/-!
Resolving the dependencies of a request. Every reference that is followed is a branch. A
branch is first authorized with the scopes collected on the way to it; then the dependency is
evaluated: all that it refers to is resolved, and its code runs on the values. Of a cached
dependency only one branch at a time gets past the gate; the others take over its value, after
checking the scopes of all the ways below them.

Branches advance in rounds. In a round every unfinished branch is polled once, siblings in the
order of their declaration, and the first error ends the resolution. That is how up to 30 siblings
are joined. Longer lists are treated here in the same way; that their branches are scheduled as
they become ready, and not in order, is not followed.
-/

namespace RequestDispatch

/-- A reference that is being followed and was authorized. -/
structure Visit (n : Nat) where
  index : Nat
  node : Node n
  scopes : Scopes
  credentials : Option Credentials

inductive Branch (n : Nat) where
  | resolved (value : Provided)
  /-- Waits at the gate of a dependency that another branch evaluates. -/
  | waiting (visit : Visit n)
  /-- Waits for what the dependency refers to. -/
  | gathering (visit : Visit n) (below : List (Branch n))
  /-- Runs the code of the dependency, which has paused `polls` times. -/
  | running (visit : Visit n) (provided : Provisions) (polls : Nat)

def Branch.value? {n : Nat} : Branch n → Option Provided
  | .resolved value => some value
  | _ => none

structure Progress (n : Nat) (σ : Type) where
  cache : Cache n
  effects : Effects σ
  journal : Journal

structure Resolver (n : Nat) (σ : Type) where
  graph : Graph n σ
  /-- The bound parameters of a node. -/
  params : Nat → Members
  request : Request
  requestId : RequestId

namespace Resolver

variable {n : Nat} {σ : Type}

/-- A step of a resolution: it may fail, and what it changed until then stays changed. -/
abbrev Step (n : Nat) (σ α : Type) := Progress n σ → Except DispatchError α × Progress n σ

def accumulate (inherited : Scopes) (edge : Edge) (dependency : Dependency n σ) : Scopes :=
  (inherited.extend edge.scopes).extend dependency.scopes

/-- Asks the provider of a dependency for credentials with the required scopes. Without a
provider nobody is asked. -/
def authorize (request : Request) (dependency : Dependency n σ) (scopes : Scopes) :
    Except DispatchError (Option Credentials) :=
  match dependency.provider with
  | none => .ok none
  | some provider =>
      match provider.authenticate request with
      | .missing => .error (.unauthenticated "Not authenticated")
      | .invalid _ => .error (.unauthenticated "Could not validate credentials")
      | .granted credentials =>
          match scopes.missing credentials.scopes with
          | [] => .ok (some credentials)
          | missing => .error (.forbidden "Not enough permissions" missing)

/-- The error of an edge that leads nowhere, or upwards. A graph has none. -/
def strayEdge : DispatchError :=
  .internal ["dependency graph is inconsistent"]

/-- Authorizes all ways down from edges, without evaluating anything. An edge leads to a node
below `level`. -/
def authorizeBelow (r : Resolver n σ) :
    (level : Nat) → Scopes → List Edge → Except DispatchError Unit
  | _, _, [] => .ok ()
  | 0, _, _ :: _ => .error strayEdge
  | level + 1, inherited, edges => edges.forM fun edge =>
      match r.graph.nodes[edge.node]? with
      | none => .error strayEdge
      | some node =>
          let dependency := r.graph.dependency node
          let scopes := accumulate inherited edge dependency
          match authorize r.request dependency scopes with
          | .error e => .error e
          | .ok _ => r.authorizeBelow level scopes node.edges

def inputOf (r : Resolver n σ) (visit : Visit n) (provided : Provisions) : DependencyInput :=
  { params := r.params visit.index
    provided := provided
    request := r.request
    requestId := r.requestId
    scopes := visit.scopes
    credentials := visit.credentials }

def panicked (dependency : Dependency n σ) (panic : Panic) : DispatchError :=
  .internal ["dependency '" ++ dependency.name ++ "' panicked: " ++ panic.message]

/-- Takes up what the code of a dependency ended with. -/
def settle (r : Resolver n σ) (visit : Visit n) (outcome : Outcome Provided) :
    Step n σ (Branch n) := fun p =>
  let dependency := r.graph.dependency visit.node
  match outcome with
  | .value value =>
      let cache :=
        if dependency.cached then p.cache.set visit.node.identity (.filled value) else p.cache
      (.ok (.resolved value), { p with cache })
  | .failed e => (.error e, p)
  | .panicked panic =>
      let incident := Incident.dependencyPanicked dependency.name panic.message
      (.error (panicked dependency panic), { p with journal := p.journal ++ [incident] })

def runBody (r : Resolver n σ) (visit : Visit n) (provided : Provisions) (polls : Nat) :
    Step n σ (Branch n) := fun p =>
  let routine := (r.graph.dependency visit.node).routine
  match routine.poll polls (r.inputOf visit provided) p.effects with
  | (none, effects) => (.ok (.running visit provided (polls + 1)), { p with effects })
  | (some outcome, effects) => r.settle visit outcome { p with effects }

/-- Goes on with a dependency when all branches below it have a value. -/
def gathered (r : Resolver n σ) (visit : Visit n) (below : List (Branch n)) :
    Step n σ (Branch n) := fun p =>
  match below.mapM Branch.value? with
  | some values => r.runBody visit ((visit.node.edges.map (·.name)).zip values) 0 p
  | none => (.ok (.gathering visit below), p)

/-- Polls branches in order until one fails. -/
def pollEach {α β : Type} (poll : α → Step n σ β) : List α → Step n σ (List β)
  | [], p => (.ok [], p)
  | a :: rest, p =>
      match poll a p with
      | (.error e, p) => (.error e, p)
      | (.ok b, p) =>
          match pollEach poll rest p with
          | (.error e, p) => (.error e, p)
          | (.ok bs, p) => (.ok (b :: bs), p)

/-- Begins to evaluate a dependency; `start` begins a branch below it. -/
def evaluate (r : Resolver n σ) (start : Scopes → Edge → Step n σ (Branch n))
    (visit : Visit n) : Step n σ (Branch n) := fun p =>
  match pollEach (start visit.scopes) visit.node.edges p with
  | (.error e, p) => (.error e, p)
  | (.ok below, p) => r.gathered visit below p

/-- Goes on with an authorized branch: straight to the evaluation if the dependency is not
cached, and else as far as its gate permits. The nodes below this one are below `level`. -/
def arrive (r : Resolver n σ) (level : Nat) (start : Scopes → Edge → Step n σ (Branch n))
    (visit : Visit n) : Step n σ (Branch n) := fun p =>
  if !(r.graph.dependency visit.node).cached then r.evaluate start visit p
  else
    match p.cache.gate visit.node.identity with
    | .taken => (.ok (.waiting visit), p)
    | .filled value =>
        match r.authorizeBelow level visit.scopes visit.node.edges with
        | .error e => (.error e, p)
        | .ok () => (.ok (.resolved value), p)
    | _ => r.evaluate start visit { p with cache := p.cache.set visit.node.identity .taken }

/-- Begins a branch. The edge leads to a node below `level`. -/
def start (r : Resolver n σ) : (level : Nat) → Scopes → Edge → Step n σ (Branch n)
  | 0, _, _, p => (.error strayEdge, p)
  | level + 1, inherited, edge, p =>
      match r.graph.nodes[edge.node]? with
      | none => (.error strayEdge, p)
      | some node =>
          let dependency := r.graph.dependency node
          let scopes := accumulate inherited edge dependency
          match authorize r.request dependency scopes with
          | .error e => (.error e, p)
          | .ok credentials =>
              r.arrive level (r.start level) ⟨edge.node, node, scopes, credentials⟩ p

def top (r : Resolver n σ) : Nat :=
  r.graph.nodes.length

mutual

def poll (r : Resolver n σ) : Branch n → Step n σ (Branch n)
  | .resolved value, p => (.ok (.resolved value), p)
  | .waiting visit, p => r.arrive r.top (r.start r.top) visit p
  | .gathering visit below, p =>
      match r.pollAll below p with
      | (.error e, p) => (.error e, p)
      | (.ok below, p) => r.gathered visit below p
  | .running visit provided polls, p => r.runBody visit provided polls p

def pollAll (r : Resolver n σ) : List (Branch n) → Step n σ (List (Branch n))
  | [], p => (.ok [], p)
  | b :: rest, p =>
      match r.poll b p with
      | (.error e, p) => (.error e, p)
      | (.ok b, p) =>
          match r.pollAll rest p with
          | (.error e, p) => (.error e, p)
          | (.ok bs, p) => (.ok (b :: bs), p)

end

/-- The most polls that following edges can take, where `efforts` tells it of the nodes. -/
def effortOf (efforts : List Nat) : List Edge → Nat
  | [] => 0
  | edge :: rest => efforts.getD edge.node 0 + effortOf efforts rest

/-- The most polls that the evaluation of each node can take, with everything below it. -/
def efforts (r : Resolver n σ) : List Nat :=
  r.graph.nodes.foldl (fun efforts node =>
    efforts ++ [(r.graph.dependency node).routine.pauses + effortOf efforts node.edges + 1]) []

/-- A number of rounds in which the branches of these edges finish, because some branch
advances in every round. -/
def allowance (r : Resolver n σ) (edges : List Edge) : Nat :=
  effortOf r.efforts edges

/-- Polls branches, for at most this many rounds, until all of them have a value. -/
def finish (r : Resolver n σ) : (rounds : Nat) → List (Branch n) → Step n σ (List Provided)
  | rounds, branches, p =>
      match branches.mapM Branch.value?, rounds with
      | some values, _ => (.ok values, p)
      | none, 0 => (.error (.internal ["dependency resolution did not finish"]), p)
      | none, rounds + 1 =>
          match r.pollAll branches p with
          | (.error e, p) => (.error e, p)
          | (.ok branches, p) => r.finish rounds branches p

def followAll (r : Resolver n σ) (edges : List Edge) : Step n σ (List Provided) := fun p =>
  match pollEach (r.start r.top []) edges p with
  | (.error e, p) => (.error e, p)
  | (.ok branches, p) => r.finish (r.allowance edges) branches p

/-- Resolves the roots of a plan. When that fails, evaluations that are going on are given up
and leave no value. -/
def resolve (r : Resolver n σ) (plan : Plan) : Step n σ Provisions := fun p =>
  match r.followAll plan.roots p with
  | (.error e, p) => (.error e, { p with cache := p.cache.release })
  | (.ok values, p) => (.ok ((plan.roots.map (·.name)).zip values), p)

end Resolver

end RequestDispatch
