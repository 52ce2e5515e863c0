import RequestDispatch.Parameter.Binder
import RequestDispatch.Route.Compile

/-!
Binding everything a matched route needs: its own parameters and those of every dependency it
can reach. All issues are reported together, each once.
-/

namespace RequestDispatch

/-- The bound parameters of a route and of the nodes it reaches. -/
structure BoundRequest where
  route : Members
  /-- One entry for each node of the graph, empty where the route does not reach. -/
  nodes : List (Option Members)

def BoundRequest.node (bound : BoundRequest) (i : Nat) : Members :=
  ((bound.nodes[i]?).join).getD []

/-- Issues without those that equal an earlier one. -/
def Issue.distinct (issues : List Issue) : List Issue :=
  issues.foldl (fun seen issue =>
    if ∃ other ∈ seen, other.Equals issue then seen else seen ++ [issue]) []

namespace Route

variable {n : Nat} {σ : Type}

/-- Binds what a matched route needs from a request. -/
def bind (route : Route n σ) (graph : Graph n σ) (request : Request)
    (captures : List (String × String)) : Except DispatchError BoundRequest :=
  let binder : Binder := ⟨request, captures, route.embedBody⟩
  let own := binder.bindFrom .fresh route.parameters
  let groups := route.plan.reachable.map fun i =>
    (graph.nodes[i]?.map (·.parameters)).getD []
  let below := binder.bindGroups own.toBodyMemory groups
  match Issue.distinct (own.issues ++ below.flatMap (·.issues)) with
  | [] =>
      let bound := route.plan.reachable.zip (below.map (·.values))
      .ok ⟨own.values, (List.range graph.nodes.length).map fun i => bound.lookup i⟩
  | issues => .error (.validation issues)

end Route

end RequestDispatch
