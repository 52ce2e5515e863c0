import RequestDispatch.Error.Dispatch
import RequestDispatch.Routing.Tree
import RequestDispatch.Text.Percent

/-!
Routing tables. A table holds entries with a method and a template each and is refused when
two entries have the same method and templates of the same shape. A request is routed to the
entry whose template fits its path with literals as far to the front as possible.
-/

namespace RequestDispatch

structure Entry (τ : Type) where
  method : Method
  template : Template
  target : τ

/-- A routing table: its entries in the order of registration and their tree. -/
structure Table (τ : Type) where
  entries : List (Entry τ)
  tree : Tree (Entry τ)

/-- The outcome of routing. Captures are named by the matched template and decoded; the
methods under which the path is known are sorted and each listed once. -/
inductive Routing (τ : Type) where
  | matched (target : τ) (captures : List (String × String))
  | methodNotAllowed (allowed : List Method)
  | notFound

def dropRepeats {α : Type} [DecidableEq α] : List α → List α
  | [] => []
  | [a] => [a]
  | a :: b :: rest => if a = b then dropRepeats (b :: rest) else a :: dropRepeats (b :: rest)

def sortMethods (methods : List Method) : List Method :=
  dropRepeats (methods.mergeSort fun a b => decide (a ≤ b))

namespace Table

variable {τ : Type}

def insertAll : Tree (Entry τ) → List (Entry τ) → Except RegistrationError (Tree (Entry τ))
  | tree, [] => .ok tree
  | tree, entry :: rest =>
      match tree.insert entry.method entry entry.template.segments with
      | .ok tree => insertAll tree rest
      | .error existing =>
          .error (.ambiguousRoute entry.method entry.template.raw existing.template.raw)

def ofEntries (entries : List (Entry τ)) : Except RegistrationError (Table τ) :=
  (insertAll .empty entries).map fun tree => ⟨entries, tree⟩

def route (table : Table τ) (method : Method) (path : String) : Routing τ :=
  match table.tree.search method ((Template.piecesOf path).map String.ofList) .start with
  | (some entry, trail) =>
      .matched entry.target (entry.template.names.zip (trail.captures.map Text.Percent.decode))
  | (none, trail) =>
      if trail.allowed.isEmpty then .notFound
      else .methodNotAllowed (sortMethods trail.allowed)

/-- Routes a method and a path, with a failure as the error of the request. -/
def resolve (table : Table τ) (method : Method) (path : String) :
    Except DispatchError (τ × List (String × String)) :=
  match table.route method path with
  | .matched target captures => .ok (target, captures)
  | .methodNotAllowed allowed => .error (.methodNotAllowed method path allowed)
  | .notFound => .error (.notFound method path)

def patterns (table : Table τ) : List String :=
  table.entries.map fun entry => entry.method ++ " " ++ entry.template.raw

end Table

end RequestDispatch
