import RequestDispatch.Dependency.Graph
import RequestDispatch.Route.Declaration
import RequestDispatch.Routing.Table

/-!
Compiling routes. Everything that can be wrong with a declaration is found here: templates,
parameters, dependencies, patterns and schemas. All routes of an application share one graph
of dependencies.
-/

namespace RequestDispatch

structure Route (n : Nat) (σ : Type) where
  declared : RouteDeclaration n σ
  template : Template
  /-- The declared parameters, then one for every other placeholder. -/
  parameters : List CompiledParameter
  plan : Plan
  /-- The body is an object with each body parameter as a member. -/
  embedBody : Bool
  validator : Option Validator

namespace RouteDeclaration

variable {n : Nat} {σ : Type}

/-- The parameters of the placeholders that no path parameter is declared for. Their type is
that of the placeholder, or else text. -/
def implicitParameters (declared : RouteDeclaration n σ) (template : Template) :
    List Parameter :=
  let undeclared := template.names.filter fun name =>
    !declared.parameters.any fun p => p.location = .path && p.name = name
  undeclared.map fun name => .ofType name .path ((template.typeOf? name).getD .string)

/-- Refuses a path parameter that names no placeholder. -/
def permit (route : String) (template : Template) (p : Parameter) :
    Except RegistrationError Unit :=
  if p.location = .path ∧ p.name ∉ template.names then
    .error (.unknownPathParameter route p.name)
  else .ok ()

def bodyParameters (parameters : List CompiledParameter) : List Parameter :=
  (parameters.map (·.declared)).filter fun p => p.location = .body

/-- Whether the body has to hold these parameters as members: when one of them asks for it,
or when they have different names. -/
def needsEmbedding (body : List Parameter) : Bool :=
  body.any (·.embed) || (body.any fun p => body.any fun q => p.name ≠ q.name)

def compileResponse (declared : RouteDeclaration n σ) :
    Except RegistrationError (Option Validator) :=
  match declared.response.schema with
  | none => .ok none
  | some document =>
      match Validator.compile? document with
      | some validator => .ok (some validator)
      | none => .error (.invalidSchema (declared.description ++ " response"))

/-- Refuses a dependency with a path parameter that names no placeholder of a route that
requires it. -/
def permitNode (declared : RouteDeclaration n σ) (template : Template) (catalog : Catalog n σ)
    (node : Node n) : Except RegistrationError Unit :=
  let via := declared.description ++ " (via " ++ (catalog.dependency node.identity).name ++ ")"
  node.parameters.forM fun p => permit via template p.declared

def finish (declared : RouteDeclaration n σ) (template : Template) (catalog : Catalog n σ)
    (parameters : List CompiledParameter) (plan : Plan) (nodes : List (Node n)) :
    Except RegistrationError (Route n σ) := do
  let reached := plan.reachable.filterMap fun i => nodes[i]?
  reached.forM (declared.permitNode template catalog)
  let validator ← declared.compileResponse
  let body := bodyParameters (parameters ++ reached.flatMap (·.parameters))
  .ok ⟨declared, template, parameters, plan, needsEmbedding body, validator⟩

def compile (declared : RouteDeclaration n σ) (catalog : Catalog n σ) (b : GraphBuilder n) :
    Except RegistrationError (Route n σ × GraphBuilder n) := do
  let template ← Template.parse declared.pattern
  let parameters ← Parameter.compileAll declared.description
    (permit declared.description template) []
    (declared.parameters ++ declared.implicitParameters template)
  let (plan, b) := b.plan catalog declared.references
  let route ← declared.finish template catalog parameters (← plan) b.nodes
  .ok (route, b)

def compileAll (catalog : Catalog n σ) :
    List (RouteDeclaration n σ) → GraphBuilder n →
      Except RegistrationError (List (Route n σ) × GraphBuilder n)
  | [], b => .ok ([], b)
  | declared :: rest, b =>
      match declared.compile catalog b with
      | .error e => .error e
      | .ok (route, b) =>
          match compileAll catalog rest b with
          | .error e => .error e
          | .ok (routes, b) => .ok (route :: routes, b)

end RouteDeclaration

namespace Route

variable {n : Nat} {σ : Type}

def compileAll (catalog : Catalog n σ) (declared : List (RouteDeclaration n σ)) :
    Except RegistrationError (List (Route n σ) × Graph n σ) :=
  (RouteDeclaration.compileAll catalog declared .empty).map fun (routes, b) =>
    (routes, ⟨catalog, b.nodes⟩)

def entry (route : Route n σ) : Entry (Route n σ) :=
  ⟨route.declared.method, route.template, route⟩

end Route

end RequestDispatch
