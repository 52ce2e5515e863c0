import RequestDispatch.Handler

/-!
Declarations of routes: what is matched, what is bound, which dependencies are required, which
code is run, and which responses it has.
-/

namespace RequestDispatch

/-- The declaration of a route that may require the `n` dependencies of a catalog. -/
structure RouteDeclaration (n : Nat) (σ : Type) where
  method : Method
  pattern : String
  handlerName : String
  handler : Handler σ
  parameters : List Parameter
  references : List (Reference n)
  response : ResponseDeclaration

namespace RouteDeclaration

variable {n : Nat} {σ : Type}

def of (method : Method) (pattern handlerName : String) (handler : Handler σ) :
    RouteDeclaration n σ :=
  { method, pattern, handlerName, handler, parameters := [], references := [],
    response := .unspecified }

/-- The method and the template, by which a route is named in messages. -/
def description (declared : RouteDeclaration n σ) : String :=
  declared.method ++ " " ++ declared.pattern

end RouteDeclaration

end RequestDispatch
