import RequestDispatch.Parameter.Declaration
import RequestDispatch.RequestId
import RequestDispatch.Routine
import RequestDispatch.Security.Provider
import RequestDispatch.Security.Scopes

/-!
Declarations of dependencies: application code that handlers and other dependencies require a
value of. A dependency is identified by its place in a catalog; names play no part in that,
and several dependencies may have the same one.
-/

namespace RequestDispatch

inductive Provided where
  | json (v : Json)
  | text (s : String)
deriving DecidableEq, Inhabited

/-- Values of dependencies under the names by which they were required. Of two values with
one name the later one counts. -/
abbrev Provisions := List (String × Provided)

namespace Provisions

def find? (provisions : Provisions) (name : String) : Option Provided :=
  provisions.reverse.lookup name

def undeclared (name : String) : DispatchError :=
  .internal ["dependency '" ++ name ++ "' was not declared"]

def mistyped (name type : String) : DispatchError :=
  .internal ["dependency '" ++ name ++ "' is not a " ++ type]

def json (provisions : Provisions) (name : String) : Except DispatchError Json :=
  match provisions.find? name with
  | some (.json v) => .ok v
  | some _ => .error (mistyped name "Value")
  | none => .error (undeclared name)

def text (provisions : Provisions) (name : String) : Except DispatchError String :=
  match provisions.find? name with
  | some (.text s) => .ok s
  | some _ => .error (mistyped name "String")
  | none => .error (undeclared name)

end Provisions

structure DependencyInput where
  params : Members
  provided : Provisions
  request : Request
  requestId : RequestId
  /-- The scopes that were required on the way to this dependency. -/
  scopes : Scopes
  /-- What its provider granted, if it has one. -/
  credentials : Option Credentials

/-- A site at which a dependency of a catalog with `n` of them is required. -/
structure Reference (n : Nat) where
  /-- The name under which the value is handed on. -/
  name : String
  target : Fin n
  /-- Scopes required here of the dependency and all that it requires. -/
  scopes : List String
deriving DecidableEq

structure Dependency (n : Nat) (σ : Type) where
  name : String
  parameters : List Parameter
  references : List (Reference n)
  /-- Scopes required wherever this dependency is. -/
  scopes : List String
  provider : Option SecurityProvider
  /-- Whether one evaluation serves all of a request. -/
  cached : Bool
  routine : Routine σ DependencyInput Provided

/-- The declared dependencies and the replacements of some of them. -/
structure Catalog (n : Nat) (σ : Type) where
  dependency : Fin n → Dependency n σ
  /-- Pairs of a dependency and its replacement; of two pairs for one dependency the later
  one counts. -/
  overrides : List (Fin n × Fin n)

namespace Catalog

variable {n : Nat} {σ : Type}

/-- The dependency that stands in for a declared one. A replacement is not replaced again. -/
def effective (catalog : Catalog n σ) (declared : Fin n) : Fin n :=
  (catalog.overrides.reverse.lookup declared).getD declared

def referenceTo (catalog : Catalog n σ) (target : Fin n) : Reference n :=
  ⟨(catalog.dependency target).name, target, []⟩

end Catalog

end RequestDispatch
