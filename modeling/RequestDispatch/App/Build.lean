import RequestDispatch.Config.Settings
import RequestDispatch.Middleware.Chain
import RequestDispatch.Route.Bind

/-!
Building an application from its declarations. What is built is fixed; all that changes while
it serves requests is the state of the application code.
-/

namespace RequestDispatch

structure AppDeclaration (n : Nat) (σ : Type) where
  settings : Settings
  catalog : Catalog n σ
  rules : List ExceptionRule
  /-- The outermost first. -/
  middlewares : List (Middleware n σ)
  routes : List (RouteDeclaration n σ)

/-- An application that is ready to serve requests. -/
structure App (n : Nat) (σ : Type) where
  settings : Settings
  table : Table (Route n σ)
  graph : Graph n σ
  middlewares : List (Middleware n σ)
  mapper : ExceptionMapper

/-- Builds an application. All routes are compiled before any two are compared. -/
def AppDeclaration.build {n : Nat} {σ : Type} (declared : AppDeclaration n σ) :
    Except RegistrationError (App n σ) :=
  match Route.compileAll declared.catalog declared.routes with
  | .error e => .error e
  | .ok (routes, graph) =>
      match Table.ofEntries (routes.map Route.entry) with
      | .error e => .error e
      | .ok table =>
          .ok ⟨declared.settings, table, graph, declared.middlewares,
            ⟨declared.rules, declared.settings.allowHeader⟩⟩

def App.routes {n : Nat} {σ : Type} (app : App n σ) : List (Route n σ) :=
  app.table.entries.map (·.target)

end RequestDispatch
