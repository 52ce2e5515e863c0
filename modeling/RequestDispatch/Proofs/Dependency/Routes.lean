import RequestDispatch.Proofs.Dependency.Arena
import RequestDispatch.Route.Compile

/-!
The routes of an application. They are compiled one after another with one builder, so the
plan of each is as a builder makes it, in the graph that all of them share in the end.
-/

namespace RequestDispatch

variable {n : Nat} {σ : Type}

namespace RouteDeclaration

variable {catalog : Catalog n σ}

/-- What a declaration is compiled to by a builder, which is then the last one. -/
structure Compiles (declared : RouteDeclaration n σ) (catalog : Catalog n σ)
    (b last : GraphBuilder n) (route : Route n σ) : Prop where
  declared_eq : route.declared = declared
  template : Template.parse declared.pattern = .ok route.template
  parameters : Parameter.compileAll declared.description
    (permit declared.description route.template) []
    (declared.parameters ++ declared.implicitParameters route.template) = .ok route.parameters
  plan : (b.plan catalog declared.references).1 = .ok route.plan
  last_eq : last = (b.plan catalog declared.references).2
  permitted : (route.plan.reachable.filterMap fun i => last.nodes[i]?).forM
    (declared.permitNode route.template catalog) = .ok ()
  embed : route.embedBody = needsEmbedding (bodyParameters (route.parameters ++
    (route.plan.reachable.filterMap fun i => last.nodes[i]?).flatMap (·.parameters)))

/-- Each part of a route that compiles has compiled. -/
theorem compile_ok {declared : RouteDeclaration n σ} {b last : GraphBuilder n} {route : Route n σ}
    (hcompile : declared.compile catalog b = .ok (route, last)) :
    declared.Compiles catalog b last route := by
  simp only [compile, bind, Except.bind] at hcompile
  split at hcompile
  · cases hcompile
  · rename_i template htemplate
    split at hcompile
    · cases hcompile
    · rename_i parameters hparameters
      split at hcompile
      · cases hcompile
      · rename_i plan hplan
        split at hcompile
        · cases hcompile
        · rename_i found hfinish
          cases hcompile
          simp only [finish, bind, Except.bind] at hfinish
          split at hfinish
          · cases hfinish
          · rename_i hpermitted
            split at hfinish
            · cases hfinish
            · cases hfinish
              exact ⟨rfl, htemplate, hparameters, hplan, rfl, hpermitted, rfl⟩

/-- Routes that compile are compiled one behind the other. -/
theorem compileAll_ok {declared : List (RouteDeclaration n σ)} {b last : GraphBuilder n}
    {routes : List (Route n σ)} (hcompile : compileAll catalog declared b = .ok (routes, last)) :
    last = (GraphBuilder.planEach catalog (declared.map (·.references)) b).2 ∧
      ∀ route ∈ routes, ∃ before after,
        declared.map (·.references) = before ++ route.declared.references :: after ∧
          ∃ next, route.declared.Compiles catalog (GraphBuilder.planEach catalog before b).2 next
            route := by
  induction declared generalizing b routes with
  | nil =>
      cases hcompile
      exact ⟨rfl, by simp⟩
  | cons first rest ih =>
      simp only [compileAll] at hcompile
      split at hcompile
      · cases hcompile
      · rename_i route next hfirst
        split at hcompile
        · cases hcompile
        · rename_i others final hrest
          cases hcompile
          have hcompiles := compile_ok hfirst
          obtain rfl := hcompiles.last_eq
          obtain ⟨hlast, hothers⟩ := ih hrest
          refine ⟨hlast, ?_⟩
          intro other hother
          rcases List.mem_cons.mp hother with rfl | hmember
          · have hdeclared := hcompiles.declared_eq
            exact ⟨[], rest.map (·.references), by simp [hdeclared], _, hdeclared ▸ hcompiles⟩
          · obtain ⟨before, after, hsplit, hmade⟩ := hothers other hmember
            exact ⟨first.references :: before, after, by simp [hsplit], hmade⟩

end RouteDeclaration

/-- The plan of every route of an application is compiled from the references of the route. -/
theorem Route.compiled_of_compileAll {catalog : Catalog n σ}
    {declared : List (RouteDeclaration n σ)} {routes : List (Route n σ)} {graph : Graph n σ}
    (hcompile : Route.compileAll catalog declared = .ok (routes, graph)) {route : Route n σ}
    (hroute : route ∈ routes) :
    Compiled catalog route.declared.references graph route.plan := by
  unfold Route.compileAll at hcompile
  cases hall : RouteDeclaration.compileAll catalog declared .empty with
  | error fault =>
      rw [hall] at hcompile
      cases hcompile
  | ok result =>
      obtain ⟨found, last⟩ := result
      rw [hall] at hcompile
      cases hcompile
      obtain ⟨hlast, hroutes⟩ := RouteDeclaration.compileAll_ok hall
      obtain ⟨before, after, hsplit, next, hcompiles⟩ := hroutes route hroute
      rw [hlast, hsplit, GraphBuilder.planEach_append]
      exact .intro before after route.plan hcompiles.plan

end RequestDispatch
