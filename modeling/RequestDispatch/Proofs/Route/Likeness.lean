import RequestDispatch.Proofs.Dependency.Likeness
import RequestDispatch.Proofs.Dependency.Routes
import RequestDispatch.Proofs.Routing.Mapped

/-!
Routes that are alike. Compiling looks at declarations and never at code. Declarations that differ
in nothing but code which acts alike therefore compile to routes that are alike, in graphs with the
same nodes.
-/

namespace RequestDispatch

variable {n : Nat} {σ τ : Type}

/-- What a reply becomes under the response declaration of a route. -/
def Route.answerOf (route : Route n σ) (reply : Reply) : Except DispatchError Response :=
  reply.resolve route.declared.response route.validator

namespace Likeness

variable (L : Likeness σ τ)

structure Catalogs (one : Catalog n σ) (two : Catalog n τ) : Prop where
  overrides : one.overrides = two.overrides
  dependency : ∀ i, L.Dependencies (one.dependency i) (two.dependency i)

/-- Declarations of a route with handlers that act alike. Their replies may differ, as long as they
become the same responses or errors that are alike. -/
structure RouteDeclarations (one : RouteDeclaration n σ) (two : RouteDeclaration n τ) :
    Prop where
  method : one.method = two.method
  pattern : one.pattern = two.pattern
  handlerName : one.handlerName = two.handlerName
  parameters : one.parameters = two.parameters
  references : one.references = two.references
  response : one.response = two.response
  handler : L.Routines
    (fun a b => ∀ validator, one.compileResponse = .ok validator →
      L.Results Eq (a.resolve one.response validator) (b.resolve two.response validator))
    one.handler two.handler

/-- Routes with handlers that act alike. -/
structure Routes (one : Route n σ) (two : Route n τ) : Prop where
  pattern : one.declared.pattern = two.declared.pattern
  handlerName : one.declared.handlerName = two.declared.handlerName
  handler : L.Routines (fun a b => L.Results Eq (one.answerOf a) (two.answerOf b))
    one.declared.handler two.declared.handler
  parameters : one.parameters = two.parameters
  plan : one.plan = two.plan
  embedBody : one.embedBody = two.embedBody

variable {L}

namespace Catalogs

variable {one : Catalog n σ} {two : Catalog n τ} (hcatalogs : L.Catalogs one two)
include hcatalogs

theorem name_eq (i : Fin n) : (one.dependency i).name = (two.dependency i).name :=
  (hcatalogs.dependency i).name

theorem effective_eq (declared : Fin n) : one.effective declared = two.effective declared := by
  rw [Catalog.effective, Catalog.effective, hcatalogs.overrides]

theorem cycle?_eq (b : GraphBuilder n) (i : Fin n) : b.cycle? one i = b.cycle? two i := by
  simp only [GraphBuilder.cycle?, hcatalogs.name_eq]

theorem compileDeclared_eq (i : Fin n) :
    GraphBuilder.compileDeclared (one.dependency i) =
      GraphBuilder.compileDeclared (two.dependency i) := by
  have hdependencies := hcatalogs.dependency i
  simp only [GraphBuilder.compileDeclared, hdependencies.scopes, hdependencies.provider,
    hdependencies.name, hdependencies.parameters]

/-- The same nodes are added for a dependency. -/
theorem intern_eq (steps : Nat) :
    GraphBuilder.intern one steps = GraphBuilder.intern two steps := by
  induction steps with
  | zero => rfl
  | succ steps ih =>
      funext declared b
      simp only [GraphBuilder.intern, ih, hcatalogs.effective_eq, hcatalogs.cycle?_eq,
        hcatalogs.compileDeclared_eq, (hcatalogs.dependency _).references]

theorem plan_eq (references : List (Reference n)) (b : GraphBuilder n) :
    b.plan one references = b.plan two references := by
  rw [GraphBuilder.plan, GraphBuilder.plan, hcatalogs.intern_eq]

end Catalogs

namespace RouteDeclarations

variable {one : RouteDeclaration n σ} {two : RouteDeclaration n τ} {catalog : Catalog n σ}
  {other : Catalog n τ}

section

variable (hdeclared : L.RouteDeclarations one two)
include hdeclared

theorem description_eq : one.description = two.description := by
  rw [RouteDeclaration.description, RouteDeclaration.description, hdeclared.method,
    hdeclared.pattern]

theorem implicitParameters_eq (template : Template) :
    one.implicitParameters template = two.implicitParameters template := by
  rw [RouteDeclaration.implicitParameters, RouteDeclaration.implicitParameters,
    hdeclared.parameters]

theorem compileResponse_eq : one.compileResponse = two.compileResponse := by
  rw [RouteDeclaration.compileResponse, RouteDeclaration.compileResponse, hdeclared.response,
    hdeclared.description_eq]

theorem permitNode_eq (hcatalogs : L.Catalogs catalog other) (template : Template) :
    one.permitNode template catalog = two.permitNode template other := by
  funext node
  simp only [RouteDeclaration.permitNode, hdeclared.description_eq, hcatalogs.name_eq]

end

/-- What is finished of one declaration is finished of the other. -/
theorem finish (hdeclared : L.RouteDeclarations one two) (hcatalogs : L.Catalogs catalog other)
    {template : Template} {parameters : List CompiledParameter} {plan : Plan}
    {nodes : List (Node n)} {route : Route n σ}
    (hfinish : one.finish template catalog parameters plan nodes = .ok route) :
    ∃ twin, two.finish template other parameters plan nodes = .ok twin ∧
      Entry.Rel L.Routes route.entry twin.entry := by
  simp only [RouteDeclaration.finish, bind, Except.bind, hdeclared.permitNode_eq hcatalogs]
    at hfinish ⊢
  split at hfinish
  · cases hfinish
  · cases hvalidator : one.compileResponse with
    | error fault =>
        rw [hvalidator] at hfinish
        cases hfinish
    | ok validator =>
        rw [hvalidator] at hfinish
        cases hfinish
        have hhandlers := hdeclared.handler.mono fun a b hsame => hsame validator hvalidator
        rw [← hdeclared.compileResponse_eq, hvalidator]
        refine ⟨_, rfl, hdeclared.method, rfl, ?_⟩
        exact ⟨hdeclared.pattern, hdeclared.handlerName, hhandlers, rfl, rfl, rfl⟩

/-- What compiles of one declaration compiles of the other, with the same builder. -/
theorem compile (hdeclared : L.RouteDeclarations one two) (hcatalogs : L.Catalogs catalog other)
    {b last : GraphBuilder n} {route : Route n σ}
    (hcompile : one.compile catalog b = .ok (route, last)) :
    ∃ twin, two.compile other b = .ok (twin, last) ∧
      Entry.Rel L.Routes route.entry twin.entry := by
  simp only [RouteDeclaration.compile, bind, Except.bind, hdeclared.pattern,
    hdeclared.description_eq, hdeclared.parameters, hdeclared.references, hcatalogs.plan_eq,
    hdeclared.implicitParameters_eq] at hcompile ⊢
  cases htemplate : Template.parse two.pattern with
  | error fault =>
      rw [htemplate] at hcompile
      cases hcompile
  | ok template =>
      rw [htemplate] at hcompile
      dsimp only at hcompile ⊢
      split at hcompile
      · cases hcompile
      · rename_i parameters _
        split at hcompile
        · cases hcompile
        · rename_i plan _
          split at hcompile
          · cases hcompile
          · rename_i found hfinish
            cases hcompile
            obtain ⟨twin, htwin, hentries⟩ := hdeclared.finish hcatalogs hfinish
            rw [htwin]
            exact ⟨twin, rfl, hentries⟩

end RouteDeclarations

/-- Routes that compile of the declarations of one application compile of the other's. -/
theorem Catalogs.compileAll {catalog : Catalog n σ} {other : Catalog n τ}
    (hcatalogs : L.Catalogs catalog other) {declared : List (RouteDeclaration n σ)}
    {redeclared : List (RouteDeclaration n τ)}
    (halike : List.Forall₂ L.RouteDeclarations declared redeclared) {b last : GraphBuilder n}
    {routes : List (Route n σ)}
    (hcompile : RouteDeclaration.compileAll catalog declared b = .ok (routes, last)) :
    ∃ twins, RouteDeclaration.compileAll other redeclared b = .ok (twins, last) ∧
      List.Forall₂ (Entry.Rel L.Routes) (routes.map Route.entry) (twins.map Route.entry) := by
  induction halike generalizing b routes with
  | nil =>
      cases hcompile
      exact ⟨[], rfl, .nil⟩
  | @cons one two rest more hfirst _ ih =>
      simp only [RouteDeclaration.compileAll] at hcompile
      split at hcompile
      · cases hcompile
      · rename_i route next hone
        split at hcompile
        · cases hcompile
        · rename_i others final hrest
          cases hcompile
          obtain ⟨twin, htwin, hentry⟩ := hfirst.compile hcatalogs hone
          obtain ⟨twins, htwins, hentries⟩ := ih hrest
          refine ⟨twin :: twins, ?_, .cons hentry hentries⟩
          simp only [RouteDeclaration.compileAll, htwin, htwins]

end Likeness

end RequestDispatch
