import RequestDispatch.App.Serve
import RequestDispatch.Proofs.Middleware.Likeness
import RequestDispatch.Proofs.Route.Likeness

/-!
Applications that are alike. Declarations that differ in nothing but code which acts alike build
applications that are alike, and these give the same response to every request.
-/

namespace RequestDispatch

variable {n : Nat} {σ τ : Type}

namespace Likeness

variable (L : Likeness σ τ)

/-- Declarations of an application with code that acts alike. -/
structure AppDeclarations (one : AppDeclaration n σ) (two : AppDeclaration n τ) : Prop where
  settings : one.settings = two.settings
  catalog : L.Catalogs one.catalog two.catalog
  mapper : L.Mappers ⟨one.rules, one.settings.allowHeader⟩ ⟨two.rules, two.settings.allowHeader⟩
  middlewares : List.Forall₂ L.Middlewares one.middlewares two.middlewares
  routes : List.Forall₂ L.RouteDeclarations one.routes two.routes

/-- Applications that serve requests with code that acts alike. -/
structure Apps (one : App n σ) (two : App n τ) : Prop where
  maxBodyBytes : one.settings.maxBodyBytes = two.settings.maxBodyBytes
  routed : ∀ method path,
    (one.table.route method path).Rel L.Routes (two.table.route method path)
  nodes : one.graph.nodes = two.graph.nodes
  dependency : ∀ i, L.Dependencies (one.graph.catalog.dependency i)
    (two.graph.catalog.dependency i)
  middlewares : List.Forall₂ L.Middlewares one.middlewares two.middlewares
  mapper : L.Mappers one.mapper two.mapper

/-- What was made of a request in both runs. -/
structure Dispatches (one : Dispatched σ) (two : Dispatched τ) : Prop where
  requestId : one.requestId = two.requestId
  response : one.response = two.response
  phases : one.phases = two.phases
  effects : L.effects one.effects two.effects
  journal : L.Journals one.journal two.journal

variable {L} {one : Route n σ} {two : Route n τ} {app : App n σ} {twin : App n τ}

theorem Stages.of_error {α : Type} {e f : DispatchError} (herrors : L.Errors e f)
    {ctx : Context n σ} {next : Context n τ} (hcontexts : L.Contexts ctx next) :
    L.Stages (α := α) (.error e, ctx) (.error f, next) :=
  ⟨.error herrors, hcontexts⟩

namespace Routes

/-- The same parameters are bound from a request. -/
theorem bind_eq (hroutes : L.Routes one two) {graph : Graph n σ} {other : Graph n τ}
    (hnodes : graph.nodes = other.nodes) (request : Request)
    (captures : List (String × String)) :
    one.bind graph request captures = two.bind other request captures := by
  simp only [Route.bind, hroutes.embedBody, hroutes.parameters, hroutes.plan, hnodes]

/-- Handlers that act alike answer alike. -/
theorem answer (hroutes : L.Routes one two) (input : HandlerInput) {ctx : Context n σ}
    {next : Context n τ} (hcontexts : L.Contexts ctx next) :
    L.Stages (App.answer one input ctx) (App.answer two input next) := by
  have hends := hroutes.handler.run input hcontexts.effects
  simp only [App.answer, Handler.invoke]
  cases hone : one.declared.handler.run input ctx.effects with
  | mk outcome effects =>
      cases htwo : two.declared.handler.run input next.effects with
      | mk final after =>
          rw [hone, htwo] at hends
          obtain ⟨houtcomes, heffects⟩ := hends
          have hafter : L.Contexts { ctx with effects } { next with effects := after } :=
            { hcontexts with effects := heffects }
          cases houtcomes with
          | value hsame => exact ⟨hsame, (hafter.note fun _ => rfl).enter .resolved⟩
          | failed herrors => exact .of_error herrors (hafter.note fun _ => rfl)
          | panicked hpanics =>
              refine .of_error (.of_internal ?_) (hafter.note ?_)
              · intro hverbatim
                rw [hpanics hverbatim]
              · intro hverbatim
                rw [hpanics hverbatim]

end Routes

/-- When a declaration builds an application, so does one that is alike. -/
theorem AppDeclarations.build {declared : AppDeclaration n σ} {redeclared : AppDeclaration n τ}
    (hdeclared : L.AppDeclarations declared redeclared) (hbuilt : declared.build = .ok app) :
    ∃ twin, redeclared.build = .ok twin ∧ L.Apps app twin := by
  simp only [AppDeclaration.build, Route.compileAll] at hbuilt
  cases hall : RouteDeclaration.compileAll declared.catalog declared.routes .empty with
  | error fault =>
      rw [hall] at hbuilt
      cases hbuilt
  | ok compiled =>
      obtain ⟨routes, b⟩ := compiled
      obtain ⟨twins, htwins, hentries⟩ := hdeclared.catalog.compileAll hdeclared.routes hall
      rw [hall] at hbuilt
      simp only [Except.map] at hbuilt
      split at hbuilt
      · cases hbuilt
      · rename_i table htable
        cases hbuilt
        obtain ⟨other, hother, hrouted⟩ := Table.ofEntries_rel hentries htable
        have hrebuilt : redeclared.build =
            .ok ⟨redeclared.settings, other, ⟨redeclared.catalog, b.nodes⟩, redeclared.middlewares,
              ⟨redeclared.rules, redeclared.settings.allowHeader⟩⟩ := by
          simp only [AppDeclaration.build, Route.compileAll, htwins, Except.map, hother]
        refine ⟨_, hrebuilt, ?_⟩
        exact ⟨congrArg Settings.maxBodyBytes hdeclared.settings, hrouted, rfl,
          hdeclared.catalog.dependency, hdeclared.middlewares, hdeclared.mapper⟩

namespace Apps

/-- Dependencies are resolved alike. -/
theorem resolveDependencies (happs : L.Apps app twin) (hroutes : L.Routes one two)
    (bound : BoundRequest) {ctx : Context n σ} {next : Context n τ}
    (hcontexts : L.Contexts ctx next) :
    L.Stages (app.resolveDependencies one bound ctx) (twin.resolveDependencies two bound next) := by
  have hresolvers : L.Resolvers ⟨app.graph, bound.node, ctx.request, ctx.requestId⟩
      ⟨twin.graph, bound.node, next.request, next.requestId⟩ :=
    ⟨happs.nodes, rfl, hcontexts.request, hcontexts.requestId, happs.dependency⟩
  have hsteps := hresolvers.resolve one.plan (p := ⟨ctx.cache, ctx.effects, ctx.journal⟩)
    (q := ⟨next.cache, next.effects, next.journal⟩)
    ⟨hcontexts.cache, hcontexts.effects, hcontexts.journal⟩
  simp only [App.resolveDependencies, ← hroutes.plan]
  refine ⟨hsteps.result, ?_⟩
  exact { hcontexts with
    cache := hsteps.progress.cache
    effects := hsteps.progress.effects
    journal := hsteps.progress.journal }

/-- Matched requests are served alike. -/
theorem serveMatch (happs : L.Apps app twin) (hroutes : L.Routes one two)
    (captures : List (String × String)) {ctx : Context n σ} {next : Context n τ}
    (hcontexts : L.Contexts ctx next) :
    L.Stages (app.serveMatch one captures ctx) (twin.serveMatch two captures next) := by
  have hbinding := hcontexts.enter .binding
  simp only [App.serveMatch, hroutes.bind_eq happs.nodes, hbinding.request]
  cases two.bind twin.graph (next.enter .binding).request captures with
  | error e => exact .of_error (.refl e) hbinding
  | ok bound =>
      have hresolved := happs.resolveDependencies hroutes bound hbinding
      dsimp only
      generalize app.resolveDependencies one bound (ctx.enter .binding) = first at hresolved ⊢
      generalize twin.resolveDependencies two bound (next.enter .binding) = second at hresolved ⊢
      obtain ⟨result, after⟩ := first
      obtain ⟨final, last⟩ := second
      obtain ⟨hresults, hafter⟩ := hresolved
      cases hresults with
      | error herrors => exact .of_error herrors hafter
      | @ok provided _ hsame =>
          cases hsame
          have hafter : L.Contexts after last := hafter
          have hinput : App.handlerInput one captures bound provided after =
              App.handlerInput two captures bound provided last := by
            simp only [App.handlerInput, hafter.requestId, hafter.request, hroutes.pattern,
              hroutes.handlerName]
          simp only [hinput]
          exact hroutes.answer _ (hafter.enter .invoking)

/-- The pipelines of applications that are alike come to the same. -/
theorem pipeline (happs : L.Apps app twin) : L.Endpoints app.pipeline twin.pipeline := by
  intro ctx next hcontexts
  have hlimit : app.exceedsLimit ctx.request = twin.exceedsLimit next.request := by
    simp only [App.exceedsLimit, happs.maxBodyBytes, hcontexts.request]
  have hmatching := hcontexts.enter .matching
  have hrouted := happs.routed (next.enter .matching).request.method
    (next.enter .matching).request.path
  simp only [App.pipeline, hlimit]
  split
  · exact .of_error (.refl _) hcontexts
  · simp only [Table.resolve, hmatching.request]
    generalize app.table.route _ _ = first at hrouted ⊢
    generalize twin.table.route _ _ = second at hrouted ⊢
    cases hrouted with
    | matched hroutes captures => exact happs.serveMatch hroutes captures hmatching
    | methodNotAllowed allowed => exact .of_error (.refl _) hmatching
    | notFound => exact .of_error (.refl _) hmatching

/-- Applications that are alike give the same response to every request. -/
theorem dispatch (happs : L.Apps app twin) (request : Request) (fresh : RequestId)
    {state : σ} {initial : τ} (hstates : L.effects ⟨state, []⟩ ⟨initial, []⟩) :
    L.Dispatches (app.dispatch request fresh state) (twin.dispatch request fresh initial) := by
  have harrived : L.Contexts (Context.arrive (n := n) request fresh state)
      (Context.arrive (n := n) request fresh initial) :=
    ⟨rfl, rfl, rfl, rfl, hstates, fun _ => rfl, rfl⟩
  obtain ⟨hresponse, hfinal⟩ :=
    runChain happs.mapper happs.pipeline happs.middlewares harrived
  exact ⟨rfl, hresponse, (hfinal.enter .sent).phases, hfinal.effects, hfinal.journal⟩

end Apps

end Likeness

end RequestDispatch
