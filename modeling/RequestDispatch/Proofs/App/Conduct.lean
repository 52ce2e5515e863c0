import RequestDispatch.Proofs.App.Watched
import RequestDispatch.Proofs.Dependency.Enforcement
import RequestDispatch.Proofs.Route.Bind
import RequestDispatch.Proofs.Route.Compile

/-!
What a request runs. The stages of a request are passed in their order, and the first one that fails
decides how the request ends. No code is run before the parameters are bound; the code of a
dependency is run when the request has passed every provider on the way to it, on the parameters
that were bound for it; and the handler is run last, when all that its route requires was provided.
-/

namespace RequestDispatch

variable {n : Nat} {σ : Type}

namespace App

/-- Bodies of any length are accepted when there is no limit. -/
def Accepts (app : App n σ) (request : Request) : Prop :=
  app.settings.maxBodyBytes = 0 ∨ request.body.length ≤ app.settings.maxBodyBytes

/-- A request that gets to the dependencies of a route: its body is accepted, the route is matched,
and there is no issue with what is bound for it. -/
structure Admits (app : App n σ) (ctx : Context n σ) (route : Route n σ)
    (captures : List (String × String)) (bound : BoundRequest) : Prop where
  accepted : app.Accepts ctx.request
  matched : app.table.route ctx.request.method ctx.request.path = .matched route captures
  unreported :
    (route.binder ctx.request captures).reports false (route.allParameters app.graph) = []
  bound : route.bind app.graph ctx.request captures = .ok bound

/-- Code that may be run before the handler is that of a dependency which was come to along a way
from the roots of the plan. On that very way the request has passed every provider with the scopes
collected so far. The input of the run is that of the visit at its end: the scopes collected there,
the credentials that were granted for them, something under each name that the dependency requires,
and the parameters that were bound for it. -/
inductive Permits (app : App n σ) (ctx : Context n σ) (route : Route n σ)
    (captures : List (String × String)) (bound : BoundRequest) : Invocation n → Prop where
  | dependency {way : List Edge} {visit : Visit n} {provided : Provisions}
      (hreached : (app.resolver bound ctx).Reached route.plan.roots way visit)
      (hpassed : ∀ first upper, first <+: way → app.graph.Way route.plan.roots first upper →
        (app.graph.dependency upper).Authorizes ctx.request (app.graph.scopesAlong first))
      (hscopes : ∀ scope, scope ∈ visit.scopes ↔ scope ∈ app.graph.scopesAlong way)
      (hprovided : provided.NamedBy visit.node.edges)
      (hbound : bound.node visit.index =
        ((route.binder ctx.request captures).bindFrom .fresh visit.node.parameters).values) :
      Permits app ctx route captures bound (.dependency visit.node.identity
        { params := bound.node visit.index
          provided := provided
          request := ctx.request
          requestId := ctx.requestId
          scopes := visit.scopes
          credentials := visit.credentials })

/-- A request that gets to the handler of a route, after code of dependencies was run: every root of
the plan has got a value. -/
inductive Invokes (app : App n σ) (ctx : Context n σ) (route : Route n σ) :
    List (Invocation n) → HandlerInput → Effects σ → Prop where
  | intro {captures : List (String × String)} {bound : BoundRequest} {provided : Provisions}
      {calls : List (Invocation n)} {after : Context n σ}
      (hadmits : app.Admits ctx route captures bound)
      (hcalls : ∀ call ∈ calls, app.Permits ctx route captures bound call)
      (hresolved : app.resolveDependencies route bound ((ctx.enter .matching).enter .binding) =
        (.ok provided, after))
      (hroots : provided.map (·.1) = route.plan.roots.map (·.name)) :
      Invokes app ctx route calls (handlerInput route captures bound provided after) after.effects

/-- How a request is conducted: which code is run for it, in order, and what comes out of it. There
is one case for each stage that decides, and the stages before it have not failed. -/
inductive Conducts (app : App n σ) (ctx : Context n σ) :
    List (Invocation n) → Except DispatchError Response → Prop where
  | tooLarge (hlimit : 0 < app.settings.maxBodyBytes)
      (hlarge : app.settings.maxBodyBytes < ctx.request.body.length) :
      Conducts app ctx [] (.error (.http ⟨413, .string "Request body too large", []⟩))
  | unknown (haccepted : app.Accepts ctx.request)
      (hroute : app.table.route ctx.request.method ctx.request.path = .notFound) :
      Conducts app ctx [] (.error (.notFound ctx.request.method ctx.request.path))
  | wrongMethod {allowed : List Method} (haccepted : app.Accepts ctx.request)
      (hroute : app.table.route ctx.request.method ctx.request.path =
        .methodNotAllowed allowed) :
      Conducts app ctx []
        (.error (.methodNotAllowed ctx.request.method ctx.request.path allowed))
  | invalid {route : Route n σ} {captures : List (String × String)}
      (haccepted : app.Accepts ctx.request)
      (hroute : app.table.route ctx.request.method ctx.request.path = .matched route captures)
      (hreported :
        (route.binder ctx.request captures).reports false (route.allParameters app.graph) ≠ []) :
      Conducts app ctx [] (.error (.validation (Issue.distinct
        ((route.binder ctx.request captures).reports false (route.allParameters app.graph)))))
  | dependencyFailed {route : Route n σ} {captures : List (String × String)}
      {bound : BoundRequest} {calls : List (Invocation n)} {e : DispatchError}
      {after : Context n σ} (hadmits : app.Admits ctx route captures bound)
      (hcalls : ∀ call ∈ calls, app.Permits ctx route captures bound call)
      (hfailed : app.resolveDependencies route bound ((ctx.enter .matching).enter .binding) =
        (.error e, after)) :
      Conducts app ctx calls (.error e)
  | handlerFailed {route : Route n σ} {calls : List (Invocation n)} {input : HandlerInput}
      {before after : Effects σ} {e : DispatchError}
      (hinvokes : app.Invokes ctx route calls input before)
      (hrun : route.declared.handler.run input before = (.failed e, after)) :
      Conducts app ctx (calls ++ [.handler input]) (.error e)
  | handlerPanicked {route : Route n σ} {calls : List (Invocation n)} {input : HandlerInput}
      {before after : Effects σ} {panic : Panic}
      (hinvokes : app.Invokes ctx route calls input before)
      (hrun : route.declared.handler.run input before = (.panicked panic, after)) :
      Conducts app ctx (calls ++ [.handler input])
        (.error (.internal
          ["handler '" ++ route.declared.handlerName ++ "' panicked: " ++ panic.message]))
  | replied {route : Route n σ} {calls : List (Invocation n)} {input : HandlerInput}
      {before after : Effects σ} {reply : Reply}
      (hinvokes : app.Invokes ctx route calls input before)
      (hrun : route.declared.handler.run input before = (.value reply, after)) :
      Conducts app ctx (calls ++ [.handler input])
        (reply.resolve route.declared.response route.validator)

variable {app : App n σ} {ctx : Context n σ} {route : Route n σ}

theorem exceedsLimit_eq_false_iff {request : Request} :
    app.exceedsLimit request = false ↔ app.Accepts request := by
  simp only [exceedsLimit, Accepts, Bool.and_eq_false_iff, decide_eq_false_iff_not]
  omega

/-- A route that is matched by a built application was compiled with its graph. -/
theorem compiled_of_matched {declared : AppDeclaration n σ} (hbuilt : declared.build = .ok app)
    {method : Method} {path : String} {captures : List (String × String)}
    (hmatched : app.table.route method path = .matched route captures) :
    Compiled declared.catalog route.declared.references app.graph route.plan := by
  unfold AppDeclaration.build at hbuilt
  split at hbuilt
  · cases hbuilt
  · rename_i routes graph hcompile
    split at hbuilt
    · cases hbuilt
    · rename_i table htable
      cases hbuilt
      obtain ⟨entry, hentry, rfl, _, _⟩ := Table.entry_of_matched htable hmatched
      obtain ⟨found, hfound, rfl⟩ := List.mem_map.mp hentry
      exact Route.compiled_of_compileAll hcompile hfound

/-- Code that a resolver runs may be run: the parameters of the visit that was reached are those
that were bound for its node. -/
theorem permits_of_calls {catalog : Catalog n σ} {references : List (Reference n)}
    (hcompiled : Compiled catalog references app.graph route.plan)
    {captures : List (String × String)} {bound : BoundRequest}
    (hbind : route.bind app.graph ctx.request captures = .ok bound) {call : Invocation n}
    (hcall : (app.resolver bound ctx).Calls .dependency route.plan.roots call) :
    app.Permits ctx route captures bound call := by
  obtain ⟨way, visit, provided, hreached, hprovided, rfl⟩ := hcall
  have hnode : app.graph.nodes[visit.index]? = some visit.node := hreached.node_at
  obtain ⟨i, hlisted, hfound⟩ := hcompiled.listed_of_way hreached.to_way
  obtain rfl : i = visit.index := hcompiled.arena.index_unique hfound hnode rfl
  have hless := (List.getElem?_eq_some_iff.mp hnode).1
  obtain ⟨_, _, hvalues⟩ := Route.bind_ok hbind
  refine .dependency hreached ?_ hreached.mem_scopes_iff hprovided ?_
  · intro first upper hfirst hupper
    exact hreached.authorizes_along hfirst hupper
  · rw [hvalues _ hlisted hless, Graph.parametersAt_eq hnode]

theorem names_of_resolveDependencies {bound : BoundRequest} {provided : Provisions}
    {after : Context n σ}
    (hresolved : app.resolveDependencies route bound ctx = (.ok provided, after)) :
    provided.map (·.1) = route.plan.roots.map (·.name) := by
  have hresult : ((app.resolver bound ctx).resolve route.plan
      ⟨ctx.cache, ctx.effects, ctx.journal⟩).1 = .ok provided := congrArg Prod.fst hresolved
  exact Resolver.names_of_resolve (Prod.ext hresult rfl)

theorem Invokes.handlerName {calls : List (Invocation n)} {input : HandlerInput}
    {before : Effects σ} (hinvokes : app.Invokes ctx route calls input before) :
    input.handlerName = route.declared.handlerName := by
  cases hinvokes
  rfl

/-- The end of the handler decides when it is run. -/
theorem conducts_of_invokes {calls : List (Invocation n)} {input : HandlerInput}
    {before : Context n σ} (hinvokes : app.Invokes ctx route calls input before.effects) :
    app.Conducts ctx (calls ++ [.handler input]) (answer route input before).1 := by
  simp only [answer, Handler.invoke]
  cases hrun : route.declared.handler.run input before.effects with
  | mk outcome after =>
      cases outcome with
      | value reply => exact .replied hinvokes hrun
      | failed e => exact .handlerFailed hinvokes hrun
      | panicked panic =>
          simp only [hinvokes.handlerName]
          exact .handlerPanicked hinvokes hrun

/-- A request with an accepted body is routed. -/
theorem pipeline_of_accepts (app : App n σ) (ctx : Context n σ)
    (haccepted : app.Accepts ctx.request) :
    app.pipeline ctx =
      match app.table.route ctx.request.method ctx.request.path with
      | .matched route captures => app.serveMatch route captures (ctx.enter .matching)
      | .methodNotAllowed allowed =>
          (.error (.methodNotAllowed ctx.request.method ctx.request.path allowed),
            ctx.enter .matching)
      | .notFound =>
          (.error (.notFound ctx.request.method ctx.request.path), ctx.enter .matching) := by
  have hrequest : (ctx.enter .matching).request = ctx.request := rfl
  rw [← exceedsLimit_eq_false_iff] at haccepted
  simp only [pipeline, haccepted, Bool.false_eq_true, ↓reduceIte, Table.resolve, hrequest]
  cases app.table.route ctx.request.method ctx.request.path <;> rfl

/-- From binding on, a watched application conducts a matched request, and does the same as the
application itself. -/
theorem serveMatch_conducts {catalog : Catalog n σ} {references : List (Reference n)}
    (hcompiled : Compiled catalog references app.graph route.plan)
    (haccepted : app.Accepts ctx.request) {captures : List (String × String)}
    (hmatched : app.table.route ctx.request.method ctx.request.path = .matched route captures) :
    let run := app.watched.serveMatch route.watched captures (ctx.logging.enter .matching)
    (run.1, run.2.plain) = app.serveMatch route captures (ctx.enter .matching) ∧
      app.Conducts ctx run.2.log run.1 := by
  let watched : Context n (Logged (Invocation n) σ) := (ctx.logging.enter .matching).enter .binding
  have hbind : route.watched.bind app.watched.graph watched.request captures =
      route.bind app.graph ctx.request captures := rfl
  have hrequest : ((ctx.enter .matching).enter .binding).request = ctx.request := rfl
  dsimp only [serveMatch]
  rw [hbind, hrequest]
  cases hbound : route.bind app.graph ctx.request captures with
  | error e =>
      obtain ⟨rfl, hreported⟩ := Route.bind_error hbound
      exact ⟨rfl, .invalid haccepted hmatched hreported⟩
  | ok bound =>
      have hadmits : app.Admits ctx route captures bound :=
        ⟨haccepted, hmatched, (Route.bind_ok hbound).1, hbound⟩
      obtain ⟨hsame, calls, hlog, hmade⟩ := resolveDependencies_watched app route bound watched
      have hcalls : ∀ call ∈ calls, app.Permits ctx route captures bound call :=
        fun call hcall => permits_of_calls hcompiled hbound (hmade call hcall)
      have hplain : watched.plain = (ctx.enter .matching).enter .binding := rfl
      have hempty : watched.log = [] := rfl
      rw [hempty, List.nil_append] at hlog
      rw [hplain] at hsame
      dsimp only
      cases hresult : app.watched.resolveDependencies route.watched bound watched with
      | mk result after =>
          rw [hresult] at hsame hlog
          rw [← hsame]
          cases result with
          | error e =>
              refine ⟨rfl, ?_⟩
              rw [hlog]
              exact .dependencyFailed hadmits hcalls hsame.symm
          | ok provided =>
              let input := handlerInput route captures bound provided after.plain
              have hroots := names_of_resolveDependencies hsame.symm
              have hinvokes : app.Invokes ctx route calls input
                  (after.plain.enter .invoking).effects :=
                .intro hadmits hcalls hsame.symm hroots
              obtain ⟨hanswer, hlogged⟩ := answer_watched route input (after.enter .invoking)
              rw [Context.log_enter, hlog] at hlogged
              rw [Context.plain_enter] at hanswer
              refine ⟨hanswer, ?_⟩
              have hconducts := conducts_of_invokes hinvokes
              rw [← hanswer, ← hlogged] at hconducts
              exact hconducts

/-- The pipeline of a built application conducts every request: which code it runs, on which inputs
and in which order, is logged when the application is watched, and a watched application does the
same as the application itself. -/
theorem pipeline_conducts {declared : AppDeclaration n σ} (hbuilt : declared.build = .ok app)
    (ctx : Context n σ) :
    let run := app.watched.pipeline ctx.logging
    (run.1, run.2.plain) = app.pipeline ctx ∧ app.Conducts ctx run.2.log run.1 := by
  let watched : Context n (Logged (Invocation n) σ) := ctx.logging
  cases hexceeds : app.exceedsLimit ctx.request with
  | true =>
      have hwatched : app.watched.exceedsLimit watched.request = true := hexceeds
      simp only [exceedsLimit, Bool.and_eq_true, decide_eq_true_eq] at hexceeds
      have hplain : app.pipeline ctx = (.error bodyTooLarge, ctx) := if_pos hwatched
      have hlogged : app.watched.pipeline watched = (.error bodyTooLarge, watched) :=
        if_pos hwatched
      rw [hplain, hlogged]
      exact ⟨rfl, .tooLarge hexceeds.1 hexceeds.2⟩
  | false =>
      have haccepted := exceedsLimit_eq_false_iff.mp hexceeds
      have hroute : app.watched.table.route watched.request.method watched.request.path =
          (app.table.route ctx.request.method ctx.request.path).map Route.watched :=
        Table.route_map Route.watched app.table _ _
      rw [pipeline_of_accepts app.watched watched haccepted, pipeline_of_accepts app ctx haccepted,
        hroute]
      cases hmatch : app.table.route ctx.request.method ctx.request.path with
      | notFound => exact ⟨rfl, .unknown haccepted hmatch⟩
      | methodNotAllowed allowed => exact ⟨rfl, .wrongMethod haccepted hmatch⟩
      | matched route captures =>
          exact serveMatch_conducts (compiled_of_matched hbuilt hmatch) haccepted hmatch

/-- A route that requires a session, and then the profile with a scope that nobody is granted. -/
def profileRoute : RouteDeclaration 2 Unit where
  method := "GET"
  pattern := "/profile"
  handlerName := "show"
  handler := .inline fun _ effects => (.value .empty, effects)
  parameters := []
  references :=
    [⟨"session", Resolver.session, []⟩, ⟨"profile", Resolver.profile, ["write"]⟩]
  response := .unspecified

def profileApp : AppDeclaration 2 Unit where
  settings := .standard
  catalog := Resolver.sampleCatalog
  rules := []
  middlewares := []
  routes := [profileRoute]

/-- What the application is built to. -/
def profileServer : App 2 Unit :=
  let route : Route 2 Unit :=
    { declared := profileRoute
      template := ⟨"/profile", [.literal "profile"]⟩
      parameters := []
      plan := Resolver.samplePlan ["write"]
      embedBody := false
      validator := none }
  { settings := .standard
    table :=
      { entries := [route.entry]
        tree := .node [("profile", .node [] none [("GET", route.entry)])] none [] }
    graph := Resolver.sampleResolver.graph
    middlewares := []
    mapper := ⟨[], true⟩ }

def profileContext : Context 2 Unit :=
  .arrive { method := "GET", path := "/profile", query := "", headers := [], body := [] } default ()

/-- The session is evaluated for the first reference, which demands no scopes. Below the second one
the request is refused at the session, and neither the profile nor the handler is run. -/
theorem pipeline_conducts_sample :
    profileApp.build = .ok profileServer ∧
      let run := profileServer.watched.pipeline profileContext.logging
      (∃ input, run.2.log = [.dependency Resolver.session input] ∧ input.scopes = [] ∧
        input.credentials = some ⟨none, ["read"], .null⟩) ∧
      run.1 = .error (.forbidden "Not enough permissions" ["write"]) ∧
      profileServer.Conducts profileContext run.2.log run.1 := by
  have hbuilt : profileApp.build = .ok profileServer := rfl
  have hconducts := (pipeline_conducts hbuilt profileContext).2
  let input : DependencyInput :=
    ⟨[], [], profileContext.request, default, [], some ⟨none, ["read"], .null⟩⟩
  have hlog : (profileServer.watched.pipeline profileContext.logging).2.log =
      [.dependency Resolver.session input] := by
    cbv
  have hresult : (profileServer.watched.pipeline profileContext.logging).1 =
      .error (.forbidden "Not enough permissions" ["write"]) := by
    cbv
  exact ⟨hbuilt, ⟨input, hlog, rfl, rfl⟩, hresult, hconducts⟩

end App

end RequestDispatch
