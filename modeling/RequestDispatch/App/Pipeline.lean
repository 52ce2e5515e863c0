import RequestDispatch.App.Build
import RequestDispatch.Dependency.Resolver

/-!
The innermost stage of every request. The body is limited, a route is matched, parameters are
bound, dependencies resolved, the handler is run, and its reply becomes a response. The first
step that fails decides, and nothing after it happens.
-/

namespace RequestDispatch.App

variable {n : Nat} {σ : Type}

def bodyTooLarge : DispatchError :=
  .http ⟨413, .string "Request body too large", []⟩

def exceedsLimit (app : App n σ) (r : Request) : Bool :=
  0 < app.settings.maxBodyBytes && app.settings.maxBodyBytes < r.body.length

def handlerInput (route : Route n σ) (captures : List (String × String)) (bound : BoundRequest)
    (provided : Provisions) (ctx : Context n σ) : HandlerInput :=
  { requestId := ctx.requestId
    method := ctx.request.method
    path := ctx.request.path
    routePattern := route.declared.pattern
    handlerName := route.declared.handlerName
    captures := captures
    params := bound.route
    provided := provided
    request := ctx.request }

def resolveDependencies (app : App n σ) (route : Route n σ) (bound : BoundRequest)
    (ctx : Context n σ) : Except DispatchError Provisions × Context n σ :=
  let resolver : Resolver n σ := ⟨app.graph, bound.node, ctx.request, ctx.requestId⟩
  let (result, progress) := resolver.resolve route.plan ⟨ctx.cache, ctx.effects, ctx.journal⟩
  (result, { ctx with
    cache := progress.cache, effects := progress.effects, journal := progress.journal })

def answer (route : Route n σ) (input : HandlerInput) : Endpoint n σ := fun ctx =>
  match route.declared.handler.invoke input ctx.effects with
  | (.error e, effects, journal) => (.error e, { ctx with effects }.note journal)
  | (.ok reply, effects, journal) =>
      (reply.resolve route.declared.response route.validator,
        ({ ctx with effects }.note journal).enter .resolved)

def serveMatch (app : App n σ) (route : Route n σ) (captures : List (String × String)) :
    Endpoint n σ := fun ctx =>
  let ctx := ctx.enter .binding
  match route.bind app.graph ctx.request captures with
  | .error e => (.error e, ctx)
  | .ok bound =>
      match app.resolveDependencies route bound ctx with
      | (.error e, ctx) => (.error e, ctx)
      | (.ok provided, ctx) =>
          answer route (handlerInput route captures bound provided ctx) (ctx.enter .invoking)

/-- The innermost stage of every request. -/
def pipeline (app : App n σ) : Endpoint n σ := fun ctx =>
  if app.exceedsLimit ctx.request then (.error bodyTooLarge, ctx)
  else
    let ctx := ctx.enter .matching
    match app.table.resolve ctx.request.method ctx.request.path with
    | .error e => (.error e, ctx)
    | .ok (route, captures) => app.serveMatch route captures ctx

end RequestDispatch.App
