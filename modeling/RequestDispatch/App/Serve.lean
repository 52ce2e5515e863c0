import RequestDispatch.App.Pipeline
import RequestDispatch.Http.Wire

/-!
Serving requests. Dispatching a request always gives a response, and leaves the background
tasks that were queued on the way; serving it also delivers the response, and runs the tasks
only after that has succeeded.
-/

namespace RequestDispatch

structure Dispatched (σ : Type) where
  requestId : RequestId
  response : Response
  effects : Effects σ
  journal : Journal
  /-- The phases after `received`. -/
  phases : List Phase

/-- A way to deliver responses, which fails with a fault or not. -/
abbrev Delivery (σ : Type) := WireResponse → σ → Except String Unit × σ

structure Served (σ : Type) where
  /-- Whether tasks were started, or the fault of the delivery. -/
  outcome : Except String Bool
  effects : Effects σ
  journal : Journal
  phases : List Phase

namespace App

variable {n : Nat} {σ : Type}

/-- Runs a request through the middlewares and the pipeline. The fresh identifier is for a
request that does not bring its own. -/
def dispatch (app : App n σ) (request : Request) (fresh : RequestId) (state : σ) :
    Dispatched σ :=
  let ctx : Context n σ := .arrive request fresh state
  let (response, final) :=
    Middleware.runChain app.mapper app.pipeline app.middlewares ctx
  { requestId := ctx.requestId
    response := response
    effects := final.effects
    journal := final.journal
    phases := (final.enter .sent).phases }

/-- Dispatches a request, delivers its response, and then runs the queued tasks. When the
delivery fails, no task is run. -/
def serve (app : App n σ) (deliver : Delivery σ) (request : Request) (fresh : RequestId)
    (state : σ) : Served σ :=
  let done := app.dispatch request fresh state
  match deliver done.response.toWire done.effects.state with
  | (.error fault, state) =>
      { outcome := .error fault
        effects := { done.effects with state }
        journal := done.journal ++ [.undelivered fault done.effects.queue.length]
        phases := done.phases }
  | (.ok (), state) =>
      let (effects, journal) := Effects.drain { done.effects with state }
      { outcome := .ok !done.effects.queue.isEmpty
        effects := effects
        journal := done.journal ++ journal
        phases := done.phases }

end App

end RequestDispatch
