import RequestDispatch.Middleware.Chain

/-!
Middlewares that most applications want: one that sends the identifier of the request back,
one that counts responses, and one that only accompanies the request.
-/

namespace RequestDispatch.Middleware

variable {n : Nat} {σ : Type}

/-- Adds the identifier of the request to a response that has none. -/
def addRequestId (id : RequestId) (r : Response) : Response :=
  if (r.headers.first? RequestId.header).isSome then r
  else r.setHeader RequestId.header id.text

def requestId : Middleware n σ where
  name := "request_id"
  handle := fun _ ctx =>
    let id := ctx.requestId
    .proceed ctx fun r ctx => (.ok (addRequestId id r), ctx)

/-- Lets every request proceed and leaves every response alone. The spans of a tracing
backend are opened and closed around it. -/
def tracing : Middleware n σ where
  name := "tracing"
  handle := fun _ ctx => .proceed ctx fun r ctx => (.ok r, ctx)

end Middleware

structure Metrics where
  requests : Nat
  /-- Responses by the first digit of their status, 1 to 5. -/
  classes : List Nat
  /-- Responses with status 401 or 403. -/
  authFailures : Nat
deriving DecidableEq, Repr

namespace Metrics

def zero : Metrics := ⟨0, [0, 0, 0, 0, 0], 0⟩

def countRequest (m : Metrics) : Metrics :=
  { m with requests := m.requests + 1 }

/-- Counts a response. A status of another class counts for none. -/
def countResponse (m : Metrics) (status : Nat) : Metrics :=
  let c := status / 100
  { m with
    classes := if 1 ≤ c then m.classes.modify (c - 1) (· + 1) else m.classes
    authFailures := if status = 401 ∨ status = 403 then m.authFailures + 1 else m.authFailures }

def ofClass (m : Metrics) (c : Nat) : Nat :=
  if 1 ≤ c then m.classes.getD (c - 1) 0 else 0

end Metrics

namespace Middleware

variable {n : Nat} {σ : Type}

/-- Counts requests as they come and responses as they go; `update` changes the counts within
the state of the application. -/
def metrics (update : (Metrics → Metrics) → σ → σ) : Middleware n σ where
  name := "metrics"
  handle := fun _ ctx =>
    .proceed (ctx.modifyState (update Metrics.countRequest)) fun r ctx =>
      (.ok r, ctx.modifyState (update fun m => m.countResponse r.status))

end Middleware

end RequestDispatch
