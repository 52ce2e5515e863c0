import RequestDispatch.Dependency.Cache

/-!
The state of one request on its way through the application, from its arrival until its
response is sent.
-/

namespace RequestDispatch

/-- Where a request is on its way. -/
inductive Phase where
  | received
  | matching
  /-- Parameters are bound and dependencies resolved. -/
  | binding
  | invoking
  | resolved
  /-- An error is answered. -/
  | mapping
  | sent
deriving DecidableEq, Repr

def Phase.text : Phase → String
  | .received => "received"
  | .matching => "matching"
  | .binding => "binding"
  | .invoking => "invoking"
  | .resolved => "resolved"
  | .mapping => "mapping"
  | .sent => "sent"

structure Context (n : Nat) (σ : Type) where
  requestId : RequestId
  /-- The request, which middlewares may change. -/
  request : Request
  /-- The phases after `received`, in order. -/
  phases : List Phase
  cache : Cache n
  effects : Effects σ
  journal : Journal
  /-- Named values that middlewares leave for one another. -/
  attachments : List (String × Json)

namespace Context

variable {n : Nat} {σ : Type}

/-- The state of a request that has arrived. Its identifier is the one in its header, or the
fresh one. -/
def arrive (request : Request) (fresh : RequestId) (state : σ) : Context n σ :=
  { requestId := (RequestId.ofHeader? (request.headers.first? RequestId.header)).getD fresh
    request := request
    phases := []
    cache := .empty
    effects := ⟨state, []⟩
    journal := []
    attachments := [] }

def phase (ctx : Context n σ) : Phase :=
  ctx.phases.getLastD .received

def enter (ctx : Context n σ) (phase : Phase) : Context n σ :=
  { ctx with phases := ctx.phases ++ [phase] }

def transitions (phases : List Phase) : List (Phase × Phase) :=
  (Phase.received :: phases).zip phases

def note (ctx : Context n σ) (journal : Journal) : Context n σ :=
  { ctx with journal := ctx.journal ++ journal }

def modifyState (ctx : Context n σ) (change : σ → σ) : Context n σ :=
  { ctx with effects := { ctx.effects with state := change ctx.effects.state } }

/-- Leaves a named value, instead of an earlier one of that name. -/
def attach (ctx : Context n σ) (name : String) (value : Json) : Context n σ :=
  { ctx with
    attachments := (name, value) :: ctx.attachments.filter fun a => !(a.1 == name) }

def attachment? (ctx : Context n σ) (name : String) : Option Json :=
  ctx.attachments.lookup name

end Context

end RequestDispatch
