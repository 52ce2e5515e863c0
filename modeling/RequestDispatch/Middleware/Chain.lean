import RequestDispatch.Context
import RequestDispatch.Error.Mapper

/-!
Chains of middlewares around an endpoint. A middleware acts before the rest of the chain and
either ends the request there or lets it proceed, at most once, and acts on the response. An
error is answered at the boundary of the stage that raised it, so that what is outside of the
stage always sees a response.
-/

namespace RequestDispatch

abbrev StageResult (n : Nat) (σ : Type) := Except DispatchError Response × Context n σ

/-- What a middleware decides. -/
inductive Passage (n : Nat) (σ : Type) where
  | stop (result : Except DispatchError Response) (ctx : Context n σ)
  /-- The rest of the chain runs, and then `after` acts on its response. -/
  | proceed (ctx : Context n σ) (after : Response → Context n σ → StageResult n σ)

/-- A middleware. It learns how many middlewares are between it and the endpoint. -/
structure Middleware (n : Nat) (σ : Type) where
  name : String
  handle : (remaining : Nat) → Context n σ → Passage n σ

abbrev Endpoint (n : Nat) (σ : Type) := Context n σ → StageResult n σ

namespace Middleware

variable {n : Nat} {σ : Type}

/-- The boundary of a stage: an error that comes out of it is answered. -/
def boundary (mapper : ExceptionMapper) : StageResult n σ → Response × Context n σ
  | (.ok r, ctx) => (r, ctx)
  | (.error e, ctx) =>
      (mapper.respond e, (ctx.enter .mapping).note (ExceptionMapper.incidents e))

/-- Runs a chain of middlewares, the outermost first, around an endpoint. -/
def runChain (mapper : ExceptionMapper) (endpoint : Endpoint n σ) :
    List (Middleware n σ) → Context n σ → Response × Context n σ
  | [], ctx => boundary mapper (endpoint ctx)
  | m :: inner, ctx =>
      match m.handle inner.length ctx with
      | .stop result ctx => boundary mapper (result, ctx)
      | .proceed ctx after =>
          let (r, ctx) := runChain mapper endpoint inner ctx
          boundary mapper (after r ctx)

end Middleware

end RequestDispatch
