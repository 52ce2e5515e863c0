import Mathlib.Data.List.Forall2
import RequestDispatch.Middleware.Chain
import RequestDispatch.Proofs.Likeness

/-!
Runs of chains that are alike. Middlewares see the response to what happened inside of them, and
never the error; so chains of middlewares that act alike, around endpoints that do, give the same
responses.
-/

namespace RequestDispatch

variable {n : Nat} {σ τ : Type}

namespace Likeness

variable (L : Likeness σ τ)

/-- Contexts of one request in two runs. -/
structure Contexts (one : Context n σ) (two : Context n τ) : Prop where
  requestId : one.requestId = two.requestId
  request : one.request = two.request
  phases : one.phases = two.phases
  cache : one.cache = two.cache
  effects : L.effects one.effects two.effects
  journal : L.Journals one.journal two.journal
  attachments : one.attachments = two.attachments

/-- Stages that come to the same, or to errors that are alike. -/
structure Stages {α : Type} (one : Except DispatchError α × Context n σ)
    (two : Except DispatchError α × Context n τ) : Prop where
  result : L.Results Eq one.1 two.1
  context : L.Contexts one.2 two.2

/-- Decisions of middlewares that are alike. -/
inductive Passages : Passage n σ → Passage n τ → Prop
  | stop {result : Except DispatchError Response} {other : Except DispatchError Response}
      {ctx : Context n σ} {next : Context n τ} (hstages : L.Stages (result, ctx) (other, next)) :
      Passages (.stop result ctx) (.stop other next)
  | proceed {ctx : Context n σ} {next : Context n τ}
      {after : Response → Context n σ → StageResult n σ}
      {last : Response → Context n τ → StageResult n τ} (hcontexts : L.Contexts ctx next)
      (hafter : ∀ r back final, L.Contexts back final → L.Stages (after r back) (last r final)) :
      Passages (.proceed ctx after) (.proceed next last)

def Middlewares (one : Middleware n σ) (two : Middleware n τ) : Prop :=
  ∀ remaining ctx next, L.Contexts ctx next →
    L.Passages (one.handle remaining ctx) (two.handle remaining next)

def Endpoints (one : Endpoint n σ) (two : Endpoint n τ) : Prop :=
  ∀ ctx next, L.Contexts ctx next → L.Stages (one ctx) (two next)

/-- Mappers that give the same response to errors that are alike. -/
def Mappers (one two : ExceptionMapper) : Prop :=
  ∀ e f, L.Errors e f → one.respond e = two.respond f

variable {L}

namespace Contexts

variable {ctx : Context n σ} {next : Context n τ}

theorem enter (hcontexts : L.Contexts ctx next) (phase : Phase) :
    L.Contexts (ctx.enter phase) (next.enter phase) :=
  { hcontexts with phases := congrArg (· ++ [phase]) hcontexts.phases }

theorem note (hcontexts : L.Contexts ctx next) {journal other : Journal}
    (hjournals : L.Journals journal other) : L.Contexts (ctx.note journal) (next.note other) :=
  { hcontexts with journal := hcontexts.journal.append hjournals }

end Contexts

/-- Errors that are alike are noted alike. -/
theorem Errors.incidents {e f : DispatchError} (herrors : L.Errors e f) :
    L.Journals (ExceptionMapper.incidents e) (ExceptionMapper.incidents f) := by
  intro hverbatim
  rw [herrors.same (.inl hverbatim)]

/-- What comes out of stages that are alike is the same response. -/
theorem Stages.boundary {mapper other : ExceptionMapper} (hmappers : L.Mappers mapper other)
    {one : StageResult n σ} {two : StageResult n τ} (hstages : L.Stages one two) :
    (Middleware.boundary mapper one).1 = (Middleware.boundary other two).1 ∧
      L.Contexts (Middleware.boundary mapper one).2 (Middleware.boundary other two).2 := by
  obtain ⟨result, ctx⟩ := one
  obtain ⟨final, next⟩ := two
  obtain ⟨hresult, hcontexts⟩ := hstages
  cases hresult with
  | ok hsame => exact ⟨hsame, hcontexts⟩
  | error herrors => exact ⟨hmappers _ _ herrors, (hcontexts.enter .mapping).note herrors.incidents⟩

/-- Chains that are alike give the same response. -/
theorem runChain {mapper other : ExceptionMapper} (hmappers : L.Mappers mapper other)
    {endpoint : Endpoint n σ} {core : Endpoint n τ} (hendpoints : L.Endpoints endpoint core)
    {chain : List (Middleware n σ)} {links : List (Middleware n τ)}
    (hchain : List.Forall₂ L.Middlewares chain links) {ctx : Context n σ} {next : Context n τ}
    (hcontexts : L.Contexts ctx next) :
    (Middleware.runChain mapper endpoint chain ctx).1 =
        (Middleware.runChain other core links next).1 ∧
      L.Contexts (Middleware.runChain mapper endpoint chain ctx).2
        (Middleware.runChain other core links next).2 := by
  induction hchain generalizing ctx next with
  | nil => exact (hendpoints ctx next hcontexts).boundary hmappers
  | @cons m k inner rest hfirst hrest ih =>
      have hpassages := hfirst inner.length ctx next hcontexts
      simp only [Middleware.runChain, ← hrest.length_eq]
      generalize m.handle inner.length ctx = one at hpassages ⊢
      generalize k.handle inner.length next = two at hpassages ⊢
      cases hpassages with
      | stop hstages => exact hstages.boundary hmappers
      | proceed hbefore hafter =>
          obtain ⟨hresponse, hback⟩ := ih hbefore
          dsimp only
          rw [hresponse]
          exact (hafter _ _ _ hback).boundary hmappers

end Likeness

end RequestDispatch
