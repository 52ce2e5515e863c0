import RequestDispatch.Context

/-!
State with a log. Application code can be made to act upon its effects and a log of what
happened at once; what a request carries without the log is that of the code itself.
-/

namespace RequestDispatch

variable {n : Nat} {σ ε : Type}

/-- The effects of code with what happened so far. -/
structure Logged (ε σ : Type) where
  effects : Effects σ
  log : List ε

namespace Context

/-- The context of a logged run without the log. -/
def plain (ctx : Context n (Logged ε σ)) : Context n σ :=
  { ctx with effects := ctx.effects.state.effects }

/-- The same context with an empty log. -/
def logging (ctx : Context n σ) : Context n (Logged ε σ) :=
  { ctx with effects := ⟨⟨ctx.effects, []⟩, []⟩ }

def log (ctx : Context n (Logged ε σ)) : List ε :=
  ctx.effects.state.log

/-- Goes on to a context in which these events have happened as well. -/
def advance (ctx : Context n (Logged ε σ)) (events : List ε) (next : Context n σ) :
    Context n (Logged ε σ) :=
  { next with effects := ⟨⟨next.effects, ctx.log ++ events⟩, ctx.effects.queue⟩ }

@[simp] theorem plain_logging (ctx : Context n σ) :
    (ctx.logging : Context n (Logged ε σ)).plain = ctx := rfl

@[simp] theorem log_logging (ctx : Context n σ) :
    (ctx.logging : Context n (Logged ε σ)).log = [] := rfl

@[simp] theorem plain_advance (ctx : Context n (Logged ε σ)) (events : List ε)
    (next : Context n σ) : (ctx.advance events next).plain = next := rfl

@[simp] theorem log_advance (ctx : Context n (Logged ε σ)) (events : List ε)
    (next : Context n σ) : (ctx.advance events next).log = ctx.log ++ events := rfl

@[simp] theorem plain_enter (ctx : Context n (Logged ε σ)) (phase : Phase) :
    (ctx.enter phase).plain = ctx.plain.enter phase := rfl

@[simp] theorem log_enter (ctx : Context n (Logged ε σ)) (phase : Phase) :
    (ctx.enter phase).log = ctx.log := rfl

@[simp] theorem plain_note (ctx : Context n (Logged ε σ)) (journal : Journal) :
    (ctx.note journal).plain = ctx.plain.note journal := rfl

@[simp] theorem log_note (ctx : Context n (Logged ε σ)) (journal : Journal) :
    (ctx.note journal).log = ctx.log := rfl

end Context

end RequestDispatch
