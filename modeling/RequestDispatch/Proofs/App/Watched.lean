import RequestDispatch.App.Pipeline
import RequestDispatch.Proofs.Dependency.Invocations
import RequestDispatch.Proofs.Dependency.Simulation
import RequestDispatch.Proofs.Logged
import RequestDispatch.Proofs.Routing.Mapped

/-!
Applications that are watched. All code of an application can be made to log that it is run, and on
which input, when it begins. Nothing else changes: every stage of a request has the same result as
before and leaves the same behind.
-/

namespace RequestDispatch

variable {n : Nat} {σ ε ι α : Type}

/-- Application code that is run, with its input. -/
inductive Invocation (n : Nat) where
  | dependency (identity : Fin n) (input : DependencyInput)
  | handler (input : HandlerInput)

/-- Effects after these events and with what code has changed. -/
def Logged.after (events : List ε) (before : Effects (Logged ε σ)) (effects : Effects σ) :
    Effects (Logged ε σ) :=
  { before with state := ⟨effects, before.state.log ++ events⟩ }

theorem Logged.after_nil (events : List ε) (before : Effects (Logged ε σ))
    (effects last : Effects σ) :
    after [] (after events before effects) last = after events before last := by
  simp only [after, List.append_nil]

/-- The notes that log code when it begins, and not when it goes on after a pause. -/
def Logged.notes (announce : ι → ε) :
    Notes (fun before : Effects (Logged ε σ) => before.state.effects) ι α where
  note first input before _ effects :=
    Logged.after (if first then [announce input] else []) before effects
  plain_note _ _ _ _ _ := rfl

namespace Routine

/-- When all polls but the first log nothing, attempts log what their first poll logs. -/
theorem runAttempts_logged {attempt : Nat → Effects σ → Option (Outcome α) × Effects σ}
    {conclude : Effects σ → Outcome α × Effects σ}
    {watched : Nat → Effects (Logged ε σ) → Option (Outcome α) × Effects (Logged ε σ)}
    {finish : Effects (Logged ε σ) → Outcome α × Effects (Logged ε σ)}
    (events : Nat → List ε) {pauses : Nat}
    (hattempt : ∀ k before, watched k before =
      ((attempt k before.state.effects).1,
        Logged.after (events k) before (attempt k before.state.effects).2))
    (hconclude : ∀ before, finish before =
      ((conclude before.state.effects).1,
        Logged.after (events pauses) before (conclude before.state.effects).2))
    (hlater : ∀ k, 0 < k → events k = []) (left polls : Nat) (before : Effects (Logged ε σ))
    (hpauses : polls + left = pauses) :
    runAttempts watched finish left polls before =
      let result := runAttempts attempt conclude left polls before.state.effects
      (result.1, Logged.after (events polls) before result.2) := by
  induction left generalizing polls before with
  | zero =>
      rw [Nat.add_zero] at hpauses
      simp only [runAttempts, hconclude, hpauses]
  | succ left ih =>
      simp only [runAttempts, hattempt]
      cases attempt polls before.state.effects with
      | mk outcome effects =>
          cases outcome with
          | some outcome => rfl
          | none =>
              have hrest := ih (polls + 1) (Logged.after (events polls) before effects) (by omega)
              rw [hlater (polls + 1) (Nat.succ_pos polls)] at hrest
              simp only [hrest, Logged.after_nil]
              rfl

/-- Code that is run to its end is logged once. -/
theorem run_logged (routine : Routine σ ι α) (announce : ι → ε) (input : ι)
    (before : Effects (Logged ε σ)) :
    (routine.noted (Logged.notes announce)).run input before =
      let result := routine.run input before.state.effects
      (result.1, Logged.after [announce input] before result.2) := by
  cases routine with
  | inline run => rfl
  | suspending pauses attempt conclude =>
      refine runAttempts_logged (fun k => if k = 0 then [announce input] else []) ?_ ?_ ?_
        pauses 0 before (Nat.zero_add pauses)
      · intro k before
        simp only [Logged.notes, decide_eq_true_eq]
      · intro before
        simp only [Logged.notes, decide_eq_true_eq]
      · intro k hk
        exact if_neg (Nat.ne_of_gt hk)

end Routine

/-! ### What is watched -/

/-- A route with a handler that is watched. -/
def Route.watched (route : Route n σ) : Route n (Logged (Invocation n) σ) where
  declared :=
    { method := route.declared.method
      pattern := route.declared.pattern
      handlerName := route.declared.handlerName
      handler := route.declared.handler.noted (Logged.notes .handler)
      parameters := route.declared.parameters
      references := route.declared.references
      response := route.declared.response }
  template := route.template
  parameters := route.parameters
  plan := route.plan
  embedBody := route.embedBody
  validator := route.validator

/-- An application whose code is watched. Middlewares are outside of its pipeline. -/
def App.watched (app : App n σ) : App n (Logged (Invocation n) σ) where
  settings := app.settings
  table := app.table.map Route.watched
  graph := app.graph.noted fun i => Logged.notes (.dependency i)
  middlewares := []
  mapper := app.mapper

namespace Resolver

/-- A resolver whose code is watched. -/
def watched (r : Resolver n σ) : Resolver n (Logged (Invocation n) σ) :=
  r.noted fun i => Logged.notes (.dependency i)

variable {r : Resolver n σ}

theorem announces_watched (r : Resolver n σ) :
    r.watched.Announces (·.state.log) Invocation.dependency := by
  intro node polls input effects
  have hroutine : (r.watched.graph.dependency node).routine =
      (r.graph.dependency node).routine.noted (Logged.notes (.dependency node.identity)) := rfl
  obtain ⟨first, _, _, hpoll⟩ := (r.graph.dependency node).routine.poll_noted
    (Logged.notes (.dependency node.identity)) polls input effects
  rw [hroutine, hpoll]
  refine ⟨if first then [.dependency node.identity input] else [], rfl, ?_⟩
  intro event hevent
  cases first with
  | true => exact List.mem_singleton.mp hevent
  | false => cases hevent

/-- What is reached when code is watched is reached without that. -/
theorem Reached.of_watched {roots way : List Edge} {visit : Visit n}
    (hreached : r.watched.Reached roots way visit) : r.Reached roots way visit := by
  have hvisits {inherited : Scopes} {edge : Edge} {visit : Visit n}
      (hvisit : r.watched.Visits inherited edge visit) : r.Visits inherited edge visit :=
    ⟨hvisit.index, hvisit.node, hvisit.scopes, hvisit.credentials⟩
  induction hreached with
  | root hedge hvisit => exact .root hedge (hvisits hvisit)
  | further _ hedge hlower ih => exact .further ih hedge (hvisits hlower)

end Resolver

namespace App

variable {app : App n σ} {route : Route n σ}

/-- The resolver of a request. -/
def resolver (app : App n σ) (bound : BoundRequest) (ctx : Context n σ) : Resolver n σ :=
  ⟨app.graph, bound.node, ctx.request, ctx.requestId⟩

/-- Dependencies are resolved as before, and what is logged is code that the resolver runs. -/
theorem resolveDependencies_watched (app : App n σ) (route : Route n σ) (bound : BoundRequest)
    (ctx : Context n (Logged (Invocation n) σ)) :
    let run := app.watched.resolveDependencies route.watched bound ctx
    (run.1, run.2.plain) = app.resolveDependencies route bound ctx.plain ∧
      ∃ calls, run.2.log = ctx.log ++ calls ∧ ∀ call ∈ calls,
        (app.resolver bound ctx.plain).Calls .dependency route.plan.roots call := by
  intro run
  let r := app.resolver bound ctx.plain
  let p : Progress n (Logged (Invocation n) σ) := ⟨ctx.cache, ctx.effects, ctx.journal⟩
  have hsame := Resolver.reflects_resolve r (fun i => Logged.notes (.dependency i)) route.plan p
  have hadds := Resolver.adds_resolve r.announces_watched route.plan p
  obtain ⟨calls, hlog, hmade⟩ := hadds.logged
  constructor
  · have hplain : app.resolveDependencies route bound ctx.plain =
        let result := r.resolve route.plan (p.through fun before => before.state.effects)
        (result.1, { ctx.plain with
          cache := result.2.cache, effects := result.2.effects, journal := result.2.journal }) :=
      rfl
    rw [hplain, hsame]
    rfl
  · refine ⟨calls, hlog, ?_⟩
    intro call hcall
    obtain ⟨way, visit, provided, hreached, hprovided, rfl⟩ := hmade call hcall
    exact ⟨way, visit, provided, hreached.of_watched, hprovided, rfl⟩

/-- The handler is run as before, and it is logged. -/
theorem answer_watched (route : Route n σ) (input : HandlerInput)
    (ctx : Context n (Logged (Invocation n) σ)) :
    let run := answer route.watched input ctx
    (run.1, run.2.plain) = answer route input ctx.plain ∧
      run.2.log = ctx.log ++ [.handler input] := by
  have hrun := Routine.run_logged route.declared.handler Invocation.handler input ctx.effects
  have hhandler : route.watched.declared.handler =
      route.declared.handler.noted (Logged.notes .handler) := rfl
  have heffects : ctx.plain.effects = ctx.effects.state.effects := rfl
  simp only [answer, Handler.invoke, hhandler, hrun, heffects]
  cases route.declared.handler.run input ctx.effects.state.effects with
  | mk outcome effects => cases outcome <;> exact ⟨rfl, rfl⟩

end App

end RequestDispatch
