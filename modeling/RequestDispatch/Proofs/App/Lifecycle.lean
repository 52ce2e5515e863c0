import RequestDispatch.App.Serve
import RequestDispatch.Proofs.App.Conduct
import RequestDispatch.Proofs.Middleware.Phases

/-!
The life of a request. It is received; the pipeline takes it through its phases in their order, as
far as it comes; then every error at the boundary of a stage is mapped; and last of all the
response is sent.
-/

namespace RequestDispatch

/-- The phases of the pipeline, one after another. -/
def Phase.ofPipeline : List Phase :=
  [.matching, .binding, .invoking, .resolved]

/-- All phases of a request from its arrival on. -/
def Dispatched.lifecycle {σ : Type} (done : Dispatched σ) : List Phase :=
  .received :: done.phases

namespace App

variable {n : Nat} {σ : Type}

/-- An endpoint has come so far through the phases of the pipeline, and through all of them if it
ends with a response. -/
structure Passed (ctx : Context n σ) (passed : List Phase) (result : StageResult n σ) : Prop where
  in_order : passed <+: Phase.ofPipeline
  phases : result.2.phases = ctx.phases ++ passed
  whole : ∀ r, result.1 = .ok r → passed = Phase.ofPipeline

theorem Passed.of_error {ctx after : Context n σ} (passed : List Phase) (e : DispatchError)
    (hpassed : passed <+: Phase.ofPipeline) (hphases : after.phases = ctx.phases ++ passed) :
    Passed ctx passed (.error e, after) :=
  ⟨hpassed, hphases, by rintro r ⟨⟩⟩

/-- The handler is invoked, and a reply of it is resolved. -/
theorem passed_answer (route : Route n σ) (input : HandlerInput) (ctx invoking : Context n σ)
    (hphases : invoking.phases = ctx.phases ++ [Phase.matching, Phase.binding, Phase.invoking]) :
    ∃ passed, Passed ctx passed (answer route input invoking) := by
  simp only [answer]
  cases route.declared.handler.invoke input invoking.effects with
  | mk result rest =>
      cases result with
      | error e =>
          exact ⟨_, .of_error [.matching, .binding, .invoking] e ⟨[.resolved], rfl⟩ hphases⟩
      | ok reply =>
          refine ⟨Phase.ofPipeline, List.prefix_refl _, ?_, fun _ _ => rfl⟩
          exact (congrArg (· ++ [Phase.resolved]) hphases).trans (List.append_assoc ..)

/-- The pipeline goes through its phases in their order. -/
theorem passed_pipeline (app : App n σ) (ctx : Context n σ) :
    ∃ passed, Passed ctx passed (app.pipeline ctx) := by
  simp only [pipeline]
  cases app.exceedsLimit ctx.request with
  | true => exact ⟨[], .of_error [] _ (List.nil_prefix) (List.append_nil _).symm⟩
  | false =>
      simp only [Bool.false_eq_true, ↓reduceIte]
      cases app.table.resolve (ctx.enter .matching).request.method
          (ctx.enter .matching).request.path with
      | error e => exact ⟨_, .of_error [.matching] e ⟨_, rfl⟩ rfl⟩
      | ok found =>
          obtain ⟨route, captures⟩ := found
          have hbinding : ((ctx.enter .matching).enter .binding).phases =
              ctx.phases ++ [Phase.matching, Phase.binding] := List.append_assoc ..
          simp only [serveMatch]
          cases route.bind app.graph ((ctx.enter .matching).enter .binding).request captures with
          | error e => exact ⟨_, .of_error [.matching, .binding] e ⟨_, rfl⟩ hbinding⟩
          | ok bound =>
              have hkept : (app.resolveDependencies route bound
                  ((ctx.enter .matching).enter .binding)).2.phases =
                    ctx.phases ++ [Phase.matching, Phase.binding] := hbinding
              dsimp only
              cases hresolved : app.resolveDependencies route bound
                  ((ctx.enter .matching).enter .binding) with
              | mk result after =>
                  rw [hresolved] at hkept
                  cases result with
                  | error e => exact ⟨_, .of_error [.matching, .binding] e ⟨_, rfl⟩ hkept⟩
                  | ok provided =>
                      apply passed_answer
                      exact (congrArg (· ++ [Phase.invoking]) hkept).trans (List.append_assoc ..)

/-- A request is received, goes through the phases of the pipeline in their order as far as it
comes, then through one mapping for every error that came to the boundary of a stage, and last of
all is sent. It comes nowhere if the pipeline is not reached, and the whole way if the pipeline
ends with a response. -/
theorem dispatch_lifecycle (app : App n σ) (hkeeps : ∀ m ∈ app.middlewares, m.KeepsPhases)
    (request : Request) (fresh : RequestId) (state : σ) :
    let arrived : Context n σ := .arrive request fresh state
    let last := app.middlewares.length
    let log := (Middleware.trace app.mapper app.pipeline app.middlewares arrived).2.log
    let faults := log.countP StageEvent.isFault
    arrived.phase = .received ∧ faults ≤ last + 1 ∧
      ∃ passed, passed <+: Phase.ofPipeline ∧
        (app.dispatch request fresh state).lifecycle =
          Phase.received :: passed ++ List.replicate faults .mapping ++ [Phase.sent] ∧
        ((∀ e ∈ log, e.stage < last) → passed = []) ∧
        ∀ r, .left last (.ok r) ∈ log → passed = Phase.ofPipeline := by
  intro arrived last log faults
  obtain ⟨events, reached, hevents, hpasses, hreached⟩ :=
    Middleware.phases_runChain app.mapper app.pipeline app.middlewares hkeeps 0 arrived.logging
  obtain ⟨course, result, hcourse, _, hsame⟩ :=
    Middleware.course_runChain app.mapper app.pipeline app.middlewares 0 arrived.logging
  rw [Nat.zero_add] at hevents hpasses hreached hcourse hsame
  have hlog : log = events := hevents
  have hcourseLog : log = course := hsame
  rw [← hcourseLog] at hcourse
  rw [← hlog] at hpasses hreached
  have hplain : _ = Middleware.runChain app.mapper app.pipeline app.middlewares arrived :=
    Middleware.runChain_traced app.pipeline app.middlewares last 0 arrived.logging
  have hphases : (app.dispatch request fresh state).phases =
      reached ++ Middleware.mappings log ++ [Phase.sent] := by
    rw [← hreached]
    exact congrArg (fun run => run.2.phases ++ [Phase.sent]) hplain.symm
  refine ⟨rfl, hcourse.faults_le, ?_⟩
  cases hpasses with
  | unreached houtside =>
      refine ⟨[], List.nil_prefix, congrArg _ hphases, fun _ => rfl, ?_⟩
      intro r hr
      exact absurd (houtside _ hr) (Nat.lt_irrefl last)
  | reached entry hentry hleft =>
      obtain ⟨passed, hpassed⟩ := app.passed_pipeline entry
      have hend : (app.pipeline entry).2.phases = passed := by
        rw [hpassed.phases, hentry]
        rfl
      rw [hend] at hphases
      refine ⟨passed, hpassed.in_order, congrArg _ hphases, ?_, ?_⟩
      · intro houtside
        exact absurd (houtside _ ((hleft _).mpr rfl)) (Nat.lt_irrefl last)
      · intro r hr
        exact hpassed.whole r ((hleft _).mp hr).symm

/-- A middleware that refuses every response. -/
def refusing : Middleware n σ where
  name := "refusing"
  handle := fun _ ctx =>
    .proceed ctx fun _ ctx => (.error (.http ⟨503, .string "unavailable", []⟩), ctx)

/-- The profile is refused for want of a scope, and the answer to that is refused once more. -/
theorem dispatch_lifecycle_sample :
    let app : App 2 Unit := { profileServer with middlewares := [refusing, .tracing] }
    (∀ m ∈ app.middlewares, m.KeepsPhases) ∧
    (app.dispatch profileContext.request default ()).lifecycle =
      [.received, .matching, .binding, .mapping, .mapping, .sent] ∧
    ∃ passed, passed <+: Phase.ofPipeline ∧
      (app.dispatch profileContext.request default ()).lifecycle =
        Phase.received :: passed ++ List.replicate 2 .mapping ++ [Phase.sent] := by
  intro app
  have hkeeps : ∀ m ∈ app.middlewares, m.KeepsPhases := by
    intro m hm remaining ctx
    simp only [app, List.mem_cons, List.not_mem_nil, or_false] at hm
    obtain rfl | rfl := hm <;> exact ⟨rfl, fun _ _ => rfl⟩
  obtain ⟨_, _, passed, horder, hphases, _⟩ :=
    dispatch_lifecycle app hkeeps profileContext.request default ()
  exact ⟨hkeeps, rfl, passed, horder, hphases⟩

end App

end RequestDispatch
