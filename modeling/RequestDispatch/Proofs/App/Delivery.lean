import RequestDispatch.Proofs.App.Likeness
import RequestDispatch.Proofs.Dependency.Simulation
import RequestDispatch.Proofs.Middleware.Phases

/-!
Deliveries and the tasks that follow them. The code of an application can be made to log the tasks
that it queues, the delivery to log what it delivers, and tasks to log that they are run. Nothing
else changes. The log shows that a response is delivered once, and that the tasks of its request are
run after that, each once and in order, or not at all.
-/

namespace RequestDispatch

variable {n : Nat} {σ ε ι α : Type}

/-- What happens to the queue of a request and to its response. -/
inductive ServingEvent (σ : Type) where
  /-- Code of the request has queued a task. -/
  | queued (task : BackgroundTask σ)
  /-- The response was handed to the delivery, which came to this result. -/
  | delivered (wire : WireResponse) (result : Except String Unit)
  | ran (task : BackgroundTask σ) (ending : TaskEnd)

/-- The state of an application whose queues are followed: it has the effects of the request, with
the queue as it would be, and the log. -/
abbrev Followed (σ : Type) := Logged (ServingEvent σ) σ

/-- A task that logs that it is run. It takes itself off the queue as it would be, and what it
queues goes there only. -/
def BackgroundTask.followed (task : BackgroundTask σ) : BackgroundTask (Followed σ) where
  name := task.name
  run := fun before =>
    let (ending, state, queued) := task.run before.effects.state
    (ending,
      ⟨⟨state, before.effects.queue.tail ++ queued⟩, before.log ++ [.ran task ending]⟩, [])

/-- Effects after code has changed the plain ones. What it has added to the queue is logged, and is
queued as tasks that log. -/
def Effects.follow (before : Effects (Followed σ)) (effects : Effects σ) : Effects (Followed σ) :=
  let added := effects.queue.drop before.state.effects.queue.length
  ⟨⟨effects, before.state.log ++ added.map .queued⟩,
    before.queue ++ added.map BackgroundTask.followed⟩

/-- Notes on what code adds to the queue. -/
def Effects.following : Notes (fun before : Effects (Followed σ) => before.state.effects) ι α where
  note _ _ before _ effects := before.follow effects
  plain_note _ _ _ _ _ := rfl

/-! ### What is followed -/

def Context.follow (before : Context n (Followed σ)) (next : Context n σ) :
    Context n (Followed σ) :=
  { next with effects := before.effects.follow next.effects }

def Middleware.followed (m : Middleware n σ) : Middleware n (Followed σ) where
  name := m.name
  handle := fun remaining ctx =>
    match m.handle remaining ctx.plain with
    | .stop result next => .stop result (ctx.follow next)
    | .proceed next after =>
        .proceed (ctx.follow next) fun r back =>
          let (result, next) := after r back.plain
          (result, back.follow next)

def RouteDeclaration.followed (declared : RouteDeclaration n σ) :
    RouteDeclaration n (Followed σ) where
  method := declared.method
  pattern := declared.pattern
  handlerName := declared.handlerName
  handler := declared.handler.noted Effects.following
  parameters := declared.parameters
  references := declared.references
  response := declared.response

/-- An application whose queues are followed. -/
def AppDeclaration.followed (declared : AppDeclaration n σ) : AppDeclaration n (Followed σ) where
  settings := declared.settings
  catalog := declared.catalog.noted fun _ => Effects.following
  rules := declared.rules
  middlewares := declared.middlewares.map Middleware.followed
  routes := declared.routes.map RouteDeclaration.followed

def Delivery.followed (deliver : Delivery σ) : Delivery (Followed σ) := fun wire before =>
  let (result, state) := deliver wire before.effects.state
  (result, ⟨{ before.effects with state }, before.log ++ [.delivered wire result]⟩)

/-- What was served, without the log. -/
def Served.plain (served : Served (Logged ε σ)) : Served σ :=
  { served with effects := served.effects.state.effects }

/-! ### Code that only adds tasks -/

def Routine.OnlyAdds (routine : Routine σ ι α) : Prop :=
  ∀ polls input effects, effects.queue <+: (routine.poll polls input effects).2.queue

def Middleware.OnlyAdds (m : Middleware n σ) : Prop :=
  m.Relates fun before after => before.effects.queue <+: after.effects.queue

/-- An application whose code does nothing with queues but to add tasks at their ends. -/
structure AppDeclaration.OnlyAdds (declared : AppDeclaration n σ) : Prop where
  middlewares : ∀ m ∈ declared.middlewares, m.OnlyAdds
  dependencies : ∀ i, (declared.catalog.dependency i).routine.OnlyAdds
  handlers : ∀ route ∈ declared.routes, route.handler.OnlyAdds

/-- Effects of a request that was followed from its arrival. -/
structure Effects.Follows (effects : Effects σ) (rich : Effects (Followed σ)) : Prop where
  plain : rich.state.effects = effects
  queue : rich.queue = effects.queue.map BackgroundTask.followed
  log : rich.state.log = effects.queue.map .queued

theorem Effects.Follows.follow {effects after : Effects σ} {rich : Effects (Followed σ)}
    (hfollows : effects.Follows rich) (hadds : effects.queue <+: after.queue) :
    after.Follows (rich.follow after) := by
  obtain ⟨added, hadded⟩ := hadds
  constructor
  · rfl
  · simp only [Effects.follow, hfollows.plain, hfollows.queue, ← hadded, List.drop_left,
      List.map_append]
  · simp only [Effects.follow, hfollows.plain, hfollows.log, ← hadded, List.drop_left,
      List.map_append]

/-- Everything is compared of runs that are followed and runs that are not. -/
def Likeness.followed (σ : Type) : Likeness σ (Followed σ) where
  effects := Effects.Follows
  verbatim := True

theorem Routine.OnlyAdds.alike {routine : Routine σ ι α} (hadds : routine.OnlyAdds) :
    (Likeness.followed σ).Routines Eq routine (routine.noted Effects.following) := by
  apply Likeness.Routines.of_notes
  · intro effects rich hfollows
    exact hfollows.plain
  · intro polls first input effects rich outcome after hfollows hpoll
    have hadded := hadds polls input effects
    rw [hpoll] at hadded
    exact hfollows.follow hadded

theorem Likeness.Contexts.plain_eq {ctx : Context n σ} {rich : Context n (Followed σ)}
    (hcontexts : (Likeness.followed σ).Contexts ctx rich) : rich.plain = ctx := by
  obtain ⟨hrequestId, hrequest, hphases, hcache, heffects, hjournal, hattachments⟩ := hcontexts
  simp only [Context.plain, ← hrequestId, ← hrequest, ← hphases, ← hcache, heffects.plain,
    ← hjournal trivial, ← hattachments]

theorem Likeness.Contexts.follow {ctx next : Context n σ} {rich : Context n (Followed σ)}
    (hcontexts : (Likeness.followed σ).Contexts ctx rich)
    (hadds : ctx.effects.queue <+: next.effects.queue) :
    (Likeness.followed σ).Contexts next (rich.follow next) :=
  ⟨rfl, rfl, rfl, rfl, hcontexts.effects.follow hadds, fun _ => rfl, rfl⟩

theorem Middleware.OnlyAdds.alike {m : Middleware n σ} (hadds : m.OnlyAdds) :
    (Likeness.followed σ).Middlewares m m.followed := by
  intro remaining ctx rich hcontexts
  have hrelates := hadds remaining ctx
  simp only [Middleware.followed, hcontexts.plain_eq]
  cases hhandle : m.handle remaining ctx with
  | stop result next =>
      rw [hhandle] at hrelates
      exact .stop ⟨.refl _, hcontexts.follow hrelates⟩
  | proceed next after =>
      rw [hhandle] at hrelates
      refine .proceed (hcontexts.follow hrelates.1) fun r back final hback => ?_
      rw [hback.plain_eq]
      exact ⟨.refl _, hback.follow (hrelates.2 r back)⟩

theorem RouteDeclaration.alike_followed {route : RouteDeclaration n σ}
    (hadds : route.handler.OnlyAdds) :
    (Likeness.followed σ).RouteDeclarations route route.followed := by
  refine ⟨rfl, rfl, rfl, rfl, rfl, rfl, hadds.alike.mono ?_⟩
  rintro reply _ rfl validator _
  exact .refl _

theorem AppDeclaration.OnlyAdds.alike {declared : AppDeclaration n σ} (hadds : declared.OnlyAdds) :
    (Likeness.followed σ).AppDeclarations declared declared.followed where
  settings := rfl
  catalog := ⟨rfl, fun i => ⟨rfl, rfl, rfl, rfl, rfl, rfl, (hadds.dependencies i).alike⟩⟩
  mapper := by
    intro e f herrors
    rw [herrors.same (.inl trivial)]
    rfl
  middlewares := by
    rw [AppDeclaration.followed, List.forall₂_map_right_iff, List.forall₂_same]
    exact fun m hm => (hadds.middlewares m hm).alike
  routes := by
    rw [AppDeclaration.followed, List.forall₂_map_right_iff, List.forall₂_same]
    exact fun route hroute => RouteDeclaration.alike_followed (hadds.handlers route hroute)

/-! ### Tasks after a delivery -/

/-- A task that never queues another one. -/
def BackgroundTask.QueuesNone (task : BackgroundTask σ) : Prop :=
  ∀ state, (task.run state).2.2 = []

namespace Effects

/-- Tasks that are run are each logged once, in order, with whatever they end with. -/
theorem runTasks_followed (tasks left : List (BackgroundTask σ)) (state : σ)
    (log : List (ServingEvent σ)) :
    ∃ endings, endings.length = tasks.length ∧
      let plain := runTasks tasks ⟨state, left⟩
      runTasks (tasks.map BackgroundTask.followed) ⟨⟨⟨state, tasks ++ left⟩, log⟩, []⟩ =
        (⟨⟨plain.1, log ++ List.zipWith .ran tasks endings⟩, []⟩, plain.2) := by
  induction tasks generalizing left state log with
  | nil => exact ⟨[], rfl, by simp [runTasks]⟩
  | cons task rest ih =>
      cases hrun : task.run state with
      | mk ending after =>
          obtain ⟨next, queued⟩ := after
          obtain ⟨endings, hlength, hrest⟩ := ih (left ++ queued) next (log ++ [.ran task ending])
          refine ⟨ending :: endings, congrArg (· + 1) hlength, ?_⟩
          simp only [List.map_cons, runTasks, BackgroundTask.followed, hrun, List.cons_append,
            List.tail_cons, List.append_nil, List.append_assoc, hrest, List.zipWith_cons_cons,
            BackgroundTask.incident?, List.nil_append]

/-- Tasks that queue none leave the queue as it is. -/
theorem queue_runTasks {tasks : List (BackgroundTask σ)} (hnone : ∀ task ∈ tasks, task.QueuesNone)
    (effects : Effects σ) : (runTasks tasks effects).1.queue = effects.queue := by
  induction tasks generalizing effects with
  | nil => rfl
  | cons task rest ih =>
      have hqueued := hnone task List.mem_cons_self effects.state
      have hrest := ih fun task htask => hnone task (List.mem_cons_of_mem _ htask)
      simp only [runTasks, hrest, hqueued, List.append_nil]

end Effects

namespace App

/-- The response to a request is delivered once, after all tasks of the request were queued. When
the delivery succeeds, each of these tasks is run once after it, in the order in which they were
queued, whatever the others end with. When it fails, none of them is run. -/
theorem serve_delivers {declared : AppDeclaration n σ} {app : App n σ}
    (hbuilt : declared.build = .ok app) (hadds : declared.OnlyAdds) :
    ∃ followed, declared.followed.build = .ok followed ∧
      ∀ (deliver : Delivery σ) (request : Request) (fresh : RequestId) (state : σ),
        let done := app.dispatch request fresh state
        let tasks := done.effects.queue
        let result := (deliver done.response.toWire done.effects.state).1
        let served := app.serve deliver request fresh state
        let run := followed.serve deliver.followed request fresh ⟨⟨state, []⟩, []⟩
        let before := tasks.map .queued ++ [.delivered done.response.toWire result]
        run.plain = served ∧
          match result with
          | .error _ => run.effects.state.log = before
          | .ok () =>
              (∃ endings, endings.length = tasks.length ∧
                run.effects.state.log = before ++ List.zipWith .ran tasks endings) ∧
              ((∀ task ∈ tasks, task.QueuesNone) → served.effects.queue = []) := by
  obtain ⟨followed, hfollowed, happs⟩ := hadds.alike.build hbuilt
  refine ⟨followed, hfollowed, ?_⟩
  intro deliver request fresh state
  have hstart : (⟨state, []⟩ : Effects σ).Follows ⟨⟨⟨state, []⟩, []⟩, []⟩ := ⟨rfl, rfl, rfl⟩
  have hdone := happs.dispatch request fresh hstart
  have heffects : (app.dispatch request fresh state).effects.Follows _ := hdone.effects
  simp only [App.serve, Delivery.followed, ← hdone.response, ← hdone.phases,
    ← hdone.journal trivial, heffects.plain, heffects.queue, heffects.log]
  generalize app.dispatch request fresh state = done
  cases hdeliver : deliver done.response.toWire done.effects.state with
  | mk result after =>
      cases result with
      | error fault =>
          refine ⟨?_, rfl⟩
          simp only [Served.plain, List.length_map]
      | ok _ =>
          obtain ⟨endings, hlength, hrun⟩ := Effects.runTasks_followed done.effects.queue [] after
            (done.effects.queue.map .queued ++ [.delivered done.response.toWire (.ok ())])
          rw [List.append_nil] at hrun
          refine ⟨?_, ⟨endings, hlength, ?_⟩, ?_⟩
          · simp only [Served.plain, Effects.drain, hrun, List.isEmpty_map]
          · simp only [Effects.drain, hrun]
          · intro hnone
            exact Effects.queue_runTasks hnone ⟨after, []⟩

/-- A task that leaves its name behind. -/
def naming (name : String) (ending : TaskEnd) : BackgroundTask (List String) where
  name := name
  run := fun names => (ending, names ++ [name], [])

/-- A middleware, a dependency and a handler that queue a task each. One of the tasks panics, and
the handler fails. -/
def busyApp : AppDeclaration 1 (List String) :=
  let session : Dependency 1 (List String) :=
    { name := "session", parameters := [], references := [], scopes := [], provider := none
      cached := true
      routine := .inline fun _ effects =>
        (.value (.text "session"), effects.enqueue (naming "refresh" (.panicked .other))) }
  let route : RouteDeclaration 1 (List String) :=
    { method := "GET", pattern := "/busy", handlerName := "fail", parameters := []
      references := [⟨"session", ⟨0, Nat.one_pos⟩, []⟩]
      handler := .inline fun _ effects =>
        (.failed (.internal ["failed"]), effects.enqueue (naming "cleanup" .done))
      response := .unspecified }
  let audit : Middleware 1 (List String) :=
    { name := "audit"
      handle := fun _ ctx => .proceed ctx fun r ctx =>
        (.ok r, { ctx with effects := ctx.effects.enqueue (naming "audit" .done) }) }
  { settings := .standard
    catalog := ⟨fun _ => session, []⟩
    rules := []
    middlewares := [audit]
    routes := [route] }

def busyRequest : Request :=
  { method := "GET", path := "/busy", query := "", headers := [], body := [] }

/-- The request ends with an error, and is answered before the three tasks are run. -/
theorem serve_delivers_sample :
    ∃ app followed, busyApp.build = .ok app ∧ busyApp.followed.build = .ok followed ∧
      let deliver : Delivery (List String) := fun _ names => (.ok (), names ++ ["delivered"])
      let done := app.dispatch busyRequest default []
      let run := followed.serve deliver.followed busyRequest default ⟨⟨[], []⟩, []⟩
      done.response.status = 500 ∧
        done.effects.queue.map (·.name) = ["refresh", "cleanup", "audit"] ∧
        (∃ endings, run.effects.state.log =
          done.effects.queue.map .queued ++ [.delivered done.response.toWire (.ok ())] ++
            List.zipWith .ran done.effects.queue endings) ∧
        (app.serve deliver busyRequest default []).effects.state =
          ["delivered", "refresh", "cleanup", "audit"] := by
  have hadds : busyApp.OnlyAdds := by
    have henqueue (effects : Effects (List String)) (task : BackgroundTask (List String)) :
        effects.queue <+: (effects.enqueue task).queue := List.prefix_append _ _
    constructor
    · intro m hm remaining ctx
      obtain rfl := List.mem_singleton.mp hm
      exact ⟨List.prefix_rfl, fun r back => henqueue back.effects _⟩
    · intro i polls input effects
      exact henqueue effects _
    · intro route hroute polls input effects
      obtain rfl := List.mem_singleton.mp hroute
      exact henqueue effects _
  obtain ⟨followed, hfollowed, hserve⟩ := serve_delivers rfl hadds
  obtain ⟨_, ⟨endings, _, hlog⟩, _⟩ :=
    hserve (fun _ names => (.ok (), names ++ ["delivered"])) busyRequest default []
  exact ⟨_, followed, rfl, hfollowed, rfl, rfl, ⟨endings, hlog⟩, rfl⟩

end App

end RequestDispatch
