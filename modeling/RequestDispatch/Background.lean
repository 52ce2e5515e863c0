import RequestDispatch.Journal

/-!
Background tasks: work that a request leaves behind and that runs after its response was
delivered. Tasks run in the order in which they were queued; one that fails or panics is
noted in the journal and keeps no other from running.
-/

namespace RequestDispatch

inductive Panic where
  | text (s : String)
  | other
deriving DecidableEq, Repr

def Panic.message : Panic → String
  | .text s => s
  | .other => "non-string panic payload"

/-- How a task ends. A failure is worded from the outermost of its circumstances inwards. -/
inductive TaskEnd where
  | done
  | failed (chain : List String)
  | panicked (panic : Panic)
deriving DecidableEq, Repr

/-- A task. Running it changes the state of the application and may queue more tasks. -/
structure BackgroundTask (σ : Type) where
  name : String
  run : σ → TaskEnd × σ × List (BackgroundTask σ)

namespace BackgroundTask

variable {σ : Type}

/-- A task that runs apart from the others, where a panic is a failure like any other. -/
def blocking (name : String) (run : σ → TaskEnd × σ × List (BackgroundTask σ)) : BackgroundTask σ :=
  { name
    run := fun state =>
      match run state with
      | (.panicked panic, after) =>
          (.failed ["blocking task '" ++ name ++ "' did not complete: task panicked with message "
            ++ Text.quote panic.message], after)
      | result => result }

def incident? (task : BackgroundTask σ) : TaskEnd → Option Incident
  | .done => none
  | .failed chain => some (.taskFailed task.name chain)
  | .panicked panic => some (.taskPanicked task.name panic.message)

end BackgroundTask

/-- What application code acts upon: the state of the application and the tasks queued by
the request. -/
structure Effects (σ : Type) where
  state : σ
  queue : List (BackgroundTask σ)

namespace Effects

variable {σ : Type}

def enqueue (effects : Effects σ) (task : BackgroundTask σ) : Effects σ :=
  { effects with queue := effects.queue ++ [task] }

/-- Runs tasks one after another. What they queue themselves stays in the queue. -/
def runTasks : List (BackgroundTask σ) → Effects σ → Effects σ × Journal
  | [], effects => (effects, [])
  | task :: rest, effects =>
      let (outcome, state, queued) := task.run effects.state
      let (effects, journal) := runTasks rest ⟨state, effects.queue ++ queued⟩
      (effects, (task.incident? outcome).toList ++ journal)

/-- Empties the queue and runs the tasks that were in it. -/
def drain (effects : Effects σ) : Effects σ × Journal :=
  runTasks effects.queue { effects with queue := [] }

end Effects

end RequestDispatch
