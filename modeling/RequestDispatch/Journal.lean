import RequestDispatch.Error.Dispatch

/-!
The journal: incidents that an operator has to know about, in order. The wording of internal
errors and panics goes here and nowhere else.
-/

namespace RequestDispatch

inductive Severity where
  | warn
  | error
deriving DecidableEq, Repr

def Severity.text : Severity → String
  | .warn => "WARN"
  | .error => "ERROR"

inductive Incident where
  /-- An internal error was answered. -/
  | unhandled (chain : List String)
  | handlerPanicked (handler panic : String)
  | dependencyPanicked (dependency panic : String)
  | taskFailed (task : String) (chain : List String)
  | taskPanicked (task panic : String)
  /-- A response could not be delivered, and its tasks were dropped. -/
  | undelivered (fault : String) (dropped : Nat)
deriving DecidableEq, Repr

abbrev Journal := List Incident

namespace Incident

def severity : Incident → Severity
  | .dependencyPanicked .. => .warn
  | .undelivered .. => .warn
  | _ => .error

def message : Incident → String
  | .unhandled _ => "Unhandled error while dispatching request"
  | .handlerPanicked .. => "Handler panicked"
  | .dependencyPanicked .. => "Dependency panicked"
  | .taskFailed .. => "Background task failed"
  | .taskPanicked .. => "Background task panicked"
  | .undelivered .. => "Failed to hand response to transport"

/-- The particulars of an incident in the order of their names. -/
def fields : Incident → List (String × String)
  | .unhandled chain => [("error", DispatchError.chainText chain)]
  | .handlerPanicked handler panic => [("handler_name", handler), ("panic_message", panic)]
  | .dependencyPanicked dependency panic => [("dependency", dependency), ("panic", panic)]
  | .taskFailed task chain => [("error", DispatchError.chainText chain), ("task", task)]
  | .taskPanicked task panic => [("panic_message", panic), ("task", task)]
  | .undelivered fault dropped => [("dropped_tasks", toString dropped), ("error", fault)]

def line (incident : Incident) : String :=
  incident.severity.text ++ " " ++ incident.message ++ " | "
    ++ " | ".intercalate (incident.fields.map fun (name, value) => name ++ "=" ++ value)

end Incident

end RequestDispatch
