import RequestDispatch.Dependency.Declaration
import RequestDispatch.Reply

/-!
Handlers: the application code at the end of a route. A panic in a handler is noted and
becomes an internal error.
-/

namespace RequestDispatch

structure HandlerInput where
  requestId : RequestId
  method : Method
  /-- The path as received. -/
  path : String
  /-- The template of the route as it was written. -/
  routePattern : String
  handlerName : String
  /-- The decoded captures in the order of the template. -/
  captures : List (String × String)
  params : Members
  provided : Provisions
  request : Request

/-- The value of a capture; of two with one name the last. -/
def HandlerInput.capture? (input : HandlerInput) (name : String) : Option String :=
  input.captures.reverse.lookup name

abbrev Handler (σ : Type) := Routine σ HandlerInput Reply

def Handler.invoke {σ : Type} (handler : Handler σ) (input : HandlerInput)
    (effects : Effects σ) : Except DispatchError Reply × Effects σ × Journal :=
  match Routine.run handler input effects with
  | (.value reply, effects) => (.ok reply, effects, [])
  | (.failed e, effects) => (.error e, effects, [])
  | (.panicked panic, effects) =>
      (.error (.internal
          ["handler '" ++ input.handlerName ++ "' panicked: " ++ panic.message]),
        effects, [.handlerPanicked input.handlerName panic.message])

end RequestDispatch
