import RequestDispatch.Http.Response
import RequestDispatch.Journal

/-!
Answering errors. Every error has exactly one response: that of the rule registered for its
kind, or a default one. The default response to an internal error tells nothing about it.
-/

namespace RequestDispatch

structure ExceptionRule where
  kind : ErrorKind
  respond : DispatchError → Response

/-- How errors are answered. Of two rules for one kind the later one counts. -/
structure ExceptionMapper where
  rules : List ExceptionRule
  /-- Whether the permitted methods are listed when a method is not. -/
  allowHeader : Bool

namespace ExceptionMapper

def rule? (m : ExceptionMapper) (kind : ErrorKind) : Option ExceptionRule :=
  m.rules.reverse.find? fun rule => rule.kind = kind

def defaultResponse (m : ExceptionMapper) : DispatchError → Response
  | .notFound .. => .detail 404 (.string "Not Found")
  | .methodNotAllowed _ _ allowed =>
      let r := Response.detail 405 (.string "Method Not Allowed")
      if m.allowHeader then r.setHeader "allow" (", ".intercalate allowed) else r
  | .validation issues => .detail 422 (.array (issues.map Issue.toJson))
  | .unauthenticated detail =>
      (Response.detail 401 (.string detail)).setHeader "www-authenticate" "Bearer"
  | .forbidden detail _ => .detail 403 (.string detail)
  | .http e =>
      e.headers.foldl (fun r (name, value) => r.appendHeader name value)
        (.detail e.status e.detail)
  | .internal _ => .detail 500 (.string "Internal Server Error")

def respond (m : ExceptionMapper) (e : DispatchError) : Response :=
  match m.rule? e.kind with
  | some rule => rule.respond e
  | none => m.defaultResponse e

def incidents : DispatchError → Journal
  | .internal chain => [.unhandled chain]
  | _ => []

end ExceptionMapper

end RequestDispatch
