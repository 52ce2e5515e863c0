import RequestDispatch.Http.Request
import RequestDispatch.Issue
import RequestDispatch.Text.Quoted

/-!
What can end the dispatch of a request. Every error has a kind, a status and a wording; the
wording of an internal error is for the journal and never part of its default response.
-/

namespace RequestDispatch

/-- An error raised on purpose by application code. -/
structure HttpError where
  status : Nat
  detail : Json
  headers : Headers
deriving DecidableEq, Inhabited

def HttpError.message (e : HttpError) : String :=
  let detail :=
    match e.detail with
    | .string s => s
    | other => other.text
  "HTTP " ++ toString e.status ++ ": " ++ detail

inductive ErrorKind where
  | notFound
  | methodNotAllowed
  | validation
  | unauthenticated
  | forbidden
  | http
  | internal
deriving DecidableEq, Repr, Inhabited

namespace ErrorKind

def names : List (String × ErrorKind) :=
  [("NotFound", .notFound), ("MethodNotAllowed", .methodNotAllowed),
   ("Validation", .validation), ("Unauthenticated", .unauthenticated),
   ("Forbidden", .forbidden), ("Http", .http), ("Internal", .internal)]

def text : ErrorKind → String
  | .notFound => "NotFound"
  | .methodNotAllowed => "MethodNotAllowed"
  | .validation => "Validation"
  | .unauthenticated => "Unauthenticated"
  | .forbidden => "Forbidden"
  | .http => "Http"
  | .internal => "Internal"

def ofText? (name : String) : Option ErrorKind :=
  names.lookup name

end ErrorKind

/-- What ended the dispatch of a request. -/
inductive DispatchError where
  /-- No template fits the path. -/
  | notFound (method : Method) (path : String)
  /-- Templates fit the path, but none under this method. -/
  | methodNotAllowed (method : Method) (path : String) (allowed : List Method)
  /-- The request does not fit the declared parameters; every issue found. -/
  | validation (issues : List Issue)
  /-- Credentials are absent or refused. -/
  | unauthenticated (detail : String)
  /-- The credentials lack required scopes. -/
  | forbidden (detail : String) (missing : List String)
  /-- Raised by application code. -/
  | http (error : HttpError)
  /-- Anything else: a failure and what it happened in, outermost first. -/
  | internal (chain : List String)
deriving DecidableEq, Inhabited

namespace DispatchError

def kind : DispatchError → ErrorKind
  | .notFound .. => .notFound
  | .methodNotAllowed .. => .methodNotAllowed
  | .validation _ => .validation
  | .unauthenticated _ => .unauthenticated
  | .forbidden .. => .forbidden
  | .http _ => .http
  | .internal _ => .internal

def status : DispatchError → Nat
  | .notFound .. => 404
  | .methodNotAllowed .. => 405
  | .validation _ => 422
  | .unauthenticated _ => 401
  | .forbidden .. => 403
  | .http e => e.status
  | .internal _ => 500

def issues : DispatchError → List Issue
  | .validation issues => issues
  | _ => []

def chainText (chain : List String) : String :=
  ": ".intercalate chain

def message : DispatchError → String
  | .notFound method path => "no route matches " ++ method ++ " " ++ path
  | .methodNotAllowed method path allowed =>
      "method " ++ method ++ " not allowed for " ++ path ++ " (allowed: "
        ++ ", ".intercalate allowed ++ ")"
  | .validation issues =>
      toString issues.length ++ " validation error(s)"
        ++ String.join (issues.map fun issue => "; " ++ issue.text)
  | .unauthenticated detail => "unauthenticated: " ++ detail
  | .forbidden detail missing =>
      "forbidden: " ++ detail ++ " (missing scopes: " ++ Text.quoteList missing ++ ")"
  | .http e => e.message
  | .internal chain => "internal error: " ++ chainText chain

/-- The failure that an error wraps, if it wraps one. -/
def source? : DispatchError → Option String
  | .http e => some e.message
  | .internal chain => some (chain.headD "")
  | _ => none

end DispatchError

end RequestDispatch
