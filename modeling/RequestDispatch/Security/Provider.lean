import RequestDispatch.Http.Request

/-!
Providers of credentials. A provider looks at a request and finds no credentials, refuses
those it finds, or grants scopes to whoever presents them.
-/

namespace RequestDispatch

/-- What a provider knows about the sender of a request. -/
structure Credentials where
  subject : Option String
  scopes : List String
  claims : Json
deriving DecidableEq

inductive Authentication where
  /-- No credentials were presented. -/
  | missing
  /-- Credentials were presented and refused; the reason is not for the client. -/
  | invalid (reason : String)
  | granted (credentials : Credentials)
deriving DecidableEq

structure SecurityProvider where
  name : String
  authenticate : Request → Authentication

end RequestDispatch
