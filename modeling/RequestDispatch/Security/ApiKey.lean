import RequestDispatch.Security.Provider

/-!
API keys: texts that are presented in a header, query field or cookie, each with the scopes it
grants.
-/

namespace RequestDispatch.ApiKey

inductive Place where
  | header
  | query
  | cookie
deriving DecidableEq, Repr

/-- A table of keys and the name under which they are presented. Of two entries for one key
the later one counts. -/
structure Keyring where
  place : Place
  name : String
  keys : List (String × List String)

namespace Keyring

/-- The key that a request presents: the first header or cookie, the last query field. -/
def presented? (ring : Keyring) (r : Request) : Option String :=
  match ring.place with
  | .header => r.headers.first? ring.name
  | .query => r.queryValue? ring.name
  | .cookie => r.cookie? ring.name

def scopes? (ring : Keyring) (key : String) : Option (List String) :=
  ring.keys.reverse.lookup key

def authenticate (ring : Keyring) (r : Request) : Authentication :=
  match ring.presented? r with
  | none => .missing
  | some key =>
      match ring.scopes? key with
      | none => .invalid "unknown API key"
      | some scopes => .granted ⟨none, scopes, .ofMembers [("key_name", .string ring.name)]⟩

def provider (ring : Keyring) : SecurityProvider :=
  ⟨"api_key", ring.authenticate⟩

end Keyring

end RequestDispatch.ApiKey
