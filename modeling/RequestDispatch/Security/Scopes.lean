/-!
Scopes that a request has to be granted. They are collected on the way from a route down to a
dependency: what is inherited from above, then what is added at each site, every scope once
and in the order of first mention.
-/

namespace RequestDispatch

/-- Required scopes in order. -/
abbrev Scopes := List String

namespace Scopes

/-- Adds a scope that is not there yet. -/
def add (scopes : Scopes) (scope : String) : Scopes :=
  if scope ∈ scopes then scopes else scopes ++ [scope]

def extend (scopes : Scopes) (more : List String) : Scopes :=
  more.foldl add scopes

/-- The scopes as one text with spaces between them, the form of a challenge. -/
def text (scopes : Scopes) : String :=
  " ".intercalate scopes

def missing (scopes : Scopes) (granted : List String) : List String :=
  scopes.filter fun scope => !granted.contains scope

end Scopes

end RequestDispatch
