import RequestDispatch.Text.Split

/-!
Header lines: names with values in order of arrival, where a name may occur several times and
is looked up ignoring ASCII case.
-/

namespace RequestDispatch

/-- Header lines in order. -/
abbrev Headers := List (String × String)

namespace Headers

def named (name : String) (line : String × String) : Bool :=
  Text.sameIgnoringCase line.1 name

def valuesOf (headers : Headers) (name : String) : List String :=
  (headers.filter (named name)).map (·.2)

def first? (headers : Headers) (name : String) : Option String :=
  (List.find? (named name) headers).map (·.2)

def remove (headers : Headers) (name : String) : Headers :=
  headers.filter fun line => !named name line

def append (headers : Headers) (name value : String) : Headers :=
  headers ++ [(name, value)]

/-- Replaces every line with this name by one line at the end. -/
def set (headers : Headers) (name value : String) : Headers :=
  (headers.remove name).append name value

end Headers

end RequestDispatch
