/-!
Types of parameters and the places of a request they are read from.
-/

namespace RequestDispatch

/-- The type that a received text or JSON value is brought to. -/
inductive ParamType where
  | string
  | int
  | float
  | bool
  | json
  | list (item : ParamType)
deriving DecidableEq, Repr, Inhabited

namespace ParamType

/-- The type that a placeholder of a path template names. -/
def ofTemplateName? (name : String) : Option ParamType :=
  if name = "int" ∨ name = "integer" then some .int
  else if name = "float" ∨ name = "number" then some .float
  else if name = "str" ∨ name = "string" then some .string
  else if name = "bool" ∨ name = "boolean" then some .bool
  else none

def text : ParamType → String
  | .string => "string"
  | .int => "int"
  | .float => "float"
  | .bool => "bool"
  | .json => "json"
  | .list item => "list<" ++ item.text ++ ">"

/-- Whether every occurrence of the parameter is wanted. -/
def isList : ParamType → Bool
  | .list _ => true
  | _ => false

end ParamType

inductive Location where
  | path
  | query
  | header
  | cookie
  | body
deriving DecidableEq, Repr, Inhabited

def Location.ofText? : String → Option Location
  | "path" => some .path
  | "query" => some .query
  | "header" => some .header
  | "cookie" => some .cookie
  | "body" => some .body
  | _ => none

/-- The text of a location, which is the first part of an issue's location. -/
def Location.text : Location → String
  | .path => "path"
  | .query => "query"
  | .header => "header"
  | .cookie => "cookie"
  | .body => "body"

end RequestDispatch
