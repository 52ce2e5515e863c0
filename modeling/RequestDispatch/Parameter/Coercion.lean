import RequestDispatch.Decimal.Reader
import RequestDispatch.Issue
import RequestDispatch.Json.Parser
import RequestDispatch.Parameter.Type

/-!
Bringing received values to declared types. Texts are read as numbers, booleans or JSON;
values of a JSON body keep their type, except that texts are read where a scalar is wanted
and doubles without a fractional part are integers. A list is coerced item by item and every
item that does not fit is reported at its index.
-/

namespace RequestDispatch

/-- The outcome of a coercion: the value, if there is one, and what was wrong. A list has a
value even when items of it were left out. -/
structure Coerced where
  value : Option Json
  issues : List Issue

namespace Coerced

def fit (v : Json) : Coerced := ⟨some v, []⟩

def misfit (loc : List String) (kind message : String) (input : Json) : Coerced :=
  ⟨none, [⟨loc, kind, message, input⟩]⟩

/-- The list of the items that fit, with the issues of the others. -/
def collect (items : List Coerced) : Coerced :=
  ⟨some (.array (items.filterMap (·.value))), items.flatMap (·.issues)⟩

end Coerced

/-- The boolean that a text stands for, in any case. -/
def readBool? (text : String) : Option Bool :=
  let lower := String.ofList (text.toList.map Char.toLower)
  if lower = "true" ∨ lower = "1" ∨ lower = "yes" ∨ lower = "on" then some true
  else if lower = "false" ∨ lower = "0" ∨ lower = "no" ∨ lower = "off" then some false
  else none

/-- Coerces a text to a type. Lists have no form as a single text. -/
def coerceText (type : ParamType) (text : String) (loc : List String) : Coerced :=
  let misfit (kind message : String) : Coerced := .misfit loc kind message (.string text)
  match type with
  | .string => .fit (.string text)
  | .int =>
      match Text.readInt64 text with
      | .ok n => .fit (.ofInt n)
      | .error _ =>
          misfit "int_parsing"
            "Input should be a valid integer, unable to parse string as an integer"
  | .float =>
      match Decimal.read? text with
      | some (.finite d) => .fit (.number (.real d))
      | some _ => misfit "finite_number" "Input should be a finite number"
      | none =>
          misfit "float_parsing"
            "Input should be a valid number, unable to parse string as a number"
  | .bool =>
      match readBool? text with
      | some b => .fit (.bool b)
      | none =>
          misfit "bool_parsing" "Input should be a valid boolean, unable to interpret input"
  | .json =>
      match Json.parseText text with
      | .ok v => .fit v
      | .error _ => misfit "json_invalid" "Input should be valid JSON"
  | .list _ => misfit "list_type" "Input should be a valid list"

def indexed {α : Type} (items : List α) : List (String × α) :=
  items.mapIdx fun i a => (toString i, a)

/-- Coerces the occurrences of a parameter: each of them to the item type of a list, or the
last one to any other type. -/
def coerceTexts (type : ParamType) (texts : List String) (loc : List String) : Coerced :=
  match type with
  | .list item =>
      .collect ((indexed texts).map fun (i, text) => coerceText item text (loc ++ [i]))
  | type =>
      match texts.getLast? with
      | some text => coerceText type text loc
      | none => ⟨none, []⟩

def coerceInteger (n : Number) (loc : List String) : Coerced :=
  match n.toInt64? with
  | some i => .fit (.ofInt i)
  | none =>
      let whole := n.toDouble.toInt?.filter fun i => i.natAbs ≤ Text.maxInt64
      match whole with
      | some i => .fit (.ofInt i)
      | none =>
          .misfit loc "int_from_float"
            "Input should be a valid integer, got a number with a fractional part" (.number n)

def coerceJson : ParamType → Json → List String → Coerced
  | .json, v, _ => .fit v
  | .string, .string s, _ => .fit (.string s)
  | .string, v, loc => .misfit loc "string_type" "Input should be a valid string" v
  | .int, .number n, loc => coerceInteger n loc
  | .int, .string s, loc => coerceText .int s loc
  | .int, v, loc => .misfit loc "int_type" "Input should be a valid integer" v
  | .float, .number n, _ => .fit (.number n)
  | .float, .string s, loc => coerceText .float s loc
  | .float, v, loc => .misfit loc "float_type" "Input should be a valid number" v
  | .bool, .bool b, _ => .fit (.bool b)
  | .bool, .string s, loc => coerceText .bool s loc
  | .bool, v, loc => .misfit loc "bool_type" "Input should be a valid boolean" v
  | .list item, .array items, loc =>
      .collect ((indexed items).map fun (i, v) => coerceJson item v (loc ++ [i]))
  | .list _, v, loc => .misfit loc "list_type" "Input should be a valid list" v

end RequestDispatch
