import RequestDispatch.Json.Basic
import RequestDispatch.Pattern.Parser

/-!
JSON schemas. A schema accepts everything, refuses everything, points to another schema, or is
a list of requirements in the order of their keywords, each of which is judged on its own.
-/

namespace RequestDispatch

/-- The types that a schema can name. -/
inductive JsonType where
  | array
  | boolean
  | integer
  | null
  | number
  | object
  | string
deriving DecidableEq, Repr

namespace JsonType

def name : JsonType → String
  | .array => "array"
  | .boolean => "boolean"
  | .integer => "integer"
  | .null => "null"
  | .number => "number"
  | .object => "object"
  | .string => "string"

def all : List JsonType :=
  [.array, .boolean, .integer, .null, .number, .object, .string]

def ofName? (name : String) : Option JsonType :=
  all.find? (·.name == name)

/-- Whether a value has a type. Numbers without a fractional part are integers. -/
def includes : JsonType → Json → Bool
  | .array, .array _ => true
  | .boolean, .bool _ => true
  | .integer, .number n => n.isIntegral
  | .null, .null => true
  | .number, .number _ => true
  | .object, .object _ => true
  | .string, .string _ => true
  | _, _ => false

end JsonType

mutual

inductive Schema where
  | accept
  | refuse
  | reference (target : String)
  | requirements (rs : List Requirement)

/-- One requirement of a schema. A requirement on a type of value is met by all others. -/
inductive Requirement where
  | types (ts : List JsonType)
  | const (value : Json)
  | enum (options : List Json)
  | minimum (limit : Number)
  | maximum (limit : Number)
  | exclusiveMinimum (limit : Number)
  | exclusiveMaximum (limit : Number)
  | multipleOf (divisor : Double)
  | minLength (n : Nat)
  | maxLength (n : Nat)
  | minItems (n : Nat)
  | maxItems (n : Nat)
  | minProperties (n : Nat)
  | maxProperties (n : Nat)
  | pattern (source : String) (p : Pattern)
  | format (name : String)
  | mediaType (name : String) (encoded : Bool)
  | encoding (name : String)
  | required (names : List String)
  | uniqueItems
  | items (each : Schema)
  | itemsInOrder (schemas : List Schema)
  /-- Items from the given index on. -/
  | laterItems (start : Nat) (each : Schema)
  /-- No items from the given index on. -/
  | noLaterItems (start : Nat)
  | contains (some : Schema)
  | properties (named : List (String × Schema))
  | patternProperties (matching : List (Pattern × Schema))
  /-- Properties by name and by pattern, and one schema for those that neither covers. -/
  | otherProperties (named : List (String × Schema)) (matching : List (Pattern × Schema))
      (others : Schema)
  /-- Properties by name and by pattern, and none beside them. -/
  | noOtherProperties (named : List (String × Schema)) (matching : List (Pattern × Schema))
  | noProperties
  | propertyNames (name : Schema)
  /-- Schemas for objects that have a property. -/
  | dependencies (named : List (String × Schema))
  | allOf (schemas : List Schema)
  | anyOf (schemas : List Schema)
  | oneOf (schemas : List Schema)
  | not (source : Json) (schema : Schema)
  | conditional (test yes no : Schema)

end

instance : Inhabited Schema := ⟨.accept⟩

namespace Json

mutual

/-- Whether two values are equal as data: numbers by what they denote. -/
def equivalent : Json → Json → Bool
  | .null, .null => true
  | .bool a, .bool b => a == b
  | .number a, .number b => a.value == b.value
  | .string a, .string b => a == b
  | .array a, .array b => equivalentItems a b
  | .object a, .object b => equivalentMembers a b
  | _, _ => false

def equivalentItems : List Json → List Json → Bool
  | [], [] => true
  | a :: as, b :: bs => equivalent a b && equivalentItems as bs
  | _, _ => false

def equivalentMembers : List (String × Json) → List (String × Json) → Bool
  | [], [] => true
  | (m, a) :: as, (n, b) :: bs => m == n && equivalent a b && equivalentMembers as bs
  | _, _ => false

end

mutual

/-- The number of values in a value, itself included. -/
def size : Json → Nat
  | .array items => itemsSize items + 1
  | .object members => membersSize members + 1
  | _ => 1

def itemsSize : List Json → Nat
  | [] => 0
  | item :: rest => item.size + itemsSize rest

def membersSize : List (String × Json) → Nat
  | [] => 0
  | (_, value) :: rest => value.size + membersSize rest

end

end Json

end RequestDispatch
