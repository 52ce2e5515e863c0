import RequestDispatch.Issue
import RequestDispatch.Json.Printer
import RequestDispatch.Schema.Basic

/-!
Violations of schemas. A violation says which requirement a value fails, where the value
stands in the document, and gives the value itself; its wording and the issue made of it
follow from that.
-/

namespace RequestDispatch

/-- The requirement that is not met. -/
inductive Cause where
  | type (expected : List JsonType)
  | required (property : String)
  | minimum (limit : Number)
  | maximum (limit : Number)
  | exclusiveMinimum (limit : Number)
  | exclusiveMaximum (limit : Number)
  | multipleOf (divisor : Double)
  | minLength (n : Nat)
  | maxLength (n : Nat)
  | minItems (n : Nat)
  | maxItems (n : Nat)
  | minProperties (n : Nat)
  | maxProperties (n : Nat)
  | pattern (source : String)
  | format (name : String)
  | mediaType (name : String)
  | encoding (name : String)
  | enum (options : List Json)
  | const (value : Json)
  | otherProperties (names : List String)
  | laterItems (items : List Json)
  | uniqueItems
  | anyOf
  | oneOfNone
  | oneOfSeveral
  | contains
  | not (schema : Json)
  | refused
  | propertyName (reason : String)
  | unknownReference (target : String)

structure Violation where
  path : List String
  cause : Cause
  value : Json

namespace Violation

def counted (n : Nat) (one several : String) : String :=
  toString n ++ " " ++ (if n = 1 then one else several)

/-- The end of a sentence about what was not expected. -/
def unexpected (texts : List String) : String :=
  "(" ++ ", ".intercalate texts ++ (if texts.length = 1 then " was" else " were")
    ++ " unexpected)"

def message (v : Violation) : String :=
  let value := v.value.text
  match v.cause with
  | .type [t] => value ++ " is not of type " ++ Json.quote t.name
  | .type ts =>
      value ++ " is not of types " ++ ", ".intercalate (ts.map fun t => Json.quote t.name)
  | .required property => Json.quote property ++ " is a required property"
  | .minimum limit => value ++ " is less than the minimum of " ++ limit.text
  | .maximum limit => value ++ " is greater than the maximum of " ++ limit.text
  | .exclusiveMinimum limit =>
      value ++ " is less than or equal to the minimum of " ++ limit.text
  | .exclusiveMaximum limit =>
      value ++ " is greater than or equal to the maximum of " ++ limit.text
  | .multipleOf divisor => value ++ " is not a multiple of " ++ divisor.plain
  | .minLength n => value ++ " is shorter than " ++ counted n "character" "characters"
  | .maxLength n => value ++ " is longer than " ++ counted n "character" "characters"
  | .minItems n => value ++ " has less than " ++ counted n "item" "items"
  | .maxItems n => value ++ " has more than " ++ counted n "item" "items"
  | .minProperties n => value ++ " has less than " ++ counted n "property" "properties"
  | .maxProperties n => value ++ " has more than " ++ counted n "property" "properties"
  | .pattern source => value ++ " does not match \"" ++ source ++ "\""
  | .format name => value ++ " is not a \"" ++ name ++ "\""
  | .mediaType name => value ++ " is not compliant with \"" ++ name ++ "\" media type"
  | .encoding name => value ++ " is not compliant with \"" ++ name ++ "\" content encoding"
  | .enum options => value ++ " is not one of " ++ (Json.array options).text
  | .const expected => expected.text ++ " was expected"
  | .otherProperties names =>
      "Additional properties are not allowed "
        ++ unexpected (names.map fun n => "'" ++ n ++ "'")
  | .laterItems items =>
      "Additional items are not allowed " ++ unexpected (items.map Json.text)
  | .uniqueItems => value ++ " has non-unique elements"
  | .anyOf => value ++ " is not valid under any of the schemas listed in the 'anyOf' keyword"
  | .oneOfNone =>
      value ++ " is not valid under any of the schemas listed in the 'oneOf' keyword"
  | .oneOfSeveral =>
      value ++ " is valid under more than one of the schemas listed in the 'oneOf' keyword"
  | .contains => "None of " ++ value ++ " are valid under the given schema"
  | .not schema => schema.text ++ " is not allowed for " ++ value
  | .refused => "False schema does not allow " ++ value
  | .propertyName reason => reason
  | .unknownReference target => "Invalid reference: " ++ target

def issueKind : Cause → String
  | .required _ => "missing"
  | .type _ => "type_error"
  | .minimum _ | .maximum _ | .exclusiveMinimum _ | .exclusiveMaximum _ | .multipleOf _ =>
      "range_error"
  | .minLength _ | .maxLength _ | .minItems _ | .maxItems _ => "length_error"
  | .pattern _ => "string_pattern_mismatch"
  | .enum _ | .const _ => "enum"
  | .otherProperties _ => "extra_forbidden"
  | .format _ => "format_error"
  | _ => "schema_error"

/-- The issue for a violation inside a value that stands at `place`. A missing property is
part of the location and has no input. -/
def toIssue (place : List String) (v : Violation) : Issue :=
  match v.cause with
  | .required property =>
      ⟨place ++ v.path ++ [property], issueKind v.cause, v.message, .null⟩
  | cause => ⟨place ++ v.path, issueKind cause, v.message, v.value⟩

end Violation

end RequestDispatch
