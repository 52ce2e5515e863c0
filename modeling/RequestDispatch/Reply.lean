import RequestDispatch.Error.Dispatch
import RequestDispatch.Http.Response
import RequestDispatch.Schema.Validator

/-!
Replies of handlers and the responses they become under the response declaration of a route.
Nothing is converted: a value whose form does not suit the declared kind, or which does not
meet the declared schema, is an internal error.
-/

namespace RequestDispatch

inductive Reply where
  | response (r : Response)
  /-- A value for the declared kind of response. -/
  | json (v : Json)
  | empty
deriving DecidableEq, Inhabited

inductive ResponseKind where
  | json
  | html
  | plainText
  /-- The value is the location to go to. -/
  | redirect
deriving DecidableEq, Repr

def ResponseKind.text : ResponseKind → String
  | .json => "json"
  | .html => "html"
  | .plainText => "plain_text"
  | .redirect => "redirect"

def ResponseKind.ofText? : String → Option ResponseKind
  | "json" => some .json
  | "html" => some .html
  | "plain_text" => some .plainText
  | "redirect" => some .redirect
  | _ => none

/-- The response side of a route's declaration. -/
structure ResponseDeclaration where
  kind : Option ResponseKind
  /-- The status of success. -/
  status : Option Nat
  schema : Option Json

def ResponseDeclaration.unspecified : ResponseDeclaration :=
  ⟨none, none, none⟩

namespace Reply

def formOf : Json → String
  | .null => "null"
  | .bool _ => "a boolean"
  | .number _ => "a number"
  | .string _ => "a string"
  | .array _ => "an array"
  | .object _ => "an object"

def render (kind : ResponseKind) (value : Json) (declared : ResponseDeclaration) :
    Except DispatchError Response :=
  let status := declared.status.getD 200
  match kind, value with
  | .json, value => .ok (.json status value)
  | .html, .string s => .ok (.html status s)
  | .html, .null => .ok (.html status "")
  | .plainText, .string s => .ok (.text status s)
  | .plainText, .null => .ok (.text status "")
  | .redirect, .string location =>
      .ok (.redirect (declared.status.getD Response.defaultRedirectStatus) location)
  | kind, value =>
      .error (.internal ["a " ++ kind.text ++ " response cannot render " ++ formOf value])

def schemaError (issues : List Issue) : DispatchError :=
  .internal ["response does not match the declared schema: "
    ++ "; ".intercalate (issues.map Issue.text)]

/-- The response that a reply becomes. The validator is that of the declared schema, and
judges the values of JSON responses. -/
def resolve (reply : Reply) (declared : ResponseDeclaration) (validator : Option Validator) :
    Except DispatchError Response :=
  match reply with
  | .response r => .ok r
  | .empty =>
      match declared.kind with
      | none => .ok (.empty (declared.status.getD 204))
      | some kind => render kind .null declared
  | .json value =>
      match declared.kind.getD .json, validator with
      | .json, some validator =>
          match validator.issues value ["response"] with
          | [] => render .json value declared
          | issues => .error (schemaError issues)
      | kind, _ => render kind value declared

end Reply

end RequestDispatch
