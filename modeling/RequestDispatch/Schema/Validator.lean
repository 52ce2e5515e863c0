import RequestDispatch.Schema.Metaschema
import RequestDispatch.Schema.Validation

/-!
Schemas ready for use. A validator is compiled once from a document, which has to be a schema
by the schema of schemas, and then judges values, finding the targets of references in its
document. Documents are schemas of draft 7.
-/

namespace RequestDispatch

/-- The step of a pointer with its escapes undone: `~1` is a slash and `~0` a tilde. -/
def pointerStep : List Char → List Char
  | '~' :: '1' :: rest => '/' :: pointerStep rest
  | '~' :: '0' :: rest => '~' :: pointerStep rest
  | c :: rest => c :: pointerStep rest
  | [] => []

def Json.follow? : List (List Char) → Json → Option Json
  | [], v => some v
  | step :: rest, .object members =>
      (members.lookup (String.ofList (pointerStep step))).bind (Json.follow? rest)
  | step :: rest, .array items =>
      match Text.readNatural 10 Text.maxUInt64 step with
      | .ok i => (items[i]?).bind (Json.follow? rest)
      | .error _ => none
  | _ :: _, _ => none

mutual

/-- The parts of a value that are objects with a name of their own. -/
def Json.identified : Json → List (String × Json)
  | .array items => identifiedItems items
  | .object members =>
      let own : List (String × Json) :=
        match members.lookup "$id" with
        | some (.string id) => [(id, .object members)]
        | _ => []
      own ++ identifiedMembers members
  | _ => []

def Json.identifiedItems : List Json → List (String × Json)
  | [] => []
  | item :: rest => item.identified ++ identifiedItems rest

def Json.identifiedMembers : List (String × Json) → List (String × Json)
  | [] => []
  | (_, value) :: rest => value.identified ++ identifiedMembers rest

end

def Json.fragment? (document : Json) (fragment : List Char) : Option Json :=
  match (Text.Percent.decode (String.ofList fragment)).toList with
  | [] => some document
  | '/' :: pointer => document.follow? (Text.pieces '/' pointer)
  | _ => none

/-- The schema that a reference points to in a document. An identifier is compared with the
reference as both are written: it is not resolved against the identifiers around it, as relative
ones would have to be, and nothing outside of the document is found. -/
def Schema.resolve (document : Json) (target : String) : Option Schema :=
  let (base, fragment) := (Text.cut '#' target.toList).getD (target.toList, [])
  let plain (id : String) : List Char := id.toList.takeWhile (· != '#')
  let found : Option Json :=
    if base.isEmpty then
      match document.fragment? fragment with
      | some v => some v
      | none => document.identified.lookup target
    else
      match document.identified.find? fun (id, _) => plain id = base with
      | some (_, v) => v.fragment? fragment
      | none => none
  found.bind Schema.ofJson?

/-- A compiled schema with the document it was read from. -/
structure Validator where
  document : Json
  schema : Schema
deriving Inhabited

namespace Validator

/-- The number of steps that judging a value can take: each of the schemas of the document at
each level of the value. -/
def allowance (document value : Json) : Nat :=
  (document.size + 2) * (value.size + 3)

def violations (v : Validator) (value : Json) : List Violation :=
  Schema.check (Schema.resolve v.document) (allowance v.document value) v.schema value []

def accepts (v : Validator) (value : Json) : Bool :=
  (v.violations value).isEmpty

def issues (v : Validator) (value : Json) (place : List String) : List Issue :=
  (v.violations value).map (·.toIssue place)

/-- The validator of the schema of schemas. -/
def ofSchemas : Validator :=
  ⟨Metaschema.document, (Schema.ofJson? Metaschema.document).getD .accept⟩

/-- Compiles a document by the rules of draft 7. Another draft that it names under `$schema` is not
followed: draft 4, for instance, has its own form of exclusive bounds. -/
def compile? (document : Json) : Option Validator :=
  if ofSchemas.accepts document then
    (Schema.ofJson? document).map fun schema => ⟨document, schema⟩
  else none

end Validator

end RequestDispatch
