import RequestDispatch.Json.Parser
import RequestDispatch.Schema.Format
import RequestDispatch.Schema.Reader
import RequestDispatch.Schema.Violation
import RequestDispatch.Security.Base64

/-!
Judging values by schemas. `Schema.check` lists every violation, in the order of the
keywords. References point into the document of the schema; following them can lead in
circles, so the check carries an allowance of steps that is larger than any check needs that
ends at all.
-/

namespace RequestDispatch

namespace Schema

/-- The result of judging a value at a place of its document. -/
abbrev Check := Json → List String → List Violation

def violatedIf (condition : Bool) (cause : Cause) : Check := fun value path =>
  if condition then [⟨path, cause, value⟩] else []

/-- Whether a text has content of a media type. Only JSON is known. -/
def hasMediaType (name : String) (bytes : List UInt8) : Bool :=
  name != "application/json" || (Json.parse bytes).toOption.isSome

/-- Whether a quotient of doubles counts as whole: its fractional part is below the distance
of one to the next double. Negative fractional parts always are. -/
def isMultipleOf (n : Number) (divisor : Double) : Bool :=
  match divisor.toInt? with
  | some d =>
      match n.toDouble.toInt? with
      | some i => Int.tmod i d == 0
      | none => false
  | none =>
      match n.toDouble.div? divisor with
      | some q =>
          let (num, den) := q.magnitude
          q.negative || (num % den) <<< 52 < den
      | none => (n.toDouble.value / divisor.value).den == 1

def allDistinct : List Json → Bool
  | [] => true
  | item :: rest => !rest.any (Json.equivalent item) && allDistinct rest

def numbered (start : Nat) (items : List Json) : List (Nat × Json) :=
  (List.range items.length).zip items |>.map fun (i, v) => (start + i, v)

def checkItems (check : Schema → Check) (each : Schema) (start : Nat) (items : List Json)
    (path : List String) : List Violation :=
  (numbered start (items.drop start)).flatMap fun (i, v) => check each v (path ++ [toString i])

/-- What a property of an object has to meet: the schemas of its name and of the patterns
that match it. -/
def coveringSchemas (named : List (String × Schema)) (matching : List (Pattern × Schema))
    (name : String) : List Schema :=
  (named.lookup name).toList
    ++ (matching.filter fun (p, _) => p.isMatch name).map (·.2)

/-- Judges a value by one requirement, where `check` judges by the schemas inside it. -/
def checkRequirement (check : Schema → Check) (r : Requirement) : Check := fun value path =>
  let number (holds : Number → Bool) (cause : Cause) : List Violation :=
    match value with
    | .number n => violatedIf (!holds n) cause value path
    | _ => []
  let count (size? : Option Nat) (holds : Nat → Bool) (cause : Cause) : List Violation :=
    match size? with
    | some n => violatedIf (!holds n) cause value path
    | none => []
  let text (holds : String → Bool) (cause : Cause) : List Violation :=
    match value with
    | .string s => violatedIf (!holds s) cause value path
    | _ => []
  let length? := value.toString?.map String.length
  let items? := value.toItems?.map List.length
  let properties? : Option Nat :=
    match value with
    | .object members => some members.length
    | _ => none
  let valid (s : Schema) (v : Json) : Bool := (check s v path).isEmpty
  match r with
  | .types ts => violatedIf (!ts.any (·.includes value)) (.type ts) value path
  | .const expected => violatedIf (!value.equivalent expected) (.const expected) value path
  | .enum options => violatedIf (!options.any value.equivalent) (.enum options) value path
  | .minimum limit => number (fun n => limit.value ≤ n.value) (.minimum limit)
  | .maximum limit => number (fun n => n.value ≤ limit.value) (.maximum limit)
  | .exclusiveMinimum limit =>
      number (fun n => limit.value < n.value) (.exclusiveMinimum limit)
  | .exclusiveMaximum limit =>
      number (fun n => n.value < limit.value) (.exclusiveMaximum limit)
  | .multipleOf d => number (fun n => isMultipleOf n d) (.multipleOf d)
  | .minLength n => count length? (n ≤ ·) (.minLength n)
  | .maxLength n => count length? (· ≤ n) (.maxLength n)
  | .minItems n => count items? (n ≤ ·) (.minItems n)
  | .maxItems n => count items? (· ≤ n) (.maxItems n)
  | .minProperties n => count properties? (n ≤ ·) (.minProperties n)
  | .maxProperties n => count properties? (· ≤ n) (.maxProperties n)
  | .pattern source p => text p.isMatch (.pattern source)
  | .format name => text ((Format.check? name).getD fun _ => true) (.format name)
  | .mediaType name false =>
      text (fun s => hasMediaType name (Text.Utf8.encode s)) (.mediaType name)
  | .mediaType name true =>
      match value with
      | .string s =>
          match Base64.decodeStandard (Text.Utf8.encode s) with
          | .ok bytes => violatedIf (!hasMediaType name bytes) (.mediaType name) value path
          | .error _ => [⟨path, .encoding "base64", value⟩]
      | _ => []
  | .encoding name =>
      text (fun s => name != "base64"
        || (Base64.decodeStandard (Text.Utf8.encode s)).toOption.isSome) (.encoding name)
  | .required names =>
      match value with
      | .object members =>
          (names.filter fun n => !members.any (·.1 == n)).map fun n =>
            ⟨path, .required n, value⟩
      | _ => []
  | .uniqueItems =>
      match value with
      | .array items => violatedIf (!allDistinct items) .uniqueItems value path
      | _ => []
  | .items each =>
      match value with
      | .array items => checkItems check each 0 items path
      | _ => []
  | .itemsInOrder schemas =>
      match value with
      | .array items =>
          (schemas.zip (numbered 0 items)).flatMap fun (s, i, v) =>
            check s v (path ++ [toString i])
      | _ => []
  | .laterItems start each =>
      match value with
      | .array items => checkItems check each start items path
      | _ => []
  | .noLaterItems start =>
      match value with
      | .array items =>
          violatedIf (start < items.length) (.laterItems (items.drop start)) value path
      | _ => []
  | .contains s =>
      match value with
      | .array items => violatedIf (!items.any (valid s)) .contains value path
      | _ => []
  | .properties named =>
      match value with
      | .object members =>
          named.flatMap fun (name, s) =>
            match members.lookup name with
            | some v => check s v (path ++ [name])
            | none => []
      | _ => []
  | .patternProperties matching =>
      match value with
      | .object members =>
          matching.flatMap fun (p, s) =>
            (members.filter fun (name, _) => p.isMatch name).flatMap fun (name, v) =>
              check s v (path ++ [name])
      | _ => []
  | .otherProperties named matching others =>
      match value with
      | .object members =>
          members.flatMap fun (name, v) =>
            match coveringSchemas named matching name with
            | [] => check others v (path ++ [name])
            | covering => covering.flatMap fun s => check s v (path ++ [name])
      | _ => []
  | .noProperties =>
      match value with
      | .object ((_, v) :: _) => [⟨path, .refused, v⟩]
      | _ => []
  | .noOtherProperties named matching =>
      match value with
      | .object members =>
          let others := (members.map (·.1)).filter fun name =>
            (coveringSchemas named matching name).isEmpty
          (members.flatMap fun (name, v) =>
            (coveringSchemas named matching name).flatMap fun s => check s v (path ++ [name]))
            ++ violatedIf (!others.isEmpty) (.otherProperties others) value path
      | _ => []
  | .propertyNames .refuse =>
      match value with
      | .object (_ :: _) => [⟨path, .refused, value⟩]
      | _ => []
  | .propertyNames s =>
      match value with
      | .object members =>
          members.flatMap fun (name, _) =>
            (check s (.string name) path).map fun v =>
              ⟨path, .propertyName v.message, value⟩
      | _ => []
  | .dependencies named =>
      match value with
      | .object members =>
          named.flatMap fun (name, s) =>
            if members.any (·.1 == name) then check s value path else []
      | _ => []
  | .allOf schemas => schemas.flatMap fun s => check s value path
  | .anyOf schemas => violatedIf (!schemas.any (valid · value)) .anyOf value path
  | .oneOf schemas =>
      match (schemas.filter (valid · value)).length with
      | 0 => [⟨path, .oneOfNone, value⟩]
      | 1 => []
      | _ => [⟨path, .oneOfSeveral, value⟩]
  | .not source s => violatedIf (valid s value) (.not source) value path
  | .conditional test yes no => check (if valid test value then yes else no) value path

/-- Judges a value by a schema whose references `resolve` finds. -/
def check (resolve : String → Option Schema) : (allowance : Nat) → Schema → Check
  | 0, _ => fun _ _ => []
  | _ + 1, .accept => fun _ _ => []
  | _ + 1, .refuse => violatedIf true .refused
  | n + 1, .reference target => fun value path =>
      match resolve target with
      | some s => check resolve n s value path
      | none => [⟨path, .unknownReference target, value⟩]
  | n + 1, .requirements rs => fun value path =>
      rs.flatMap fun r => checkRequirement (check resolve n) r value path

end Schema

end RequestDispatch
