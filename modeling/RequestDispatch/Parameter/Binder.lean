import RequestDispatch.Http.Request
import RequestDispatch.Parameter.Check
import RequestDispatch.Parameter.Coercion

/-!
Binding parameters to the values of a request. Every parameter is looked up, coerced and
checked whatever happens to the others, and all issues are reported in the order of the
parameters. The one thing parameters share is the body: when it cannot be read, the issue is
reported for the first parameter that needs it and never again.
-/

namespace RequestDispatch

/-- What parameters are bound from. With `embed`, the body is an object that holds each of
its parameters as a member. -/
structure Binder where
  request : Request
  captures : List (String × String)
  embed : Bool

inductive Found where
  | absent
  | texts (ts : List String)
  | json (v : Json)
  /-- The body cannot be read. That was reported. -/
  | unreadable

/-- What is remembered of the body from one parameter to the next, in all groups that are
bound from a request. -/
structure BodyMemory where
  /-- What parsing gave, once a parameter has needed the body. -/
  parsed : Option (Except Issue (Option Json))
  bodyReported : Bool

def BodyMemory.fresh : BodyMemory := ⟨none, false⟩

structure Bound extends BodyMemory where
  values : Members
  issues : List Issue

namespace Bound

def beginning (memory : BodyMemory) : Bound :=
  { memory with values := [], issues := [] }

/-- Reports that the body cannot be read, unless that was done before. -/
def reportBody (bound : Bound) (issue : Issue) : Bound :=
  if bound.bodyReported then bound
  else { bound with issues := bound.issues ++ [issue], bodyReported := true }

/-- Takes up a value that was coerced. It is bound if neither the coercion nor the constraints
have added an issue to those that were there before. -/
def take (bound : Bound) (p : CompiledParameter) (coerced : Coerced) (place : List String) :
    Bound :=
  let before := bound.issues.length
  let bound := { bound with issues := bound.issues ++ coerced.issues }
  match coerced.value with
  | none => bound
  | some v =>
      if before < bound.issues.length then bound
      else
        let bound := { bound with issues := bound.issues ++ p.issues v place }
        if bound.issues.length = before then
          { bound with values := bound.values.insert p.declared.name v }
        else bound

def conclude (bound : Bound) (p : CompiledParameter) (place : List String) : Found → Bound
  | .unreadable => bound
  | .absent =>
      match p.declared.default with
      | some v => { bound with values := bound.values.insert p.declared.name v }
      | none =>
          if p.declared.required then { bound with issues := bound.issues ++ [.missing place] }
          else bound
  | .texts ts => bound.take p (coerceTexts p.declared.type ts place) place
  | .json v => bound.take p (coerceJson p.declared.type v place) place

end Bound

namespace Binder

def placeOf (b : Binder) (p : CompiledParameter) : List String :=
  if p.declared.location = .body ∧ !b.embed then [p.declared.location.text]
  else [p.declared.location.text, p.key]

/-- The value of the body; a body of blanks is none. -/
def body (b : Binder) : Except Issue (Option Json) :=
  if b.request.body.all Text.isBlankByte then .ok none
  else
    match Json.parse b.request.body with
    | .ok v => .ok (some v)
    | .error e =>
        .error ⟨["body", toString e.column], "json_invalid", "JSON decode error: " ++ e.message,
          .string (Text.Utf8.decodeLenient b.request.body)⟩

/-- The value of the body, parsed when it is needed for the first time. -/
def parsedBody (b : Binder) (bound : Bound) : Except Issue (Option Json) × Bound :=
  match bound.parsed with
  | some parsed => (parsed, bound)
  | none => (b.body, { bound with parsed := some b.body })

/-- The issue of a body that should have members and has none. -/
def noObject (v : Json) : Issue :=
  ⟨["body"], "dict_type",
    "Input should be a valid dictionary or object to extract fields from", v⟩

def lookUpBody (b : Binder) (key : String) (bound : Bound) : Found × Bound :=
  match b.parsedBody bound with
  | (.error issue, bound) => (.unreadable, bound.reportBody issue)
  | (.ok none, bound) => (.absent, bound)
  | (.ok (some v), bound) =>
      if !b.embed then (.json v, bound)
      else
        match v with
        | .object members =>
            match Members.find? members key with
            | some v => (.json v, bound)
            | none => (.absent, bound)
        | v => (.unreadable, bound.reportBody (noObject v))

/-- The texts of a parameter outside the body. A single value is the last one of a capture
or query field, and the first one of a header or cookie. -/
def lookUpTexts (b : Binder) (p : CompiledParameter) : List String :=
  let all := p.declared.type.isList
  match p.declared.location with
  | .path => ((b.captures.filter (·.1 == p.declared.name)).getLast?.map (·.2)).toList
  | .query =>
      if all then b.request.queryValues p.key else (b.request.queryValue? p.key).toList
  | .header =>
      if all then b.request.headers.valuesOf p.key
      else (b.request.headers.first? p.key).toList
  | .cookie => (b.request.cookie? p.key).toList
  | .body => []

def lookUp (b : Binder) (p : CompiledParameter) (bound : Bound) : Found × Bound :=
  if p.declared.location = .body then b.lookUpBody p.key bound
  else
    match b.lookUpTexts p with
    | [] => (.absent, bound)
    | texts => (.texts texts, bound)

def bindOne (b : Binder) (bound : Bound) (p : CompiledParameter) : Bound :=
  let (found, bound) := b.lookUp p bound
  bound.conclude p (b.placeOf p) found

/-- Binds a group of parameters, with what is remembered from the groups before. -/
def bindFrom (b : Binder) (memory : BodyMemory) (params : List CompiledParameter) : Bound :=
  params.foldl b.bindOne (.beginning memory)

/-- Binds a group of parameters. `bodyReported` tells whether an unreadable body was reported
before. -/
def bind (b : Binder) (bodyReported : Bool) (params : List CompiledParameter) : Bound :=
  b.bindFrom ⟨none, bodyReported⟩ params

def bindGroups (b : Binder) : BodyMemory → List (List CompiledParameter) → List Bound
  | _, [] => []
  | memory, params :: rest =>
      let bound := b.bindFrom memory params
      bound :: bindGroups b bound.toBodyMemory rest

end Binder

end RequestDispatch
