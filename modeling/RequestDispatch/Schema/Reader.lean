import RequestDispatch.Schema.Basic

/-!
Reading schemas from JSON values. `Schema.ofJson?` gives every keyword its requirement, in the
order of the keywords; unknown keywords require nothing, and a reference makes its neighbours
void. It fails where a part has no meaning, such as a pattern that is no expression.
-/

namespace RequestDispatch.Schema

/-- A size limit: a natural number, also when it is written as a double. -/
def limit? : Json → Option Nat
  | .number (.int n) => if 0 ≤ n then some n.toNat else none
  | .number (.real d) => d.toInt?.bind fun n => if 0 ≤ n then some n.toNat else none
  | _ => none

def number? : Json → Option Number
  | .number n => some n
  | _ => none

def strings? : Json → Option (List String)
  | .array items => items.mapM Json.toString?
  | _ => none

/-- The types that a name or an array of names stands for, sorted by name. -/
def types? : Json → Option (List JsonType)
  | .string name => (JsonType.ofName? name).map ([·])
  | .array names => do
      let ts ← names.mapM fun n => n.toString?.bind JsonType.ofName?
      some (JsonType.all.filter ts.contains)
  | _ => none

def named? {α : Type} (read : Json → Option α) : Json → Option (List (String × α))
  | .object members => members.mapM fun (name, v) => (read v).map fun a => (name, a)
  | _ => none

/-- Maps a partial function over the members of an object whose names are patterns. -/
def matching? {α : Type} (read : Json → Option α) : Json → Option (List (Pattern × α))
  | .object members => members.mapM fun (source, v) => do
      let p ← Pattern.parseSchema? source
      let a ← read v
      some (p, a)
  | _ => none

/-- Whether a schema asks anything of properties that it does not name. -/
def restrictsOthers : Option Json → Bool
  | some (.bool false) => true
  | some (.object _) => true
  | _ => false

/-- The requirement of a keyword in a schema with the given members, where `read` reads the
schemas inside it. A keyword without meaning of its own has none. -/
def requirement? (read : Json → Option Schema) (members : Members) (keyword : String)
    (value : Json) : Option (Option Requirement) :=
  let one {α : Type} (a : Option α) (make : α → Requirement) : Option (Option Requirement) :=
    a.map fun a => some (make a)
  let optional (a : Option Json) : Option Schema :=
    match a with
    | none => some .accept
    | some v => read v
  let schemas (v : Json) : Option (List Schema) := v.toItems?.bind fun items => items.mapM read
  let named := (members.find? "properties").elim (some []) (named? read)
  let matching := (members.find? "patternProperties").elim (some []) (matching? read)
  match keyword with
  | "type" => one (types? value) .types
  | "const" => some (some (.const value))
  | "enum" => one value.toItems? .enum
  | "minimum" => one (number? value) .minimum
  | "maximum" => one (number? value) .maximum
  | "exclusiveMinimum" => one (number? value) .exclusiveMinimum
  | "exclusiveMaximum" => one (number? value) .exclusiveMaximum
  | "multipleOf" => one (number? value) fun n => .multipleOf n.toDouble
  | "minLength" => one (limit? value) .minLength
  | "maxLength" => one (limit? value) .maxLength
  | "minItems" => one (limit? value) .minItems
  | "maxItems" => one (limit? value) .maxItems
  | "minProperties" => one (limit? value) .minProperties
  | "maxProperties" => one (limit? value) .maxProperties
  | "pattern" => do
      let source ← value.toString?
      let p ← Pattern.parseSchema? source
      some (some (.pattern source p))
  | "format" => one value.toString? .format
  | "contentMediaType" => do
      let name ← value.toString?
      match members.find? "contentEncoding" with
      | some (.string "base64") => some (some (.mediaType name true))
      | some _ => some none
      | none => some (some (.mediaType name false))
  | "contentEncoding" =>
      if (members.find? "contentMediaType").isSome then some none
      else one value.toString? .encoding
  | "required" => one (strings? value) .required
  | "uniqueItems" => if value = .bool true then some (some .uniqueItems) else some none
  | "items" =>
      match value with
      | .array items => one (items.mapM read) .itemsInOrder
      | v => one (read v) .items
  | "additionalItems" =>
      match members.find? "items", value with
      | some (.array items), .bool false => some (some (.noLaterItems items.length))
      | some (.array items), .object _ => one (read value) (.laterItems items.length)
      | _, _ => some none
  | "contains" => one (read value) .contains
  | "properties" =>
      if restrictsOthers (members.find? "additionalProperties") then some none
      else one (named? read value) .properties
  | "patternProperties" =>
      if restrictsOthers (members.find? "additionalProperties") then some none
      else one (matching? read value) .patternProperties
  | "additionalProperties" =>
      match value with
      | .bool false =>
          if (members.find? "properties").isNone ∧ (members.find? "patternProperties").isNone then
            some (some .noProperties)
          else do some (some (.noOtherProperties (← named) (← matching)))
      | .object _ => do some (some (.otherProperties (← named) (← matching) (← read value)))
      | _ => some none
  | "propertyNames" => one (read value) .propertyNames
  | "dependencies" =>
      let dependency (v : Json) : Option Schema :=
        match v with
        | .array _ => (strings? v).map fun names => .requirements [.required names]
        | v => read v
      one (named? dependency value) .dependencies
  | "allOf" => one (schemas value) .allOf
  | "anyOf" => one (schemas value) .anyOf
  | "oneOf" => one (schemas value) .oneOf
  | "not" => one (read value) (.not value)
  | "if" => do
      some (some (.conditional (← read value) (← optional (members.find? "then"))
        (← optional (members.find? "else"))))
  | _ => some none

/-- Reads a schema whose parts are nested no deeper than `depth`. -/
def read? : (depth : Nat) → Json → Option Schema
  | 0, _ => none
  | _ + 1, .bool true => some .accept
  | _ + 1, .bool false => some .refuse
  | depth + 1, .object members =>
      match Members.find? members "$ref" with
      | some (.string target) => some (.reference target)
      | some _ => none
      | none =>
          let rs := members.mapM fun (keyword, value) =>
            requirement? (read? depth) members keyword value
          rs.map fun rs => .requirements (rs.filterMap id)
  | _ + 1, _ => none

def ofJson? (v : Json) : Option Schema :=
  read? (v.size + 1) v

end RequestDispatch.Schema
