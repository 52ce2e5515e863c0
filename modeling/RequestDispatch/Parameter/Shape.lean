import RequestDispatch.Error.Dispatch

/-!
Shapes of bound values, for code that wants them as one typed record. Binding has already
brought every value to its declared type, so a value that does not fit its shape means that
the shape disagrees with the declarations, which is an internal error.
-/

namespace RequestDispatch

inductive Shape where
  /-- A signed integer of 64 bits. -/
  | integer
  | float
  | boolean
  | text
  /-- Null or a value of the shape; as a field, it may be left out. -/
  | optional (shape : Shape)
  | list (item : Shape)
  | record (name : String) (fields : List (String × Shape))

namespace Shape

/-- What a shape is called where another value was found. -/
def expectation : Shape → String
  | .integer => "i64"
  | .float => "f64"
  | .boolean => "a boolean"
  | .text => "a string"
  | .optional shape => shape.expectation
  | .list _ => "a sequence"
  | .record name _ => "struct " ++ name

/-- What a value is called where another shape was expected. -/
def finding : Json → String
  | .null => "null"
  | .bool b => "boolean \x60" ++ (if b then "true" else "false") ++ "\x60"
  | .number (.int n) => "integer \x60" ++ toString n ++ "\x60"
  | .number (.real d) => "floating point \x60" ++ d.json ++ "\x60"
  | .string s => "string " ++ Text.quote s
  | .array _ => "sequence"
  | .object _ => "map"

def mismatch (shape : Shape) (v : Json) : String :=
  "invalid type: " ++ finding v ++ ", expected " ++ shape.expectation

/-- A field that was not given. Only optional ones may be left out. -/
def absent (name : String) : Shape → Except String Json
  | .optional _ => .ok .null
  | _ => .error ("missing field \x60" ++ name ++ "\x60")

/-- The first fault among named results, in the order of some names. -/
def firstFault (results : List (String × Except String Json)) (names : List String) :
    Option String :=
  names.findSome? fun name =>
    match results.lookup name with
    | some (.error fault) => some fault
    | _ => none

/-- Named results as members, with the first fault if there is one. -/
def collect : List (String × Except String Json) → Except String (List (String × Json))
  | [] => .ok []
  | (name, result) :: rest =>
      match result with
      | .error fault => .error fault
      | .ok v => (collect rest).map ((name, v) :: ·)

def tooShort (name : String) (fields size : Nat) : String :=
  "invalid length " ++ toString size ++ ", expected struct " ++ name ++ " with "
    ++ toString fields ++ (if fields = 1 then " element" else " elements")

mutual

def read : Shape → Json → Except String Json
  | .integer, .number (.int n) =>
      if n ≤ Text.maxInt64 then .ok (.ofInt n)
      else .error ("invalid value: integer \x60" ++ toString n ++ "\x60, expected i64")
  | .float, .number n => .ok (.number (.real n.toDouble))
  | .boolean, .bool b => .ok (.bool b)
  | .text, .string s => .ok (.string s)
  | .optional _, .null => .ok .null
  | .optional shape, v => shape.read v
  | .list item, .array items => (items.mapM item.read).map .array
  | .record _ fields, .object members =>
      let results : List (String × Except String Json) := readFields fields members
      match firstFault results (members.map (·.1)) with
      | some fault => .error fault
      | none => (collect results).map Json.ofMembers
  | .record name fields, .array items =>
      match readItems name fields.length fields items 0 with
      | .error fault => .error fault
      | .ok members =>
          if fields.length < items.length then
            .error ("invalid length " ++ toString items.length
              ++ ", expected fewer elements in array")
          else .ok (.ofMembers members)
  | shape, v => .error (shape.mismatch v)

def readFields : List (String × Shape) → Members → List (String × Except String Json)
  | [], _ => []
  | (name, shape) :: rest, members =>
      let result :=
        match members.find? name with
        | some v => shape.read v
        | none => shape.absent name
      (name, result) :: readFields rest members

def readItems (name : String) (total : Nat) :
    List (String × Shape) → List Json → (place : Nat) → Except String (List (String × Json))
  | [], _, _ => .ok []
  | _ :: _, [], place => .error (tooShort name total place)
  | (field, shape) :: rest, v :: items, place =>
      match shape.read v with
      | .error fault => .error fault
      | .ok v => (readItems name total rest items (place + 1)).map ((field, v) :: ·)

end

end Shape

/-- The bound parameters as a value of a shape. -/
def Members.extract (params : Members) (shape : Shape) : Except DispatchError Json :=
  (shape.read (.object params)).mapError fun fault =>
    .internal ["bound parameters do not fit the requested type: " ++ fault]

end RequestDispatch
