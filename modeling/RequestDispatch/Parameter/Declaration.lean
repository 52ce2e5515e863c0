import RequestDispatch.Error.Registration
import RequestDispatch.Pattern.Parser
import RequestDispatch.Schema.Validator

/-!
Declarations of parameters: what is read from a request, under which name, as which type and
with which constraints. Compiling a declaration reads its pattern and its schema once.
-/

namespace RequestDispatch

/-- What a value has to meet after it has its type. -/
structure Constraints where
  gt : Option Extended
  ge : Option Extended
  lt : Option Extended
  le : Option Extended
  /-- Characters of a text, items of a list. -/
  minLength : Option Nat
  maxLength : Option Nat
  pattern : Option String
deriving DecidableEq

def Constraints.unconstrained : Constraints :=
  ⟨none, none, none, none, none, none, none⟩

structure Parameter where
  /-- The name under which the value is handed on. -/
  name : String
  /-- The name under which the value is looked up instead. -/
  publicName : Option String
  location : Location
  type : ParamType
  required : Bool
  default : Option Json
  constraints : Constraints
  schema : Option Json
  /-- The body has to be an object with this parameter as a member. -/
  embed : Bool
  /-- Underscores of the name are hyphens in the name of a header. -/
  convertUnderscores : Bool

namespace Parameter

def ofType (name : String) (location : Location) (type : ParamType) : Parameter :=
  { name, location, type, publicName := none, required := true, default := none,
    constraints := .unconstrained, schema := none, embed := false, convertUnderscores := true }

/-- A member of the body of any shape. -/
def ofBody (name : String) : Parameter :=
  ofType name .body .json

def optional (p : Parameter) : Parameter :=
  { p with required := false }

def withDefault (p : Parameter) (value : Json) : Parameter :=
  { p with default := some value, required := false }

def lookupKey (p : Parameter) : String :=
  match p.publicName with
  | some name => name
  | none =>
      if p.location = .header ∧ p.convertUnderscores then
        String.ofList (p.name.toList.map fun c => if c = '_' then '-' else c)
      else p.name

end Parameter

/-- A declaration with its pattern and schema read. -/
structure CompiledParameter where
  declared : Parameter
  key : String
  pattern : Option Pattern
  validator : Option Validator

namespace Parameter

def compilePattern (p : Parameter) (owner : String) :
    Except RegistrationError (Option Pattern) :=
  match p.constraints.pattern with
  | none => .ok none
  | some source =>
      match Pattern.parse? source with
      | some pattern => .ok (some pattern)
      | none => .error (.invalidPattern (owner ++ "." ++ p.name) source)

def compileSchema (p : Parameter) (owner : String) :
    Except RegistrationError (Option Validator) :=
  match p.schema with
  | none => .ok none
  | some document =>
      match Validator.compile? document with
      | some validator => .ok (some validator)
      | none => .error (.invalidSchema (owner ++ "." ++ p.name))

def compile (p : Parameter) (owner : String) : Except RegistrationError CompiledParameter :=
  match p.compilePattern owner with
  | .error e => .error e
  | .ok pattern =>
      match p.compileSchema owner with
      | .error e => .error e
      | .ok validator => .ok ⟨p, p.lookupKey, pattern, validator⟩

/-- Compiles the declarations of one owner. A name may occur once in each location, which is
judged before anything else about a parameter; `permit` may refuse it for other reasons. -/
def compileAll (owner : String) (permit : Parameter → Except RegistrationError Unit) :
    (seen : List (Location × String)) → List Parameter →
      Except RegistrationError (List CompiledParameter)
  | _, [] => .ok []
  | seen, p :: rest =>
      if (p.location, p.name) ∈ seen then .error (.duplicateParameter owner p.name p.location)
      else
        match permit p with
        | .error e => .error e
        | .ok () =>
            match p.compile owner with
            | .error e => .error e
            | .ok compiled =>
                (compileAll owner permit ((p.location, p.name) :: seen) rest).map (compiled :: ·)

end Parameter

end RequestDispatch
