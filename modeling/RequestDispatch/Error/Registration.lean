import RequestDispatch.Http.Request
import RequestDispatch.Parameter.Type

/-!
What can be wrong with a declared application. Every fault is found before the first request
is served.
-/

namespace RequestDispatch

inductive TemplateFault where
  | noLeadingSlash
  | partialPlaceholder (segment : String)
  | unknownType (type name : String)
  | invalidName (name : String)
  | repeatedName (name : String)
deriving DecidableEq, Repr

def TemplateFault.message : TemplateFault → String
  | .noLeadingSlash => "template must start with '/'"
  | .partialPlaceholder segment =>
      "placeholder '" ++ segment ++ "' must span the whole segment"
  | .unknownType type name =>
      "unknown placeholder type '" ++ type ++ "' for '" ++ name ++ "'"
  | .invalidName name => "'" ++ name ++ "' is not a valid parameter name"
  | .repeatedName name => "parameter '" ++ name ++ "' appears twice"

/-- Why an application cannot be built. -/
inductive RegistrationError where
  /-- A path template cannot be read. -/
  | invalidTemplate (template : String) (fault : TemplateFault)
  /-- An earlier route has the same method and a template of the same shape. -/
  | ambiguousRoute (method : Method) (template existing : String)
  /-- A path parameter names no placeholder of the route's template. -/
  | unknownPathParameter (route name : String)
  /-- A name is declared twice in one location by one owner. -/
  | duplicateParameter (owner name : String) (location : Location)
  /-- A pattern is no regular expression. -/
  | invalidPattern (parameter pattern : String)
  /-- A schema cannot be compiled. -/
  | invalidSchema (owner : String)
  /-- References lead back to where they started; the names along the way. -/
  | dependencyCycle (cycle : List String)
  /-- A dependency requires scopes and has no provider to check them. -/
  | missingSecurityProvider (dependency : String)
deriving DecidableEq, Repr

def RegistrationError.kindText : RegistrationError → String
  | .invalidTemplate .. => "InvalidTemplate"
  | .ambiguousRoute .. => "AmbiguousRoute"
  | .unknownPathParameter .. => "UnknownPathParameter"
  | .duplicateParameter .. => "DuplicateParameter"
  | .invalidPattern .. => "InvalidPattern"
  | .invalidSchema _ => "InvalidSchema"
  | .dependencyCycle _ => "DependencyCycle"
  | .missingSecurityProvider _ => "MissingSecurityProvider"

def RegistrationError.message : RegistrationError → String
  | .invalidTemplate template fault =>
      "invalid path template '" ++ template ++ "': " ++ fault.message
  | .ambiguousRoute method template existing =>
      "route " ++ method ++ " " ++ template ++ " is structurally identical to "
        ++ method ++ " " ++ existing
  | .unknownPathParameter route name =>
      "path parameter '" ++ name ++ "' is not a placeholder of route '" ++ route ++ "'"
  | .duplicateParameter owner name location =>
      location.text ++ " parameter '" ++ name ++ "' is declared more than once by '"
        ++ owner ++ "'"
  | .invalidPattern parameter pattern =>
      "parameter '" ++ parameter ++ "' has an invalid pattern '" ++ pattern ++ "'"
  | .invalidSchema owner => "schema of '" ++ owner ++ "' failed to compile"
  | .dependencyCycle cycle => "dependency cycle detected: " ++ " -> ".intercalate cycle
  | .missingSecurityProvider dependency =>
      "dependency '" ++ dependency ++ "' requires scopes but has no security provider"

end RequestDispatch
