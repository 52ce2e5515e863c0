/-!
Settings of a service. Every setting has a default.
-/

namespace RequestDispatch

inductive LogFormat where
  | json
  | pretty
deriving DecidableEq, Repr

def LogFormat.text : LogFormat → String
  | .json => "json"
  | .pretty => "pretty"

structure LogSettings where
  /-- The least grave level that is logged, or a list of filter directives. -/
  level : String
  format : LogFormat
  /-- Further filter directives. -/
  targetFilter : Option String
  includeLocation : Bool
deriving DecidableEq, Repr

def LogSettings.standard : LogSettings :=
  { level := "info", format := .json, targetFilter := none, includeLocation := false }

structure Settings where
  serviceName : String
  /-- The greatest length of a body that is accepted; zero is no limit. -/
  maxBodyBytes : Nat
  /-- Whether the permitted methods are listed when a method is not. -/
  allowHeader : Bool
  log : LogSettings
deriving DecidableEq, Repr

def Settings.standard : Settings :=
  { serviceName := "fastroute", maxBodyBytes := 1048576, allowHeader := true,
    log := .standard }

end RequestDispatch
