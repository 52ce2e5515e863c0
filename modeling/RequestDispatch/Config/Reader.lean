import RequestDispatch.Config.Settings
import RequestDispatch.Config.Size
import RequestDispatch.Yaml.Parser

/-!
Settings from a YAML document. Settings that are not given keep their defaults, unknown ones
are ignored, and one that is given twice or does not fit is an error.
-/

namespace RequestDispatch

namespace Yaml

/-- The text of a scalar, whatever a plain one may otherwise stand for. -/
def text? : Yaml → Option String
  | .scalar _ text => some text
  | _ => none

def bool? : Yaml → Option Bool
  | .scalar true text => boolOfText? text
  | _ => none

def optionalText? : Yaml → Option (Option String)
  | .scalar true text => some (if isNullText text then none else some text)
  | .scalar false text => some (some text)
  | _ => none

/-- Whether digits are no number because of their leading zero. -/
def isPaddedNumber (digits : List Char) : Bool :=
  1 < digits.length && digits.head? = some '0' && digits.all Char.isDigit

/-- The digits of a number in hexadecimal, octal or binary notation, with their base. -/
def notation? : List Char → Option (Nat × List Char)
  | '0' :: 'x' :: digits => some (16, digits)
  | '0' :: 'o' :: digits => some (8, digits)
  | '0' :: 'b' :: digits => some (2, digits)
  | _ => none

/-- The natural number of 64 bits that an unsigned plain scalar stands for. -/
def naturalOfChars? (s : List Char) : Option Nat :=
  let digits (base : Nat) (ds : List Char) : Option Nat :=
    if ds.head? = some '+' ∨ ds.head? = some '-' then none
    else (Text.readNatural base Text.maxUInt64 ds).toOption
  match (notation? s).bind fun (base, ds) => digits base ds with
  | some n => some n
  | none => if isPaddedNumber s then none else digits 10 s

/-- The natural number of 64 bits that a plain scalar stands for, with a sign or without. -/
def natural? (text : String) : Option Nat :=
  match text.toList with
  | '+' :: rest => naturalOfChars? rest
  | '-' :: rest => (naturalOfChars? rest).filter (· = 0)
  | rest => naturalOfChars? rest

/-- The size that a value stands for: the number that a plain scalar stands for, or else the
size that a text is. -/
def size? : Yaml → Option Nat
  | .scalar true text => (natural? text).orElse fun _ => (readSize text).toOption
  | .scalar false text => (readSize text).toOption
  | _ => none

def logFormat? : Yaml → Option LogFormat
  | .scalar _ "json" => some .json
  | .scalar _ "pretty" => some .pretty
  | _ => none

/-- The named entries of a mapping. What is not written at all is a mapping without entries. -/
def fields? : Yaml → Option (List (String × Yaml))
  | .mapping entries => entries.mapM fun (key, value) => key.text?.map (·, value)
  | .scalar true "" => some []
  | _ => none

/-- The value of a field, if it has one; `none` if it has several. -/
def field? (fields : List (String × Yaml)) (name : String) : Option (Option Yaml) :=
  match fields.filter (·.1 == name) with
  | [] => some none
  | [(_, value)] => some (some value)
  | _ => none

def setting? {α : Type} (fields : List (String × Yaml)) (name : String)
    (read : Yaml → Option α) (default : α) : Option α :=
  match field? fields name with
  | none => none
  | some none => some default
  | some (some value) => read value

end Yaml

def LogSettings.ofYaml? (document : Yaml) : Option LogSettings := do
  let fields ← document.fields?
  let base := LogSettings.standard
  let level ← Yaml.setting? fields "level" Yaml.text? base.level
  let format ← Yaml.setting? fields "format" Yaml.logFormat? base.format
  let targetFilter ← Yaml.setting? fields "target_filter" Yaml.optionalText? base.targetFilter
  let includeLocation ← Yaml.setting? fields "include_location" Yaml.bool? base.includeLocation
  some ⟨level, format, targetFilter, includeLocation⟩

def Settings.ofYaml? (document : Yaml) : Option Settings := do
  let fields ← document.fields?
  let base := Settings.standard
  let serviceName ← Yaml.setting? fields "service_name" Yaml.text? base.serviceName
  let maxBodyBytes ← Yaml.setting? fields "max_body_bytes" Yaml.size? base.maxBodyBytes
  let allowHeader ← Yaml.setting? fields "allow_header" Yaml.bool? base.allowHeader
  let log ← Yaml.setting? fields "log" LogSettings.ofYaml? base.log
  some ⟨serviceName, maxBodyBytes, allowHeader, log⟩

inductive SettingsError where
  | unreadableFile (path : String)
  | badFile (path : String)
  | badDocument
  | badSize (text : String)
deriving DecidableEq, Repr

def SettingsError.message : SettingsError → String
  | .unreadableFile path => "failed to read config file " ++ path
  | .badFile path => "failed to parse config file " ++ path
  | .badDocument => "invalid configuration YAML"
  | .badSize text => "invalid FASTROUTE_MAX_BODY_BYTES '" ++ text ++ "'"

namespace Settings

/-- Reads settings from a text, of which one of blanks gives the defaults. -/
def parse (text : String) : Except SettingsError Settings :=
  if (Text.trim text).isEmpty then .ok standard
  else
    match (Yaml.parse? text).bind ofYaml? with
    | some settings => .ok settings
    | none => .error .badDocument

end Settings

abbrev Environment := String → Option String

/-- The log format that a variable names; an unknown one is JSON. -/
def LogFormat.parse (text : String) : LogFormat :=
  if (Text.trim text).toList.map Char.toLower = "pretty".toList then .pretty else .json

def LogSettings.override (log : LogSettings) (env : Environment) : LogSettings :=
  { level := (env "FASTROUTE_LOG_LEVEL").getD log.level
    format := ((env "FASTROUTE_LOG_FORMAT").map LogFormat.parse).getD log.format
    targetFilter := (env "FASTROUTE_LOG_TARGET_FILTER").orElse fun _ => log.targetFilter
    includeLocation :=
      match env "FASTROUTE_LOG_INCLUDE_LOCATION" with
      | some "true" => true
      | some "false" => false
      | _ => log.includeLocation }

namespace Settings

/-- Settings with those of an environment in their place. -/
def override (settings : Settings) (env : Environment) : Except SettingsError Settings :=
  let named : Settings :=
    { settings with
      serviceName := (env "FASTROUTE_SERVICE_NAME").getD settings.serviceName
      log := settings.log.override env }
  match env "FASTROUTE_MAX_BODY_BYTES" with
  | none => .ok named
  | some text =>
      match readSize text with
      | .ok size => .ok { named with maxBodyBytes := size }
      | .error _ => .error (.badSize text)

/-- Settings from a file, whose text is absent when it cannot be read, and an environment. -/
def load (path : String) (content : Option String) (env : Environment) :
    Except SettingsError Settings :=
  match content with
  | none => .error (.unreadableFile path)
  | some text =>
      match parse text with
      | .error _ => .error (.badFile path)
      | .ok settings => settings.override env

end Settings

end RequestDispatch
