import RequestDispatch.Config.Settings
import RequestDispatch.Decimal.Reader
import RequestDispatch.Pattern.Parser
import RequestDispatch.Text.Category
import RequestDispatch.Text.Integer
import RequestDispatch.Text.Split

/-!
Log filters: directives such as `info`, `service::router=debug` or `[span]=trace`, separated
by commas. A filter is refused when its level has a directive that cannot be read; further
directives that cannot be read are passed over. What is decided here is whether a text is a
directive, not what it lets through.
-/

namespace RequestDispatch.LogFilter

def levelNames : List String := ["error", "warn", "info", "debug", "trace", "off"]

/-- Whether a text names a level: a word in any case, a number up to five, or nothing. -/
def isLevel (text : List Char) : Bool :=
  match Text.readNatural 10 Text.maxUInt64 text with
  | .ok n => n ≤ 5
  | .error _ => text.isEmpty || levelNames.contains (String.ofList (text.map Char.toLower))

def isStart (c : Char) : Bool :=
  c = '-' || c = ':' || c = '_' || c.isAlphanum
    || match Text.category c with
      | .uppercaseLetter | .lowercaseLetter | .titlecaseLetter | .modifierLetter | .otherLetter
      | .decimalNumber | .letterNumber | .otherNumber => 0x80 ≤ c.toNat
      | _ => false

/-- Whether a text is a field with an optional value, which is a number or a pattern. -/
def isField (text : List Char) : Bool :=
  !text.isEmpty &&
    match Text.pieces '=' text with
    | _ :: value :: _ =>
        let value := String.ofList value
        (Decimal.read? value).isSome || (Pattern.parse? value).isSome
    | _ => true

/-- Where a reader of a directive is. Places are counted in the text without blanks at its
ends. -/
inductive Place where
  | start
  | name
  | span
  /-- In a field that began at a place. -/
  | field (origin : Nat)
  | fields
  | target
  /-- In a level that began at a place. -/
  | level (origin : Nat)

/-- The place behind a character at `i`, if it may stand there. Texts of fields are taken
from `text`. -/
def Place.next? (text : List Char) (i : Nat) (c : Char) : Place → Option Place
  | .start => if c = '[' then some .span else if isStart c then some .name else none
  | .name =>
      if c = '=' then some (.level (i + 1)) else if c = '[' then some .span else some .name
  | .span =>
      if c = ']' then some .target else if c = '\x7b' then some (.field (i + 1)) else some .span
  | .field origin =>
      if c = '\x7d' then
        if isField ((text.drop origin).take (i - origin)) then some .fields else none
      else some (.field origin)
  | .fields => if c = ']' then some .target else none
  | .target => if c = '=' then some (.level (i + 1)) else none
  | .level origin => some (.level origin)

def walk (text : List Char) : (i : Nat) → Place → List Char → Option Place
  | _, place, [] => some place
  | i, place, c :: rest =>
      match place.next? text i c with
      | some place => walk text (i + 1) place rest
      | none => none

/-- Whether a text is a directive. Blanks at its ends are skipped by the reader, but they
count where a level is taken from the text. -/
def isDirective (text : List Char) : Bool :=
  match walk text 0 .start (Text.trimChars text) with
  | some .name => true
  | some .target => true
  | some (.level origin) => (text.drop origin).isEmpty || isLevel (text.drop origin)
  | _ => false

def isFilter (level : String) : Bool :=
  ((Text.pieces ',' level.toList).filter fun piece => !piece.isEmpty).all isDirective

end RequestDispatch.LogFilter

namespace RequestDispatch

inductive LogError where
  | badLevel (level : String)
  | alreadySet
deriving DecidableEq, Repr

def LogError.message : LogError → String
  | .badLevel level => "invalid log level '" ++ level ++ "'"
  | .alreadySet => "Failed to initialize logging"

namespace LogSettings

/-- The directives of the filter that these settings describe: those of the level, and the
further ones that can be read. -/
def directives (log : LogSettings) : Except LogError (List String) :=
  if LogFilter.isFilter log.level then
    let base := (Text.pieces ',' log.level.toList).filter fun piece => !piece.isEmpty
    let more := (log.targetFilter.elim [] fun filter => Text.pieces ',' filter.toList).map
      Text.trimChars
    .ok ((base ++ more.filter LogFilter.isDirective).map String.ofList)
  else .error (.badLevel log.level)

/-- Sets up the log of a process, which can be done once. -/
def init (log : LogSettings) (alreadySet : Bool) : Except LogError (List String) :=
  match log.directives with
  | .error e => .error e
  | .ok directives => if alreadySet then .error .alreadySet else .ok directives

end LogSettings

end RequestDispatch
