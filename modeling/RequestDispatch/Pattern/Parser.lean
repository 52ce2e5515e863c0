import RequestDispatch.Pattern.Basic
import RequestDispatch.Pattern.Property
import RequestDispatch.Text.Integer

/-!
Reading regular expressions. The notation has alternatives, groups with flags and names,
counted repetitions, classes with nesting and set operations, and character properties. Look
at the text around is a notation of its own: patterns of parameters have none, patterns of
schemas do.
-/

namespace RequestDispatch.Pattern

structure Flags where
  ignoreCase : Bool
  multiLine : Bool
  dotMatchesAll : Bool
  verbose : Bool
  unicode : Bool

/-- No flag set, and classes that reach beyond ASCII. -/
def Flags.initial : Flags :=
  ⟨false, false, false, false, true⟩

/-- What is known while an expression is read: whether looking around is allowed, the flags,
and the names of groups so far. -/
structure Context where
  lookAround : Bool
  flags : Flags
  names : List String

def Flags.fold (f : Flags) (set : CharSet) : CharSet :=
  if f.ignoreCase then .folded set else set

/-- Skips blanks and comments where the verbose flag is set. -/
def skipVerbose (f : Flags) : (fuel : Nat) → List Char → List Char
  | 0, cs => cs
  | _ + 1, [] => []
  | fuel + 1, c :: rest =>
      if !f.verbose then c :: rest
      else if Text.isBlank c then skipVerbose f fuel rest
      else if c = '#' then skipVerbose f fuel ((rest.dropWhile (· != '\n')).drop 1)
      else c :: rest

def Flags.skip (f : Flags) (cs : List Char) : List Char :=
  skipVerbose f (cs.length + 1) cs

def readNumber? (cs : List Char) : Option (Nat × List Char) :=
  let digits := cs.takeWhile Char.isDigit
  if digits.isEmpty then none
  else
    some (digits.foldl (fun n c => n * 10 + (c.toNat - '0'.toNat)) 0, cs.dropWhile Char.isDigit)

/-- The bounds of a counted repetition, after its opening brace. -/
def readBounds? (cs : List Char) : Option (Nat × Option Nat × List Char) := do
  let (least, rest) ← readNumber? (cs.dropWhile Text.isBlank)
  match rest.dropWhile Text.isBlank with
  | '\x7d' :: rest => some (least, some least, rest)
  | ',' :: rest =>
      match rest.dropWhile Text.isBlank with
      | '\x7d' :: rest => some (least, none, rest)
      | rest =>
          let (most, rest) ← readNumber? rest
          match rest.dropWhile Text.isBlank with
          | '\x7d' :: rest => if least ≤ most then some (least, some most, rest) else none
          | _ => none
  | _ => none

/-- The preference for few rounds makes no difference to what matches. -/
def skipPreference : List Char → List Char
  | '?' :: rest => rest
  | rest => rest

def readRepetitions (f : Flags) : (fuel : Nat) → Pattern → List Char → Option (Pattern × List Char)
  | 0, _, _ => none
  | fuel + 1, p, cs =>
      match f.skip cs with
      | '*' :: rest => readRepetitions f fuel (.rounds p 0 none) (skipPreference rest)
      | '+' :: rest => readRepetitions f fuel (.rounds p 1 none) (skipPreference rest)
      | '?' :: rest => readRepetitions f fuel (.rounds p 0 (some 1)) (skipPreference rest)
      | '\x7b' :: rest => do
          let (least, most, rest) ← readBounds? rest
          readRepetitions f fuel (.rounds p least most) (skipPreference rest)
      | rest => some (p, rest)

def charOfNat? (n : Nat) : Option Char :=
  if n < 0xD800 ∨ (0xDFFF < n ∧ n < 0x110000) then some (Char.ofNat n) else none

def hexValue? (cs : List Char) : Option Nat :=
  cs.foldlM (fun n c => (Text.digit? 16 c).map (n * 16 + ·)) 0

/-- A character by number: digits in braces, or a fixed number of digits. -/
def readCode? (size : Nat) (cs : List Char) : Option (Char × List Char) :=
  match cs with
  | '\x7b' :: rest => do
      let (digits, rest) ← Text.cut '\x7d' rest
      if digits.isEmpty ∨ 8 < digits.length then none
      else
        let n ← hexValue? digits
        let c ← charOfNat? n
        some (c, rest)
  | _ => do
      if cs.length < size then none
      else
        let n ← hexValue? (cs.take size)
        let c ← charOfNat? n
        some (c, cs.drop size)

/-- The name of a property, after its letter: one character or a name in braces, negated by a
circumflex. -/
def readProperty? (cs : List Char) : Option (CharSet × List Char) :=
  match cs with
  | '\x7b' :: rest => do
      let (name, rest) ← Text.cut '\x7d' rest
      match name with
      | '^' :: name =>
          let set ← CharSet.property? (String.ofList name)
          some (.complement set, rest)
      | name =>
          let set ← CharSet.property? (String.ofList name)
          some (set, rest)
  | c :: rest => do
      let set ← CharSet.property? (String.ofList [c])
      some (set, rest)
  | [] => none

inductive Escape where
  | char (c : Char)
  | set (set : CharSet)
  | assertion (p : Pattern)

/-- The characters that stand for themselves after a backslash: all of ASCII but letters,
digits and angle brackets. -/
def isEscapable (c : Char) : Bool :=
  c.toNat < 0x80 && !c.isAlphanum && c != '<' && c != '>'

def readEscape? (f : Flags) (cs : List Char) : Option (Escape × List Char) :=
  let digit := if f.unicode then CharSet.digit else .range '0' '9'
  let word := if f.unicode then CharSet.word else .asciiWord
  let blanks := if f.unicode then CharSet.blank
    else .ofRanges [(0x09, 0x0D), (0x20, 0x20)]
  match cs with
  | [] => none
  | c :: rest =>
      match c with
      | 'd' => some (.set digit, rest)
      | 'D' => some (.set (.complement digit), rest)
      | 'w' => some (.set word, rest)
      | 'W' => some (.set (.complement word), rest)
      | 's' => some (.set blanks, rest)
      | 'S' => some (.set (.complement blanks), rest)
      | 'p' => (readProperty? rest).map fun (set, rest) => (.set set, rest)
      | 'P' => (readProperty? rest).map fun (set, rest) => (.set (.complement set), rest)
      | 'a' => some (.char '\x07', rest)
      | 'f' => some (.char '\x0c', rest)
      | 't' => some (.char '\t', rest)
      | 'n' => some (.char '\n', rest)
      | 'r' => some (.char '\r', rest)
      | 'v' => some (.char '\x0b', rest)
      | 'x' => (readCode? 2 rest).map fun (c, rest) => (.char c, rest)
      | 'u' => (readCode? 4 rest).map fun (c, rest) => (.char c, rest)
      | 'U' => (readCode? 8 rest).map fun (c, rest) => (.char c, rest)
      | 'b' => some (.assertion .wordBoundary, rest)
      | 'B' => some (.assertion .notWordBoundary, rest)
      | 'A' => some (.assertion .textStart, rest)
      | 'z' => some (.assertion .textEnd, rest)
      | '<' => some (.assertion .wordStart, rest)
      | '>' => some (.assertion .wordEnd, rest)
      | c => if isEscapable c then some (.char c, rest) else none

/-- A member of a class: a character, which may begin a range, or a set. -/
inductive ClassItem where
  | char (c : Char)
  | set (set : CharSet)

def ClassItem.toSet : ClassItem → CharSet
  | .char c => .single c
  | .set s => s

def readClassItem? (f : Flags) (cs : List Char) : Option (ClassItem × List Char) :=
  match cs with
  | [] => none
  | '\\' :: rest =>
      match readEscape? f rest with
      | some (.char c, rest) => some (.char c, rest)
      | some (.set set, rest) => some (.set set, rest)
      | _ => none
  | c :: rest => some (.char c, rest)

/-- A class of ASCII such as `[:alpha:]`, after its opening bracket. -/
def readAsciiClass? (cs : List Char) : Option (CharSet × List Char) :=
  match cs with
  | ':' :: rest =>
      let (negated, rest) :=
        match rest with
        | '^' :: rest => (true, rest)
        | rest => (false, rest)
      match Text.cut ':' rest with
      | some (name, ']' :: rest) =>
          (CharSet.asciiClass? (String.ofList name)).map fun set =>
            (if negated then .complement set else set, rest)
      | _ => none
  | _ => none

inductive SetOperation where
  | intersection
  | difference
  | symmetricDifference

def SetOperation.apply : SetOperation → CharSet → CharSet → CharSet
  | .intersection, a, b => .inter a b
  | .difference, a, b => .difference a b
  | .symmetricDifference, a, b => .symmetricDifference a b

/-- The sets of a class read so far: what stands before the last operation, and the union
that is being read. -/
structure ClassState where
  before : Option (CharSet × SetOperation)
  union : List CharSet

def ClassState.value (s : ClassState) : CharSet :=
  let union := CharSet.unions s.union.reverse
  match s.before with
  | none => union
  | some (set, op) => op.apply set union

def ClassState.operate (s : ClassState) (op : SetOperation) : ClassState :=
  ⟨some (s.value, op), []⟩

def ClassState.add (s : ClassState) (set : CharSet) : ClassState :=
  { s with union := set :: s.union }

/-- The hyphens at the front of a class, and a closing bracket there, stand for themselves. -/
def readClassFront (f : Flags) : List Char → List CharSet → List CharSet × List Char
  | '-' :: rest, sets => readClassFront f rest (.single '-' :: sets)
  | ']' :: rest, [] => ([.single ']'], rest)
  | rest, sets => (sets, rest)

mutual

def readClass? (f : Flags) : (fuel : Nat) → List Char → Option (CharSet × List Char)
  | 0, _ => none
  | fuel + 1, cs =>
      let (negated, cs) :=
        match f.skip cs with
        | '^' :: rest => (true, f.skip rest)
        | rest => (false, rest)
      let (front, cs) := readClassFront f cs []
      match readClassItems? f fuel ⟨none, front⟩ cs with
      | none => none
      | some (set, rest) => some (if negated then .complement set else set, rest)

def readClassItems? (f : Flags) :
    (fuel : Nat) → ClassState → List Char → Option (CharSet × List Char)
  | 0, _, _ => none
  | fuel + 1, s, cs =>
      match f.skip cs with
      | [] => none
      | ']' :: rest => some (s.value, rest)
      | '&' :: '&' :: rest => readClassItems? f fuel (s.operate .intersection) rest
      | '-' :: '-' :: rest => readClassItems? f fuel (s.operate .difference) rest
      | '~' :: '~' :: rest => readClassItems? f fuel (s.operate .symmetricDifference) rest
      | '[' :: rest =>
          match readAsciiClass? rest with
          | some (set, rest) => readClassItems? f fuel (s.add (f.fold set)) rest
          | none =>
              match readClass? f fuel rest with
              | some (set, rest) => readClassItems? f fuel (s.add set) rest
              | none => none
      | cs =>
          match readClassItem? f cs with
          | none => none
          | some (item, rest) =>
              match f.skip rest with
              | '-' :: ']' :: _ | '-' :: '-' :: _ =>
                  readClassItems? f fuel (s.add (f.fold item.toSet)) rest
              | '-' :: rest =>
                  match item, readClassItem? f (f.skip rest) with
                  | .char low, some (.char high, rest) =>
                      if low ≤ high then
                        readClassItems? f fuel (s.add (f.fold (.range low high))) rest
                      else none
                  | _, _ => none
              | rest => readClassItems? f fuel (s.add (f.fold item.toSet)) rest

end

/-- The name of a group: letters, digits, underscores, dots and brackets, not beginning with
a digit, a dot or a bracket. -/
def isGroupName : List Char → Bool
  | [] => false
  | c :: rest =>
      (c == '_' || CharSet.alphabetic.contains c)
        && rest.all fun d =>
          d == '_' || d == '.' || d == '[' || d == ']' || CharSet.alphabetic.contains d
            || CharSet.digit.contains d

/-- Sets flags by their letters; a hyphen turns to clearing the flags that follow. -/
def readFlags? : Bool → Flags → List Char → Option (Flags × List Char)
  | _, _, [] => none
  | on, f, c :: rest =>
      match c with
      | 'i' => readFlags? on { f with ignoreCase := on } rest
      | 'm' => readFlags? on { f with multiLine := on } rest
      | 's' => readFlags? on { f with dotMatchesAll := on } rest
      | 'x' => readFlags? on { f with verbose := on } rest
      | 'u' => readFlags? on { f with unicode := on } rest
      | 'U' => readFlags? on f rest
      | 'R' => readFlags? on f rest
      | '-' => if on then readFlags? false f rest else none
      | c => if c = ')' ∨ c = ':' then some (f, c :: rest) else none

inductive GroupOpening where
  | group (name : Option String) (flags : Flags)
  | flags (flags : Flags)
  | ahead (negated : Bool)
  | behind (negated : Bool)

def readGroupName? (ctx : Context) (cs : List Char) : Option (GroupOpening × List Char) := do
  let (name, rest) ← Text.cut '>' cs
  let text := String.ofList name
  if isGroupName name && !ctx.names.contains text then
    some (.group (some text) ctx.flags, rest)
  else none

def readOpening? (ctx : Context) (cs : List Char) : Option (GroupOpening × List Char) :=
  match cs with
  | '?' :: rest =>
      match rest with
      | ':' :: rest => some (.group none ctx.flags, rest)
      | '=' :: rest => if ctx.lookAround then some (.ahead false, rest) else none
      | '!' :: rest => if ctx.lookAround then some (.ahead true, rest) else none
      | '<' :: '=' :: rest => if ctx.lookAround then some (.behind false, rest) else none
      | '<' :: '!' :: rest => if ctx.lookAround then some (.behind true, rest) else none
      | '>' :: rest => if ctx.lookAround then some (.group none ctx.flags, rest) else none
      | 'P' :: '<' :: rest => readGroupName? ctx rest
      | '<' :: rest => readGroupName? ctx rest
      | rest =>
          match readFlags? true ctx.flags rest with
          | some (flags, ':' :: after) => some (.group none flags, after)
          | some (flags, ')' :: after) =>
              if rest.head? = some ')' then none else some (.flags flags, after)
          | _ => none
  | _ => some (.group none ctx.flags, cs)

def ofItems (items : List Pattern) : Pattern :=
  items.foldl (fun later item => match later with
    | .empty => item
    | later => .seq item later) .empty

mutual

/-- Reads alternatives up to a closing parenthesis or the end. -/
def readAlternatives? : (fuel : Nat) → Context → List Char →
    Option (Pattern × Context × List Char)
  | 0, _, _ => none
  | fuel + 1, ctx, cs =>
      match readSequence? fuel ctx [] cs with
      | none => none
      | some (p, ctx, '|' :: rest) =>
          match readAlternatives? fuel ctx rest with
          | none => none
          | some (q, ctx, rest) => some (.alt p q, ctx, rest)
      | some (p, ctx, rest) => some (p, ctx, rest)

/-- Reads the items of a sequence; `items` are those read before, the newest first. -/
def readSequence? : (fuel : Nat) → Context → List Pattern → List Char →
    Option (Pattern × Context × List Char)
  | 0, _, _, _ => none
  | fuel + 1, ctx, items, cs =>
      let proceed (ctx : Context) (p : Pattern) (rest : List Char) :=
        match readRepetitions ctx.flags (rest.length + 1) p rest with
        | none => none
        | some (p, rest) => readSequence? fuel ctx (p :: items) rest
      match ctx.flags.skip cs with
      | [] => some (ofItems items, ctx, [])
      | '|' :: rest => some (ofItems items, ctx, '|' :: rest)
      | ')' :: rest => some (ofItems items, ctx, ')' :: rest)
      | '*' :: _ | '+' :: _ | '?' :: _ | '\x7b' :: _ => none
      | '(' :: rest =>
          match readOpening? ctx rest with
          | none => none
          | some (.flags flags, rest) =>
              match ctx.flags.skip rest with
              | '*' :: _ | '+' :: _ | '?' :: _ | '\x7b' :: _ => none
              | rest => readSequence? fuel { ctx with flags := flags } items rest
          | some (opening, rest) =>
              let inner : Context :=
                match opening with
                | .group (some name) flags =>
                    { ctx with flags := flags, names := name :: ctx.names }
                | .group none flags => { ctx with flags := flags }
                | _ => ctx
              match readAlternatives? fuel inner rest with
              | some (p, after, ')' :: rest) =>
                  let p : Pattern :=
                    match opening with
                    | .ahead negated => .ahead negated p
                    | .behind negated => .behind negated p
                    | _ => p
                  proceed { ctx with names := after.names } p rest
              | _ => none
      | '[' :: rest =>
          match readClass? ctx.flags (rest.length + 2) rest with
          | none => none
          | some (set, rest) => proceed ctx (.char set) rest
      | '.' :: rest =>
          proceed ctx
            (.char (if ctx.flags.dotMatchesAll then .all else .complement (.single '\n'))) rest
      | '^' :: rest => proceed ctx (if ctx.flags.multiLine then .lineStart else .textStart) rest
      | '$' :: rest => proceed ctx (if ctx.flags.multiLine then .lineEnd else .textEnd) rest
      | '\\' :: rest =>
          match readEscape? ctx.flags rest with
          | none => none
          | some (.char c, rest) => proceed ctx (.char (ctx.flags.fold (.single c))) rest
          | some (.set set, rest) => proceed ctx (.char (ctx.flags.fold set)) rest
          | some (.assertion p, rest) => proceed ctx p rest
      | c :: rest => proceed ctx (.char (ctx.flags.fold (.single c))) rest

end

/-- Reads an expression in a notation with or without looking around. -/
def read? (lookAround : Bool) (s : List Char) : Option Pattern :=
  match readAlternatives? (2 * s.length + 2) ⟨lookAround, .initial, []⟩ s with
  | some (p, _, []) => some p
  | _ => none

/-- Reads an expression that does not look around. The notation is followed with these
exceptions: only the scripts of `CharSet.scripts` are known, by their main blocks; case is
ignored only where `CharSet.otherCase` knows it; the flags `R` and `U` are read, but a carriage
return never ends a line; word boundaries have no forms in braces; and the size of an
expression is not limited. -/
def parse? (s : String) : Option Pattern :=
  read? false s.toList

/-- The digit, word and blank classes of schemas, which stay within fixed sets. -/
def schemaClass? (c : Char) : Option String :=
  match c with
  | 'd' => some "[0-9]"
  | 'D' => some "[^0-9]"
  | 'w' => some "[A-Za-z0-9_]"
  | 'W' => some "[^A-Za-z0-9_]"
  | 's' => some "[ \t\n\r\x0b\x0c\u2003\ufeff\u00a0]"
  | 'S' => some "[^ \t\n\r\x0b\x0c\u2003\ufeff\u00a0]"
  | _ => none

/-- Replaces the classes of schemas, and control characters written as `\cX`. -/
def expandSchemaClasses : List Char → List Char
  | '\\' :: 'c' :: x :: rest =>
      if x.isAlpha then
        Char.ofNat (x.toUpper.toNat - 0x40) :: expandSchemaClasses rest
      else '\\' :: 'c' :: x :: expandSchemaClasses rest
  | '\\' :: c :: rest =>
      match schemaClass? c with
      | some class_ => class_.toList ++ expandSchemaClasses rest
      | none => '\\' :: c :: expandSchemaClasses rest
  | c :: rest => c :: expandSchemaClasses rest
  | [] => []

/-- Reads an expression of a schema, which may look around. Beside the exceptions of `parse?`, there
are no references back to groups. -/
def parseSchema? (s : String) : Option Pattern :=
  read? true (expandSchemaClasses s.toList)

end RequestDispatch.Pattern
