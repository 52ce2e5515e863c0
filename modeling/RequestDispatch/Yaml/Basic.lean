/-!
Values of YAML documents and the places in their text. Scalars keep their text, and whether
they were written without quotes; only then may they stand for something else than a text.
-/

namespace RequestDispatch

inductive Yaml where
  | scalar (plain : Bool) (text : String)
  | sequence (items : List Yaml)
  | mapping (entries : List (Yaml × Yaml))
deriving Inhabited

namespace Yaml

/-- The value that is not written at all. -/
def nothing : Yaml := .scalar true ""

def isNullText (text : String) : Bool :=
  text = "" || text = "~" || text = "null" || text = "Null" || text = "NULL"

def boolOfText? (text : String) : Option Bool :=
  if text = "true" ∨ text = "True" ∨ text = "TRUE" then some true
  else if text = "false" ∨ text = "False" ∨ text = "FALSE" then some false
  else none

/-- A place in a document: the text from there on, and the column. -/
structure Cursor where
  rest : List Char
  column : Nat

def Cursor.next (c : Cursor) : Cursor :=
  ⟨c.rest.tail, c.column + 1⟩

/-- A stretch of blanks, line ends and comments. -/
structure Gap where
  cursor : Cursor
  breaks : Nat
  /-- A tab stands among the blanks that indent the last line. -/
  tab : Bool
  comment : Bool

/-- Skips blanks, line ends and comments from a column on. A comment begins behind a blank;
`inside` tells that one has begun. -/
def skipGap (gap : Gap) (blank inside : Bool) (column : Nat) : List Char → Gap
  | [] => { gap with cursor := ⟨[], column⟩ }
  | c :: rest =>
      if c = '\n' then
        skipGap { gap with breaks := gap.breaks + 1, tab := false } true false 0 rest
      else if inside then skipGap gap blank true (column + 1) rest
      else if c = ' ' then skipGap gap true false (column + 1) rest
      else if c = '\t' then
        skipGap { gap with tab := gap.tab || 0 < gap.breaks } true false (column + 1) rest
      else if c = '#' ∧ blank then
        skipGap { gap with comment := true } blank true (column + 1) rest
      else { gap with cursor := ⟨c :: rest, column⟩ }

/-- The stretch that begins at a cursor. The character before it is a blank or not. -/
def Cursor.gap (c : Cursor) (blank : Bool) : Gap :=
  skipGap ⟨c, 0, false, false⟩ blank false c.column c.rest

/-- Whether what follows an indicator separates it from what comes next. -/
def isSeparator : List Char → Bool
  | [] => true
  | c :: _ => c = ' ' || c = '\t' || c = '\n'

def isFlowIndicator (c : Char) : Bool :=
  c = ',' || c = '[' || c = ']' || c = '\x7b' || c = '\x7d'

def isMarker (c : Cursor) : Bool :=
  c.column = 0 &&
    match c.rest with
    | '-' :: '-' :: '-' :: rest => isSeparator rest
    | '.' :: '.' :: '.' :: rest => isSeparator rest
    | _ => false

/-- Whether a colon here ends a key. Inside a flow collection, an indicator may follow. -/
def endsKey (flow : Bool) : List Char → Bool
  | ':' :: rest =>
      isSeparator rest || (flow && (rest.head?.map isFlowIndicator).getD false)
  | _ => false

end Yaml

end RequestDispatch
