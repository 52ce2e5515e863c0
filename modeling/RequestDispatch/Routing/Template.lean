import RequestDispatch.Error.Registration
import RequestDispatch.Text.Blank

/-!
Path templates such as `/users/{id:int}/posts`, where braces enclose a placeholder with an
optional type. Pieces between slashes are the segments; empty pieces do not count, so
`/a//b/` and `/a/b` have the same segments.
-/

namespace RequestDispatch

inductive Segment where
  | literal (text : String)
  | placeholder (name : String) (type : Option ParamType)
deriving DecidableEq, Repr, Inhabited

def Segment.name? : Segment → Option String
  | .literal _ => none
  | .placeholder name _ => some name

/-- A path template with its written form. -/
structure Template where
  raw : String
  segments : List Segment
deriving DecidableEq, Repr, Inhabited

namespace Template

def isNameStart (c : Char) : Bool :=
  c.isAlpha || c == '_'

/-- Whether a text is a placeholder's name: letters, digits and underscores of ASCII, not
beginning with a digit. -/
def isName : List Char → Bool
  | [] => false
  | c :: rest => isNameStart c && rest.all fun d => isNameStart d || d.isDigit

/-- What stands between the braces of a piece that they enclose. -/
def enclosed? : List Char → Option (List Char)
  | '\x7b' :: rest =>
      match rest.getLast? with
      | some '\x7d' => some rest.dropLast
      | _ => none
  | _ => none

/-- The name and type of a placeholder, from what its braces enclose. A colon divides them,
and blanks around either do not count. -/
def readPlaceholder (inner : List Char) : Except TemplateFault (List Char × Option ParamType) :=
  match Text.cut ':' inner with
  | none => .ok (Text.trimChars inner, none)
  | some (name, type) =>
      match ParamType.ofTemplateName? (String.ofList (Text.trimChars type)) with
      | none => .error (.unknownType (String.ofList type) (String.ofList name))
      | some t => .ok (Text.trimChars name, some t)

/-- Reads one piece of a template; `names` are the placeholders before it. -/
def readSegment (names : List String) (piece : List Char) : Except TemplateFault Segment :=
  if !piece.contains '\x7b' && !piece.contains '\x7d' then .ok (.literal (String.ofList piece))
  else
    match enclosed? piece with
    | none => .error (.partialPlaceholder (String.ofList piece))
    | some inner =>
        match readPlaceholder inner with
        | .error fault => .error fault
        | .ok (name, type) =>
            let text := String.ofList name
            if !isName name then .error (.invalidName text)
            else if text ∈ names then .error (.repeatedName text)
            else .ok (.placeholder text type)

def readSegments : List String → List (List Char) → Except TemplateFault (List Segment)
  | _, [] => .ok []
  | names, piece :: rest =>
      match readSegment names piece with
      | .error fault => .error fault
      | .ok segment =>
          (readSegments (names ++ segment.name?.toList) rest).map (segment :: ·)

/-- The non-empty pieces of a path or template between its slashes. -/
def piecesOf (path : String) : List (List Char) :=
  (Text.pieces '/' path.toList).filter (!·.isEmpty)

def parse (raw : String) : Except RegistrationError Template :=
  let result :=
    match raw.toList with
    | '/' :: _ => readSegments [] (piecesOf raw)
    | _ => .error .noLeadingSlash
  match result with
  | .ok segments => .ok ⟨raw, segments⟩
  | .error fault => .error (.invalidTemplate raw fault)

def names (t : Template) : List String :=
  t.segments.filterMap Segment.name?

def typeOf? (t : Template) (name : String) : Option ParamType :=
  t.segments.findSome? fun
    | .placeholder n type => if n = name then type else none
    | .literal _ => none

end Template

end RequestDispatch
