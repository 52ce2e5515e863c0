import RequestDispatch.Text.Integer
import RequestDispatch.Yaml.Basic

/-!
Scalars of YAML documents: plain, in single or double quotes, and in blocks of lines. Lines
within a scalar are folded: a line end is a space, and further ones stay.
-/

namespace RequestDispatch.Yaml

/-- What stands for a number of line ends inside a scalar. -/
def fold (breaks : Nat) : List Char :=
  if breaks = 1 then [' '] else List.replicate (breaks - 1) '\n'

structure Scanned where
  text : List Char
  cursor : Cursor
  /-- It goes over more than one line. -/
  multiline : Bool

def dropTrailing (cs : List Char) : List Char :=
  (cs.reverse.dropWhile fun c => c = ' ' || c = '\t').reverse

def plainLine (flow : Bool) : (blank : Bool) → List Char → List Char
  | _, [] => []
  | blank, c :: rest =>
      if c = '\n' ∨ (c = '#' ∧ blank) ∨ (flow ∧ isFlowIndicator c) ∨ endsKey flow (c :: rest)
      then []
      else c :: plainLine flow (c = ' ' || c = '\t') rest

/-- Reads a plain scalar. In a block, its further lines begin at the column `least` or behind
it. Every step reads a line. -/
def plain (flow : Bool) (least : Nat) : (steps : Nat) → Cursor → Scanned
  | 0, c => ⟨[], c, false⟩
  | steps + 1, c =>
      let line := dropTrailing (plainLine flow false c.rest)
      let stop : Cursor := ⟨c.rest.drop line.length, c.column + line.length⟩
      let done : Scanned := ⟨line, stop, false⟩
      let gap := stop.gap false
      match gap.cursor.rest with
      | [] => done
      | next :: _ =>
          if gap.breaks = 0 ∨ gap.comment ∨ gap.tab ∨ isMarker gap.cursor
              ∨ (!flow ∧ gap.cursor.column < least) ∨ (flow ∧ isFlowIndicator next) then done
          else
            let more := plain flow least steps gap.cursor
            if more.text.isEmpty then done
            else ⟨line ++ fold gap.breaks ++ more.text, more.cursor, true⟩

def escape? : Char → Option Char
  | '0' => some '\x00'
  | 'a' => some '\x07'
  | 'b' => some '\x08'
  | 't' => some '\t'
  | '\t' => some '\t'
  | 'n' => some '\n'
  | 'v' => some '\x0b'
  | 'f' => some '\x0c'
  | 'r' => some '\r'
  | 'e' => some '\x1b'
  | ' ' => some ' '
  | '"' => some '"'
  | '/' => some '/'
  | '\\' => some '\\'
  | 'N' => some '\u0085'
  | '_' => some '\u00a0'
  | 'L' => some '\u2028'
  | 'P' => some '\u2029'
  | _ => none

def escapeDigits : Char → Nat
  | 'x' => 2
  | 'u' => 4
  | 'U' => 8
  | _ => 0

def charOfHex? (digits : List Char) : Option Char :=
  match digits.mapM (Text.digit? 16) with
  | some values =>
      let n := values.foldl (fun n d => n * 16 + d) 0
      if n.isValidChar then some (Char.ofNat n) else none
  | none => none

/-- Reads what follows the opening quote of a scalar; `read` holds the text so far, backwards.
Every step reads a character or a stretch of line ends. -/
def quoted (double : Bool) : (steps : Nat) → (read : List Char) → (multiline : Bool) →
    Cursor → Option Scanned
  | 0, _, _, _ => none
  | steps + 1, read, multiline, c =>
      match c.rest with
      | [] => none
      | '\n' :: rest =>
          let lines := (rest.takeWhile fun d => d = ' ' || d = '\t' || d = '\n')
          let after := rest.drop lines.length
          let breaks := (lines.filter (· = '\n')).length + 1
          let column := (lines.reverse.takeWhile (· ≠ '\n')).length
          if isMarker ⟨after, column⟩ then none
          else
            quoted double steps ((fold breaks).reverse ++ dropLeading read) true ⟨after, column⟩
      | '\x27' :: rest =>
          if double then quoted double steps ('\x27' :: read) multiline c.next
          else
            match rest with
            | '\x27' :: _ => quoted double steps ('\x27' :: read) multiline c.next.next
            | _ => some ⟨read.reverse, c.next, multiline⟩
      | '"' :: _ =>
          if double then some ⟨read.reverse, c.next, multiline⟩
          else quoted double steps ('"' :: read) multiline c.next
      | '\\' :: rest =>
          if !double then quoted double steps ('\\' :: read) multiline c.next
          else
            match rest with
            | [] => none
            | '\n' :: after =>
                let after := after.dropWhile fun d => d = ' ' || d = '\t'
                quoted double steps read true ⟨after, 0⟩
            | e :: after =>
                match escape? e, escapeDigits e with
                | some d, _ => quoted double steps (d :: read) multiline ⟨after, c.column + 2⟩
                | none, 0 => none
                | none, size =>
                    if after.length < size then none
                    else
                      match charOfHex? (after.take size) with
                      | some d =>
                          quoted double steps (d :: read) multiline
                            ⟨after.drop size, c.column + 2 + size⟩
                      | none => none
      | d :: _ => quoted double steps (d :: read) multiline c.next
where
  dropLeading (read : List Char) : List Char := read.dropWhile fun d => d = ' ' || d = '\t'

/-- How the line ends behind a block scalar are treated. -/
inductive Chomping where
  | clip
  | strip
  | keep
deriving DecidableEq

/-- The indicators of a block scalar: its indentation, if it is given, and the chomping. -/
def blockHeader : List Char → Option Nat → Chomping → Option (Option Nat × Chomping × List Char)
  | '+' :: rest, indent, _ => blockHeader rest indent .keep
  | '-' :: rest, indent, _ => blockHeader rest indent .strip
  | c :: rest, indent, chomping =>
      if c.isDigit ∧ c ≠ '0' then blockHeader rest (some (c.toNat - '0'.toNat)) chomping
      else
        let tail := (c :: rest).dropWhile fun d => d = ' ' || d = '\t'
        match tail with
        | [] => some (indent, chomping, [])
        | '\n' :: lines => some (indent, chomping, lines)
        | '#' :: more =>
            if tail.length = rest.length + 1 then none
            else some (indent, chomping, (more.dropWhile (· ≠ '\n')).drop 1)
        | _ => none
  | [], indent, chomping => some (indent, chomping, [])

/-- The lines of a block scalar with this indentation, without it, and the rest. Every step
reads a line. -/
def blockLines (indent : Nat) : (steps : Nat) → List Char → List (List Char) × List Char
  | 0, rest => ([], rest)
  | _ + 1, [] => ([], [])
  | steps + 1, rest =>
      let line := rest.takeWhile (· ≠ '\n')
      let depth := (line.takeWhile (· = ' ')).length
      let after := rest.drop (line.length + 1)
      if depth = line.length ∧ depth ≤ indent then
        let (lines, rest) := blockLines indent steps after
        ([] :: lines, rest)
      else if depth < indent then ([], rest)
      else
        let (lines, rest) := blockLines indent steps after
        (line.drop indent :: lines, rest)

def firstIndent : (steps : Nat) → List Char → Nat
  | 0, _ => 0
  | _ + 1, [] => 0
  | steps + 1, rest =>
      let line := rest.takeWhile (· ≠ '\n')
      let depth := (line.takeWhile (· = ' ')).length
      if depth = line.length then firstIndent steps (rest.drop (line.length + 1)) else depth

/-- Joins the lines of a folded block. Lines that are indented further are not folded. -/
def foldLines : (previous : List Char) → (empty : Nat) → List (List Char) → List Char
  | _, _, [] => []
  | previous, empty, line :: rest =>
      if line.isEmpty then foldLines previous (empty + 1) rest
      else
        let loose (l : List Char) : Bool := l.head? = some ' ' || l.head? = some '\t'
        let joint :=
          if previous.isEmpty then List.replicate empty '\n'
          else if loose previous ∨ loose line then List.replicate (empty + 1) '\n'
          else fold (empty + 1)
        joint ++ line ++ foldLines line 0 rest

/-- Reads a block scalar from its indicators on, for a parent at some column. -/
def block (folded : Bool) (least : Nat) (c : Cursor) : Option Scanned :=
  match blockHeader c.rest none .clip with
  | none => none
  | some (given, chomping, start) =>
      let size := start.length + 1
      let indent :=
        match given with
        | some n => (least - 1) + n
        | none => Nat.max least (firstIndent size start)
      let (lines, rest) := blockLines indent size start
      let trailing := (lines.reverse.takeWhile List.isEmpty).length
      let content := lines.take (lines.length - trailing)
      let body := if folded then foldLines [] 0 content else ['\n'].intercalate content
      let ending :=
        match chomping with
        | .strip => []
        | .clip => if content.isEmpty then [] else ['\n']
        | .keep => List.replicate (trailing + if content.isEmpty then 0 else 1) '\n'
      some ⟨body ++ ending, ⟨rest, 0⟩, true⟩

end RequestDispatch.Yaml
