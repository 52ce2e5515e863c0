import RequestDispatch.Yaml.Scalar

/-!
Reading YAML documents: blocks of indented mappings and sequences, flow collections in
brackets and braces, and scalars of all kinds. A text is one document. Anchors and tags are
passed over, and aliases are not followed. What is wrong with a text is not told.
-/

namespace RequestDispatch.Yaml

def skipProperty (c : Cursor) : Cursor :=
  match c.rest with
  | first :: _ =>
      if first = '&' ∨ first = '!' then
        let name := c.rest.takeWhile fun d => d != ' ' && d != '\t' && d != '\n'
        let rest := c.rest.drop name.length
        let blanks := rest.takeWhile fun d => d = ' ' || d = '\t'
        ⟨rest.drop blanks.length, c.column + name.length + blanks.length⟩
      else c
  | [] => c

def skipProperties (c : Cursor) : Cursor :=
  skipProperty (skipProperty c)

def startsPlain (flow : Bool) : List Char → Bool
  | [] => false
  | c :: rest =>
      if c = '-' ∨ c = '?' ∨ c = ':' then
        !isSeparator rest && !(flow && (rest.head?.map isFlowIndicator).getD false)
      else !(isFlowIndicator c || "#&*!|>%@\x60\"'".toList.contains c)

/-- A node and the cursor behind it. -/
abbrev Read := Option (Yaml × Cursor)

def flowGap (c : Cursor) : Cursor :=
  (c.gap true).cursor

def flowScalar (c : Cursor) : Read :=
  let steps := c.rest.length + 1
  match c.rest with
  | '"' :: _ => (quoted true steps [] false c.next).map fun s =>
      (.scalar false (String.ofList s.text), s.cursor)
  | '\x27' :: _ => (quoted false steps [] false c.next).map fun s =>
      (.scalar false (String.ofList s.text), s.cursor)
  | rest =>
      if startsPlain true rest then
        let s := plain true 0 steps c
        some (.scalar true (String.ofList s.text), s.cursor)
      else none

mutual

def flowNode : (steps : Nat) → Cursor → Read
  | 0, _ => none
  | steps + 1, c =>
      let c := skipProperties c
      match c.rest with
      | '[' :: _ => flowSequence steps [] (flowGap c.next)
      | '\x7b' :: _ => flowMapping steps [] (flowGap c.next)
      | _ => flowScalar c

/-- Reads the value of a key inside a flow collection, where one is written. The cursor is
behind the colon. -/
def flowValue : (steps : Nat) → Cursor → Read
  | 0, _ => none
  | steps + 1, c =>
      let c := flowGap c
      match c.rest with
      | ',' :: _ => some (nothing, c)
      | ']' :: _ => some (nothing, c)
      | '\x7d' :: _ => some (nothing, c)
      | _ => flowNode steps c

/-- Reads an entry of a flow collection: a node, and a value if a colon follows. A node in
quotes or brackets needs no blank behind the colon. -/
def flowEntry : (steps : Nat) → Cursor → Option (Yaml × Option Yaml × Cursor)
  | 0, _ => none
  | steps + 1, c =>
      let key : Read :=
        if endsKey true c.rest then some (nothing, c) else flowNode steps c
      match key with
      | none => none
      | some (key, c) =>
          let c := flowGap c
          match c.rest with
          | ':' :: _ =>
              match flowValue steps c.next with
              | none => none
              | some (value, c) => some (key, some value, flowGap c)
          | _ => some (key, none, c)

def flowSequence : (steps : Nat) → List Yaml → Cursor → Read
  | 0, _, _ => none
  | steps + 1, read, c =>
      match c.rest with
      | ']' :: _ => some (.sequence read.reverse, c.next)
      | _ =>
          match flowEntry steps c with
          | none => none
          | some (key, value, c) =>
              let item : Yaml :=
                match value with
                | some value => .mapping [(key, value)]
                | none => key
              match c.rest with
              | ',' :: _ => flowSequence steps (item :: read) (flowGap c.next)
              | ']' :: _ => some (.sequence (item :: read).reverse, c.next)
              | _ => none

def flowMapping : (steps : Nat) → List (Yaml × Yaml) → Cursor → Read
  | 0, _, _ => none
  | steps + 1, read, c =>
      match c.rest with
      | '\x7d' :: _ => some (.mapping read.reverse, c.next)
      | _ =>
          match flowEntry steps c with
          | none => none
          | some (key, value, c) =>
              let entry := (key, value.getD nothing)
              match c.rest with
              | ',' :: _ => flowMapping steps (entry :: read) (flowGap c.next)
              | '\x7d' :: _ => some (.mapping (entry :: read).reverse, c.next)
              | _ => none

end

/-- Reads a node that is no block collection: a flow collection or a scalar. Its further lines
begin at the column `least` or behind it. Tells whether it may be a key. -/
def leaf (least : Nat) (c : Cursor) : Option (Yaml × Cursor × Bool) :=
  let steps := c.rest.length + 1
  let ofScanned (plain : Bool) (s : Scanned) : Yaml × Cursor × Bool :=
    (.scalar plain (String.ofList s.text), s.cursor, !s.multiline)
  match c.rest with
  | '[' :: _ => (flowNode (4 * steps) c).map fun (v, c) => (v, c, true)
  | '\x7b' :: _ => (flowNode (4 * steps) c).map fun (v, c) => (v, c, true)
  | '"' :: _ => (quoted true steps [] false c.next).map (ofScanned false)
  | '\x27' :: _ => (quoted false steps [] false c.next).map (ofScanned false)
  | '|' :: _ => (block false least c.next).map (ofScanned false)
  | '>' :: _ => (block true least c.next).map (ofScanned false)
  | rest => if startsPlain false rest then some (ofScanned true (plain false least steps c)) else none

def startsItem : List Char → Bool
  | '-' :: rest => isSeparator rest
  | _ => false

/-- Whether nothing stands between a leaf and the end of its line but blanks and a comment. -/
def endsLine (gap : Gap) : Bool :=
  0 < gap.breaks || gap.cursor.rest.isEmpty

/-- The stretch behind a node. A block scalar and a plain one may end at the start of a line,
which counts as a line end. -/
def gapAfter (c : Cursor) : Gap :=
  let gap := c.gap (c.column = 0)
  if c.column = 0 then { gap with breaks := gap.breaks + 1 } else gap

mutual

/-- Reads a node whose lines begin at the column `least` or behind it. With `nested`, block
collections may begin here. -/
def node : (steps : Nat) → (nested : Bool) → (least : Nat) → Cursor → Read
  | 0, _, _, _ => none
  | steps + 1, nested, least, start =>
      let c := skipProperties start
      if startsItem c.rest then if nested then items steps c.column [] c else none
      else
        let gap := c.gap true
        if gap.breaks ≠ 0 ∨ gap.cursor.rest.isEmpty then
          value steps least least c
        else
          match leaf least c with
          | none => none
          | some (v, after, simple) =>
              let blanks := after.gap false
              if blanks.breaks = 0 ∧ endsKey false blanks.cursor.rest then
                if nested ∧ simple then entries steps c.column [] c else none
              else if simple ∧ !blanks.comment ∧ !endsLine blanks then none
              else some (v, after)

/-- Reads what follows an indicator: a node on the same line, or one on later lines that
begins at the column `below` or behind it, or nothing. Items of a sequence may begin at
`itemsFrom`. -/
def value : (steps : Nat) → (below itemsFrom : Nat) → Cursor → Read
  | 0, _, _, _ => none
  | steps + 1, below, itemsFrom, c =>
      let gap := c.gap true
      if gap.tab then none
      else if gap.cursor.rest.isEmpty ∨ isMarker gap.cursor then some (nothing, c)
      else if gap.breaks = 0 then node steps false below gap.cursor
      else if below ≤ gap.cursor.column then node steps true below gap.cursor
      else if itemsFrom ≤ gap.cursor.column ∧ startsItem gap.cursor.rest then
        items steps gap.cursor.column [] gap.cursor
      else some (nothing, c)

def items : (steps : Nat) → (column : Nat) → List Yaml → Cursor → Read
  | 0, _, _, _ => none
  | steps + 1, column, read, c =>
      let behind := c.next
      let gap := behind.gap true
      let item : Read :=
        if gap.breaks = 0 ∧ !gap.cursor.rest.isEmpty then
          node steps true (column + 1) gap.cursor
        else value steps (column + 1) (column + 1) behind
      match item with
      | none => none
      | some (v, c) =>
          let gap := gapAfter c
          if gap.tab then none
          else if gap.cursor.rest.isEmpty ∨ isMarker gap.cursor
              ∨ gap.cursor.column < column then some (.sequence (v :: read).reverse, c)
          else if gap.cursor.column = column then
            if startsItem gap.cursor.rest then items steps column (v :: read) gap.cursor
            else some (.sequence (v :: read).reverse, c)
          else none

def entries : (steps : Nat) → (column : Nat) → List (Yaml × Yaml) → Cursor → Read
  | 0, _, _, _ => none
  | steps + 1, column, read, c =>
      match leaf (column + 1) (skipProperties c) with
      | none => none
      | some (key, after, simple) =>
          let blanks := after.gap false
          if !simple ∨ blanks.breaks ≠ 0 ∨ !endsKey false blanks.cursor.rest then none
          else
            match value steps (column + 1) column blanks.cursor.next with
            | none => none
            | some (v, c) =>
                let gap := gapAfter c
                if gap.tab then none
                else if gap.cursor.rest.isEmpty ∨ isMarker gap.cursor
                    ∨ gap.cursor.column < column then some (.mapping ((key, v) :: read).reverse, c)
                else if gap.cursor.column = column then
                  entries steps column ((key, v) :: read) gap.cursor
                else none

end

def isPermitted (c : Char) : Bool :=
  let n := c.toNat
  n == 0x9 || n == 0xA || n == 0xD || (0x20 ≤ n && n ≤ 0x7E) || n == 0x85
    || (0xA0 ≤ n && n ≠ 0xFEFF && n ≠ 0xFFFE && n ≠ 0xFFFF)

/-- Every line end as one line feed. -/
def unifyBreaks : List Char → List Char
  | '\r' :: '\n' :: rest => '\n' :: unifyBreaks rest
  | '\r' :: rest => '\n' :: unifyBreaks rest
  | c :: rest => c :: unifyBreaks rest
  | [] => []

def isEnd (c : Cursor) : Bool :=
  let gap := gapAfter c
  gap.cursor.rest.isEmpty ||
    (isMarker gap.cursor && gap.cursor.rest.head? = some '.'
      && ((⟨gap.cursor.rest.drop 3, 3⟩ : Cursor).gap false).cursor.rest.isEmpty)

/-- Reads a document. An empty one is a value that is not written. -/
def parse? (text : String) : Option Yaml :=
  let chars := unifyBreaks text.toList
  let chars := if chars.head? = some '\uFEFF' then chars.tail else chars
  if !chars.all isPermitted then none
  else
    let steps := 4 * chars.length + 4
    let first := skipGap ⟨⟨chars, 0⟩, 1, false, false⟩ true false 0 chars
    let start :=
      if isMarker first.cursor ∧ first.cursor.rest.head? = some '-' then
        (⟨first.cursor.rest.drop 3, 3⟩ : Cursor).gap false
      else first
    if start.tab then none
    else if start.cursor.rest.isEmpty ∨ isMarker start.cursor then
      if isEnd start.cursor then some nothing else none
    else
      match node steps (0 < start.breaks) 0 start.cursor with
      | some (v, c) => if isEnd c then some v else none
      | none => none

end RequestDispatch.Yaml
