import RequestDispatch.Json.Basic
import RequestDispatch.Decimal.Layout
import RequestDispatch.Text.Quoted

/-!
Compact JSON text: no blanks, members in the order of their names, and in strings only
quotes, backslashes and control characters escaped.
-/

namespace RequestDispatch

def Number.text : Number → String
  | .int n => toString n
  | .real d => d.json

namespace Json

/-- The form of one character inside a JSON string. -/
def escapeChar (c : Char) : String :=
  match c with
  | '"' => "\\\""
  | '\\' => "\\\\"
  | '\x08' => "\\b"
  | '\x0c' => "\\f"
  | '\n' => "\\n"
  | '\r' => "\\r"
  | '\t' => "\\t"
  | c =>
      if c.toNat < 0x10 then "\\u000" ++ Text.hexadecimal c.toNat
      else if c.toNat < 0x20 then "\\u00" ++ Text.hexadecimal c.toNat
      else c.toString

def quote (s : String) : String :=
  "\"" ++ String.join (s.toList.map escapeChar) ++ "\""

mutual

def text : Json → String
  | .null => "null"
  | .bool true => "true"
  | .bool false => "false"
  | .number n => n.text
  | .string s => quote s
  | .array items => "[" ++ ",".intercalate (itemTexts items) ++ "]"
  | .object members => "\x7b" ++ ",".intercalate (memberTexts members) ++ "\x7d"

def itemTexts : List Json → List String
  | [] => []
  | item :: rest => item.text :: itemTexts rest

def memberTexts : List (String × Json) → List String
  | [] => []
  | (name, value) :: rest => (quote name ++ ":" ++ value.text) :: memberTexts rest

end

end Json

end RequestDispatch
