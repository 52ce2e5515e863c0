import RequestDispatch.Text.Category

/-!
Quoted text for diagnostics. A quoted text stands in double quotes on one line: quotes and
backslashes are escaped, and characters without a visible form of their own are written by
number.
-/

namespace RequestDispatch.Text

/-- Whether a character is shown as itself inside a quoted text. Separators other than the
space, control and format characters, unassigned code points and combining marks are not. -/
def isShown (c : Char) : Bool :=
  if c.toNat < 0x7F then 0x20 ≤ c.toNat
  else
    match category c with
    | .control | .format | .surrogate | .privateUse | .unassigned
    | .spaceSeparator | .lineSeparator | .paragraphSeparator
    | .nonspacingMark | .enclosingMark => false
    | _ => c.toNat != 0xFF9E && c.toNat != 0xFF9F

def hexadecimal (n : Nat) : String :=
  String.ofList (Nat.toDigits 16 n)

def quoteChar (c : Char) : String :=
  match c with
  | '"' => "\\\""
  | '\\' => "\\\\"
  | '\t' => "\\t"
  | '\r' => "\\r"
  | '\n' => "\\n"
  | '\x00' => "\\0"
  | c => if isShown c then c.toString else "\\u\x7b" ++ hexadecimal c.toNat ++ "\x7d"

def quote (s : String) : String :=
  "\"" ++ String.join (s.toList.map quoteChar) ++ "\""

def quoteList (texts : List String) : String :=
  "[" ++ ", ".intercalate (texts.map quote) ++ "]"

end RequestDispatch.Text
