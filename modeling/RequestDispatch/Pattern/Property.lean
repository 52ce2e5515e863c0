import RequestDispatch.Pattern.CharSet
import RequestDispatch.Text.Split

/-!
Names of character properties in regular expressions: general categories by their short and
long names, some further properties of the Unicode standard, scripts by their main blocks, and
the classes of ASCII in brackets and colons.
-/

namespace RequestDispatch.CharSet

def categoryGroup? (abbreviation : String) : Option (List Text.Category) :=
  match Text.Category.all.filter fun c => c.abbreviation.toLower == abbreviation with
  | [] =>
      match abbreviation.toList with
      | [initial] =>
          match Text.Category.all.filter fun c =>
              (c.abbreviation.toLower.toList.headD ' ') == initial with
          | [] => none
          | cs => some cs
      | _ => if abbreviation = "lc" then
          some [.uppercaseLetter, .lowercaseLetter, .titlecaseLetter] else none
  | cs => some cs

def categoryNames : List (String × String) :=
  [("letter", "l"), ("casedletter", "lc"), ("uppercaseletter", "lu"),
   ("lowercaseletter", "ll"), ("titlecaseletter", "lt"), ("modifierletter", "lm"),
   ("otherletter", "lo"), ("mark", "m"), ("combiningmark", "m"), ("nonspacingmark", "mn"),
   ("spacingmark", "mc"), ("enclosingmark", "me"), ("number", "n"), ("decimalnumber", "nd"),
   ("digit", "nd"), ("letternumber", "nl"), ("othernumber", "no"), ("punctuation", "p"),
   ("punct", "p"), ("connectorpunctuation", "pc"), ("dashpunctuation", "pd"),
   ("openpunctuation", "ps"), ("closepunctuation", "pe"), ("initialpunctuation", "pi"),
   ("finalpunctuation", "pf"), ("otherpunctuation", "po"), ("symbol", "s"),
   ("mathsymbol", "sm"), ("currencysymbol", "sc"), ("modifiersymbol", "sk"),
   ("othersymbol", "so"), ("separator", "z"), ("spaceseparator", "zs"),
   ("lineseparator", "zl"), ("paragraphseparator", "zp"), ("other", "c"), ("control", "cc"),
   ("cntrl", "cc"), ("format", "cf"), ("privateuse", "co"), ("unassigned", "cn")]

/-- The main blocks of some scripts. -/
def scripts : List (String × List (Nat × Nat)) :=
  [("latin", [(0x41, 0x5A), (0x61, 0x7A), (0xAA, 0xAA), (0xBA, 0xBA), (0xC0, 0xD6),
      (0xD8, 0xF6), (0xF8, 0x2B8), (0x1E00, 0x1EFF), (0x2C60, 0x2C7F), (0xA722, 0xA787),
      (0xFB00, 0xFB06), (0xFF21, 0xFF3A), (0xFF41, 0xFF5A)]),
   ("greek", [(0x370, 0x373), (0x375, 0x377), (0x37A, 0x37D), (0x37F, 0x37F),
      (0x384, 0x384), (0x386, 0x386), (0x388, 0x3E1), (0x3F0, 0x3FF), (0x1F00, 0x1FFE),
      (0x2126, 0x2126)]),
   ("cyrillic", [(0x400, 0x484), (0x487, 0x52F), (0x1C80, 0x1C88), (0x1D2B, 0x1D2B),
      (0x2DE0, 0x2DFF), (0xA640, 0xA69F)]),
   ("armenian", [(0x531, 0x556), (0x559, 0x58A), (0x58D, 0x58F)]),
   ("hebrew", [(0x591, 0x5F4), (0xFB1D, 0xFB4F)]),
   ("arabic", [(0x600, 0x604), (0x606, 0x60B), (0x60D, 0x61A), (0x61C, 0x61E),
      (0x620, 0x63F), (0x641, 0x64A), (0x656, 0x66F), (0x671, 0x6DC), (0x6DE, 0x6FF),
      (0x750, 0x77F)]),
   ("thai", [(0xE01, 0xE3A), (0xE40, 0xE5B)]),
   ("hiragana", [(0x3041, 0x3096), (0x309D, 0x309F)]),
   ("katakana", [(0x30A1, 0x30FA), (0x30FD, 0x30FF), (0x31F0, 0x31FF), (0xFF66, 0xFF6F),
      (0xFF71, 0xFF9D)]),
   ("han", [(0x2E80, 0x2FD5), (0x3005, 0x3005), (0x3007, 0x3007), (0x3021, 0x3029),
      (0x3038, 0x303B), (0x3400, 0x4DBF), (0x4E00, 0x9FFF), (0xF900, 0xFAD9),
      (0x20000, 0x323AF)]),
   ("hangul", [(0x1100, 0x11FF), (0x3131, 0x318E), (0xA960, 0xA97C), (0xAC00, 0xD7A3)])]

/-- The set that a property name stands for. Case, blanks, hyphens and underscores of the
name do not count. -/
def property? (name : String) : Option CharSet :=
  let plain := String.ofList ((name.toList.filter fun c =>
    !(c == ' ' || c == '-' || c == '_')).map Char.toLower)
  let value := match Text.cut '=' plain.toList with
    | some (_, v) => String.ofList v
    | none => plain
  match value with
  | "any" => some all
  | "ascii" => some (.range '\x00' '\x7F')
  | "assigned" => some (.complement (.categories [.unassigned]))
  | "alphabetic" | "alpha" => some alphabetic
  | "uppercase" | "upper" => some (.categories [.uppercaseLetter])
  | "lowercase" | "lower" => some (.categories [.lowercaseLetter])
  | "whitespace" | "wspace" | "space" => some .blank
  | _ =>
      let abbreviation := (categoryNames.lookup value).getD value
      match categoryGroup? abbreviation with
      | some cs => some (.categories cs)
      | none => (scripts.lookup value).map ofRanges

def asciiClass? (name : String) : Option CharSet :=
  match name with
  | "alnum" => some (ofRanges [(0x30, 0x39), (0x41, 0x5A), (0x61, 0x7A)])
  | "alpha" => some (ofRanges [(0x41, 0x5A), (0x61, 0x7A)])
  | "ascii" => some (.range '\x00' '\x7F')
  | "blank" => some (ofRanges [(0x09, 0x09), (0x20, 0x20)])
  | "cntrl" => some (ofRanges [(0x00, 0x1F), (0x7F, 0x7F)])
  | "digit" => some (.range '0' '9')
  | "graph" => some (.range '!' '~')
  | "lower" => some (.range 'a' 'z')
  | "print" => some (.range ' ' '~')
  | "punct" => some (ofRanges [(0x21, 0x2F), (0x3A, 0x40), (0x5B, 0x60), (0x7B, 0x7E)])
  | "space" => some (ofRanges [(0x09, 0x0D), (0x20, 0x20)])
  | "upper" => some (.range 'A' 'Z')
  | "word" => some asciiWord
  | "xdigit" => some (ofRanges [(0x30, 0x39), (0x41, 0x46), (0x61, 0x66)])
  | _ => none

end RequestDispatch.CharSet
