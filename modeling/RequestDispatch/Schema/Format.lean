import RequestDispatch.Pattern.Parser
import RequestDispatch.Text.Split

/-!
The formats that a schema can ask of a text. A name that is not among them asks for nothing.
-/

namespace RequestDispatch.Format

/-- The number of exactly `size` digits at the front. -/
def digits? (size : Nat) (cs : List Char) : Option (Nat × List Char) :=
  let front := cs.take size
  if front.length = size ∧ front.all Char.isDigit then
    some (front.foldl (fun n c => n * 10 + (c.toNat - '0'.toNat)) 0, cs.drop size)
  else none

def take? (c : Char) (cs : List Char) : Option (List Char) :=
  match cs with
  | d :: rest => if d = c then some rest else none
  | [] => none

def daysIn (year month : Nat) : Nat :=
  if month = 2 then
    if year % 4 = 0 ∧ (year % 100 ≠ 0 ∨ year % 400 = 0) then 29 else 28
  else if month = 4 ∨ month = 6 ∨ month = 9 ∨ month = 11 then 30
  else 31

/-- Reads a date such as `2024-02-29`. -/
def date? (cs : List Char) : Option (Nat × Nat × Nat × List Char) := do
  let (year, rest) ← digits? 4 cs
  let (month, rest) ← digits? 2 (← take? '-' rest)
  let (day, rest) ← digits? 2 (← take? '-' rest)
  if 1 ≤ month ∧ month ≤ 12 ∧ 1 ≤ day ∧ day ≤ daysIn year month then
    some (year, month, day, rest)
  else none

def fraction? (cs : List Char) : Option (List Char) :=
  match cs with
  | '.' :: rest =>
      if (rest.takeWhile Char.isDigit).isEmpty then none else some (rest.dropWhile Char.isDigit)
  | _ => some cs

/-- Reads a letter for universal time or a signed offset; its minutes east of there. -/
def offset? (cs : List Char) : Option (Int × List Char) :=
  match cs with
  | 'Z' :: rest => some (0, rest)
  | 'z' :: rest => some (0, rest)
  | sign :: rest =>
      if sign = '+' ∨ sign = '-' then do
        let (hour, rest) ← digits? 2 rest
        let (minute, rest) ← digits? 2 (← take? ':' rest)
        let size : Int := hour * 60 + minute
        if hour ≤ 23 ∧ minute ≤ 59 then some (if sign = '-' then -size else size, rest) else none
      else none
  | [] => none

/-- Reads hours, minutes and seconds, of which there may be sixty. -/
def clock? (cs : List Char) : Option (Nat × Nat × Nat × List Char) := do
  let (hour, rest) ← digits? 2 cs
  let (minute, rest) ← digits? 2 (← take? ':' rest)
  let (second, rest) ← digits? 2 (← take? ':' rest)
  if hour ≤ 23 ∧ minute ≤ 59 ∧ second ≤ 60 then some (hour, minute, second, rest) else none

/-- Reads a time of day with an offset. A fraction has six digits, and a bar may stand for the
sign of the offset. -/
def time? (cs : List Char) : Option (List Char) := do
  let (_, _, second, rest) ← clock? cs
  let rest ←
    match rest with
    | '.' :: rest => (digits? 6 rest).map (·.2)
    | rest => some rest
  let (_, rest) ← offset? (if rest.head? = some '|' then '+' :: rest.tail else rest)
  if second ≤ 59 then some rest else none

/-- Whether a minute is the last of a month in universal time, where a leap second may
follow. -/
def endsMonth (year month day hour minute : Nat) (offset : Int) : Bool :=
  let minutes : Int := (hour * 60 + minute : Nat) - offset
  minutes % 1440 == 1439 &&
    (if minutes < 0 then day == 1
    else if minutes < 1440 then day == daysIn year month
    else day + 1 == daysIn year month)

/-- Reads a date and a time of day, with one character between them. A sixtieth second is a
leap second. -/
def dateTime? (cs : List Char) : Option (List Char) := do
  let (year, month, day, rest) ← date? cs
  match rest with
  | [] => none
  | _ :: rest =>
      let (hour, minute, second, rest) ← clock? rest
      let rest ← fraction? rest
      let (offset, rest) ← offset? rest
      if second ≤ 59 ∨ endsMonth year month day hour minute offset then some rest else none

def whole (read : List Char → Option (List Char)) (s : String) : Bool :=
  read s.toList == some []

/-- Whether a piece is a number up to 255 without superfluous zeros. -/
def isOctet (piece : List Char) : Bool :=
  !piece.isEmpty && piece.length ≤ 3 && piece.all Char.isDigit
    && (piece.length == 1 || piece.head? != some '0')
    && piece.foldl (fun n c => n * 10 + (c.toNat - '0'.toNat)) 0 ≤ 255

def isIpv4 (cs : List Char) : Bool :=
  let parts := Text.pieces '.' cs
  parts.length == 4 && parts.all isOctet

def isGroup (piece : List Char) : Bool :=
  !piece.isEmpty && piece.length ≤ 4 && piece.all fun c => (Text.digit? 16 c).isSome

/-- The number of groups in a list of pieces, where an address of four octets may stand at the
end for two groups. -/
def groups? : List (List Char) → Option Nat
  | [] => some 0
  | [last] => if isGroup last then some 1 else if isIpv4 last then some 2 else none
  | piece :: rest => if isGroup piece then (groups? rest).map (· + 1) else none

def plainGroups? (parts : List (List Char)) : Option Nat :=
  if parts.all isGroup then some parts.length else none

def cutDoubleColon : List Char → Option (List Char × List Char)
  | ':' :: ':' :: rest => some ([], rest)
  | c :: rest => (cutDoubleColon rest).map fun (before, after) => (c :: before, after)
  | [] => none

/-- The pieces between colons; a text without any is no piece. -/
def colonPieces (cs : List Char) : List (List Char) :=
  if cs.isEmpty then [] else Text.pieces ':' cs

/-- Eight groups, or fewer with one pair of colons for the missing ones. -/
def isIpv6 (cs : List Char) : Bool :=
  match cutDoubleColon cs with
  | none => groups? (colonPieces cs) == some 8
  | some (before, after) =>
      match plainGroups? (colonPieces before), groups? (colonPieces after) with
      | some a, some b => a + b ≤ 7
      | _, _ => false

def isHostname (s : String) : Bool :=
  let cs := s.toList
  let isLabelChar (c : Char) : Bool :=
    CharSet.alphabetic.contains c || (CharSet.categories
      [.decimalNumber, .letterNumber, .otherNumber]).contains c || c == '-' || c == '.'
  !cs.isEmpty && cs.head? != some '-' && cs.getLast? != some '-' && cs.length ≤ 255
    && cs.all isLabelChar && (Text.pieces '.' cs).all (·.length ≤ 63)

/-- A relative or absolute reference, of which no more is asked than that blanks and
backslashes are encoded. -/
def isReference (s : String) : Bool :=
  s.toList.all fun c => c != '\\' && !Text.isBlank c

/-- The schemes of the web, which need a host. -/
def webSchemes : List String := ["http", "https", "ws", "wss", "ftp"]

/-- The number that a part of an address is, in decimal, octal or hexadecimal notation. -/
def addressPart? (part : List Char) : Option Nat :=
  let read (base : Nat) (digits : List Char) : Option Nat :=
    (digits.mapM (Text.digit? base)).map fun ds => ds.foldl (fun n d => n * base + d) 0
  match part with
  | [] => none
  | '0' :: 'x' :: digits => read 16 digits
  | '0' :: 'X' :: digits => read 16 digits
  | '0' :: digits => read 8 digits
  | digits => read 10 digits

/-- Whether parts are an address of four octets: up to four numbers, of which the last one
stands for all octets that are left. -/
def isAddress (parts : List (List Char)) : Bool :=
  match parts.mapM addressPart? with
  | none => false
  | some numbers =>
      numbers.length ≤ 4 && numbers.dropLast.all (· ≤ 255)
        && (numbers.getLast?.any (· < 1 <<< (8 * (5 - numbers.length))))

/-- Whether a name of a host whose last part is a number is an address, as it has to be. -/
def keepsAddressForm (host : List Char) : Bool :=
  let parts := Text.pieces '.' host
  let parts := if parts.getLast? = some [] then parts.dropLast else parts
  match parts.getLast? with
  | some last =>
      if (!last.isEmpty && last.all Char.isDigit)
          || (last.take 2 == ['0', 'x'] && (addressPart? last).isSome) then isAddress parts
      else true
  | none => true

/-- Whether a text is a host: an address in brackets, or characters that do not delimit other
parts. -/
def isHost (web : Bool) (host : List Char) : Bool :=
  match host with
  | '[' :: rest => rest.getLast? == some ']' && isIpv6 rest.dropLast
  | host =>
      host.all (fun c => 0x20 < c.toNat && !("#/:<>?@[\\]^|".toList.contains c))
        && (!web || keepsAddressForm host)

def splitHost (authority : List Char) : List Char × List Char :=
  let number := (authority.reverse.takeWhile fun c => c != ':' && c != ']').reverse
  let before := authority.take (authority.length - number.length)
  if before.getLast? = some ':' then (before.dropLast, number) else (authority, [])

/-- Whether a text is the authority of a reference: credentials up to the last at sign, a host
and a number of 16 bits. -/
def isAuthority (web : Bool) (authority : List Char) : Bool :=
  let (host, digits) := splitHost (authority.reverse.takeWhile (· != '@')).reverse
  let number := digits.foldl (fun n c => n * 10 + (c.toNat - '0'.toNat)) 0
  (!web || !host.isEmpty) && isHost web host && digits.all Char.isDigit && number < 65536

/-- A scheme, a colon and the rest of a reference, in which an authority has to be sound.
Blanks around it and line ends inside it do not count. -/
def isAbsolute (s : String) : Bool :=
  let isOuter (c : Char) : Bool := c.toNat ≤ 0x20
  let inner := ((s.toList.dropWhile isOuter).reverse.dropWhile isOuter).reverse
  match Text.cut ':' (inner.filter fun c => !("\t\n\r".toList.contains c)) with
  | some (scheme, rest) =>
      let named := match scheme with
        | [] => false
        | c :: more => c.isAlpha && more.all fun d => d.isAlphanum || "+-.".toList.contains d
      let web := webSchemes.contains (String.ofList (scheme.map Char.toLower))
      let ends := if web then "/\\?#".toList else "/?#".toList
      let authority (rest : List Char) : Bool :=
        isAuthority web (rest.takeWhile fun c => !ends.contains c)
      named &&
        (if web then authority (rest.dropWhile fun c => c == '/' || c == '\\')
        else
          match rest with
          | '/' :: '/' :: rest => authority rest
          | _ => true)
  | none => false

def isPointer : List Char → Bool
  | [] => true
  | '/' :: rest => steps rest
  | _ => false
where
  /-- The characters of steps, where a tilde stands before a zero or a one. -/
  steps : List Char → Bool
    | [] => true
    | '~' :: c :: rest => (c == '0' || c == '1') && steps rest
    | ['~'] => false
    | _ :: rest => steps rest

/-- A number of levels upwards, then a pointer or a hash sign. -/
def isRelativePointer (s : String) : Bool :=
  let digits := s.toList.takeWhile Char.isDigit
  let rest := s.toList.dropWhile Char.isDigit
  !digits.isEmpty && (digits.length == 1 || digits.head? != some '0')
    && (rest == ['#'] || isPointer rest)

/-- What a variable of a template is: a name, a number of characters or a star. -/
def templateVariable : String :=
  "(?:[a-z0-9_]|%[0-9a-f]\x7b2\x7d)+(?::[1-9][0-9]\x7b0,3\x7d|\\*)?"

/-- Text in which braces enclose expressions: an operator and variables. -/
def template : Option Pattern :=
  Pattern.parse? ("^(?:(?:[^\\x00-\\x20\"'<>%\\\\^\x60\x7b|\x7d]|%[0-9a-f]\x7b2\x7d)|\\\x7b[+#./;?&=,!@|]?"
    ++ templateVariable ++ "(?:," ++ templateVariable ++ ")*\\\x7d)*$")

def check? (name : String) : Option (String → Bool) :=
  match name with
  | "date" => some (whole fun cs => (date? cs).map (·.2.2.2))
  | "date-time" => some (whole dateTime?)
  | "time" => some (whole time?)
  | "email" | "idn-email" => some fun s => s.toList.contains '@'
  | "hostname" | "idn-hostname" => some isHostname
  | "ipv4" => some fun s => isIpv4 s.toList
  | "ipv6" => some fun s => isIpv6 s.toList
  | "uri" | "iri" => some isAbsolute
  | "uri-reference" | "iri-reference" => some isReference
  | "uri-template" => some fun s => template.any (·.isMatch s)
  | "json-pointer" => some fun s => isPointer s.toList
  | "relative-json-pointer" => some isRelativePointer
  | "regex" => some fun s => (Pattern.parseSchema? s).isSome
  | _ => none

end RequestDispatch.Format
