import RequestDispatch.Json.Basic
import RequestDispatch.Text.Utf8
import RequestDispatch.Text.Percent

/-!
Reading JSON text. The reader works on octets and reports the first fault with its line and
column. Arrays and objects may be nested 127 deep. A number with a point or an exponent, or
an integer beyond 64 bits, is the product or quotient, in double precision, of its leading
digits and a power of ten.
-/

namespace RequestDispatch.Json

inductive Fault where
  | expectedValue
  | endInValue
  | endInObject
  | endInList
  | endInString
  | keyNotString
  | expectedColon
  | expectedObjectEnd
  | expectedListEnd
  | trailingComma
  | trailingCharacters
  | expectedWord
  | invalidNumber
  | numberOutOfRange
  | invalidEscape
  | loneSurrogate
  | endOfHexEscape
  | invalidUnicode
  | controlCharacter
  | tooDeep
deriving DecidableEq, Repr

namespace Fault

def message : Fault → String
  | .expectedValue => "expected value"
  | .endInValue => "EOF while parsing a value"
  | .endInObject => "EOF while parsing an object"
  | .endInList => "EOF while parsing a list"
  | .endInString => "EOF while parsing a string"
  | .keyNotString => "key must be a string"
  | .expectedColon => "expected `:`"
  | .expectedObjectEnd => "expected `,` or `\x7d`"
  | .expectedListEnd => "expected `,` or `]`"
  | .trailingComma => "trailing comma"
  | .trailingCharacters => "trailing characters"
  | .expectedWord => "expected ident"
  | .invalidNumber => "invalid number"
  | .numberOutOfRange => "number out of range"
  | .invalidEscape => "invalid escape"
  | .loneSurrogate => "lone leading surrogate in hex escape"
  | .endOfHexEscape => "unexpected end of hex escape"
  | .invalidUnicode => "invalid unicode code point"
  | .controlCharacter => "control character (\\u0000-\\u001F) found while parsing a string"
  | .tooDeep => "recursion limit exceeded"

end Fault

/-- A fault and the number of octets behind the place where it was noticed. -/
structure Failure where
  fault : Fault
  left : Nat

/-- A fault noticed after everything before `rest` was taken. -/
def failBefore {α : Type} (fault : Fault) (rest : List UInt8) : Except Failure α :=
  .error ⟨fault, rest.length⟩

/-- A fault noticed by looking at the first octet of `rest`. -/
def failAt {α : Type} (fault : Fault) (rest : List UInt8) : Except Failure α :=
  .error ⟨fault, rest.length - 1⟩

def skipBlanks (bytes : List UInt8) : List UInt8 :=
  bytes.dropWhile fun b => b == 0x20 || b == 0x0A || b == 0x09 || b == 0x0D

def isDigitByte (b : UInt8) : Bool :=
  0x30 ≤ b && b ≤ 0x39

/-- Reads the rest of a word whose first letter was recognised. -/
def readWord (value : Json) : List UInt8 → List UInt8 → Except Failure (Json × List UInt8)
  | [], rest => .ok (value, rest)
  | _ :: _, [] => failBefore .endInValue []
  | w :: word, b :: rest =>
      if b == w then readWord value word rest else failBefore .expectedWord rest

section Numbers

/-- Scales leading digits by a power of ten. The power is applied as one product or
quotient; a small power that is beyond the range of doubles is applied in steps, and four
steps leave nothing. -/
def scaleDown : (fuel : Nat) → Double → Nat → Double
  | 0, _, _ => .zero false
  | fuel + 1, d, places =>
      if places ≤ 308 then (d.div? (.powerOfTen places)).getD (.zero false)
      else if d.isZero then d
      else scaleDown fuel ((d.div? (.powerOfTen 308)).getD (.zero false)) (places - 308)

/-- The double written as `digits * 10 ^ exponent`, or `none` beyond the largest one. -/
def scale (digits : Nat) (exponent : Int) : Option Double :=
  let d := Double.ofInt digits
  match exponent with
  | .ofNat e =>
      if e ≤ 308 then d.mul? (.powerOfTen e)
      else if d.isZero then some d
      else none
  | .negSucc e => some (scaleDown 4 d (e + 1))

def finishReal (negative : Bool) (digits : Nat) (exponent : Int) (rest : List UInt8) :
    Except Failure (Number × List UInt8) :=
  match scale digits exponent with
  | some d => .ok (.real { d with negative := negative }, rest)
  | none => failBefore .numberOutOfRange rest

/-- The integer with these digits and sign. Minus zero and integers below those of 64 bits
are doubles. -/
def finishInteger (negative : Bool) (digits : Nat) (rest : List UInt8) : Number × List UInt8 :=
  if !negative then (.int digits, rest)
  else if digits = 0 ∨ Text.maxInt64 + 1 < digits then
    (.real { Double.ofInt digits with negative := true }, rest)
  else (.int (-(digits : Int)), rest)

/-- The largest exponent that is read; a larger one means zero or a fault. -/
def maxExponent : Nat := 0x7FFFFFFF

def readExponentDigits (negative : Bool) (digits : Nat) (start : Int) (downwards : Bool) :
    Nat → List UInt8 → Except Failure (Number × List UInt8)
  | exponent, [] =>
      finishReal negative digits (if downwards then start - exponent else start + exponent) []
  | exponent, b :: rest =>
      if isDigitByte b then
        let next := exponent * 10 + (b.toNat - 0x30)
        if maxExponent < next then
          if digits ≠ 0 ∧ !downwards then failBefore .numberOutOfRange rest
          else .ok (.real (.zero negative), rest.dropWhile isDigitByte)
        else readExponentDigits negative digits start downwards next rest
      else
        finishReal negative digits (if downwards then start - exponent else start + exponent)
          (b :: rest)

def readExponent (negative : Bool) (digits : Nat) (start : Int) (bytes : List UInt8) :
    Except Failure (Number × List UInt8) :=
  let (downwards, bytes) :=
    match bytes with
    | 0x2B :: rest => (false, rest)
    | 0x2D :: rest => (true, rest)
    | _ => (false, bytes)
  match bytes with
  | [] => failBefore .endInValue []
  | b :: rest =>
      if isDigitByte b then
        readExponentDigits negative digits start downwards (b.toNat - 0x30) rest
      else failBefore .invalidNumber rest

/-- The end of a number after its last digit: an exponent or nothing more. -/
def readExponentOrEnd (negative : Bool) (digits : Nat) (exponent : Int) (bytes : List UInt8) :
    Except Failure (Number × List UInt8) :=
  match bytes with
  | b :: rest =>
      if b == 0x65 || b == 0x45 then readExponent negative digits exponent rest
      else finishReal negative digits exponent bytes
  | [] => finishReal negative digits exponent []

/-- Reads the digits after the point. Digits that no longer fit 64 bits are skipped. -/
def readFraction (negative : Bool) (start : Int) :
    (places digits : Nat) → List UInt8 → Except Failure (Number × List UInt8)
  | places, digits, [] =>
      if places = 0 then failAt .endInValue [] else finishReal negative digits (start - places) []
  | places, digits, b :: rest =>
      if isDigitByte b then
        let next := digits * 10 + (b.toNat - 0x30)
        if next ≤ Text.maxUInt64 then readFraction negative start (places + 1) next rest
        else readExponentOrEnd negative digits (start - places) (rest.dropWhile isDigitByte)
      else if places = 0 then failAt .invalidNumber (b :: rest)
      else readExponentOrEnd negative digits (start - places) (b :: rest)

/-- Skips the digits of an integer that no longer fit 64 bits, counting them. -/
def readLongInteger (negative : Bool) (digits : Nat) :
    Nat → List UInt8 → Except Failure (Number × List UInt8)
  | skipped, [] => finishReal negative digits skipped []
  | skipped, b :: rest =>
      if isDigitByte b then readLongInteger negative digits (skipped + 1) rest
      else if b == 0x2E then readFraction negative skipped 0 digits rest
      else readExponentOrEnd negative digits skipped (b :: rest)

def readAfterInteger (negative : Bool) (digits : Nat) (bytes : List UInt8) :
    Except Failure (Number × List UInt8) :=
  match bytes with
  | [] => .ok (finishInteger negative digits [])
  | b :: rest =>
      if b == 0x2E then readFraction negative 0 0 digits rest
      else if b == 0x65 || b == 0x45 then readExponent negative digits 0 rest
      else .ok (finishInteger negative digits bytes)

def readInteger (negative : Bool) : Nat → List UInt8 → Except Failure (Number × List UInt8)
  | digits, [] => .ok (finishInteger negative digits [])
  | digits, b :: rest =>
      if isDigitByte b then
        let next := digits * 10 + (b.toNat - 0x30)
        if next ≤ Text.maxUInt64 then readInteger negative next rest
        else readLongInteger negative digits 0 (b :: rest)
      else readAfterInteger negative digits (b :: rest)

/-- Reads a number, after its sign. A leading zero stands alone. -/
def readNumber (negative : Bool) (bytes : List UInt8) : Except Failure (Number × List UInt8) :=
  match bytes with
  | [] => failBefore .endInValue []
  | b :: rest =>
      if b == 0x30 then
        match rest with
        | d :: _ =>
            if isDigitByte d then failAt .invalidNumber rest
            else readAfterInteger negative 0 rest
        | [] => readAfterInteger negative 0 rest
      else if isDigitByte b then readInteger negative (b.toNat - 0x30) rest
      else failBefore .invalidNumber rest

end Numbers

section Strings

def readHex (bytes : List UInt8) : Except Failure (Nat × List UInt8) :=
  match bytes with
  | a :: b :: c :: d :: rest =>
      match Text.hexDigit? a, Text.hexDigit? b, Text.hexDigit? c, Text.hexDigit? d with
      | some a, some b, some c, some d =>
          .ok (a.toNat * 4096 + b.toNat * 256 + c.toNat * 16 + d.toNat, rest)
      | _, _, _, _ => failBefore .invalidEscape rest
  | _ => failBefore .endInString []

/-- Takes one expected octet in the middle of a pair of surrogates. -/
def expectInPair (octet : UInt8) (bytes : List UInt8) : Except Failure (List UInt8) :=
  match bytes with
  | [] => failBefore .endInString []
  | b :: rest => if b == octet then .ok rest else failBefore .endOfHexEscape rest

/-- Reads an escape by number, after its letter. A leading surrogate must be followed by the
escape of a trailing one. -/
def readUnicodeEscape (bytes : List UInt8) : Except Failure (Char × List UInt8) := do
  let (n, rest) ← readHex bytes
  if 0xDC00 ≤ n ∧ n ≤ 0xDFFF then failBefore .loneSurrogate rest
  else if n < 0xD800 ∨ 0xDBFF < n then .ok (Char.ofNat n, rest)
  else
    let rest ← expectInPair 0x5C rest
    let rest ← expectInPair 0x75 rest
    let (low, rest) ← readHex rest
    if low < 0xDC00 ∨ 0xDFFF < low then failBefore .loneSurrogate rest
    else .ok (Char.ofNat ((n - 0xD800) * 1024 + (low - 0xDC00) + 0x10000), rest)

def simpleEscape? (b : UInt8) : Option Char :=
  match b with
  | 0x22 => some '"'
  | 0x5C => some '\\'
  | 0x2F => some '/'
  | 0x62 => some '\x08'
  | 0x66 => some '\x0c'
  | 0x6E => some '\n'
  | 0x72 => some '\r'
  | 0x74 => some '\t'
  | _ => none

def readEscape (bytes : List UInt8) : Except Failure (Char × List UInt8) :=
  match bytes with
  | [] => failBefore .endInString []
  | b :: rest =>
      if b == 0x75 then readUnicodeEscape rest
      else
        match simpleEscape? b with
        | some c => .ok (c, rest)
        | none => failBefore .invalidEscape rest

/-- Reads the octets of a string up to its closing quote, the newest first. -/
def readOctets : (fuel : Nat) → List UInt8 → List UInt8 →
    Except Failure (List UInt8 × List UInt8)
  | 0, _, rest => failBefore .endInString rest
  | _ + 1, _, [] => failBefore .endInString []
  | fuel + 1, read, b :: rest =>
      if b == 0x22 then .ok (read, rest)
      else if b == 0x5C then
        match readEscape rest with
        | .error e => .error e
        | .ok (c, rest) => readOctets fuel ((String.utf8EncodeChar c).reverse ++ read) rest
      else if b < 0x20 then failBefore .controlCharacter rest
      else readOctets fuel (b :: read) rest

/-- Reads a string, after its opening quote. Ill-formed UTF-8 is reported at its place in
the written text. -/
def readString (bytes : List UInt8) : Except Failure (String × List UInt8) :=
  match readOctets (bytes.length + 1) [] bytes with
  | .error e => .error e
  | .ok (read, rest) =>
      match Text.Utf8.decode? read.reverse with
      | some s => .ok (s, rest)
      | none =>
          .error ⟨.invalidUnicode, bytes.length - Text.Utf8.validUpTo bytes - 1⟩

end Strings

mutual

/-- Reads a value. `depth` is the number of levels that may still be opened, plus one. -/
def readValue : (fuel depth : Nat) → List UInt8 → Except Failure (Json × List UInt8)
  | 0, _, _ => failBefore .endInValue []
  | fuel + 1, depth, bytes =>
      match skipBlanks bytes with
      | [] => failAt .endInValue []
      | b :: rest =>
          if b == 0x6E then readWord .null [0x75, 0x6C, 0x6C] rest
          else if b == 0x74 then readWord (.bool true) [0x72, 0x75, 0x65] rest
          else if b == 0x66 then readWord (.bool false) [0x61, 0x6C, 0x73, 0x65] rest
          else if b == 0x2D then (readNumber true rest).map fun (n, rest) => (.number n, rest)
          else if isDigitByte b then
            (readNumber false (b :: rest)).map fun (n, rest) => (.number n, rest)
          else if b == 0x22 then (readString rest).map fun (s, rest) => (.string s, rest)
          else if b == 0x5B then
            if depth ≤ 1 then failAt .tooDeep (b :: rest)
            else
              match skipBlanks rest with
              | 0x5D :: rest => .ok (.array [], rest)
              | [] => failAt .endInList []
              | rest => readItems fuel (depth - 1) [] rest
          else if b == 0x7B then
            if depth ≤ 1 then failAt .tooDeep (b :: rest)
            else
              match skipBlanks rest with
              | 0x7D :: rest => .ok (.object [], rest)
              | [] => failAt .endInObject []
              | 0x22 :: rest => readMembers fuel (depth - 1) [] rest
              | rest => failAt .keyNotString rest
          else failAt .expectedValue (b :: rest)

/-- Reads the items of an array from the next item on; `read` holds those before it, the
newest first. -/
def readItems : (fuel depth : Nat) → List Json → List UInt8 →
    Except Failure (Json × List UInt8)
  | 0, _, _, _ => failBefore .endInList []
  | fuel + 1, depth, read, bytes =>
      match readValue fuel depth bytes with
      | .error e => .error e
      | .ok (item, rest) =>
          match skipBlanks rest with
          | [] => failAt .endInList []
          | 0x5D :: rest => .ok (.array (item :: read).reverse, rest)
          | 0x2C :: rest =>
              match skipBlanks rest with
              | [] => failAt .endInValue []
              | 0x5D :: rest => failAt .trailingComma (0x5D :: rest)
              | rest => readItems fuel depth (item :: read) rest
          | rest => failAt .expectedListEnd rest

/-- Reads the members of an object from inside the next name on; `read` holds those before
it. -/
def readMembers : (fuel depth : Nat) → Members → List UInt8 →
    Except Failure (Json × List UInt8)
  | 0, _, _, _ => failBefore .endInObject []
  | fuel + 1, depth, read, bytes =>
      match readString bytes with
      | .error e => .error e
      | .ok (name, rest) =>
          match skipBlanks rest with
          | [] => failAt .endInObject []
          | 0x3A :: rest =>
              match readValue fuel depth rest with
              | .error e => .error e
              | .ok (value, rest) =>
                  match skipBlanks rest with
                  | [] => failAt .endInObject []
                  | 0x7D :: rest => .ok (.object (read.insert name value), rest)
                  | 0x2C :: rest =>
                      match skipBlanks rest with
                      | [] => failAt .endInValue []
                      | 0x7D :: rest => failAt .trailingComma (0x7D :: rest)
                      | 0x22 :: rest => readMembers fuel depth (read.insert name value) rest
                      | rest => failAt .keyNotString rest
                  | rest => failAt .expectedObjectEnd rest
          | rest => failAt .expectedColon rest

end

/-- A fault with its place: lines count from one, columns are octets since the line began. -/
structure ParseError where
  fault : Fault
  line : Nat
  column : Nat
deriving DecidableEq, Repr

def ParseError.message (e : ParseError) : String :=
  e.fault.message ++ " at line " ++ toString e.line ++ " column " ++ toString e.column

/-- Turns the number of octets behind a fault into a line and a column. -/
def Failure.locate (e : Failure) (input : List UInt8) : ParseError :=
  let before := input.take (input.length - e.left)
  { fault := e.fault
    line := 1 + before.count 0x0A
    column := (before.reverse.takeWhile (· != 0x0A)).length }

/-- Reads a JSON text: one value with nothing but blanks around it. -/
def parse (input : List UInt8) : Except ParseError Json :=
  match readValue (2 * input.length + 2) 128 input with
  | .error e => .error (e.locate input)
  | .ok (value, rest) =>
      match skipBlanks rest with
      | [] => .ok value
      | rest => .error (Failure.locate ⟨.trailingCharacters, rest.length - 1⟩ input)

def parseText (s : String) : Except ParseError Json :=
  parse (Text.Utf8.encode s)

end RequestDispatch.Json
