import RequestDispatch.Text.Blank

/-!
Request identifiers: 128 bits, written as 26 digits of base 32, the most significant first.
The digits are the ten numerals and the letters without I, L, O and U, read in either case
and written in upper case. The text has room for two bits more than an identifier; they are
dropped when it is read.
-/

namespace RequestDispatch

structure RequestId where
  bits : BitVec 128
deriving DecidableEq, Inhabited

namespace RequestId

/-- The header that carries an identifier between services. -/
def header : String := "x-request-id"

inductive Fault where
  | invalidLength
  | invalidCharacter
deriving DecidableEq, Repr

def Fault.message : Fault → String
  | .invalidLength => "invalid length"
  | .invalidCharacter => "invalid character"

/-- The digits in the order of their values. -/
def alphabet : List Char :=
  "0123456789ABCDEFGHJKMNPQRSTVWXYZ".toList

def digit? (c : Char) : Option Nat :=
  alphabet.idxOf? c.toUpper

def digitChar (n : Nat) : Char :=
  alphabet.getD n '0'

/-- Reads digits onto the bits read so far; every digit moves them up by five places. -/
def readDigits : BitVec 128 → List Char → Except Fault (BitVec 128)
  | bits, [] => .ok bits
  | bits, c :: rest =>
      match digit? c with
      | none => .error .invalidCharacter
      | some n => readDigits ((bits <<< 5) ||| BitVec.ofNat 128 n) rest

/-- Reads an identifier. The length is judged first, in octets. -/
def parse (s : String) : Except Fault RequestId :=
  if s.utf8ByteSize = 26 then (readDigits 0 s.toList).map RequestId.mk
  else .error .invalidLength

def digits (id : RequestId) : List Char :=
  (List.range 26).map fun i => digitChar ((id.bits >>> (5 * (25 - i))).toNat % 32)

def text (id : RequestId) : String :=
  String.ofList id.digits

/-- The identifier in a header value, blanks around it ignored. -/
def ofHeader? (value : Option String) : Option RequestId :=
  value.bind fun s => (parse (Text.trim s)).toOption

end RequestId

end RequestDispatch
