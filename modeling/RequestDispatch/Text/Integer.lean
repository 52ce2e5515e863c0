/-!
Integers in text: an optional sign and at least one digit, nothing else. The reader reports
why a text is no integer of the wanted range; the causes are found in the order empty, bad
digit, out of range, except that the range is judged at the digit where it is left.
-/

namespace RequestDispatch.Text

inductive IntegerError where
  | empty
  | invalidDigit
  | tooLarge
  | tooSmall
deriving DecidableEq, Repr

namespace IntegerError

def message : IntegerError → String
  | .empty => "cannot parse integer from empty string"
  | .invalidDigit => "invalid digit found in string"
  | .tooLarge => "number too large to fit in target type"
  | .tooSmall => "number too small to fit in target type"

end IntegerError

/-- The value of a digit in the given base, which is at most sixteen. -/
def digit? (base : Nat) (c : Char) : Option Nat :=
  let n := c.toNat
  let value :=
    if 0x30 ≤ n ∧ n ≤ 0x39 then some (n - 0x30)
    else if 0x41 ≤ n ∧ n ≤ 0x46 then some (n - 0x37)
    else if 0x61 ≤ n ∧ n ≤ 0x66 then some (n - 0x57)
    else none
  value.filter (· < base)

/-- Reads digits onto the number `read`, failing at the first character that is no digit or
at the first digit with which the number exceeds `limit`. -/
def readDigits (base limit : Nat) (tooFar : IntegerError) :
    Nat → List Char → Except IntegerError Nat
  | read, [] => .ok read
  | read, c :: rest =>
      match digit? base c with
      | none => .error .invalidDigit
      | some d =>
          if read * base + d ≤ limit then readDigits base limit tooFar (read * base + d) rest
          else .error tooFar

/-- Reads a number between zero and `limit` with an optional plus sign. -/
def readNatural (base limit : Nat) (s : List Char) : Except IntegerError Nat :=
  match s with
  | [] => .error .empty
  | ['+'] => .error .invalidDigit
  | ['-'] => .error .invalidDigit
  | '+' :: digits => readDigits base limit .tooLarge 0 digits
  | digits => readDigits base limit .tooLarge 0 digits

/-- Reads a decimal number between `-limit - 1` and `limit` with an optional sign. -/
def readSigned (limit : Nat) (s : List Char) : Except IntegerError Int :=
  match s with
  | [] => .error .empty
  | ['+'] => .error .invalidDigit
  | ['-'] => .error .invalidDigit
  | '+' :: digits => (readDigits 10 limit .tooLarge 0 digits).map Int.ofNat
  | '-' :: digits =>
      (readDigits 10 (limit + 1) .tooSmall 0 digits).map fun n => -Int.ofNat n
  | digits => (readDigits 10 limit .tooLarge 0 digits).map Int.ofNat

def maxInt64 : Nat := 0x7FFFFFFFFFFFFFFF

def maxUInt64 : Nat := 0xFFFFFFFFFFFFFFFF

def readInt64 (s : String) : Except IntegerError Int :=
  readSigned maxInt64 s.toList

end RequestDispatch.Text
