import RequestDispatch.Decimal.Double

/-!
Decimal numbers in text, as they are accepted for a parameter: an optional sign, then
digits with at most one point among or beside them and an optional exponent, or one of the
words for infinity and for no number in any case. The result is the nearest double.
-/

namespace RequestDispatch.Decimal

/-- The longest beginning that consists of digits, and what follows it. -/
def spanDigits (s : List Char) : List Char × List Char :=
  (s.takeWhile Char.isDigit, s.dropWhile Char.isDigit)

def natOfDigits (digits : List Char) : Nat :=
  digits.foldl (fun n c => n * 10 + (c.toNat - '0'.toNat)) 0

def splitSign : List Char → Bool × List Char
  | '-' :: rest => (true, rest)
  | '+' :: rest => (false, rest)
  | rest => (false, rest)

/-- The exponent at the end of a number: nothing, or a letter, a sign and digits. -/
def readExponent : List Char → Option Int
  | [] => some 0
  | c :: rest =>
      if c = 'e' ∨ c = 'E' then
        let (negative, digits) := splitSign rest
        if digits.isEmpty ∨ !digits.all Char.isDigit then none
        else
          let n : Int := natOfDigits digits
          some (if negative then -n else n)
      else none

/-- An unsigned decimal: its digits without the point, and its exponent. -/
def readUnsigned (s : List Char) : Option (Nat × Int) :=
  let (whole, rest) := spanDigits s
  let (fraction, tail) :=
    match rest with
    | '.' :: more => spanDigits more
    | _ => ([], rest)
  if whole.isEmpty ∧ fraction.isEmpty then none
  else
    (readExponent tail).map fun e =>
      (natOfDigits (whole ++ fraction), e - (fraction.length : Nat))

/-- Reads a decimal number, an infinity, or the text for no number. -/
def read? (s : String) : Option Extended :=
  let (negative, rest) := splitSign s.toList
  let word := String.ofList (rest.map Char.toLower)
  if word = "inf" ∨ word = "infinity" then some (.infinite negative)
  else if word = "nan" then some .nan
  else
    (readUnsigned rest).map fun (digits, exponent) =>
      match Double.ofDecimal negative digits exponent with
      | some d => .finite d
      | none => .infinite negative

end RequestDispatch.Decimal
