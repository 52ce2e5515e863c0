import RequestDispatch.Decimal.Shortest

/-!
The written forms of a double. Both use its shortest digits: `Double.plain` never has an
exponent and no point without a digit after it, `Double.json` always has a point or an
exponent and is positional from `1e-5` up to, not including, `1e16`.
-/

namespace RequestDispatch

def Decimal.digitChars (d : Decimal) : List Char :=
  Nat.toDigits 10 d.digits

def Decimal.leading (d : Decimal) : Int :=
  d.exponent + (d.digitChars.length : Nat) - 1

def Decimal.positional (d : Decimal) : List Char :=
  let digits := d.digitChars
  match d.exponent with
  | .ofNat e => if d.digits = 0 then ['0'] else digits ++ List.replicate e '0'
  | .negSucc e =>
      let places := e + 1
      if places < digits.length then
        digits.take (digits.length - places) ++ '.' :: digits.drop (digits.length - places)
      else '0' :: '.' :: List.replicate (places - digits.length) '0' ++ digits

/-- Notation with one digit before the point and a signed exponent. -/
def Decimal.scientific (d : Decimal) : List Char :=
  let mantissa :=
    match d.digitChars with
    | [] => []
    | [c] => [c]
    | c :: rest => c :: '.' :: rest
  let exponent :=
    match d.leading with
    | .ofNat e => '+' :: Nat.toDigits 10 e
    | .negSucc e => '-' :: Nat.toDigits 10 (e + 1)
  mantissa ++ 'e' :: exponent

namespace Double

def signed (d : Double) (magnitude : List Char) : String :=
  String.ofList (if d.negative then '-' :: magnitude else magnitude)

/-- Without exponent, and without a point for integers. -/
def plain (d : Double) : String :=
  d.signed d.shortest.positional

/-- Without exponent, and always with a point. -/
def pointed (d : Double) : String :=
  let digits := d.shortest.positional
  d.signed (if digits.contains '.' then digits else digits ++ ['.', '0'])

def json (d : Double) : String :=
  let decimal := d.shortest
  if -5 ≤ decimal.leading ∧ decimal.leading < 16 then d.pointed
  else d.signed decimal.scientific

end Double

def Extended.plain : Extended → String
  | .finite d => d.plain
  | .infinite false => "inf"
  | .infinite true => "-inf"
  | .nan => "NaN"

end RequestDispatch
