/-!
Numbers of binary64 precision, exactly. A finite double is a sign, a significand and a power
of two in canonical form, so equal fields mean the same double and zero keeps its sign.
`Double.value` is the rational number it denotes; `Double.nearest` rounds a quotient of
naturals to the nearest double, a tie to the even significand.
-/

namespace RequestDispatch

/-- Canonical significands and exponents: 53 bits, the leading one set unless the exponent
is the least one. -/
def CanonicalDouble (significand : Nat) (exponent : Int) : Prop :=
  significand < 1 <<< 53 ∧ -1074 ≤ exponent ∧ exponent ≤ 971 ∧
    (1 <<< 52 ≤ significand ∨ exponent = -1074)

instance (significand : Nat) (exponent : Int) :
    Decidable (CanonicalDouble significand exponent) := by
  unfold CanonicalDouble; infer_instance

/-- A finite number of binary64 precision. -/
structure Double where
  negative : Bool
  significand : Nat
  exponent : Int
  canonical : CanonicalDouble significand exponent
deriving DecidableEq

/-- A double, an infinity, or no number at all. -/
inductive Extended where
  | finite (d : Double)
  | infinite (negative : Bool)
  | nan
deriving DecidableEq

namespace Double

def zero (negative : Bool) : Double :=
  ⟨negative, 0, -1074, by decide⟩

def largest (negative : Bool) : Double :=
  ⟨negative, 1 <<< 53 - 1, 971, by decide⟩

instance : Inhabited Double := ⟨zero false⟩

def value (d : Double) : Rat :=
  let magnitude := (d.significand : Rat) * 2 ^ d.exponent
  if d.negative then -magnitude else magnitude

/-- A quotient rounded to an integer, a tie to the even one. -/
def roundHalfEven (num den : Nat) : Nat :=
  let quotient := num / den
  let twice := 2 * (num % den)
  if twice < den then quotient
  else if den < twice then quotient + 1
  else if quotient % 2 = 0 then quotient
  else quotient + 1

/-- `num / den / 2 ^ exponent` as a quotient of naturals. -/
def scaled (num den : Nat) (exponent : Int) : Nat × Nat :=
  match exponent with
  | .ofNat e => (num, den <<< e)
  | .negSucc e => (num <<< (e + 1), den)

/-- The exponent at which `num / den` has a significand of 53 bits, or the least exponent. -/
def exponentFor (num den : Nat) : Int :=
  let guess : Int := (num.log2 : Int) - den.log2 - 53
  let (n, d) := scaled num den guess
  max (if d <<< 53 ≤ n then guess + 1 else guess) (-1074)

/-- The double with these fields, or `none` when the exponent is too large. -/
def ofParts? (negative : Bool) (significand : Nat) (exponent : Int) : Option Double :=
  if h : CanonicalDouble significand exponent then
    some ⟨negative, significand, exponent, h⟩
  else none

/-- The double nearest to `num / den`, or `none` when the quotient is beyond the largest
one. -/
def nearest (negative : Bool) (num den : Nat) : Option Double :=
  if num = 0 then some (zero negative)
  else
    let exponent := exponentFor num den
    let (n, d) := scaled num den exponent
    let significand := roundHalfEven n d
    if significand = 1 <<< 53 then ofParts? negative (1 <<< 52) (exponent + 1)
    else ofParts? negative significand exponent

/-- The double nearest to an integer; the largest double stands in for integers beyond it. -/
def ofInt (n : Int) : Double :=
  (nearest (n < 0) n.natAbs 1).getD (largest (n < 0))

def magnitude (d : Double) : Nat × Nat :=
  match d.exponent with
  | .ofNat e => (d.significand <<< e, 1)
  | .negSucc e => (d.significand, 1 <<< (e + 1))

def mul? (a b : Double) : Option Double :=
  let (n₁, d₁) := a.magnitude
  let (n₂, d₂) := b.magnitude
  nearest (a.negative != b.negative) (n₁ * n₂) (d₁ * d₂)

/-- The quotient of two doubles, rounded. The divisor must not be zero. -/
def div? (a b : Double) : Option Double :=
  let (n₁, d₁) := a.magnitude
  let (n₂, d₂) := b.magnitude
  nearest (a.negative != b.negative) (n₁ * d₂) (d₁ * n₂)

def powerOfTen (k : Nat) : Double :=
  (nearest false (Nat.pow 10 k) 1).getD (largest false)

def isZero (d : Double) : Bool :=
  d.significand == 0

/-- The same double, but with a positive zero for the negative one. -/
def unsignZero (d : Double) : Double :=
  if d.isZero then zero false else d

def toInt? (d : Double) : Option Int :=
  let (n, k) := d.magnitude
  if n % k = 0 then
    some (if d.negative then -((n / k : Nat) : Int) else ((n / k : Nat) : Int))
  else none

/-- The double nearest to `digits * 10 ^ exponent`, or `none` beyond the largest one. The
decimal point is first looked at by itself, so that far exponents cost nothing. -/
def ofDecimal (negative : Bool) (digits : Nat) (exponent : Int) : Option Double :=
  if digits = 0 then some (zero negative)
  else
    let size : Int := exponent + ((Nat.toDigits 10 digits).length : Nat)
    if size < -400 then some (zero negative)
    else if 400 < size then none
    else
      match exponent with
      | .ofNat e => nearest negative (digits * Nat.pow 10 e) 1
      | .negSucc e => nearest negative digits (Nat.pow 10 (e + 1))

end Double

namespace Extended

/-- Whether `a` is below `b`; nothing is below or above what is no number. -/
def lt : Extended → Extended → Bool
  | .nan, _ => false
  | _, .nan => false
  | .infinite true, .infinite true => false
  | .infinite true, _ => true
  | _, .infinite true => false
  | .infinite false, _ => false
  | .finite _, .infinite false => true
  | .finite a, .finite b => a.value < b.value

/-- Whether `a` is at most `b`; false if either is no number. -/
def le : Extended → Extended → Bool
  | .nan, _ => false
  | _, .nan => false
  | .infinite true, _ => true
  | _, .infinite true => false
  | _, .infinite false => true
  | .infinite false, .finite _ => false
  | .finite a, .finite b => a.value ≤ b.value

end Extended

end RequestDispatch
