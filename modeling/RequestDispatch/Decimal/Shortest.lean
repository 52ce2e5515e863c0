import RequestDispatch.Decimal.Double

/-!
The shortest decimal that reads back as a double. Every double is the nearest one to all
rational numbers of an interval around it, which holds its ends exactly when the significand
is even. On the decimal grids of one, two, … digits, only the two neighbours of the double
have to be tested: the first grid with a neighbour inside the interval is taken, and of two
such neighbours the nearer one, of equally near ones the even one.
-/

namespace RequestDispatch

/-- A decimal `digits * 10 ^ exponent`. -/
structure Decimal where
  digits : Nat
  exponent : Int
deriving DecidableEq, Repr

namespace Double

/-- The numbers that round to a positive double, as naturals over one denominator: the
double itself and both ends of its interval. -/
structure Neighbourhood where
  low : Nat
  middle : Nat
  high : Nat
  den : Nat
  closed : Bool

/-- The interval around a double. Below a power of two the next double is half as far. -/
def neighbourhood (d : Double) : Neighbourhood :=
  let m := d.significand
  let below := if m = 1 <<< 52 ∧ d.exponent ≠ -1074 then 1 else 2
  let (unit, den) : Nat × Nat :=
    match d.exponent - 2 with
    | .ofNat e => (1 <<< e, 1)
    | .negSucc e => (1, 1 <<< (e + 1))
  { low := (4 * m - below) * unit, middle := 4 * m * unit, high := (4 * m + 2) * unit,
    den := den, closed := m % 2 = 0 }

namespace Neighbourhood

/-- The decimal grid point `n * 10 ^ q`, scaled like the interval over `den * gridScale`. -/
def gridScale (q : Int) : Nat × Nat :=
  match q with
  | .ofNat k => (Nat.pow 10 k, 1)
  | .negSucc k => (1, Nat.pow 10 (k + 1))

def covers (s : Neighbourhood) (n : Nat) (q : Int) : Bool :=
  let (up, down) := gridScale q
  let point := n * up * s.den
  if s.closed then s.low * down ≤ point && point ≤ s.high * down
  else s.low * down < point && point < s.high * down

def floorOn (s : Neighbourhood) (q : Int) : Nat :=
  let (up, down) := gridScale q
  s.middle * down / (s.den * up)

/-- Of two neighbouring grid points `n` and `n + 1`, the one nearer to the double. -/
def nearer (s : Neighbourhood) (n : Nat) (q : Int) : Nat :=
  let (up, down) := gridScale q
  let twice := 2 * s.middle * down
  let halfway := (2 * n + 1) * up * s.den
  if twice < halfway then n
  else if halfway < twice then n + 1
  else if n % 2 = 0 then n else n + 1

/-- The grid point with exponent `q` that reads back, if there is one. -/
def hit? (s : Neighbourhood) (q : Int) : Option Nat :=
  let n := s.floorOn q
  match s.covers n q, s.covers (n + 1) q with
  | true, true => some (s.nearer n q)
  | true, false => some n
  | false, true => some (n + 1)
  | false, false => none

/-- The exponent of the leading decimal digit, found upwards from a guess below it. -/
def leadingExponent (s : Neighbourhood) : (fuel : Nat) → Int → Int
  | 0, p => p
  | fuel + 1, p => if 0 < s.floorOn (p + 1) then leadingExponent s fuel (p + 1) else p

def search (s : Neighbourhood) : (fuel : Nat) → Int → Decimal
  | 0, q => ⟨s.floorOn q, q⟩
  | fuel + 1, q =>
      match s.hit? q with
      | some n => ⟨n, q⟩
      | none => search s fuel (q - 1)

end Neighbourhood

def trimZeros : (fuel : Nat) → Decimal → Decimal
  | 0, d => d
  | fuel + 1, d =>
      if d.digits % 10 = 0 then trimZeros fuel ⟨d.digits / 10, d.exponent + 1⟩ else d

/-- The shortest decimal that reads back as the magnitude of a double. Seventeen digits are
always enough. -/
def shortest (d : Double) : Decimal :=
  if d.significand = 0 then ⟨0, 0⟩
  else
    let s := d.neighbourhood
    let guess := ((s.middle.log2 : Int) - s.den.log2) * 30103 / 100000 - 2
    trimZeros 20 (s.search 17 (s.leadingExponent 5 guess))

end Double

end RequestDispatch
