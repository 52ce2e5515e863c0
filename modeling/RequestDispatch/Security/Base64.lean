/-!
Base 64. Four symbols of six bits stand for three octets; the last group may be shorter. Two
forms are read: the one for URLs, with hyphen and underscore and without padding, and the
standard one, with plus sign and slash and padded to full groups. The bits of a last symbol
that reach beyond the last octet must be zero.
-/

namespace RequestDispatch.Base64

inductive Fault where
  | invalidSymbol (octet : UInt8) (offset : Nat)
  | invalidLength (length : Nat)
  | invalidLastSymbol (octet : UInt8) (offset : Nat)
  | invalidPadding
deriving DecidableEq, Repr

def Fault.message : Fault → String
  | .invalidSymbol octet offset =>
      "Invalid symbol " ++ toString octet ++ ", offset " ++ toString offset ++ "."
  | .invalidLength length => "Invalid input length: " ++ toString length
  | .invalidLastSymbol octet offset =>
      "Invalid last symbol " ++ toString octet ++ ", offset " ++ toString offset ++ "."
  | .invalidPadding => "Invalid padding"

/-- The six bits of a symbol, where the two symbols beside letters and digits are given. -/
def symbol? (plus slash : UInt8) (b : UInt8) : Option Nat :=
  if 0x41 ≤ b && b ≤ 0x5A then some (b.toNat - 0x41)
  else if 0x61 ≤ b && b ≤ 0x7A then some (b.toNat - 0x61 + 26)
  else if 0x30 ≤ b && b ≤ 0x39 then some (b.toNat - 0x30 + 52)
  else if b == plus then some 62
  else if b == slash then some 63
  else none

def octets : List Nat → List UInt8
  | a :: b :: c :: d :: rest =>
      UInt8.ofNat (a * 4 + b / 16) :: UInt8.ofNat (b % 16 * 16 + c / 4)
        :: UInt8.ofNat (c % 4 * 64 + d) :: octets rest
  | [a, b, c] => [UInt8.ofNat (a * 4 + b / 16), UInt8.ofNat (b % 16 * 16 + c / 4)]
  | [a, b] => [UInt8.ofNat (a * 4 + b / 16)]
  | _ => []

/-- Reads symbols into sextets; `offset` is the number of symbols before. -/
def sextets (read : UInt8 → Option Nat) : (offset : Nat) → List UInt8 → Except Fault (List Nat)
  | _, [] => .ok []
  | offset, b :: rest =>
      match read b with
      | none => .error (.invalidSymbol b offset)
      | some n => (sextets read (offset + 1) rest).map (n :: ·)

/-- The sign that fills the last group of the standard form. -/
def padding : UInt8 := 0x3D

/-- Reads the last group into its sextets and the number of padding signs behind them;
`read` holds the sextets before, the newest first, and `pads` the padding before. Padding
stands behind two symbols at least, and no symbol behind padding. -/
def lastGroup (symbol : UInt8 → Option Nat) (start : Nat) :
    (read : List Nat) → (pads : Nat) → List UInt8 → Except Fault (List Nat × Nat)
  | read, pads, [] => .ok (read.reverse, pads)
  | read, pads, b :: rest =>
      let place := start + read.length + pads
      if b == padding then
        if place < start + 2 then .error (.invalidSymbol b place)
        else lastGroup symbol start read (pads + 1) rest
      else if 0 < pads then .error (.invalidSymbol padding (start + read.length))
      else
        match symbol b with
        | none => .error (.invalidSymbol b place)
        | some n => lastGroup symbol start (n :: read) 0 rest

/-- Whether the last of these sextets has bits beyond the last octet. -/
def hasStrayBits (group : List Nat) : Bool :=
  match group with
  | [_, b] => b % 16 != 0
  | [_, _, c] => c % 4 != 0
  | _ => false

/-- Decodes a text. `padded` tells whether the last group has to be filled or must not have
any padding. A stray octet behind full groups is reported first. -/
def decode (symbol : UInt8 → Option Nat) (padded : Bool) (text : List UInt8) :
    Except Fault (List UInt8) := do
  let size := text.length
  let last := text.getLastD padding
  if size % 4 = 1 ∧ last ≠ padding ∧ (symbol last).isNone then
    .error (.invalidSymbol last (size - 1))
  else
    let start := size - (if size % 4 = 0 then 4 else size % 4)
    let front ← sextets symbol 0 (text.take start)
    let (group, pads) ← lastGroup symbol start [] 0 (text.drop start)
    if 0 < size ∧ group.length < 2 then .error (.invalidLength (start + group.length))
    else if padded ∧ (group.length + pads) % 4 ≠ 0 then .error .invalidPadding
    else if !padded ∧ 0 < pads then .error .invalidPadding
    else if hasStrayBits group then
      let place := start + group.length - 1
      .error (.invalidLastSymbol (text.getD place 0) place)
    else .ok (octets (front ++ group))

/-- Decodes the form for URLs, which has no padding. -/
def decodeUrl (text : List UInt8) : Except Fault (List UInt8) :=
  decode (symbol? 0x2D 0x5F) false text

/-- Decodes the standard form, which is padded to groups of four. -/
def decodeStandard (text : List UInt8) : Except Fault (List UInt8) :=
  decode (symbol? 0x2B 0x2F) true text

end RequestDispatch.Base64
