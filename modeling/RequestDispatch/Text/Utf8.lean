/-!
UTF-8 as lists of octets. `Utf8.scan` reads one scalar value or reports how many octets an
ill-formed sequence takes; strict decoding fails on the first such sequence, lenient
decoding puts U+FFFD in its place.
-/

namespace RequestDispatch.Text.Utf8

def encode (s : String) : List UInt8 :=
  s.toList.flatMap String.utf8EncodeChar

/-- Result of reading the front of a list of octets: a scalar value or an ill-formed
sequence, each with the number of octets it takes. An ill-formed sequence is the longest
beginning of a well-formed one, or a single octet. -/
inductive Scan where
  | scalar (c : Char) (size : Nat)
  | illFormed (size : Nat)

def isContinuation (b : UInt8) : Bool :=
  0x80 ≤ b && b ≤ 0xBF

def payload (b : UInt8) : Nat :=
  b.toNat % 64

/-- The octets that may follow the leading octet of a three-octet sequence. Overlong forms
and surrogates are excluded. -/
def secondOfThree (lead second : UInt8) : Bool :=
  if lead == 0xE0 then 0xA0 ≤ second && second ≤ 0xBF
  else if lead == 0xED then 0x80 ≤ second && second ≤ 0x9F
  else isContinuation second

/-- The octets that may follow the leading octet of a four-octet sequence. Overlong forms
and numbers beyond U+10FFFF are excluded. -/
def secondOfFour (lead second : UInt8) : Bool :=
  if lead == 0xF0 then 0x90 ≤ second && second ≤ 0xBF
  else if lead == 0xF4 then 0x80 ≤ second && second ≤ 0x8F
  else isContinuation second

def scan (lead : UInt8) (rest : List UInt8) : Scan :=
  if lead < 0x80 then .scalar (Char.ofNat lead.toNat) 1
  else if lead < 0xC2 then .illFormed 1
  else if lead < 0xE0 then
    match rest with
    | b :: _ =>
        if isContinuation b then
          .scalar (Char.ofNat (lead.toNat % 32 * 64 + payload b)) 2
        else .illFormed 1
    | [] => .illFormed 1
  else if lead < 0xF0 then
    match rest with
    | b :: more =>
        if secondOfThree lead b then
          match more with
          | c :: _ =>
              if isContinuation c then
                .scalar (Char.ofNat (lead.toNat % 16 * 4096 + payload b * 64 + payload c)) 3
              else .illFormed 2
          | [] => .illFormed 2
        else .illFormed 1
    | [] => .illFormed 1
  else if lead < 0xF5 then
    match rest with
    | b :: more =>
        if secondOfFour lead b then
          match more with
          | c :: last =>
              if isContinuation c then
                match last with
                | d :: _ =>
                    if isContinuation d then
                      .scalar (Char.ofNat (lead.toNat % 8 * 262144 + payload b * 4096
                        + payload c * 64 + payload d)) 4
                    else .illFormed 3
                | [] => .illFormed 3
              else .illFormed 2
          | [] => .illFormed 2
        else .illFormed 1
    | [] => .illFormed 1
  else .illFormed 1

/-- Reads octets into characters, the newest first, until the octets end or a sequence is
ill-formed. Returns the characters, the number of octets read, and the octets that are
left. Every step takes an octet, so `fuel` of their number is enough. -/
def scanAll : (fuel : Nat) → List Char → Nat → List UInt8 → List Char × Nat × List UInt8
  | 0, read, size, rest => (read, size, rest)
  | _ + 1, read, size, [] => (read, size, [])
  | fuel + 1, read, size, b :: rest =>
      match scan b rest with
      | .scalar c n => scanAll fuel (c :: read) (size + n) (rest.drop (n - 1))
      | .illFormed _ => (read, size, b :: rest)

/-- The number of octets before the first ill-formed sequence. -/
def validUpTo (bytes : List UInt8) : Nat :=
  (scanAll (bytes.length + 1) [] 0 bytes).2.1

def decode? (bytes : List UInt8) : Option String :=
  let (read, _, rest) := scanAll (bytes.length + 1) [] 0 bytes
  if rest.isEmpty then some (String.ofList read.reverse) else none

/-- Lenient decoding of the octets that are left, onto the characters read so far. -/
def replaceAll : (fuel : Nat) → List Char → List UInt8 → List Char
  | 0, read, _ => read.reverse
  | _ + 1, read, [] => read.reverse
  | fuel + 1, read, b :: rest =>
      match scan b rest with
      | .scalar c n => replaceAll fuel (c :: read) (rest.drop (n - 1))
      | .illFormed n => replaceAll fuel ('\uFFFD' :: read) (rest.drop (n - 1))

/-- The text that the octets encode, with U+FFFD for every ill-formed sequence. -/
def decodeLenient (bytes : List UInt8) : String :=
  String.ofList (replaceAll (bytes.length + 1) [] bytes)

end RequestDispatch.Text.Utf8
