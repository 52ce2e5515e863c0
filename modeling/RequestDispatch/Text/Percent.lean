import RequestDispatch.Text.Split
import RequestDispatch.Text.Utf8

/-!
Percent-encoding. `Percent.decodeBytes` puts an octet in the place of each `%XX` and leaves
a percent sign without two hexadecimal digits as it is. `Percent.decode` is used for path
segments and keeps the written form when the octets are no UTF-8; `Form.fields` reads the
pairs of a query string and replaces ill-formed octets.
-/

namespace RequestDispatch.Text

def hexDigit? (b : UInt8) : Option UInt8 :=
  if 0x30 ≤ b && b ≤ 0x39 then some (b - 0x30)
  else if 0x41 ≤ b && b ≤ 0x46 then some (b - 0x37)
  else if 0x61 ≤ b && b ≤ 0x66 then some (b - 0x57)
  else none

namespace Percent

/-- Replaces each `%XX` by its octet. -/
def decodeBytes : List UInt8 → List UInt8
  | [] => []
  | 0x25 :: high :: low :: rest =>
      match hexDigit? high, hexDigit? low with
      | some h, some l => (h * 16 + l) :: decodeBytes rest
      | _, _ => 0x25 :: decodeBytes (high :: low :: rest)
  | b :: rest => b :: decodeBytes rest

/-- The text that a path segment stands for. A segment whose octets are no UTF-8 stands for
itself. -/
def decode (segment : String) : String :=
  (Utf8.decode? (decodeBytes (Utf8.encode segment))).getD segment

end Percent

namespace Form

/-- A name or value of a form field: a plus sign stands for a space. -/
def decode (bytes : List UInt8) : String :=
  Utf8.decodeLenient (Percent.decodeBytes (bytes.map fun b => if b == 0x2B then 0x20 else b))

/-- One field, divided at its first equals sign; without one, the value is empty. -/
def field (bytes : List UInt8) : String × String :=
  (decode (bytes.takeWhile (· != 0x3D)), decode ((bytes.dropWhile (· != 0x3D)).drop 1))

/-- The fields of a form-encoded text, in order. Empty pieces between ampersands are no
fields. -/
def fields (query : String) : List (String × String) :=
  ((bytePieces 0x26 (Utf8.encode query)).filter (!·.isEmpty)).map field

end Form

end RequestDispatch.Text
