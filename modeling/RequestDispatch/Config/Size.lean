import RequestDispatch.Text.Blank
import RequestDispatch.Text.Integer

/-!
Sizes in configuration texts: a number of octets in decimal, or in hexadecimal after `0x`.
-/

namespace RequestDispatch

/-- Why a text is no size: the notation it was read in, and what is wrong with the number. -/
structure SizeError where
  hexadecimal : Bool
  cause : Text.IntegerError
deriving DecidableEq, Repr

namespace SizeError

def summary (e : SizeError) : String :=
  if e.hexadecimal then "not a hexadecimal size" else "not a decimal size"

def message (e : SizeError) : String :=
  e.summary ++ ": " ++ e.cause.message

end SizeError

/-- Reads a size. Blanks around it are ignored, and it has to fit 64 bits. -/
def readSize (s : String) : Except SizeError Nat :=
  match Text.trimChars s.toList with
  | '0' :: 'x' :: digits =>
      (Text.readNatural 16 Text.maxUInt64 digits).mapError (⟨true, ·⟩)
  | '0' :: 'X' :: digits =>
      (Text.readNatural 16 Text.maxUInt64 digits).mapError (⟨true, ·⟩)
  | digits => (Text.readNatural 10 Text.maxUInt64 digits).mapError (⟨false, ·⟩)

end RequestDispatch
