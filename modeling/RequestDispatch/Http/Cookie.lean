import RequestDispatch.Text.Blank
import RequestDispatch.Text.Split

/-!
Cookies in a header value: pieces between semicolons, each divided at its first equals sign.
Blanks around pieces, names and values do not count, and a piece without a name is no
cookie.
-/

namespace RequestDispatch.Cookie

/-- The cookie that one piece of a header value holds. -/
def ofPiece (piece : List Char) : Option (String × String) :=
  let trimmed := Text.trimChars piece
  let (name, value) := (Text.cut '=' trimmed).getD (trimmed, [])
  let name := Text.trimChars name
  if name.isEmpty then none
  else some (String.ofList name, String.ofList (Text.trimChars value))

def parse (header : String) : List (String × String) :=
  (Text.pieces ';' header.toList).filterMap ofPiece

end RequestDispatch.Cookie
