/-!
Blank characters and the operations that discard them. `isBlank` is the Unicode property
White_Space, which is wider than the five characters of `Char.isWhitespace`.
-/

namespace RequestDispatch.Text

/-- Whether a character has the Unicode property White_Space. -/
def isBlank (c : Char) : Bool :=
  let n := c.toNat
  (0x9 ≤ n && n ≤ 0xD) || n == 0x20 || n == 0x85 || n == 0xA0 || n == 0x1680
    || (0x2000 ≤ n && n ≤ 0x200A) || n == 0x2028 || n == 0x2029 || n == 0x202F
    || n == 0x205F || n == 0x3000

/-- Whether a byte is ASCII white space: space, tab, line feed, form feed or carriage
return. The vertical tab is not among them. -/
def isBlankByte (b : UInt8) : Bool :=
  b == 0x20 || b == 0x09 || b == 0x0A || b == 0x0C || b == 0x0D

def trimChars (cs : List Char) : List Char :=
  ((cs.dropWhile isBlank).reverse.dropWhile isBlank).reverse

def trim (s : String) : String :=
  String.ofList (trimChars s.toList)

/-- The maximal runs of non-blank characters, in order. -/
def wordsOfChars : List Char → List (List Char)
  | [] => []
  | c :: rest =>
      if isBlank c then wordsOfChars rest
      else
        match rest with
        | [] => [[c]]
        | d :: _ =>
            if isBlank d then [c] :: wordsOfChars rest
            else
              match wordsOfChars rest with
              | [] => [[c]]
              | word :: more => (c :: word) :: more

def words (s : String) : List String :=
  (wordsOfChars s.toList).map String.ofList

end RequestDispatch.Text
