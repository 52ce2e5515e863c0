/-!
Cutting text at a separator. `pieces` keeps empty pieces, so that joining them with the
separator gives the text back; `cut` divides at the first separator only.
-/

namespace RequestDispatch.Text

/-- The pieces between the occurrences of `sep`, empty ones included. -/
def pieces (sep : Char) : List Char → List (List Char)
  | [] => [[]]
  | c :: rest =>
      if c = sep then [] :: pieces sep rest
      else
        match pieces sep rest with
        | [] => [[c]]
        | piece :: more => (c :: piece) :: more

/-- What stands before and after the first `sep`, if there is one. -/
def cut (sep : Char) : List Char → Option (List Char × List Char)
  | [] => none
  | c :: rest =>
      if c = sep then some ([], rest)
      else (cut sep rest).map fun (before, after) => (c :: before, after)

def bytePieces (sep : UInt8) (bytes : List UInt8) : List (List UInt8) :=
  let (current, finished) := bytes.foldl
    (fun (current, finished) b =>
      if b == sep then ([], current.reverse :: finished) else (b :: current, finished))
    ([], [])
  (current.reverse :: finished).reverse

def sameIgnoringCase (a b : String) : Bool :=
  a.toList.map Char.toLower == b.toList.map Char.toLower

end RequestDispatch.Text
