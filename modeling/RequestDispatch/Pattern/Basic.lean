import RequestDispatch.Pattern.CharSet

/-!
Regular expressions and the texts they match. `Pattern.ends` follows an expression from a set
of places in a text to the set of places where a match can end, so every way to match is
followed at once and an expression takes polynomial time. Whether a repetition prefers more or
fewer rounds makes no difference to the set.
-/

namespace RequestDispatch

inductive Pattern where
  | empty
  | char (set : CharSet)
  | textStart
  | textEnd
  | lineStart
  | lineEnd
  | wordBoundary
  | notWordBoundary
  | wordStart
  | wordEnd
  | seq (a b : Pattern)
  | alt (a b : Pattern)
  /-- `least` rounds or more, up to `most` if there is a limit. -/
  | rounds (p : Pattern) (least : Nat) (most : Option Nat)
  /-- What follows matches, or does not if `negated`. -/
  | ahead (negated : Bool) (p : Pattern)
  /-- Something that ends here matches, or nothing does if `negated`. -/
  | behind (negated : Bool) (p : Pattern)
deriving Inhabited

namespace Pattern

def merge : List Nat → List Nat → List Nat
  | [], bs => bs
  | as, [] => as
  | a :: as, b :: bs =>
      if a < b then a :: merge as (b :: bs)
      else if b < a then b :: merge (a :: as) bs
      else a :: merge as bs
  termination_by as bs => as.length + bs.length

def wordAt (text : Array Char) (i : Nat) : Bool :=
  match text[i]? with
  | some c => CharSet.word.contains c
  | none => false

def wordBefore (text : Array Char) (i : Nat) : Bool :=
  i != 0 && wordAt text (i - 1)

def lineBegins (text : Array Char) (i : Nat) : Bool :=
  i == 0 || text[i - 1]? == some '\n'

def lineEnds (text : Array Char) (i : Nat) : Bool :=
  i == text.size || text[i]? == some '\n'

/-- Applies a step to a set of places until it brings nothing new. Every round that goes on
adds a place of the text. -/
def closure (step : List Nat → List Nat) : (fuel : Nat) → List Nat → List Nat
  | 0, places => places
  | fuel + 1, places =>
      let next := merge places (step places)
      if next.length = places.length then places else closure step fuel next

def iterate (step : List Nat → List Nat) : Nat → List Nat → List Nat
  | 0, places => places
  | n + 1, places => if places.isEmpty then [] else iterate step n (step places)

def collect (step : List Nat → List Nat) : Nat → List Nat → List Nat
  | 0, places => places
  | n + 1, places =>
      let next := merge places (step places)
      if next.length = places.length then places else merge places (collect step n (step places))

/-- The places where a match that starts at one of the given places can end. -/
def ends (text : Array Char) : Pattern → List Nat → List Nat
  | .empty, places => places
  | .char set, places =>
      (places.filter fun i => (text[i]?).any set.contains).map (· + 1)
  | .textStart, places => places.filter (· == 0)
  | .textEnd, places => places.filter (· == text.size)
  | .lineStart, places => places.filter (lineBegins text)
  | .lineEnd, places => places.filter (lineEnds text)
  | .wordBoundary, places => places.filter fun i => wordBefore text i != wordAt text i
  | .notWordBoundary, places => places.filter fun i => wordBefore text i == wordAt text i
  | .wordStart, places => places.filter fun i => !wordBefore text i && wordAt text i
  | .wordEnd, places => places.filter fun i => wordBefore text i && !wordAt text i
  | .seq a b, places => b.ends text (a.ends text places)
  | .alt a b, places => merge (a.ends text places) (b.ends text places)
  | .rounds p least most, places =>
      let after := iterate (p.ends text) least places
      match most with
      | none => closure (p.ends text) (text.size + 1) after
      | some most => collect (p.ends text) (most - least) after
  | .ahead negated p, places => places.filter fun i => (p.ends text [i]).isEmpty == negated
  | .behind negated p, places =>
      places.filter fun i =>
        ((List.range (i + 1)).any fun j => (p.ends text [j]).contains i) != negated

/-- Whether an expression matches somewhere in a text. No limit on the steps of a search is
followed. -/
def isMatch (p : Pattern) (s : String) : Bool :=
  let text := s.toList.toArray
  !(p.ends text (List.range (text.size + 1))).isEmpty

end Pattern

end RequestDispatch
