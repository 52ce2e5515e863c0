import RequestDispatch.Json.Basic

/-!
Validation issues: what is wrong with one received value, where it was found, and the value
itself.
-/

namespace RequestDispatch

/-- One violated requirement. The location begins with the place of the request and goes on
into the value; the input is null when nothing was received. -/
structure Issue where
  loc : List String
  kind : String
  message : String
  input : Json
deriving DecidableEq

namespace Issue

/-- Two issues are equal when they are in all but the signs of zeros in what was received: a
double equals another one that denotes the same number. -/
def Equals (issue other : Issue) : Prop :=
  { issue with input := issue.input.unsignZeros } =
    { other with input := other.input.unsignZeros }

instance : DecidableRel Equals := fun _ _ => inferInstanceAs (Decidable (_ = _))

namespace Equals

variable {issue other last : Issue}

theorem refl (issue : Issue) : issue.Equals issue :=
  rfl

theorem symm (h : issue.Equals other) : other.Equals issue :=
  Eq.symm h

theorem trans (h : issue.Equals other) (hlast : other.Equals last) : issue.Equals last :=
  Eq.trans h hlast

theorem loc (h : issue.Equals other) : issue.loc = other.loc :=
  (Issue.mk.inj h).1

end Equals

def missing (loc : List String) : Issue :=
  ⟨loc, "missing", "Field required", .null⟩

def dottedLoc (issue : Issue) : String :=
  ".".intercalate issue.loc

def text (issue : Issue) : String :=
  "[" ++ issue.kind ++ "] " ++ issue.dottedLoc ++ ": " ++ issue.message

def toJson (issue : Issue) : Json :=
  .ofMembers [("loc", .ofStrings issue.loc), ("msg", .string issue.message),
    ("type", .string issue.kind), ("input", issue.input)]

end Issue

end RequestDispatch
