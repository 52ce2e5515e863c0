import RequestDispatch.Decimal.Layout
import RequestDispatch.Parameter.Declaration

/-!
Checking values against constraints. Lengths apply to texts and lists; bounds and the pattern
apply to a value or to each item of a list. Numbers are compared with bounds as doubles.
-/

namespace RequestDispatch

namespace Constraints

/-- A bound of a constraint: whether a number keeps it, its kind of issue, and its wording. -/
structure Bound where
  limit : Option Extended
  holds : Extended → Extended → Bool
  kind : String
  phrase : String

/-- The bounds of a constraint, in the order in which they are reported. -/
def bounds (c : Constraints) : List Bound :=
  [⟨c.gt, fun n b => b.lt n, "greater_than", "greater than"⟩,
   ⟨c.ge, fun n b => b.le n, "greater_than_equal", "greater than or equal to"⟩,
   ⟨c.lt, fun n b => n.lt b, "less_than", "less than"⟩,
   ⟨c.le, fun n b => n.le b, "less_than_equal", "less than or equal to"⟩]

def Bound.issue? (bound : Bound) (n : Number) (loc : List String) : Option Issue :=
  match bound.limit with
  | none => none
  | some limit =>
      if bound.holds (.finite n.toDouble) limit then none
      else
        some ⟨loc, bound.kind, "Input should be " ++ bound.phrase ++ " " ++ limit.plain,
          .number n⟩

def boundIssues (c : Constraints) (n : Number) (loc : List String) : List Issue :=
  c.bounds.filterMap fun bound => bound.issue? n loc

/-- The issue of a size that is below a least or above a greatest one. -/
def lengthIssues (c : Constraints) (size : Nat) (short long noun : String)
    (suffix : String) (value : Json) (loc : List String) : List Issue :=
  let low : List Issue :=
    match c.minLength with
    | some n =>
        if size < n then
          [⟨loc, short, noun ++ " should have at least " ++ toString n ++ suffix, value⟩]
        else []
    | none => []
  let high : List Issue :=
    match c.maxLength with
    | some n =>
        if n < size then
          [⟨loc, long, noun ++ " should have at most " ++ toString n ++ suffix, value⟩]
        else []
    | none => []
  low ++ high

end Constraints

namespace CompiledParameter

def scalarIssues (p : CompiledParameter) (value : Json) (loc : List String) : List Issue :=
  match value with
  | .number n => p.declared.constraints.boundIssues n loc
  | .string s =>
      match p.pattern with
      | some pattern =>
          if pattern.isMatch s then []
          else
            [⟨loc, "string_pattern_mismatch", "String should match pattern '"
              ++ p.declared.constraints.pattern.getD "" ++ "'", value⟩]
      | none => []
  | _ => []

def constraintIssues (p : CompiledParameter) (value : Json) (loc : List String) :
    List Issue :=
  let c := p.declared.constraints
  match value with
  | .array items =>
      c.lengthIssues items.length "too_short" "too_long" "List" " items after validation"
          value loc
        ++ (items.mapIdx fun i item => p.scalarIssues item (loc ++ [toString i])).flatten
  | .string s =>
      c.lengthIssues s.length "string_too_short" "string_too_long" "String" " characters"
          value loc
        ++ p.scalarIssues value loc
  | _ => p.scalarIssues value loc

/-- The issues of a value of the declared type, those of the schema behind the others. -/
def issues (p : CompiledParameter) (value : Json) (loc : List String) : List Issue :=
  p.constraintIssues value loc
    ++ match p.validator with
      | some validator => validator.issues value loc
      | none => []

end CompiledParameter

end RequestDispatch
