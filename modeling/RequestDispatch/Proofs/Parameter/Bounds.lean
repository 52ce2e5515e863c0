import RequestDispatch.Parameter.Check
import RequestDispatch.Proofs.Decimal.Rounding

/-!
Bounds of integers. An integer is compared with a bound as the double nearest to it. The comparison
is still that of the integer itself, unless that double is the bound: then the integer counts as equal
to the bound, also where it is not.
-/

namespace RequestDispatch

/-- What a bound asks of a number. -/
inductive Comparison where
  | gt
  | ge
  | lt
  | le
deriving DecidableEq

namespace Comparison

/-- The comparisons, in the order in which they are made. -/
def all : List Comparison :=
  [gt, ge, lt, le]

/-- What the comparison of a number with a limit means, exactly. -/
def Holds : Comparison → ℚ → ℚ → Prop
  | gt, x, limit => limit < x
  | ge, x, limit => limit ≤ x
  | lt, x, limit => x < limit
  | le, x, limit => x ≤ limit

instance : ∀ (k : Comparison) (x limit : ℚ), Decidable (k.Holds x limit)
  | gt, x, limit => inferInstanceAs (Decidable (limit < x))
  | ge, x, limit => inferInstanceAs (Decidable (limit ≤ x))
  | lt, x, limit => inferInstanceAs (Decidable (x < limit))
  | le, x, limit => inferInstanceAs (Decidable (x ≤ limit))

def limit? : Comparison → Constraints → Option Extended
  | gt, c => c.gt
  | ge, c => c.ge
  | lt, c => c.lt
  | le, c => c.le

def kind : Comparison → String
  | gt => "greater_than"
  | ge => "greater_than_equal"
  | lt => "less_than"
  | le => "less_than_equal"

def phrase : Comparison → String
  | gt => "greater than"
  | ge => "greater than or equal to"
  | lt => "less than"
  | le => "less than or equal to"

/-- What is reported of an integer that does not keep a bound. -/
def issue (k : Comparison) (n : Int) (limit : Double) (loc : List String) : Issue :=
  ⟨loc, k.kind, "Input should be " ++ k.phrase ++ " " ++ limit.plain, .ofInt n⟩

/-- The bound of a constraint that asks for the comparison. -/
def bound (k : Comparison) (c : Constraints) : Constraints.Bound :=
  ⟨k.limit? c,
    match k with
    | gt => fun n b => b.lt n
    | ge => fun n b => b.le n
    | lt => fun n b => n.lt b
    | le => fun n b => n.le b,
    k.kind, k.phrase⟩

theorem bounds_eq (c : Constraints) : c.bounds = all.map fun k => k.bound c :=
  rfl

@[simp] theorem bound_holds (k : Comparison) (c : Constraints) (x limit : Double) :
    (k.bound c).holds (.finite x) (.finite limit) = decide (k.Holds x.value limit.value) := by
  cases k <;> rfl

/-- A comparison says the same of two numbers that lie on the same side of the limit. -/
theorem holds_congr {x y limit : ℚ} (hbelow : x < limit ↔ y < limit)
    (habove : limit < x ↔ limit < y) (k : Comparison) : k.Holds x limit ↔ k.Holds y limit := by
  cases k with
  | gt => exact habove
  | ge => exact not_lt.symm.trans ((not_congr hbelow).trans not_lt)
  | lt => exact hbelow
  | le => exact not_lt.symm.trans ((not_congr habove).trans not_lt)

end Comparison

namespace Double

/-- The number that is compared with a limit in place of an integer: the integer, but the limit when
that is the double nearest to the integer. -/
def comparand (n : Int) (limit : Double) : ℚ :=
  if (ofInt n).value = limit.value then limit.value else n

theorem comparand_of_value_eq {n : Int} {limit : Double}
    (h : (ofInt n).value = limit.value → limit.value = n) : comparand n limit = n := by
  unfold comparand
  split
  · rename_i hsame
    exact h hsame
  · rfl

/-- The nearest double lies on the same side of every limit as the integer, or on the limit. -/
theorem holds_ofInt_iff (k : Comparison) (n : Int) (limit : Double) :
    k.Holds (ofInt n).value limit.value ↔ k.Holds (comparand n limit) limit.value := by
  unfold comparand
  split
  · rename_i hsame
    rw [hsame]
  · rename_i hother
    -- Rounding does not move the integer past the limit, and here not onto it either.
    obtain ⟨hle, hge⟩ := ofInt_value_bounds n limit
    refine Comparison.holds_congr ⟨?_, ?_⟩ ⟨?_, ?_⟩ k
    · intro hbelow
      by_contra hnot
      exact absurd (hge (not_lt.mp hnot)) (not_le.mpr hbelow)
    · intro hbelow
      exact lt_of_le_of_ne (hle hbelow.le) hother
    · intro habove
      by_contra hnot
      exact absurd (hle (not_lt.mp hnot)) (not_le.mpr habove)
    · intro habove
      exact lt_of_le_of_ne (hge habove.le) (Ne.symm hother)

/-- Integers of at most 53 bits are doubles. -/
theorem ofInt_value_of_le {n : Int} (hsmall : n.natAbs ≤ 2 ^ 53) : (ofInt n).value = n :=
  ofInt_value_of_representable (representable_of_le hsmall)

end Double

/-- The reports of the bounds that an integer does not keep, when `comparand` tells what is compared
with each limit. -/
def boundReports (limits : Comparison → Option Double) (comparand : Double → ℚ) (n : Int)
    (loc : List String) : List Issue :=
  Comparison.all.filterMap fun k =>
    (limits k).bind fun limit =>
      if k.Holds (comparand limit) limit.value then none else some (k.issue n limit loc)

theorem boundReports_congr {limits : Comparison → Option Double} {f g : Double → ℚ}
    (h : ∀ k limit, limits k = some limit →
      (k.Holds (f limit) limit.value ↔ k.Holds (g limit) limit.value))
    (n : Int) (loc : List String) : boundReports limits f n loc = boundReports limits g n loc := by
  unfold boundReports
  congr 1
  funext k
  cases hlimit : limits k with
  | none => rfl
  | some limit => simp only [Option.bind_some, h k limit hlimit]

/-- The bounds of a constraint are judged by the double nearest to the integer. -/
theorem boundIssues_ofInt {c : Constraints} {limits : Comparison → Option Double}
    (hlimits : ∀ k, Comparison.limit? k c = (limits k).map .finite) (n : Int)
    (loc : List String) :
    c.boundIssues (.int n) loc = boundReports limits (fun _ => (Double.ofInt n).value) n loc := by
  rw [Constraints.boundIssues, Comparison.bounds_eq, List.filterMap_map]
  unfold boundReports
  congr 1
  funext k
  have hlimit : (k.bound c).limit = (limits k).map .finite := hlimits k
  cases hk : limits k with
  | none => simp only [Function.comp_apply, Constraints.Bound.issue?, hlimit, hk]; rfl
  | some limit =>
      simp only [Function.comp_apply, Constraints.Bound.issue?, hlimit, hk, Option.map_some,
        Number.toDouble, Comparison.bound_holds, decide_eq_true_eq, Option.bind_some]
      rfl

namespace CompiledParameter

/-- Bounds of integers, alone or in a list. Each bound is reported by the exact comparison of the
integer with it, except that an integer whose nearest double is the bound counts as equal to it. So
the reports are exact when no bound is the nearest double of an integer other than itself, which
excludes no integer of at most 53 bits. -/
theorem constraintIssues_integer (p : CompiledParameter) {limits : Comparison → Option Double}
    (hlimits : ∀ k, Comparison.limit? k p.declared.constraints = (limits k).map .finite) :
    (∀ (n : Int) (loc : List String), p.constraintIssues (.ofInt n) loc =
      boundReports limits (Double.comparand n) n loc) ∧
    (∀ (n : Int) (loc : List String),
      (∀ k limit, limits k = some limit →
        (Double.ofInt n).value = limit.value → limit.value = n) →
      p.constraintIssues (.ofInt n) loc = boundReports limits (fun _ => n) n loc) ∧
    (∀ (n : Int) (limit : Double), n.natAbs ≤ 2 ^ 53 →
      (Double.ofInt n).value = limit.value → limit.value = n) ∧
    ∀ (ns : List Int) (loc : List String), p.constraintIssues (.array (ns.map .ofInt)) loc =
      p.declared.constraints.lengthIssues ns.length "too_short" "too_long" "List"
          " items after validation" (.array (ns.map .ofInt)) loc ++
        (ns.mapIdx fun i n =>
          boundReports limits (Double.comparand n) n (loc ++ [toString i])).flatten := by
  have hscalar (n : Int) (loc : List String) : p.scalarIssues (.ofInt n) loc =
      boundReports limits (Double.comparand n) n loc :=
    (boundIssues_ofInt hlimits n loc).trans
      (boundReports_congr (fun k limit _ => Double.holds_ofInt_iff k n limit) n loc)
  refine ⟨hscalar, ?_, ?_, ?_⟩
  · intro n loc hexact
    refine (hscalar n loc).trans (boundReports_congr ?_ n loc)
    intro k limit hlimit
    rw [Double.comparand_of_value_eq (hexact k limit hlimit)]
  · intro n limit hsmall hsame
    exact hsame.symm.trans (Double.ofInt_value_of_le hsmall)
  · intro ns loc
    have hitems : (ns.map Json.ofInt).mapIdx
          (fun i item => p.scalarIssues item (loc ++ [toString i])) =
        ns.mapIdx fun i n =>
          boundReports limits (Double.comparand n) n (loc ++ [toString i]) := by
      apply List.ext_getElem
      · simp only [List.length_mapIdx, List.length_map]
      · intro i _ _
        simp only [List.getElem_mapIdx, List.getElem_map, hscalar]
    simp only [constraintIssues, List.length_map, hitems]

/-- An integer of the query with bounds. -/
def boundedInteger (c : Constraints) : CompiledParameter :=
  ⟨{ Parameter.ofType "n" .query .int with constraints := c }, "n", none, none⟩

/-- Each item of a list is reported at its own place. -/
theorem constraintIssues_integer_sample :
    let limits : Comparison → Option Double
      | .ge => some ⟨false, 5 * 2 ^ 50, -49, by decide⟩
      | .lt => some ⟨false, 5 * 2 ^ 50, -48, by decide⟩
      | _ => none
    let p := boundedInteger { Constraints.unconstrained with
      ge := (limits .ge).map .finite, lt := (limits .lt).map .finite }
    (∀ k, Comparison.limit? k p.declared.constraints = (limits k).map .finite) ∧
      p.constraintIssues (.array ([10, 3, 20].map .ofInt)) ["query", "n"] =
        [⟨["query", "n", "1"], "greater_than_equal",
            "Input should be greater than or equal to 10", .ofInt 3⟩,
          ⟨["query", "n", "2"], "less_than", "Input should be less than 20", .ofInt 20⟩] := by
  intro limits p
  have hlimits : ∀ k, Comparison.limit? k p.declared.constraints = (limits k).map .finite := by
    intro k
    cases k <;> rfl
  refine ⟨hlimits, ?_⟩
  obtain ⟨_, _, _, hlist⟩ := constraintIssues_integer p hlimits
  rw [hlist]
  decide +kernel

/-- The least natural number that is no double is admitted by a bound that it exceeds, and is refused
where it has to exceed that bound. -/
theorem successor_of_limit_misjudged :
    let limit : Double := ⟨false, 2 ^ 52, 1, by decide⟩
    let n : Int := 2 ^ 53 + 1
    let atMost := boundedInteger { Constraints.unconstrained with le := some (.finite limit) }
    let above := boundedInteger { Constraints.unconstrained with gt := some (.finite limit) }
    limit.value < n ∧
      atMost.constraintIssues (.ofInt n) ["query", "n"] = [] ∧
      above.constraintIssues (.ofInt n) ["query", "n"] =
        [⟨["query", "n"], "greater_than", "Input should be greater than 9007199254740992",
          .ofInt 9007199254740993⟩] := by
  refine ⟨?_, ?_, ?_⟩
  · norm_num [Double.value_eq, Double.size]
  · decide +kernel
  · decide +kernel

end CompiledParameter

end RequestDispatch
