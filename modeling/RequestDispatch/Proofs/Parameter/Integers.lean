import RequestDispatch.Parameter.Coercion
import RequestDispatch.Proofs.Decimal.Rounding

/-!
What becomes an integer. A JSON number becomes the integer of 64 bits that it denotes, however it was
written, with one exception: the least integer has to be written without point and exponent.
-/

namespace RequestDispatch

namespace Number

/-- A number denotes an integer of 64 bits. -/
structure IsInt64 (n : Number) (i : Int) : Prop where
  value_eq : n.value = i
  least : -2 ^ 63 ≤ i
  greatest : i ≤ 2 ^ 63 - 1

/-- A number is taken for an integer: it denotes one of 64 bits, and the least of them was not
written as a double. -/
structure TakenFor (n : Number) (i : Int) : Prop extends n.IsInt64 i where
  written : i = -2 ^ 63 → n = .int i

theorem IsInt64.unique {n : Number} {i j : Int} (hi : n.IsInt64 i) (hj : n.IsInt64 j) : i = j := by
  exact_mod_cast hi.value_eq.symm.trans hj.value_eq

theorem toInt64?_eq_some_iff {n : Number} {i : Int} :
    n.toInt64? = some i ↔ n = .int i ∧ -2 ^ 63 ≤ i ∧ i ≤ 2 ^ 63 - 1 := by
  cases n with
  | real d => simp [toInt64?]
  | int m =>
      rw [Number.int.injEq, toInt64?]
      split
      · rename_i hrange
        simp only [Text.maxInt64] at hrange
        rw [Option.some.injEq]
        omega
      · rename_i hrange
        simp only [Text.maxInt64] at hrange
        simp only [reduceCtorEq, false_iff]
        omega

end Number

namespace Double

/-- The integer beyond each end of the range of 64 bits, as a double. -/
def rangeEnd (negative : Bool) : Double :=
  ⟨negative, 1 <<< 52, 11, by decide⟩

theorem rangeEnd_value (negative : Bool) :
    (rangeEnd negative).value = ((if negative then -2 ^ 63 else 2 ^ 63 : Int) : ℚ) := by
  cases negative <;> norm_num [rangeEnd, value_eq, size, Nat.shiftLeft_eq]

/-- An integer beyond the range is not rounded into it. -/
theorem le_natAbs_of_far {m i : Int} (hfar : ¬(-2 ^ 63 ≤ m ∧ m ≤ 2 ^ 63 - 1))
    (hvalue : (ofInt m).value = i) : 2 ^ 63 ≤ i.natAbs := by
  by_cases hgreat : 2 ^ 63 ≤ m
  · have hle := (ofInt_value_bounds m (rangeEnd false)).2
    rw [rangeEnd_value, hvalue] at hle
    have hi : (2 ^ 63 : Int) ≤ i := by
      exact_mod_cast hle (by exact_mod_cast hgreat)
    omega
  · have hle := (ofInt_value_bounds m (rangeEnd true)).1
    rw [rangeEnd_value, hvalue] at hle
    have hi : i ≤ (-2 ^ 63 : Int) := by
      exact_mod_cast hle (by exact_mod_cast (by omega : m ≤ -2 ^ 63))
    omega

end Double

/-- What is reported of a number that does not become an integer. -/
def Coerced.notWhole (n : Number) (loc : List String) : Coerced :=
  .misfit loc "int_from_float"
    "Input should be a valid integer, got a number with a fractional part" (.number n)

theorem coerceInteger_of_int64 {n : Number} {i : Int} (hint : n.toInt64? = some i)
    (loc : List String) : coerceInteger n loc = .fit (.ofInt i) := by
  simp only [coerceInteger, hint]

/-- A number that was not written as an integer of 64 bits becomes one when it is whole and strictly
between the ends of the range. -/
theorem coerceInteger_of_other {n : Number} (hnone : n.toInt64? = none) (loc : List String) :
    (∃ i : Int, n.toDouble.value = i ∧ i.natAbs < 2 ^ 63 ∧
      coerceInteger n loc = .fit (.ofInt i)) ∨
    (∀ i : Int, n.toDouble.value = i → 2 ^ 63 ≤ i.natAbs) ∧
      coerceInteger n loc = .notWhole n loc := by
  simp only [coerceInteger, hnone]
  split
  · rename_i i hwhole
    obtain ⟨hvalue, hrange⟩ := Option.filter_eq_some_iff.mp hwhole
    have hmagnitude : i.natAbs ≤ Text.maxInt64 := by simpa using hrange
    simp only [Text.maxInt64] at hmagnitude
    exact .inl ⟨i, Double.toInt?_eq_some_iff.mp hvalue, by omega, rfl⟩
  · rename_i hwhole
    refine .inr ⟨?_, rfl⟩
    intro i hvalue
    rw [Double.toInt?_eq_some_iff.mpr hvalue] at hwhole
    have hmagnitude : ¬i.natAbs ≤ Text.maxInt64 := by simpa using hwhole
    simp only [Text.maxInt64] at hmagnitude
    omega

/-- A number becomes the integer that it is taken for, or none. -/
theorem coerceInteger_decides (n : Number) (loc : List String) :
    (∃ i, n.TakenFor i ∧ coerceInteger n loc = .fit (.ofInt i)) ∨
      (∀ i, ¬n.TakenFor i) ∧ coerceInteger n loc = .notWhole n loc := by
  cases n with
  | int m =>
      by_cases hrange : -2 ^ 63 ≤ m ∧ m ≤ 2 ^ 63 - 1
      · have hint : (Number.int m).toInt64? = some m :=
          Number.toInt64?_eq_some_iff.mpr ⟨rfl, hrange⟩
        exact .inl ⟨m, ⟨⟨rfl, hrange.1, hrange.2⟩, fun _ => rfl⟩, coerceInteger_of_int64 hint loc⟩
      · have hnone : (Number.int m).toInt64? = none := by
          by_contra hsome
          obtain ⟨i, hi⟩ := Option.ne_none_iff_exists'.mp hsome
          obtain ⟨hm, hi⟩ := Number.toInt64?_eq_some_iff.mp hi
          rw [← Number.int.inj hm] at hi
          exact hrange hi
        obtain ⟨i, hvalue, hsmall, _⟩ | ⟨_, hrefused⟩ := coerceInteger_of_other hnone loc
        · have hlarge := Double.le_natAbs_of_far hrange hvalue
          omega
        · refine .inr ⟨?_, hrefused⟩
          rintro i ⟨⟨hvalue, hleast, hgreatest⟩, _⟩
          have hsame : (m : ℚ) = i := hvalue
          have hm : m = i := by exact_mod_cast hsame
          exact hrange (hm ▸ ⟨hleast, hgreatest⟩)
  | real d =>
      obtain ⟨i, hvalue, hsmall, hfit⟩ | ⟨hlarge, hrefused⟩ :=
        coerceInteger_of_other (n := .real d) rfl loc
      · exact .inl ⟨i, ⟨⟨hvalue, by omega, by omega⟩, by omega⟩, hfit⟩
      · refine .inr ⟨?_, hrefused⟩
        rintro i ⟨⟨hvalue, hleast, hgreatest⟩, hwritten⟩
        have hfar := hlarge i hvalue
        cases hwritten (by omega)

/-- Integers of JSON are exact. A number becomes an integer when it denotes one of 64 bits, and then
it becomes that integer; but the least one only when it was not written as a double. Any other number
is reported as it was received. -/
theorem coerceJson_number_exact (n : Number) (loc : List String) :
    (∀ i, coerceJson .int (.number n) loc = .fit (.ofInt i) ↔
      n.IsInt64 i ∧ (i = -2 ^ 63 → n = .int i)) ∧
    ((∀ i, n.IsInt64 i → i = -2 ^ 63 ∧ n ≠ .int i) →
      coerceJson .int (.number n) loc = .notWhole n loc) := by
  have hcoerce : coerceJson .int (.number n) loc = coerceInteger n loc := by rw [coerceJson]
  obtain ⟨j, htaken, hfit⟩ | ⟨hnone, hrefused⟩ := coerceInteger_decides n loc
  · rw [hcoerce, hfit]
    refine ⟨fun i => ⟨?_, ?_⟩, ?_⟩
    · intro hsame
      cases hsame
      exact ⟨htaken.toIsInt64, htaken.written⟩
    · rintro ⟨hint, _⟩
      rw [hint.unique htaken.toIsInt64]
    · intro hothers
      obtain ⟨hleast, hreal⟩ := hothers j htaken.toIsInt64
      exact absurd (htaken.written hleast) hreal
  · rw [hcoerce, hrefused]
    refine ⟨fun i => ⟨nofun, ?_⟩, fun _ => rfl⟩
    rintro ⟨hint, hwritten⟩
    exact absurd ⟨hint, hwritten⟩ (hnone i)

/-- The largest double of the range becomes an integer, and the unsigned integer just beyond the
range does not. -/
theorem coerceJson_number_exact_sample :
    coerceJson .int (.number (.real ⟨false, 2 ^ 53 - 1, 10, by decide⟩)) ["body"] =
        .fit (.ofInt 9223372036854774784) ∧
      coerceJson .int (.number (.int (2 ^ 63))) ["body"] = .notWhole (.int (2 ^ 63)) ["body"] := by
  refine ⟨((coerceJson_number_exact _ _).1 _).mpr ⟨⟨?_, by norm_num, by norm_num⟩, by norm_num⟩,
    (coerceJson_number_exact _ _).2 fun i hi => ?_⟩
  · norm_num [Number.value, Double.value_eq, Double.size]
  · have hvalue : ((2 ^ 63 : Int) : ℚ) = i := hi.value_eq
    have hfar : (2 ^ 63 : Int) = i := by exact_mod_cast hvalue
    have hgreatest := hi.greatest
    omega

/-- The least integer of 64 bits is refused when it is written with an exponent, as if it had a
fractional part. -/
theorem least_double_refused :
    let least := Number.real (Double.rangeEnd true)
    Json.parseText "-9223372036854775808e0" = .ok (.number least) ∧ least.IsInt64 (-2 ^ 63) ∧
      coerceJson .int (.number least) ["body"] = .notWhole least ["body"] ∧
      coerceJson .int (.number (.int (-2 ^ 63))) ["body"] = .fit (.ofInt (-2 ^ 63)) := by
  refine ⟨rfl, ⟨?_, by norm_num, by norm_num⟩, rfl, rfl⟩
  exact Double.rangeEnd_value true

end RequestDispatch
