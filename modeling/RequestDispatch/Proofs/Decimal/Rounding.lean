import Mathlib.Algebra.Order.Field.Power
import Mathlib.Algebra.Order.Field.Rat
import Mathlib.Data.Nat.Cast.Field
import Mathlib.Tactic.FieldSimp
import Mathlib.Tactic.Linarith
import Mathlib.Tactic.NormNum
import Mathlib.Tactic.Positivity
import Mathlib.Tactic.Ring
import RequestDispatch.Decimal.Double

/-!
Rounding to doubles keeps the order. A rounded number is never on the other side of a double than
the number itself, so the only thing that rounding can do to a comparison with a double is to make
two different numbers equal. Integers that are doubles are not changed at all.
-/

namespace RequestDispatch

namespace Double

theorem roundHalfEven_le {num den k : Nat} (hden : 0 < den) (h : num ≤ k * den) :
    roundHalfEven num den ≤ k := by
  have hsplit : den * (num / den) + num % den = num := Nat.div_add_mod num den
  have hquotient : num / den ≤ k := Nat.div_le_of_le_mul (by rwa [Nat.mul_comm])
  -- Where the quotient is rounded up, there is a remainder, so the quotient is below `k`.
  have hnext : 0 < num % den → num / den + 1 ≤ k := by
    intro hrest
    apply Nat.succ_le_of_lt
    apply (Nat.mul_lt_mul_left hden).mp
    rw [Nat.mul_comm den k]
    omega
  simp only [roundHalfEven]
  split_ifs with hbelow habove heven
  · exact hquotient
  · exact hnext (by omega)
  · exact hquotient
  · exact hnext (by omega)

theorem le_roundHalfEven {num den k : Nat} (hden : 0 < den) (h : k * den ≤ num) :
    k ≤ roundHalfEven num den := by
  have hquotient : k ≤ num / den := (Nat.le_div_iff_mul_le hden).mpr h
  simp only [roundHalfEven]
  split_ifs <;> omega

/-- What `scaled` gives is the quotient in units of the power of two. -/
theorem scaled_eq {num den : Nat} (hden : 0 < den) (exponent : Int) :
    0 < (scaled num den exponent).2 ∧
      ((scaled num den exponent).1 : ℚ) / (scaled num den exponent).2 * 2 ^ exponent =
        (num : ℚ) / den := by
  have hpos : (0 : ℚ) < den := by exact_mod_cast hden
  cases exponent with
  | ofNat e =>
      refine ⟨by simpa [scaled, Nat.shiftLeft_eq] using hden, ?_⟩
      simp only [scaled, Nat.shiftLeft_eq, Int.ofNat_eq_natCast, zpow_natCast]
      push_cast
      field_simp
  | negSucc e =>
      refine ⟨hden, ?_⟩
      simp only [scaled, Nat.shiftLeft_eq, zpow_negSucc]
      push_cast
      field_simp

theorem two_zpow_pos (e : Int) : (0 : ℚ) < 2 ^ e :=
  zpow_pos (by norm_num) e

theorem two_zpow_le {e f : Int} (h : e ≤ f) : (2 : ℚ) ^ e ≤ 2 ^ f :=
  zpow_le_zpow_right₀ (by norm_num) h

theorem two_zpow_add (e f : Int) : (2 : ℚ) ^ (e + f) = 2 ^ e * 2 ^ f :=
  zpow_add₀ (by norm_num) e f

/-- A number of 53 bits is below what begins with a higher exponent. -/
theorem mul_two_zpow_lt {m : Nat} {e f : Int} (hm : m < 2 ^ 53) (h : e < f) :
    (m : ℚ) * 2 ^ e < 2 ^ (52 + f) := by
  calc (m : ℚ) * 2 ^ e < 2 ^ (53 : Int) * 2 ^ e := by
        apply mul_lt_mul_of_pos_right _ (two_zpow_pos _)
        exact_mod_cast hm
    _ = 2 ^ (53 + e) := (two_zpow_add _ _).symm
    _ ≤ 2 ^ (52 + f) := two_zpow_le (by omega)

/-- Where a quotient lies, from the places of the leading bits. -/
theorem log2_bounds {num den : Nat} (hnum : num ≠ 0) (hden : den ≠ 0) :
    (2 : ℚ) ^ ((num.log2 : Int) - den.log2 - 1) ≤ (num : ℚ) / den ∧
      (num : ℚ) / den < 2 ^ ((num.log2 : Int) - den.log2 + 1) := by
  have hpos : (0 : ℚ) < den := by exact_mod_cast Nat.pos_of_ne_zero hden
  have hnumLeast : (2 : ℚ) ^ (num.log2 : Int) ≤ num := by
    exact_mod_cast Nat.log2_self_le hnum
  have hnumMost : (num : ℚ) < 2 ^ ((num.log2 : Int) + 1) := by
    exact_mod_cast (Nat.lt_log2_self : num < 2 ^ (num.log2 + 1))
  have hdenLeast : (2 : ℚ) ^ (den.log2 : Int) ≤ den := by
    exact_mod_cast Nat.log2_self_le hden
  have hdenMost : (den : ℚ) < 2 ^ ((den.log2 : Int) + 1) := by
    exact_mod_cast (Nat.lt_log2_self : den < 2 ^ (den.log2 + 1))
  constructor
  · rw [le_div_iff₀ hpos]
    calc (2 : ℚ) ^ ((num.log2 : Int) - den.log2 - 1) * den
        ≤ 2 ^ ((num.log2 : Int) - den.log2 - 1) * 2 ^ ((den.log2 : Int) + 1) :=
          mul_le_mul_of_nonneg_left hdenMost.le (two_zpow_pos _).le
      _ = 2 ^ (num.log2 : Int) := by
          rw [← two_zpow_add]
          congr 1
          ring
      _ ≤ num := hnumLeast
  · rw [div_lt_iff₀ hpos]
    calc (num : ℚ) < 2 ^ ((num.log2 : Int) + 1) := hnumMost
      _ = 2 ^ ((num.log2 : Int) - den.log2 + 1) * 2 ^ (den.log2 : Int) := by
          rw [← two_zpow_add]
          congr 1
          ring
      _ ≤ 2 ^ ((num.log2 : Int) - den.log2 + 1) * den :=
          mul_le_mul_of_nonneg_left hdenLeast (two_zpow_pos _).le

/-- At its exponent a quotient has a significand of at most 53 bits, and of no fewer unless the
exponent is the least one. -/
theorem exponentFor_bounds {num den : Nat} (hnum : num ≠ 0) (hden : den ≠ 0) :
    -1074 ≤ exponentFor num den ∧
      (num : ℚ) / den < 2 ^ (53 + exponentFor num den) ∧
      ((2 : ℚ) ^ (52 + exponentFor num den) ≤ (num : ℚ) / den ∨
        exponentFor num den = -1074) := by
  obtain ⟨hleast, hmost⟩ := log2_bounds hnum hden
  generalize hguess : (num.log2 : Int) - den.log2 - 53 = guess at *
  obtain ⟨hscaledPos, hscaled⟩ := @scaled_eq num den (Nat.pos_of_ne_zero hden) guess
  have hpos : (0 : ℚ) < (scaled num den guess).2 := by exact_mod_cast hscaledPos
  have htest : (scaled num den guess).2 <<< 53 ≤ (scaled num den guess).1 ↔
      (2 : ℚ) ^ (53 + guess) ≤ (num : ℚ) / den := by
    rw [← hscaled, two_zpow_add, mul_le_mul_iff_left₀ (two_zpow_pos guess), le_div_iff₀ hpos,
      Nat.shiftLeft_eq, mul_comm]
    norm_cast
  -- Before it is raised to the least exponent, the exponent fits on both sides.
  obtain ⟨top, htop, hfits, hreaches⟩ : ∃ top : Int, exponentFor num den = max top (-1074) ∧
      (num : ℚ) / den < 2 ^ (53 + top) ∧ (2 : ℚ) ^ (52 + top) ≤ (num : ℚ) / den := by
    refine ⟨_, by simp only [exponentFor, hguess]; rfl, ?_⟩
    split_ifs with hlarge
    · refine ⟨?_, ?_⟩
      · convert hmost using 2
        omega
      · convert htest.mp hlarge using 2
        omega
    · refine ⟨lt_of_not_ge fun hle => hlarge (htest.mpr hle), ?_⟩
      convert hleast using 2
      omega
  rw [htop]
  refine ⟨le_max_right _ _, lt_of_lt_of_le hfits (two_zpow_le (by omega)), ?_⟩
  rcases le_total (-1074) top with hle | hle
  · left
    rwa [max_eq_left hle]
  · right
    exact max_eq_right hle

/-- The significand to which a quotient is rounded at its exponent. -/
def significandFor (num den : Nat) : Nat :=
  roundHalfEven (scaled num den (exponentFor num den)).1 (scaled num den (exponentFor num den)).2

/-- The magnitude to which a quotient is rounded when there is no largest exponent. -/
def rounded (num den : Nat) : ℚ :=
  significandFor num den * 2 ^ exponentFor num den

/-- The magnitudes of doubles, with the significand in any position. -/
def Representable (x : ℚ) : Prop :=
  ∃ (significand : Nat) (exponent : Int),
    significand < 2 ^ 53 ∧ -1074 ≤ exponent ∧ exponent ≤ 971 ∧ x = significand * 2 ^ exponent

variable {num den : Nat} {x : ℚ}

/-- A representable magnitude that is not far below a quotient is a number of its units. -/
theorem Representable.units {e : Int} (h : Representable x) :
    (∃ k : Nat, x = k * 2 ^ e) ∨ x < 2 ^ (52 + e) ∧ -1074 < e := by
  obtain ⟨significand, exponent, hsignificand, hleast, _, rfl⟩ := h
  rcases le_or_gt e exponent with hle | hlt
  · left
    obtain ⟨d, hd⟩ := Int.eq_ofNat_of_zero_le (Int.sub_nonneg.mpr hle)
    refine ⟨significand * 2 ^ d, ?_⟩
    have hexponent : exponent = d + e := by omega
    rw [hexponent, two_zpow_add]
    push_cast
    rw [zpow_natCast]
    ring
  · exact .inr ⟨mul_two_zpow_lt hsignificand hlt, by omega⟩

theorem significandFor_le (hden : den ≠ 0) {k : Nat}
    (hle : (num : ℚ) / den ≤ k * 2 ^ exponentFor num den) : significandFor num den ≤ k := by
  obtain ⟨hpos, hscaled⟩ := @scaled_eq num den (Nat.pos_of_ne_zero hden) (exponentFor num den)
  have hposQ : (0 : ℚ) < (scaled num den (exponentFor num den)).2 := by exact_mod_cast hpos
  rw [← hscaled, mul_le_mul_iff_left₀ (two_zpow_pos _), div_le_iff₀ hposQ] at hle
  exact roundHalfEven_le hpos (by exact_mod_cast hle)

theorem le_significandFor (hden : den ≠ 0) {k : Nat}
    (hle : k * 2 ^ exponentFor num den ≤ (num : ℚ) / den) : k ≤ significandFor num den := by
  obtain ⟨hpos, hscaled⟩ := @scaled_eq num den (Nat.pos_of_ne_zero hden) (exponentFor num den)
  have hposQ : (0 : ℚ) < (scaled num den (exponentFor num den)).2 := by exact_mod_cast hpos
  rw [← hscaled, mul_le_mul_iff_left₀ (two_zpow_pos _), le_div_iff₀ hposQ] at hle
  exact le_roundHalfEven hpos (by exact_mod_cast hle)

/-- The significand fills its 53 bits, or spills over by one, unless the exponent is the least
one. -/
theorem significand_bounds (hnum : num ≠ 0) (hden : den ≠ 0) :
    significandFor num den ≤ 2 ^ 53 ∧
      (2 ^ 52 ≤ significandFor num den ∨ exponentFor num den = -1074) := by
  obtain ⟨_, hfits, hreaches⟩ := exponentFor_bounds hnum hden
  rw [two_zpow_add] at hfits hreaches
  refine ⟨significandFor_le hden ?_, hreaches.imp_left fun hfull => le_significandFor hden ?_⟩
  · exact_mod_cast hfits.le
  · exact_mod_cast hfull

theorem rounded_le (hnum : num ≠ 0) (hden : den ≠ 0) (h : Representable x)
    (hle : (num : ℚ) / den ≤ x) : rounded num den ≤ x := by
  obtain ⟨_, _, hreaches⟩ := exponentFor_bounds hnum hden
  rcases h.units (e := exponentFor num den) with ⟨k, rfl⟩ | ⟨hbelow, hleast⟩
  · apply mul_le_mul_of_nonneg_right _ (two_zpow_pos _).le
    exact_mod_cast significandFor_le hden hle
  · exact absurd (hle.trans_lt hbelow) (not_lt.mpr (hreaches.resolve_right (by omega)))

theorem le_rounded (hnum : num ≠ 0) (hden : den ≠ 0) (h : Representable x)
    (hle : x ≤ (num : ℚ) / den) : x ≤ rounded num den := by
  obtain ⟨_, hfull⟩ := significand_bounds hnum hden
  rcases h.units (e := exponentFor num den) with ⟨k, rfl⟩ | ⟨hbelow, hleast⟩
  · apply mul_le_mul_of_nonneg_right _ (two_zpow_pos _).le
    exact_mod_cast le_significandFor hden hle
  · -- What the quotient is rounded to has all 53 bits.
    refine hbelow.le.trans ?_
    rw [two_zpow_add]
    apply mul_le_mul_of_nonneg_right _ (two_zpow_pos _).le
    exact_mod_cast hfull.resolve_right (by omega)

/-- The magnitude of a double. -/
def size (d : Double) : ℚ :=
  d.significand * 2 ^ d.exponent

theorem value_eq (d : Double) : d.value = if d.negative then -d.size else d.size :=
  rfl

theorem size_nonneg (d : Double) : 0 ≤ d.size :=
  mul_nonneg (Nat.cast_nonneg _) (two_zpow_pos _).le

theorem representable_size (d : Double) : Representable d.size := by
  obtain ⟨hsignificand, hleast, hmost, _⟩ := d.canonical
  exact ⟨d.significand, d.exponent, hsignificand, hleast, hmost, rfl⟩

/-- Every double is below what has an exponent that is too large. -/
theorem Representable.lt (h : Representable x) {e : Int} (he : 971 < e) : x < 2 ^ (52 + e) := by
  obtain ⟨significand, exponent, hsignificand, _, hmost, rfl⟩ := h
  exact mul_two_zpow_lt hsignificand (by omega)

theorem Representable.le_largest (h : Representable x) (negative : Bool) :
    x ≤ (largest negative).size := by
  obtain ⟨significand, exponent, hsignificand, _, hmost, rfl⟩ := h
  apply mul_le_mul _ (two_zpow_le hmost) (two_zpow_pos _).le (Nat.cast_nonneg _)
  exact_mod_cast (show significand ≤ 2 ^ 53 - 1 by omega)

/-- Doubles of one size have one exponent: with a higher one, the leading bit is set, and that is
more than any significand makes of a lower exponent. -/
theorem exponent_le_of_size_eq {a b : Double} (h : a.size = b.size) : a.exponent ≤ b.exponent := by
  by_contra hless
  rw [not_le] at hless
  obtain ⟨_, _, _, hfull⟩ := a.canonical
  obtain ⟨hsignificand, hleast, _, _⟩ := b.canonical
  have hleading : 2 ^ 52 ≤ a.significand := hfull.resolve_right (by omega)
  have hbelow : b.size < 2 ^ (52 + a.exponent) := mul_two_zpow_lt hsignificand hless
  have habove : (2 : ℚ) ^ (52 + a.exponent) ≤ a.size := by
    rw [two_zpow_add]
    apply mul_le_mul_of_nonneg_right _ (two_zpow_pos _).le
    exact_mod_cast hleading
  rw [h] at habove
  exact absurd hbelow habove.not_gt

theorem parts_eq_of_size_eq {a b : Double} (h : a.size = b.size) :
    a.significand = b.significand ∧ a.exponent = b.exponent := by
  have hexponent := (exponent_le_of_size_eq h).antisymm (exponent_le_of_size_eq h.symm)
  refine ⟨?_, hexponent⟩
  rw [size, size, hexponent] at h
  exact_mod_cast mul_right_cancel₀ (two_zpow_pos _).ne' h

theorem isZero_iff {d : Double} : d.isZero = true ↔ d.size = 0 := by
  simp [isZero, size, (two_zpow_pos _).ne']

theorem abs_value (d : Double) : |d.value| = d.size := by
  rw [value_eq]
  split_ifs
  · rw [abs_neg, abs_of_nonneg d.size_nonneg]
  · rw [abs_of_nonneg d.size_nonneg]

theorem value_unsignZero (d : Double) : d.unsignZero.value = d.value := by
  unfold unsignZero
  split_ifs with hzero
  · rw [value_eq d, isZero_iff.mp hzero]
    simp [value_eq, zero, size]
  · rfl

/-- Without the sign of zero, two doubles are the same exactly when they denote the same number. -/
theorem unsignZero_eq_iff {a b : Double} : a.unsignZero = b.unsignZero ↔ a.value = b.value := by
  constructor
  · intro h
    rw [← value_unsignZero a, ← value_unsignZero b, h]
  · intro h
    have hsize : a.size = b.size := by rw [← abs_value, ← abs_value, h]
    by_cases hzero : a.size = 0
    · rw [unsignZero, if_pos (isZero_iff.mpr hzero), unsignZero,
        if_pos (isZero_iff.mpr (hsize ▸ hzero))]
    · obtain ⟨hsignificand, hexponent⟩ := parts_eq_of_size_eq hsize
      have hnegative : a.negative = b.negative := by
        by_contra hdiffer
        apply hzero
        rw [value_eq, value_eq, ← hsize] at h
        split_ifs at h with ha hb hb
        · exact absurd (ha.trans hb.symm) hdiffer
        · linarith
        · linarith
        · rw [Bool.not_eq_true] at ha hb
          exact absurd (ha.trans hb.symm) hdiffer
      have hsame : a = b := by
        cases a
        cases b
        simp_all
      rw [hsame]

theorem ofParts?_some {negative : Bool} {significand : Nat} {exponent : Int} {d : Double}
    (h : ofParts? negative significand exponent = some d) :
    d.negative = negative ∧ d.size = significand * 2 ^ exponent := by
  unfold ofParts? at h
  split_ifs at h
  cases h
  exact ⟨rfl, rfl⟩

theorem ofParts?_none {negative : Bool} {significand : Nat} {exponent : Int}
    (hsignificand : significand < 2 ^ 53) (hleast : -1074 ≤ exponent)
    (hfull : 2 ^ 52 ≤ significand ∨ exponent = -1074)
    (h : ofParts? negative significand exponent = none) :
    ∃ e : Int, 971 < e ∧ (2 : ℚ) ^ (52 + e) ≤ significand * 2 ^ exponent := by
  unfold ofParts? at h
  split_ifs at h with hcanonical
  have hexponent : 971 < exponent := by
    by_contra hmost
    exact hcanonical ⟨hsignificand, hleast, by omega, hfull⟩
  refine ⟨exponent, hexponent, ?_⟩
  rw [two_zpow_add]
  apply mul_le_mul_of_nonneg_right _ (two_zpow_pos _).le
  exact_mod_cast hfull.resolve_right (by omega)

/-- The nearest double has the rounded magnitude. Where there is none, that magnitude is beyond
every double. -/
theorem nearest_rounded (negative : Bool) (hnum : num ≠ 0) (hden : den ≠ 0) :
    (∀ d, nearest negative num den = some d → d.negative = negative ∧ d.size = rounded num den) ∧
      (nearest negative num den = none →
        ∃ e : Int, 971 < e ∧ (2 : ℚ) ^ (52 + e) ≤ rounded num den) := by
  obtain ⟨hmost, hfull⟩ := significand_bounds hnum hden
  obtain ⟨hleast, _, _⟩ := exponentFor_bounds hnum hden
  have hnearest : nearest negative num den =
      if significandFor num den = 2 ^ 53 then
        ofParts? negative (2 ^ 52) (exponentFor num den + 1)
      else ofParts? negative (significandFor num den) (exponentFor num den) := by
    simp only [nearest, hnum, ↓reduceIte, Nat.one_shiftLeft]
    rfl
  rw [hnearest, rounded]
  generalize significandFor num den = significand at *
  generalize exponentFor num den = exponent at *
  split_ifs with hspilled
  · -- The significand is twice the least one of 53 bits.
    have hhalf : (significand : ℚ) * (2 : ℚ) ^ exponent =
        ((2 ^ 52 : Nat) : ℚ) * (2 : ℚ) ^ (exponent + 1) := by
      rw [two_zpow_add, hspilled]
      push_cast
      ring
    rw [hhalf]
    refine ⟨fun d hd => ofParts?_some hd, fun hnone => ?_⟩
    exact ofParts?_none (by decide) (by omega) (Or.inl (by decide)) hnone
  · refine ⟨fun d hd => ofParts?_some hd, fun hnone => ?_⟩
    exact ofParts?_none (lt_of_le_of_ne hmost hspilled) hleast hfull hnone

/-- Rounding an integer keeps its order with every representable magnitude. -/
theorem size_ofInt_bounds (n : Int) (h : Representable x) :
    ((n.natAbs : ℚ) ≤ x → (ofInt n).size ≤ x) ∧ (x ≤ n.natAbs → x ≤ (ofInt n).size) := by
  by_cases hzero : n = 0
  · subst hzero
    have hsize : (ofInt 0).size = 0 := by simp [ofInt, nearest, zero, size]
    simp [hsize]
  have hnum : n.natAbs ≠ 0 := by omega
  have hle := rounded_le hnum Nat.one_ne_zero h
  have hge := le_rounded hnum Nat.one_ne_zero h
  obtain ⟨hsome, hnone⟩ := nearest_rounded (decide (n < 0)) hnum Nat.one_ne_zero
  rw [Nat.cast_one, div_one] at hle hge
  unfold ofInt
  cases hnearest : nearest (decide (n < 0)) n.natAbs 1 with
  | some d =>
      rw [Option.getD_some, (hsome d hnearest).2]
      exact ⟨hle, hge⟩
  | none =>
      rw [Option.getD_none]
      refine ⟨fun hn => ?_, fun _ => h.le_largest _⟩
      obtain ⟨e, he, hbeyond⟩ := hnone hnearest
      exact absurd (hbeyond.trans (hle hn)) (not_le.mpr (h.lt he))

theorem ofInt_negative (n : Int) : (ofInt n).negative = decide (n < 0) := by
  by_cases hzero : n = 0
  · subst hzero
    rfl
  unfold ofInt
  cases hnearest : nearest (decide (n < 0)) n.natAbs 1 with
  | some d => exact ((nearest_rounded _ (by omega) (by decide)).1 d hnearest).1
  | none => rfl

/-- An integer is not rounded past a double, from either side. -/
theorem ofInt_value_bounds (n : Int) (b : Double) :
    ((n : ℚ) ≤ b.value → (ofInt n).value ≤ b.value) ∧
      (b.value ≤ n → b.value ≤ (ofInt n).value) := by
  obtain ⟨hle, hge⟩ := size_ofInt_bounds n b.representable_size
  have hsize : 0 ≤ (ofInt n).size := size_nonneg _
  have hlimit : 0 ≤ b.size := size_nonneg _
  rw [value_eq b, value_eq, ofInt_negative]
  by_cases hn : n < 0
  · have habs : (n.natAbs : ℚ) = -n := by rw [Nat.cast_natAbs, abs_of_neg hn, Int.cast_neg]
    have hneg : (n : ℚ) < 0 := by exact_mod_cast hn
    rw [habs] at hle hge
    simp only [hn, decide_true, ↓reduceIte]
    cases b.negative with
    | true =>
        simp only [↓reduceIte, neg_le_neg_iff]
        exact ⟨fun h => hge (by linarith), fun h => hle (by linarith)⟩
    | false =>
        simp only [Bool.false_eq_true, ↓reduceIte]
        exact ⟨fun _ => by linarith, fun h => by linarith⟩
  · have habs : (n.natAbs : ℚ) = n := by rw [Nat.cast_natAbs, abs_of_nonneg (by omega)]
    have hpos : (0 : ℚ) ≤ n := by exact_mod_cast (by omega : 0 ≤ n)
    rw [habs] at hle hge
    simp only [hn, decide_false, Bool.false_eq_true, ↓reduceIte]
    cases b.negative with
    | true =>
        simp only [↓reduceIte]
        refine ⟨fun h => ?_, fun _ => by linarith⟩
        -- Only zero is at most a double with a minus sign.
        have hzero : b.size = 0 := by linarith
        have hrounded := hle (by linarith)
        linarith
    | false =>
        simp only [Bool.false_eq_true, ↓reduceIte]
        exact ⟨hle, hge⟩

theorem ofInt_value_of_representable {n : Int} (h : Representable n.natAbs) :
    (ofInt n).value = n := by
  obtain ⟨hle, hge⟩ := size_ofInt_bounds n h
  have hsize : (ofInt n).size = n.natAbs := le_antisymm (hle le_rfl) (hge le_rfl)
  rw [value_eq, ofInt_negative, hsize]
  by_cases hn : n < 0
  · simp [hn, abs_of_neg]
  · simp [hn, abs_of_nonneg (not_lt.mp hn)]

theorem representable_of_le {m : Nat} (h : m ≤ 2 ^ 53) : Representable m := by
  rcases lt_or_eq_of_le h with hlt | rfl
  · exact ⟨m, 0, hlt, by norm_num, by norm_num, by simp⟩
  · exact ⟨2 ^ 52, 1, by norm_num, by norm_num, by norm_num, by norm_num⟩

/-- The quotient of naturals that `magnitude` gives. -/
theorem magnitude_eq (d : Double) :
    0 < d.magnitude.2 ∧ (d.magnitude.1 : ℚ) / d.magnitude.2 = d.size := by
  unfold magnitude size
  cases d.exponent with
  | ofNat e =>
      refine ⟨Nat.one_pos, ?_⟩
      simp only [Nat.shiftLeft_eq, Int.ofNat_eq_natCast, zpow_natCast]
      push_cast
      rw [div_one]
  | negSucc e =>
      refine ⟨by simp [Nat.shiftLeft_eq], ?_⟩
      simp only [Nat.shiftLeft_eq, one_mul, zpow_negSucc]
      push_cast
      rw [div_eq_mul_inv]

/-- A double has no fractional part exactly when it denotes an integer. -/
theorem toInt?_eq_some_iff {d : Double} {i : Int} : d.toInt? = some i ↔ d.value = i := by
  obtain ⟨hpos, hsize⟩ := d.magnitude_eq
  have hpositive : (0 : ℚ) < d.magnitude.2 := by exact_mod_cast hpos
  by_cases hmod : d.magnitude.1 % d.magnitude.2 = 0
  · have hwhole : d.size = ((d.magnitude.1 / d.magnitude.2 : Nat) : Int) := by
      rw [← hsize, Int.cast_natCast, Nat.cast_div (Nat.dvd_of_mod_eq_zero hmod) hpositive.ne']
    simp only [toInt?, hmod, ↓reduceIte, Option.some.injEq, value_eq, hwhole]
    split_ifs
    · rw [← Int.cast_neg, Int.cast_inj]
    · rw [Int.cast_inj]
  · have hnone : d.toInt? = none := by simp only [toInt?, hmod, ↓reduceIte]
    rw [hnone]
    refine ⟨nofun, fun hvalue => absurd ?_ hmod⟩
    have habs : d.size = i.natAbs := by
      rw [Nat.cast_natAbs, Int.cast_abs, ← hvalue, value_eq]
      split_ifs <;> simp [abs_of_nonneg d.size_nonneg]
    rw [← hsize, div_eq_iff hpositive.ne'] at habs
    have hproduct : d.magnitude.1 = i.natAbs * d.magnitude.2 := by exact_mod_cast habs
    rw [hproduct, Nat.mul_mod_left]

end Double

end RequestDispatch
