import RequestDispatch.Proofs.Parameter.Soundness
import RequestDispatch.Proofs.Text.Integer

/-!
Texts of integer parameters. A text that was sent for a parameter of integer type is bound to the
integer that it denotes, if that has 64 bits and the parameter has nothing against it. A text that
denotes no integer of 64 bits is reported once, as it was sent.
-/

namespace RequestDispatch

namespace Text

/-- A text denotes an integer of 64 bits. -/
structure IsInt64 (text : String) (i : Int) : Prop where
  denotes : Denotes text.toList i
  least : -2 ^ 63 ≤ i
  greatest : i ≤ 2 ^ 63 - 1

theorem readInt64_eq_ok_iff {text : String} {i : Int} :
    readInt64 text = .ok i ↔ IsInt64 text i := by
  rw [readInt64, readSigned_eq_ok_iff]
  simp only [maxInt64]
  constructor
  · rintro ⟨hdenotes, hleast, hgreatest⟩
    exact ⟨hdenotes, by omega, by omega⟩
  · rintro ⟨hdenotes, hleast, hgreatest⟩
    exact ⟨hdenotes, by omega, by omega⟩

end Text

/-- What is reported of a text that is no integer. -/
def Issue.noInteger (place : List String) (text : String) : Issue :=
  ⟨place, "int_parsing", "Input should be a valid integer, unable to parse string as an integer",
    .string text⟩

theorem coerceText_int_of_isInt64 {text : String} {i : Int} (h : Text.IsInt64 text i)
    (loc : List String) : coerceText .int text loc = .fit (.ofInt i) := by
  simp only [coerceText, Text.readInt64_eq_ok_iff.mpr h]

theorem coerceText_int_of_other {text : String} (h : ∀ i, ¬Text.IsInt64 text i)
    (loc : List String) : coerceText .int text loc = ⟨none, [.noInteger loc text]⟩ := by
  cases hread : Text.readInt64 text with
  | ok i => exact absurd (Text.readInt64_eq_ok_iff.mp hread) (h i)
  | error fault =>
      simp only [coerceText, hread]
      rfl

namespace Bound

variable {p : CompiledParameter} {place : List String}

theorem take_approved {v : Json} (happroved : p.issues v place = []) (bound : Bound) :
    bound.take p (.fit v) place =
      { bound with values := bound.values.insert p.declared.name v } := by
  simp [take, Coerced.fit, happroved]

theorem take_disapproved {v : Json} (hissues : p.issues v place ≠ []) (bound : Bound) :
    bound.take p (.fit v) place =
      { bound with issues := bound.issues ++ p.issues v place } := by
  simp [take, Coerced.fit, hissues]

theorem take_without_value (issues : List Issue) (bound : Bound) :
    bound.take p ⟨none, issues⟩ place = { bound with issues := bound.issues ++ issues } :=
  rfl

end Bound

/-- A text was sent for a parameter: as its occurrence outside the body, the last one if there are
several, or as a text in the body. -/
inductive Found.Sends : Found → String → Prop where
  | texts {texts : List String} {text : String} (hlast : texts.getLast? = some text) :
      Sends (.texts texts) text
  | json (text : String) : Sends (.json (.string text)) text

variable {found : Found} {p : CompiledParameter} {text : String}

theorem Found.Sends.readable (hsent : found.Sends text) : found ≠ .unreadable := by
  cases hsent <;> exact nofun

/-- A text for an integer is coerced as it was sent, wherever it was. -/
theorem Bound.conclude_of_sends (htype : p.declared.type = .int) (hsent : found.Sends text)
    (bound : Bound) (place : List String) :
    bound.conclude p place found = bound.take p (coerceText .int text place) place := by
  cases hsent with
  | texts hlast => rw [conclude, htype, coerceTexts_single rfl hlast]
  | json => rw [conclude, htype, coerceJson]

namespace Binder

variable {b : Binder}

/-- What is found for a parameter decides what becomes of it after any others. -/
theorem bindOne_of_finds (hfinds : b.finds p = found) (hreadable : found ≠ .unreadable)
    {bound : Bound} (hknows : b.Knows bound.toBodyMemory) :
    ∃ parsed, b.bindOne bound p =
      Bound.conclude { bound with parsed := parsed } p (b.placeOf p) found := by
  cases hfails : b.fails p with
  | true =>
      simp only [fails, Bool.and_eq_true, decide_eq_true_eq, Option.isSome_iff_exists] at hfails
      obtain ⟨hplace, issue, hunreadable⟩ := hfails
      rw [finds, lookUp_unreadable hplace hunreadable _ knows_fresh] at hfinds
      exact absurd hfinds.symm hreadable
  | false =>
      obtain ⟨_, parsed, hlookUp⟩ := lookUp_of_heard hfails hknows
      refine ⟨parsed, ?_⟩
      simp only [bindOne, hlookUp, hfinds]

/-- What becomes of a text that was sent for a parameter of integer type, after any others. If it
denotes an integer of 64 bits, then that is bound when it meets the bounds and the schema of the
parameter, and otherwise what they report is reported. If it does not, then nothing is bound and one
issue has the text as it was sent. The decimal text of every integer denotes it. -/
theorem bindFrom_integer (b : Binder) {memory : BodyMemory} (hknows : b.Knows memory)
    (before : List CompiledParameter) (htype : p.declared.type = .int)
    (hsent : (b.finds p).Sends text) :
    let bound := b.bindFrom memory before
    let after := b.bindFrom memory (before ++ [p])
    (∀ i, Text.IsInt64 text i → p.issues (.ofInt i) (b.placeOf p) = [] →
      after.values = bound.values.insert p.declared.name (.ofInt i) ∧
        after.issues = bound.issues) ∧
    (∀ i, Text.IsInt64 text i → p.issues (.ofInt i) (b.placeOf p) ≠ [] →
      after.values = bound.values ∧
        after.issues = bound.issues ++ p.issues (.ofInt i) (b.placeOf p)) ∧
    ((∀ i, ¬Text.IsInt64 text i) →
      after.values = bound.values ∧
        after.issues = bound.issues ++ [.noInteger (b.placeOf p) text]) ∧
    ∀ i, -2 ^ 63 ≤ i → i ≤ 2 ^ 63 - 1 → Text.IsInt64 (toString i) i := by
  intro bound after
  have hbound : b.Knows bound.toBodyMemory := (bindFrom_eq before memory hknows).1
  obtain ⟨parsed, hbind⟩ := bindOne_of_finds rfl hsent.readable hbound
  rw [Bound.conclude_of_sends htype hsent] at hbind
  have hafter : after = _ := (bindFrom_append memory before p).trans hbind
  refine ⟨?_, ?_, ?_, ?_⟩
  · intro i hi happroved
    rw [hafter, coerceText_int_of_isInt64 hi, Bound.take_approved happroved]
    exact ⟨rfl, rfl⟩
  · intro i hi hissues
    rw [hafter, coerceText_int_of_isInt64 hi, Bound.take_disapproved hissues]
    exact ⟨rfl, rfl⟩
  · intro hnone
    rw [hafter, coerceText_int_of_other hnone, Bound.take_without_value]
    exact ⟨rfl, rfl⟩
  · intro i hleast hgreatest
    exact ⟨Text.denotes_toString i, hleast, hgreatest⟩

/-- A number in the query. -/
def pageNumber : CompiledParameter :=
  ⟨.ofType "page" .query .int, "page", none, none⟩

/-- A sign and leading zeros do not matter. -/
theorem bindFrom_integer_sample :
    let b : Binder := ⟨{ (default : Request) with query := "page=-0070" }, [], false⟩
    (b.finds pageNumber).Sends "-0070" ∧ Text.IsInt64 "-0070" (-70) ∧
      (b.bindFrom .fresh [pageNumber]).values = [("page", .ofInt (-70))] := by
  intro b
  have htexts : b.lookUpTexts pageNumber = ["-0070"] := by decide
  have hsent : (b.finds pageNumber).Sends "-0070" := by
    have hplace : pageNumber.declared.location ≠ .body := by decide
    simp only [finds, lookUp, hplace, ↓reduceIte, htexts]
    exact .texts rfl
  have hint : Text.IsInt64 "-0070" (-70) := Text.readInt64_eq_ok_iff.mp rfl
  obtain ⟨hbinds, _⟩ := bindFrom_integer b knows_fresh [] rfl hsent
  obtain ⟨hvalues, _⟩ := hbinds (-70) hint rfl
  exact ⟨hsent, hint, hvalues⟩

/-- A number in the query that is at least ten. -/
def boundedNumber : CompiledParameter :=
  { pageNumber with
    declared := { pageNumber.declared with
      constraints := { Constraints.unconstrained with
        ge := some (.finite ⟨false, 5 * 2 ^ 50, -49, by decide⟩) } } }

/-- A text that is an integer of 64 bits is not bound where a bound of the parameter is against it,
and what is reported is not that it is no integer. -/
theorem integer_out_of_bounds :
    let b : Binder := ⟨{ (default : Request) with query := "page=5" }, [], false⟩
    (b.finds boundedNumber).Sends "5" ∧ Text.IsInt64 "5" 5 ∧
      (b.bindFrom .fresh [boundedNumber]).values = [] ∧
      (b.bindFrom .fresh [boundedNumber]).issues =
        [⟨["query", "page"], "greater_than_equal", "Input should be greater than or equal to 10",
          .ofInt 5⟩] := by
  intro b
  have htexts : b.lookUpTexts boundedNumber = ["5"] := by decide
  refine ⟨?_, Text.readInt64_eq_ok_iff.mp rfl, by decide +kernel, by decide +kernel⟩
  have hplace : boundedNumber.declared.location ≠ .body := by decide
  simp only [finds, lookUp, hplace, ↓reduceIte, htexts]
  exact .texts rfl

end Binder

end RequestDispatch
