import Mathlib.Algebra.Order.Ring.Int
import Mathlib.Data.List.Forall2
import RequestDispatch.Parameter.Coercion

/-!
What coercions give. A coercion without issues has a value of the declared type, which stands in
a stated relation to what was received: a list has one item for each text or element, in the
same order. A coercion with issues reports all of them below its own place.
-/

namespace RequestDispatch

namespace Text

/-- The number never leaves the range while digits are read. -/
theorem readDigits_le {base limit : Nat} {tooFar : IntegerError} {s : List Char} {read n : Nat}
    (hread : read ≤ limit) (hn : readDigits base limit tooFar read s = .ok n) : n ≤ limit := by
  induction s generalizing read with
  | nil =>
      cases hn
      exact hread
  | cons c rest ih =>
      simp only [readDigits] at hn
      split at hn
      · cases hn
      · split at hn
        · rename_i hnext
          exact ih hnext hn
        · cases hn

theorem readSigned_range {limit : Nat} {s : List Char} {n : Int}
    (hn : readSigned limit s = .ok n) : -(limit : Int) - 1 ≤ n ∧ n ≤ limit := by
  have hdigits {bound : Nat} {tooFar : IntegerError} {digits : List Char} {f : Nat → Int}
      (hmap : (readDigits 10 bound tooFar 0 digits).map f = .ok n) :
      ∃ m, m ≤ bound ∧ f m = n := by
    cases hread : readDigits 10 bound tooFar 0 digits with
    | error e =>
        rw [hread] at hmap
        cases hmap
    | ok m =>
        rw [hread] at hmap
        cases hmap
        exact ⟨m, readDigits_le (Nat.zero_le bound) hread, rfl⟩
  unfold readSigned at hn
  split at hn
  · cases hn
  · cases hn
  · cases hn
  · obtain ⟨m, hm, rfl⟩ := hdigits hn
    simp only [Int.ofNat_eq_natCast]
    omega
  · obtain ⟨m, hm, rfl⟩ := hdigits hn
    simp only [Int.ofNat_eq_natCast]
    omega
  · obtain ⟨m, hm, rfl⟩ := hdigits hn
    simp only [Int.ofNat_eq_natCast]
    omega

theorem readInt64_range {s : String} {n : Int} (hn : readInt64 s = .ok n) :
    -2 ^ 63 ≤ n ∧ n ≤ 2 ^ 63 - 1 := by
  have hrange := readSigned_range hn
  simp only [maxInt64] at hrange
  omega

end Text

namespace ParamType

/-- The values of a type. -/
inductive Has : ParamType → Json → Prop where
  | string (s : String) : Has .string (.string s)
  | int {n : Int} (hleast : -2 ^ 63 ≤ n) (hgreatest : n ≤ 2 ^ 63 - 1) :
      Has .int (.number (.int n))
  | float (n : Number) : Has .float (.number n)
  | bool (b : Bool) : Has .bool (.bool b)
  | json (v : Json) : Has .json v
  | list {item : ParamType} {values : List Json} (hitems : ∀ v ∈ values, Has item v) :
      Has (.list item) (.array values)

/-- A text denotes a value of a type. No text denotes a list. -/
inductive Reads : ParamType → String → Json → Prop where
  | string (text : String) : Reads .string text (.string text)
  | int {text : String} {n : Int} (hread : Text.readInt64 text = .ok n) :
      Reads .int text (.number (.int n))
  | float {text : String} {d : Double} (hread : Decimal.read? text = some (.finite d)) :
      Reads .float text (.number (.real d))
  | bool {text : String} {b : Bool} (hread : readBool? text = some b) :
      Reads .bool text (.bool b)
  | json {text : String} {v : Json} (hread : Json.parseText text = .ok v) :
      Reads .json text v

/-- The occurrences of a parameter come to a value of a type: every one of them counts for a
list, in order, and the last one for any other type. -/
inductive Gathers : ParamType → List String → Json → Prop where
  | each {item : ParamType} {texts : List String} {values : List Json}
      (hitems : List.Forall₂ item.Reads texts values) : Gathers (.list item) texts (.array values)
  | last {type : ParamType} {texts : List String} {text : String} {v : Json}
      (hsingle : type.isList = false) (hlast : texts.getLast? = some text)
      (hread : type.Reads text v) : Gathers type texts v

/-- A JSON value stands for a value of a type that is no list: it is one already, or it is the
text of one, or a whole number for an integer. -/
inductive Converts : ParamType → Json → Json → Prop where
  | kept {type : ParamType} {v : Json} (htype : type.Has v) : Converts type v v
  | text {type : ParamType} {text : String} {v : Json}
      (htype : type = .int ∨ type = .float ∨ type = .bool) (hread : type.Reads text v) :
      Converts type (.string text) v
  | whole {n : Number} {i : Int} (hwhole : n.toDouble.toInt? = some i)
      (hrange : i.natAbs < 2 ^ 63) : Converts .int (.number n) (.number (.int i))

/-- A JSON value comes to a value of a type, a list item by item. -/
def Becomes : ParamType → Json → Json → Prop
  | .list item, source, value =>
      ∃ sources values, source = .array sources ∧ value = .array values ∧
        List.Forall₂ item.Becomes sources values
  | type, source, value => type.Converts source value

theorem Reads.has {type : ParamType} {text : String} {v : Json} (h : type.Reads text v) :
    type.Has v := by
  cases h with
  | string => exact .string text
  | int hread =>
      obtain ⟨hleast, hgreatest⟩ := Text.readInt64_range hread
      exact .int hleast hgreatest
  | float => exact .float _
  | bool => exact .bool _
  | json => exact .json v

theorem Converts.has {type : ParamType} {source v : Json} (h : type.Converts source v) :
    type.Has v := by
  cases h with
  | kept htype => exact htype
  | text _ hread => exact hread.has
  | whole _ hrange => exact .int (by omega) (by omega)

/-- Items that are related to what was received have a type if the relation gives it. -/
theorem has_list {α : Type} {item : ParamType} {R : α → Json → Prop} {sources : List α}
    {values : List Json} (hitems : List.Forall₂ R sources values)
    (hitem : ∀ source v, R source v → item.Has v) : (ParamType.list item).Has (.array values) := by
  constructor
  induction hitems with
  | nil => simp
  | cons hfirst _ ih =>
      intro v hv
      rcases List.mem_cons.mp hv with rfl | hrest
      · exact hitem _ _ hfirst
      · exact ih v hrest

theorem Gathers.has {type : ParamType} {texts : List String} {v : Json}
    (h : type.Gathers texts v) : type.Has v := by
  cases h with
  | each hitems => exact has_list hitems fun _ _ => Reads.has
  | last _ _ hread => exact hread.has

theorem Becomes.has {type : ParamType} {source v : Json} (h : type.Becomes source v) :
    type.Has v := by
  induction type generalizing source v with
  | list item ih =>
      obtain ⟨sources, values, _, rfl, hitems⟩ := h
      exact has_list hitems fun _ _ hitem => ih hitem
  | _ => exact Converts.has h

end ParamType

/-- All issues are about a place or something inside it. -/
structure Below (place : List String) (issues : List Issue) : Prop where
  starts : ∀ issue ∈ issues, place <+: issue.loc

namespace Below

variable {place : List String}

theorem nil : Below place [] where
  starts := by simp

theorem single (kind message : String) (input : Json) :
    Below place [⟨place, kind, message, input⟩] where
  starts := by simp

theorem append {issues more : List Issue} (h : Below place issues) (hmore : Below place more) :
    Below place (issues ++ more) where
  starts := by
    intro issue hissue
    rcases List.mem_append.mp hissue with hin | hin
    · exact h.starts issue hin
    · exact hmore.starts issue hin

/-- What is below an item is below the list. -/
theorem flatMap {α : Type} {items : List α} {report : α → List Issue}
    (h : ∀ item ∈ items, ∃ index, Below (place ++ [index]) (report item)) :
    Below place (items.flatMap report) where
  starts := by
    intro issue hissue
    obtain ⟨item, hitem, hissue⟩ := List.mem_flatMap.mp hissue
    obtain ⟨index, hbelow⟩ := h item hitem
    exact (List.prefix_append place [index]).trans (hbelow.starts issue hissue)

end Below

namespace Coerced

/-- A coercion at a place has no issues elsewhere, and without issues it has a value with the
property. -/
structure Settles (loc : List String) (P : Json → Prop) (c : Coerced) : Prop where
  below : Below loc c.issues
  sound : c.issues = [] → ∃ v, c.value = some v ∧ P v

theorem settles_fit {loc : List String} {P : Json → Prop} {v : Json} (hv : P v) :
    (fit v).Settles loc P where
  below := .nil
  sound _ := ⟨v, rfl, hv⟩

theorem settles_misfit (loc : List String) (P : Json → Prop) (kind message : String)
    (input : Json) : (misfit loc kind message input).Settles loc P where
  below := .single kind message input
  sound := by simp [misfit]

theorem Settles.mono {loc : List String} {P Q : Json → Prop} {c : Coerced}
    (h : c.Settles loc P) (himp : ∀ v, P v → Q v) : c.Settles loc Q where
  below := h.below
  sound hnone := by
    obtain ⟨v, hvalue, hv⟩ := h.sound hnone
    exact ⟨v, hvalue, himp v hv⟩

theorem settles_collect {α : Type} {loc : List String} {R : α → Json → Prop}
    {coerce : String → α → Coerced}
    (hitem : ∀ i a, (coerce i a).Settles (loc ++ [i]) (R a)) (items : List (String × α)) :
    (collect (items.map fun (i, a) => coerce i a)).Settles loc fun v =>
      ∃ values, v = .array values ∧ List.Forall₂ R (items.map (·.2)) values where
  below := by
    apply Below.flatMap
    intro coerced hcoerced
    obtain ⟨⟨i, a⟩, _, rfl⟩ := List.mem_map.mp hcoerced
    exact ⟨i, (hitem i a).below⟩
  sound hnone := by
    refine ⟨_, rfl, _, rfl, ?_⟩
    induction items with
    | nil => exact .nil
    | cons item rest ih =>
        simp only [collect, List.map_cons, List.flatMap_cons, List.append_eq_nil_iff] at hnone
        obtain ⟨v, hvalue, hv⟩ := (hitem item.1 item.2).sound hnone.1
        simp only [List.map_cons, List.filterMap_cons, hvalue]
        exact .cons hv (ih hnone.2)

/-- Items that settle below their indices settle as a list. -/
theorem settles_indexed {α : Type} {loc : List String} {R : α → Json → Prop}
    {coerce : String → α → Coerced} (sources : List α)
    (hitem : ∀ i a, (coerce i a).Settles (loc ++ [i]) (R a)) :
    (collect ((indexed sources).map fun (i, a) => coerce i a)).Settles loc fun v =>
      ∃ values, v = .array values ∧ List.Forall₂ R sources values := by
  have hsources : (indexed sources).map (·.2) = sources := by
    apply List.ext_getElem <;> simp [indexed]
  have hcollect := settles_collect hitem (indexed sources)
  rw [hsources] at hcollect
  exact hcollect

end Coerced

theorem coerceText_settles (type : ParamType) (text : String) (loc : List String) :
    (coerceText type text loc).Settles loc (type.Reads text) := by
  cases type with
  | string => exact Coerced.settles_fit (.string text)
  | int =>
      simp only [coerceText]
      split
      · exact Coerced.settles_fit (.int ‹_›)
      · exact Coerced.settles_misfit ..
  | float =>
      simp only [coerceText]
      split
      · exact Coerced.settles_fit (.float ‹_›)
      · exact Coerced.settles_misfit ..
      · exact Coerced.settles_misfit ..
  | bool =>
      simp only [coerceText]
      split
      · exact Coerced.settles_fit (.bool ‹_›)
      · exact Coerced.settles_misfit ..
  | json =>
      simp only [coerceText]
      split
      · exact Coerced.settles_fit (.json ‹_›)
      · exact Coerced.settles_misfit ..
  | list item => exact Coerced.settles_misfit ..

theorem coerceTexts_single {type : ParamType} (hsingle : type.isList = false)
    {texts : List String} {text : String} (hlast : texts.getLast? = some text)
    (loc : List String) : coerceTexts type texts loc = coerceText type text loc := by
  cases type with
  | list item => cases hsingle
  | _ => simp only [coerceTexts, hlast]

theorem coerceTexts_settles (type : ParamType) {texts : List String} (hsome : texts ≠ [])
    (loc : List String) : (coerceTexts type texts loc).Settles loc (type.Gathers texts) := by
  cases hlist : type.isList with
  | false =>
      have hlast := List.getLast?_eq_some_getLast hsome
      rw [coerceTexts_single hlist hlast]
      exact (coerceText_settles type _ loc).mono fun _ hread => .last hlist hlast hread
  | true =>
      cases type with
      | list item =>
          apply (Coerced.settles_indexed texts fun i text =>
            coerceText_settles item text (loc ++ [i])).mono
          rintro _ ⟨values, rfl, hitems⟩
          exact .each hitems
      | _ => cases hlist

theorem coerceInteger_settles (n : Number) (loc : List String) :
    (coerceInteger n loc).Settles loc (ParamType.int.Becomes (.number n)) := by
  unfold coerceInteger
  -- An integer that was written as one stays as it is; any other number has to be whole.
  split
  · rename_i i hint
    apply Coerced.settles_fit
    cases n with
    | real d => cases hint
    | int m =>
        simp only [Number.toInt64?] at hint
        split at hint
        · rename_i hrange
          simp only [Text.maxInt64] at hrange
          cases hint
          exact .kept (.int (by omega) (by omega))
        · cases hint
  · dsimp only
    split
    · rename_i i hwhole
      obtain ⟨hwhole, hrange⟩ := Option.filter_eq_some_iff.mp hwhole
      have hmagnitude : i.natAbs ≤ Text.maxInt64 := by simpa using hrange
      simp only [Text.maxInt64] at hmagnitude
      exact Coerced.settles_fit (.whole hwhole (by omega))
    · exact Coerced.settles_misfit ..

theorem coerceJson_settles (type : ParamType) (v : Json) (loc : List String) :
    (coerceJson type v loc).Settles loc (type.Becomes v) := by
  induction type generalizing v loc with
  | string =>
      cases v with
      | string s => exact Coerced.settles_fit (.kept (.string s))
      | _ => exact Coerced.settles_misfit ..
  | int =>
      cases v with
      | number n => exact coerceInteger_settles n loc
      | string s =>
          exact (coerceText_settles .int s loc).mono fun _ hread => .text (Or.inl rfl) hread
      | _ => exact Coerced.settles_misfit ..
  | float =>
      cases v with
      | number n => exact Coerced.settles_fit (.kept (.float n))
      | string s =>
          exact (coerceText_settles .float s loc).mono
            fun _ hread => .text (Or.inr (Or.inl rfl)) hread
      | _ => exact Coerced.settles_misfit ..
  | bool =>
      cases v with
      | bool b => exact Coerced.settles_fit (.kept (.bool b))
      | string s =>
          exact (coerceText_settles .bool s loc).mono
            fun _ hread => .text (Or.inr (Or.inr rfl)) hread
      | _ => exact Coerced.settles_misfit ..
  | json => exact Coerced.settles_fit (.kept (.json v))
  | list item ih =>
      cases v with
      | array sources =>
          simp only [coerceJson]
          apply (Coerced.settles_indexed sources fun i source => ih source (loc ++ [i])).mono
          rintro _ ⟨values, rfl, hitems⟩
          exact ⟨sources, values, rfl, rfl, hitems⟩
      | _ =>
          simp only [coerceJson]
          exact Coerced.settles_misfit ..

end RequestDispatch
