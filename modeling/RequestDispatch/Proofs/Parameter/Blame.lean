import Mathlib.Data.List.Basic
import RequestDispatch.Proofs.Parameter.Integers
import RequestDispatch.Proofs.Parameter.Typing

/-!
Which parts of a list are blamed. A coercion judges every part of a value at which the type has no
further list to open, and reports exactly those that do not fit, from left to right, each at its own
position. A list without a bad part comes to a list of the same shape.
-/

namespace RequestDispatch

/-- The part of a value at a position, which has an index for each list around the part. -/
def Json.partAt? : Json → List Nat → Option Json
  | v, [] => some v
  | .array items, i :: place => items[i]?.bind fun item => item.partAt? place
  | _, _ :: _ => none

namespace ParamType

/-- What a part of a value has to become when the whole value is to become a value of a type. -/
inductive Wants : ParamType → Json → List Nat → ParamType → Json → Prop where
  | whole (type : ParamType) (v : Json) : Wants type v [] type v
  | item {item wanted : ParamType} {items : List Json} {i : Nat} {v part : Json}
      {place : List Nat} (hitem : items[i]? = some v) (hpart : Wants item v place wanted part) :
      Wants (.list item) (.array items) (i :: place) wanted part

/-- A part is at fault itself: it is no list where one is wanted, or nothing that stands for a value
of a type without items. -/
inductive Misfits : ParamType → Json → Prop where
  | list {item : ParamType} {v : Json} (hother : ∀ items, v ≠ .array items) :
      Misfits (.list item) v
  | leaf {type : ParamType} {v : Json} (hleaf : type.isList = false)
      (hnone : ∀ value, ¬type.Converts v value) : Misfits type v

end ParamType

namespace Coerced

/-- The outcome for a value that is judged as a whole: a value that it may become, or none, with
the value itself reported. -/
inductive Judges (loc : List String) (input : Json) (may : Json → Prop) : Coerced → Prop where
  | fit {v : Json} (hv : may v) : Judges loc input may (fit v)
  | misfit (kind message : String) (hnone : ∀ v, ¬may v) :
      Judges loc input may (misfit loc kind message input)

variable {loc : List String} {input : Json} {may can : Json → Prop} {c : Coerced}

theorem Judges.congr (h : c.Judges loc input may) (hsame : ∀ v, may v ↔ can v) :
    c.Judges loc input can := by
  cases h with
  | fit hv => exact .fit ((hsame _).mp hv)
  | misfit kind message hnone => exact .misfit kind message fun v hv => hnone v ((hsame v).mpr hv)

end Coerced

open ParamType Coerced

/-! ### A part that is judged as a whole -/

theorem coerceText_judges (type : ParamType) (text : String) (loc : List String) :
    (coerceText type text loc).Judges loc (.string text) (type.Reads text) := by
  cases type with
  | string => exact .fit (.string text)
  | int =>
      simp only [coerceText]
      split
      · exact .fit (.int ‹_›)
      · rename_i hread
        refine .misfit _ _ fun v hv => ?_
        cases hv with
        | int hok => cases hread.symm.trans hok
  | float =>
      simp only [coerceText]
      split
      · exact .fit (.float ‹_›)
      · rename_i hinfinite hread
        refine .misfit _ _ fun v hv => ?_
        cases hv with
        | float hfinite => exact hinfinite _ (Option.some.inj (hread.symm.trans hfinite))
      · rename_i hread
        refine .misfit _ _ fun v hv => ?_
        cases hv with
        | float hfinite => cases hread.symm.trans hfinite
  | bool =>
      simp only [coerceText]
      split
      · exact .fit (.bool ‹_›)
      · rename_i hread
        refine .misfit _ _ fun v hv => ?_
        cases hv with
        | bool hsome => cases hread.symm.trans hsome
  | json =>
      simp only [coerceText]
      split
      · exact .fit (.json ‹_›)
      · rename_i hread
        refine .misfit _ _ fun v hv => ?_
        cases hv with
        | json hok => cases hread.symm.trans hok
  | list item =>
      refine .misfit _ _ fun v hv => ?_
      cases hv

theorem coerceInteger_judges (n : Number) (loc : List String) :
    (coerceInteger n loc).Judges loc (.number n) (ParamType.int.Converts (.number n)) := by
  cases hint : n.toInt64? with
  | some i =>
      obtain ⟨rfl, hleast, hgreatest⟩ := Number.toInt64?_eq_some_iff.mp hint
      rw [coerceInteger_of_int64 hint]
      exact .fit (.kept (.int hleast hgreatest))
  | none =>
      obtain ⟨i, hvalue, hsmall, hfit⟩ | ⟨hlarge, hrefused⟩ := coerceInteger_of_other hint loc
      · rw [hfit]
        exact .fit (.whole (Double.toInt?_eq_some_iff.mpr hvalue) hsmall)
      · rw [hrefused]
        refine .misfit _ _ fun v hv => ?_
        cases hv with
        | kept hhas =>
            cases hhas with
            | int hleast hgreatest =>
                have hsome := Number.toInt64?_eq_some_iff.mpr ⟨rfl, hleast, hgreatest⟩
                cases hint.symm.trans hsome
        | whole hwhole hrange =>
            have hfar := hlarge _ (Double.toInt?_eq_some_iff.mp hwhole)
            omega

/-- A text in a body stands for a number or a boolean in the same way as elsewhere. -/
theorem coerceText_judges_scalar {type : ParamType}
    (htype : type = .int ∨ type = .float ∨ type = .bool) (text : String) (loc : List String) :
    (coerceText type text loc).Judges loc (.string text) (type.Converts (.string text)) := by
  apply (coerceText_judges type text loc).congr
  intro v
  refine ⟨.text htype, fun hconverts => ?_⟩
  cases hconverts with
  | kept hhas => obtain rfl | rfl | rfl := htype <;> cases hhas
  | text _ hread => exact hread

/-- A value that is no list is coerced to what it stands for, or reported as it is. -/
theorem coerceJson_judges {type : ParamType} (hleaf : type.isList = false) (v : Json)
    (loc : List String) : (coerceJson type v loc).Judges loc v (type.Converts v) := by
  cases type with
  | string =>
      cases v with
      | string s => exact .fit (.kept (.string s))
      | _ => exact .misfit _ _ nofun
  | int =>
      cases v with
      | number n => exact coerceInteger_judges n loc
      | string s => exact coerceText_judges_scalar (.inl rfl) s loc
      | _ => exact .misfit _ _ nofun
  | float =>
      cases v with
      | number n => exact .fit (.kept (.float n))
      | string s => exact coerceText_judges_scalar (.inr (.inl rfl)) s loc
      | _ => exact .misfit _ _ nofun
  | bool =>
      cases v with
      | bool b => exact .fit (.kept (.bool b))
      | string s => exact coerceText_judges_scalar (.inr (.inr rfl)) s loc
      | _ => exact .misfit _ _ nofun
  | json => exact .fit (.kept (.json v))
  | list item => cases hleaf

/-! ### Reports from left to right -/

/-- The issues are about the bad positions of a value: one for each of them and no others, in the
order in which the positions stand in the value. -/
def Blames (bad : List Nat → Prop) (about : List Nat → Issue → Prop) (issues : List Issue) : Prop :=
  ∃ places : List (List Nat), places.Pairwise (· < ·) ∧ (∀ place, place ∈ places ↔ bad place) ∧
    List.Forall₂ about places issues

namespace Blames

variable {bad : List Nat → Prop} {about : List Nat → Issue → Prop}

theorem nil (hnone : ∀ place, ¬bad place) : Blames bad about [] :=
  ⟨[], .nil, by simpa using hnone, .nil⟩

/-- The whole value is bad. -/
theorem whole {issue : Issue} (hbad : ∀ place, bad place ↔ place = []) (habout : about [] issue) :
    Blames bad about [issue] :=
  ⟨[[]], List.pairwise_singleton _ _, by simpa using fun place => (hbad place).symm,
    .cons habout .nil⟩

theorem congr {issues : List Issue} {also : List Nat → Prop} {regards : List Nat → Issue → Prop}
    (h : Blames bad about issues) (hbad : ∀ place, bad place ↔ also place)
    (habout : ∀ place issue, about place issue → regards place issue) :
    Blames also regards issues := by
  obtain ⟨places, hordered, hplaces, hissues⟩ := h
  exact ⟨places, hordered, fun place => (hplaces place).trans (hbad place), hissues.imp habout⟩

/-- What the items of a list are blamed for, the list is blamed for below their indices. -/
theorem items {α : Type} {bad : Nat → α → List Nat → Prop}
    {about : Nat → α → List Nat → Issue → Prop} {report : Nat → α → List Issue}
    (hitem : ∀ i a, Blames (bad i a) (about i a) (report i a)) (items : List α) (first : Nat) :
    Blames
      (fun place => ∃ i a below, (a, i) ∈ items.zipIdx first ∧ place = i :: below ∧ bad i a below)
      (fun place issue => ∃ i a below, (a, i) ∈ items.zipIdx first ∧ place = i :: below ∧
        about i a below issue)
      ((items.zipIdx first).flatMap fun (a, i) => report i a) := by
  induction items generalizing first with
  | nil => exact nil (by simp)
  | cons a rest ih =>
      obtain ⟨places, hordered, hplaces, hissues⟩ := hitem first a
      obtain ⟨later, hlaterOrdered, hlater, hlaterIssues⟩ := ih (first + 1)
      refine ⟨places.map (first :: ·) ++ later, ?_, ?_, ?_⟩
      · refine List.pairwise_append.mpr ⟨?_, hlaterOrdered, ?_⟩
        · rw [List.pairwise_map]
          exact hordered.imp fun hless => List.cons_lt_cons_iff.mpr (.inr ⟨rfl, hless⟩)
        · -- A later item has a greater index, whatever the positions in it are.
          intro place hplace other hother
          obtain ⟨below, _, rfl⟩ := List.mem_map.mp hplace
          obtain ⟨i, b, below', hmember, rfl, _⟩ := (hlater other).mp hother
          have hless : first < i := List.le_snd_of_mem_zipIdx hmember
          exact List.cons_lt_cons_iff.mpr (.inl hless)
      · intro place
        rw [List.mem_append, List.mem_map, hlater]
        simp only [hplaces, List.zipIdx_cons, List.mem_cons, Prod.mk.injEq]
        constructor
        · rintro (⟨below, hbad, rfl⟩ | ⟨i, b, below, hmember, rfl, hbad⟩)
          · exact ⟨first, a, below, .inl ⟨rfl, rfl⟩, rfl, hbad⟩
          · exact ⟨i, b, below, .inr hmember, rfl, hbad⟩
        · rintro ⟨i, b, below, ⟨rfl, rfl⟩ | hmember, rfl, hbad⟩
          · exact .inl ⟨below, hbad, rfl⟩
          · exact .inr ⟨i, b, below, hmember, rfl, hbad⟩
      · rw [List.zipIdx_cons, List.flatMap_cons]
        refine List.rel_append ?_ ?_
        · rw [List.forall₂_map_left_iff]
          exact hissues.imp fun below issue habout =>
            ⟨first, a, below, List.mem_cons_self, rfl, habout⟩
        · refine hlaterIssues.imp ?_
          rintro place issue ⟨i, b, below, hmember, rfl, habout⟩
          exact ⟨i, b, below, List.mem_cons_of_mem _ hmember, rfl, habout⟩

end Blames

/-! ### Lists -/

theorem Coerced.issues_collect {α : Type} (coerce : String → α → Coerced) (items : List α) :
    (collect ((indexed items).map fun (i, a) => coerce i a)).issues =
      items.zipIdx.flatMap fun (a, i) => (coerce (toString i) a).issues := by
  simp only [collect, indexed, List.mapIdx_eq_zipIdx_map, List.map_map, List.flatMap_map]
  rfl

namespace ParamType

/-- Where a type opens no list, it wants the whole value only. -/
theorem Wants.of_closed {type wanted : ParamType} {v part : Json} {place : List Nat}
    (hclosed : ∀ item items, type = .list item → v ≠ .array items)
    (hwants : type.Wants v place wanted part) : place = [] ∧ wanted = type ∧ part = v := by
  cases hwants with
  | whole => exact ⟨rfl, rfl, rfl⟩
  | item => exact absurd rfl (hclosed _ _ rfl)

/-- The value is bad at a position: the part there is at fault. -/
def BadAt (type : ParamType) (v : Json) (place : List Nat) : Prop :=
  ∃ wanted part, type.Wants v place wanted part ∧ wanted.Misfits part

/-- An issue is about the part of a value at a position. It is reported below the place of the
value, under the indices of the part in decimal digits, with the part as its input; and it is all
that comes of the part there. -/
structure RefusedAt (type : ParamType) (v : Json) (loc : List String) (place : List Nat)
    (issue : Issue) : Prop where
  loc_eq : issue.loc = loc ++ place.map toString
  refused : ∃ wanted, type.Wants v place wanted issue.input ∧
    coerceJson wanted issue.input issue.loc = ⟨none, [issue]⟩

end ParamType

/-- A value that is judged as a whole is blamed as a whole. -/
theorem blames_of_judges {type : ParamType} {v : Json} {loc : List String} (may : Json → Prop)
    (hclosed : ∀ item items, type = .list item → v ≠ .array items)
    (hmisfits : type.Misfits v ↔ ∀ value, ¬may value)
    (hjudges : (coerceJson type v loc).Judges loc v may) :
    Blames (type.BadAt v) (type.RefusedAt v loc) (coerceJson type v loc).issues := by
  generalize hcoerced : coerceJson type v loc = coerced at hjudges
  have hbad (place : List Nat) : type.BadAt v place ↔ place = [] ∧ type.Misfits v := by
    constructor
    · rintro ⟨wanted, part, hwants, hmisfit⟩
      obtain ⟨rfl, rfl, rfl⟩ := hwants.of_closed hclosed
      exact ⟨rfl, hmisfit⟩
    · rintro ⟨rfl, hmisfit⟩
      exact ⟨type, v, .whole type v, hmisfit⟩
  cases hjudges with
  | fit hv =>
      apply Blames.nil
      intro place hplace
      exact hmisfits.mp ((hbad place).mp hplace).2 _ hv
  | misfit kind message hnone =>
      apply Blames.whole
      · intro place
        rw [hbad place, and_iff_left (hmisfits.mpr hnone)]
      · exact ⟨by simp, type, .whole type v, hcoerced⟩

/-- A coercion blames the bad parts of a value. -/
theorem coerceJson_blames (type : ParamType) (v : Json) (loc : List String) :
    Blames (type.BadAt v) (type.RefusedAt v loc) (coerceJson type v loc).issues := by
  induction type generalizing v loc with
  | list item ih =>
      by_cases harray : ∃ items, v = .array items
      · obtain ⟨items, rfl⟩ := harray
        rw [coerceJson, issues_collect fun i v => coerceJson item v (loc ++ [i])]
        have hitems := Blames.items (fun i v => ih v (loc ++ [toString i])) items 0
        refine hitems.congr ?_ ?_
        · intro place
          constructor
          · rintro ⟨i, w, below, hmember, rfl, wanted, part, hwants, hmisfits⟩
            exact ⟨wanted, part, .item (List.mem_zipIdx_iff_getElem?.mp hmember) hwants, hmisfits⟩
          · rintro ⟨wanted, part, hwants, hmisfits⟩
            cases hwants with
            | whole =>
                cases hmisfits with
                | list hother => exact absurd rfl (hother items)
                | leaf hleaf => cases hleaf
            | item hitem hpart =>
                exact ⟨_, _, _, List.mem_zipIdx_iff_getElem?.mpr hitem, rfl, wanted, part, hpart,
                  hmisfits⟩
        · rintro place issue ⟨i, w, below, hmember, rfl, hloc, wanted, hwants, hrefused⟩
          refine ⟨by simp [hloc], wanted, .item (List.mem_zipIdx_iff_getElem?.mp hmember) hwants,
            hrefused⟩
      · have hother (items : List Json) : v ≠ .array items := fun h => harray ⟨items, h⟩
        apply blames_of_judges fun _ => False
        · exact fun _ items _ => hother items
        · simpa using ParamType.Misfits.list hother
        · rw [coerceJson]
          · exact .misfit _ _ fun _ => not_false
          · exact hother
  | _ =>
      apply blames_of_judges (ParamType.Converts _ v)
      · rintro item items ⟨⟩
      · refine ⟨fun hmisfits => ?_, .leaf rfl⟩
        cases hmisfits with
        | leaf _ hnone => exact hnone
      · exact coerceJson_judges rfl v loc

namespace ParamType

/-- The text at a position, which is its number alone, denotes no value of the item type. -/
def BadTextAt (item : ParamType) (texts : List String) (place : List Nat) : Prop :=
  ∃ (i : Nat) (text : String), place = [i] ∧ texts[i]? = some text ∧ ∀ value, ¬item.Reads text value

/-- An issue is about the text at a position. It is reported below the place of the texts, under the
number of the text, with the text as its input; and it is all that comes of the text there. -/
structure TextRefusedAt (item : ParamType) (texts : List String) (loc : List String)
    (place : List Nat) (issue : Issue) : Prop where
  loc_eq : issue.loc = loc ++ place.map toString
  refused : ∃ (i : Nat) (text : String), place = [i] ∧ texts[i]? = some text ∧
    issue.input = .string text ∧ coerceText item text issue.loc = ⟨none, [issue]⟩

end ParamType

theorem coerceText_blames (item : ParamType) (text : String) (loc : List String) :
    Blames (fun place => place = [] ∧ ∀ value, ¬item.Reads text value)
      (fun place issue => place = [] ∧ issue.loc = loc ∧ issue.input = .string text ∧
        coerceText item text loc = ⟨none, [issue]⟩)
      (coerceText item text loc).issues := by
  have hjudges := coerceText_judges item text loc
  generalize coerceText item text loc = coerced at hjudges
  cases hjudges with
  | fit hv =>
      apply Blames.nil
      rintro place ⟨rfl, hnone⟩
      exact hnone _ hv
  | misfit kind message hnone =>
      refine Blames.whole ?_ ⟨rfl, rfl, rfl, rfl⟩
      exact fun place => and_iff_left hnone

/-- The coercion of several texts blames those that denote no value. -/
theorem coerceTexts_blames (item : ParamType) (texts : List String) (loc : List String) :
    Blames (item.BadTextAt texts) (item.TextRefusedAt texts loc)
      (coerceTexts (.list item) texts loc).issues := by
  rw [coerceTexts, issues_collect fun i text => coerceText item text (loc ++ [i])]
  have htexts := Blames.items
    (fun i text => coerceText_blames item text (loc ++ [toString i])) texts 0
  refine htexts.congr ?_ ?_
  · intro place
    constructor
    · rintro ⟨i, text, below, hmember, rfl, rfl, hnone⟩
      exact ⟨i, text, rfl, List.mem_zipIdx_iff_getElem?.mp hmember, hnone⟩
    · rintro ⟨i, text, rfl, htext, hnone⟩
      exact ⟨i, text, [], List.mem_zipIdx_iff_getElem?.mpr htext, rfl, rfl, hnone⟩
  · rintro place issue ⟨i, text, below, hmember, rfl, rfl, hloc, hinput, hrefused⟩
    refine ⟨by simp [hloc], i, text, rfl, List.mem_zipIdx_iff_getElem?.mp hmember, hinput, ?_⟩
    rw [hloc, hrefused]

/-! ### Results -/

namespace Coerced

theorem fit_of_settles {c : Coerced} {loc : List String} {P : Json → Prop}
    (hsettles : c.Settles loc P) (hnone : c.issues = []) : ∃ v, c = fit v := by
  obtain ⟨v, hvalue, _⟩ := hsettles.sound hnone
  exact ⟨v, congrArg₂ Coerced.mk hvalue hnone⟩

/-- Without issues nothing is left out of a list. -/
theorem collect_eq_fit {coerced : List Coerced} (hnone : (collect coerced).issues = [])
    (hfit : ∀ c ∈ coerced, c.issues = [] → ∃ v, c = fit v) :
    ∃ values, collect coerced = fit (.array values) ∧ coerced = values.map fit := by
  induction coerced with
  | nil => exact ⟨[], rfl, rfl⟩
  | cons c rest ih =>
      obtain ⟨hfirst, hrest⟩ := List.append_eq_nil_iff.mp hnone
      obtain ⟨hfitFirst, hfitRest⟩ := List.forall_mem_cons.mp hfit
      obtain ⟨v, rfl⟩ := hfitFirst hfirst
      obtain ⟨values, _, rfl⟩ := ih hrest hfitRest
      refine ⟨v :: values, ?_, rfl⟩
      simp [collect, fit, List.filterMap_map, Function.comp_def]

/-- Item by item, a list without issues has what the items are coerced to. -/
theorem collect_indexed_eq_fit {α : Type} (coerce : String → α → Coerced) {items : List α}
    (hfit : ∀ i a, (coerce i a).issues = [] → ∃ v, coerce i a = fit v)
    (hnone : (collect ((indexed items).map fun (i, a) => coerce i a)).issues = []) :
    ∃ values, collect ((indexed items).map fun (i, a) => coerce i a) = fit (.array values) ∧
      values.length = items.length ∧ ∀ (i : Nat) a, items[i]? = some a →
        ∃ v, values[i]? = some v ∧ coerce (toString i) a = fit v := by
  obtain ⟨values, hcollect, hvalues⟩ := collect_eq_fit hnone (by
    intro c hc
    obtain ⟨⟨i, a⟩, _, rfl⟩ := List.mem_map.mp hc
    exact hfit i a)
  refine ⟨values, hcollect, ?_, ?_⟩
  · simpa [indexed] using (congrArg List.length hvalues).symm
  · intro i a ha
    have hitem := congrArg (·[i]?) hvalues
    simp only [indexed, List.getElem?_map, List.getElem?_mapIdx, ha, Option.map_some] at hitem
    obtain ⟨v, hv, hsame⟩ := Option.map_eq_some_iff.mp hitem.symm
    exact ⟨v, hv, hsame.symm⟩

end Coerced

theorem coerceJson_fit {type : ParamType} {v : Json} {loc : List String}
    (hnone : (coerceJson type v loc).issues = []) : ∃ value, coerceJson type v loc = .fit value :=
  fit_of_settles (coerceJson_settles type v loc) hnone

/-- A list that fits comes to a list of as many items, each what the item is coerced to. -/
theorem coerceJson_list_fit {item : ParamType} {v value : Json} {loc : List String}
    (hfit : coerceJson (.list item) v loc = .fit value) :
    ∃ items values, v = .array items ∧ value = .array values ∧ values.length = items.length ∧
      ∀ (i : Nat) w, items[i]? = some w →
        ∃ part, values[i]? = some part ∧ coerceJson item w (loc ++ [toString i]) = .fit part := by
  obtain ⟨items, _, rfl, _⟩ : (ParamType.list item).Becomes v value := by
    obtain ⟨_, hvalue, hbecomes⟩ :=
      (coerceJson_settles (.list item) v loc).sound (congrArg Coerced.issues hfit)
    rw [hfit] at hvalue
    cases hvalue
    exact hbecomes
  rw [coerceJson] at hfit
  obtain ⟨values, hvalues, hlength, hitems⟩ := collect_indexed_eq_fit
    (fun i w => coerceJson item w (loc ++ [i])) (fun _ _ => coerceJson_fit)
    (congrArg Coerced.issues hfit)
  cases hfit.symm.trans hvalues
  exact ⟨items, values, rfl, rfl, hlength, hitems⟩

namespace ParamType

/-- A result mirrors a value. At every position at which the type wants something of the value, the
result has what the part there is coerced to, and where that is a list, both have the same
length. -/
def Mirrors (type : ParamType) (v : Json) (loc : List String) (result : Json) : Prop :=
  ∀ place wanted part, type.Wants v place wanted part →
    ∃ value, result.partAt? place = some value ∧
      coerceJson wanted part (loc ++ place.map toString) = .fit value ∧
      ∀ item, wanted = .list item → ∃ items values, part = .array items ∧
        value = .array values ∧ values.length = items.length

theorem mirrors_of_fit {type : ParamType} {v result : Json} {loc : List String}
    (hfit : coerceJson type v loc = .fit result) : type.Mirrors v loc result := by
  intro place wanted part hwants
  induction hwants generalizing loc result with
  | whole type v =>
      refine ⟨result, rfl, by simpa using hfit, ?_⟩
      rintro item rfl
      obtain ⟨items, values, rfl, rfl, hlength, _⟩ := coerceJson_list_fit hfit
      exact ⟨items, values, rfl, rfl, hlength⟩
  | @item item wanted items i v part place hitem _ ih =>
      obtain ⟨_, values, hitems, rfl, _, hparts⟩ := coerceJson_list_fit hfit
      cases hitems
      obtain ⟨w, hw, hitemFit⟩ := hparts i v hitem
      obtain ⟨value, hvalue, hcoerced, hlengths⟩ := ih hitemFit
      refine ⟨value, ?_, by simpa using hcoerced, hlengths⟩
      simp only [Json.partAt?, hw, Option.bind_some, hvalue]

end ParamType

/-- Coercion blames exactly the bad parts. For a type of any shape and any value, the issues are
those of the positions at which the part is at fault, one for each, from left to right, reported at
the position with the part as input; no other part is passed over. Without issues, the result has at
every position what the part there is coerced to, and lists keep their length. The same holds of the
texts of a list, where the position is the number of the text. -/
theorem coercion_blames (type item : ParamType) (v : Json) (texts : List String)
    (loc : List String) :
    Blames (type.BadAt v) (type.RefusedAt v loc) (coerceJson type v loc).issues ∧
    ((coerceJson type v loc).issues = [] →
      ∃ result, coerceJson type v loc = .fit result ∧ type.Mirrors v loc result) ∧
    Blames (item.BadTextAt texts) (item.TextRefusedAt texts loc)
      (coerceTexts (.list item) texts loc).issues ∧
    ((coerceTexts (.list item) texts loc).issues = [] →
      ∃ results, coerceTexts (.list item) texts loc = .fit (.array results) ∧
        results.length = texts.length ∧ ∀ (i : Nat) text, texts[i]? = some text →
          ∃ result, results[i]? = some result ∧
            coerceText item text (loc ++ [toString i]) = .fit result) := by
  refine ⟨coerceJson_blames type v loc, ?_, coerceTexts_blames item texts loc, ?_⟩
  · intro hnone
    obtain ⟨result, hfit⟩ := coerceJson_fit hnone
    exact ⟨result, hfit, mirrors_of_fit hfit⟩
  · exact collect_indexed_eq_fit (fun i text => coerceText item text (loc ++ [i]))
      fun _ _ => fit_of_settles (coerceText_settles _ _ _)

/-- Rows of numbers with three bad parts, and with none. -/
theorem coercion_blames_sample :
    let rows : ParamType := .list (.list .int)
    let broken : Json := .array [.array [.ofInt 1, .string "x", .null], .string "2", .array []]
    let fine : Json := .array [.array [.ofInt 1, .string "2"], .array []]
    (∃ places : List (List Nat), places.Pairwise (· < ·) ∧ places.length = 3 ∧
      ∀ place, place ∈ places ↔ rows.BadAt broken place) ∧
    ∃ result, coerceJson rows fine ["body"] = .fit result ∧
      result.partAt? [0, 1] = some (.ofInt 2) := by
  intro rows broken fine
  obtain ⟨⟨places, hordered, hplaces, hissues⟩, _⟩ :=
    coercion_blames rows .int broken [] ["body"]
  refine ⟨⟨places, hordered, hissues.length_eq.trans rfl, hplaces⟩, ?_⟩
  obtain ⟨_, hfine, _⟩ := coercion_blames rows .int fine [] ["body"]
  obtain ⟨result, hfit, hmirrors⟩ := hfine rfl
  obtain ⟨value, hvalue, hcoerced, _⟩ :=
    hmirrors [0, 1] .int (.string "2") (.item rfl (.item rfl (.whole _ _)))
  cases hcoerced
  exact ⟨result, hfit, hvalue⟩

end RequestDispatch
