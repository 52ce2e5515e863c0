import RequestDispatch.Http.Response

/-!
Header lines as values under names. Case does not count in names, several values may stand under
one, and a change of the lines with one name leaves those with any other name as they are. So the
values of a name are told by the changes that concern it, and the lines that are left stand in the
order in which they were added.
-/

namespace RequestDispatch

theorem Text.sameIgnoringCase_iff {a b : String} :
    sameIgnoringCase a b = true ↔ a.toList.map Char.toLower = b.toList.map Char.toLower :=
  beq_iff_eq

theorem Text.sameIgnoringCase_symm {a b : String} (hab : sameIgnoringCase a b = true) :
    sameIgnoringCase b a = true :=
  sameIgnoringCase_iff.mpr (sameIgnoringCase_iff.mp hab).symm

theorem Text.sameIgnoringCase_trans {a b c : String} (hab : sameIgnoringCase a b = true)
    (hbc : sameIgnoringCase b c = true) : sameIgnoringCase a c = true :=
  sameIgnoringCase_iff.mpr ((sameIgnoringCase_iff.mp hab).trans (sameIgnoringCase_iff.mp hbc))

namespace Headers

variable (headers : Headers)

theorem first?_eq_head? (name : String) : headers.first? name = (headers.valuesOf name).head? := by
  rw [first?, valuesOf, List.head?_map, List.head?_filter]

theorem first?_eq_none_iff {name : String} :
    headers.first? name = none ↔ ∀ line ∈ headers, Text.sameIgnoringCase line.1 name = false := by
  simp [first?, named]

/-- The first line with a name is the one that is found. -/
theorem first?_of_first {before after : Headers} {line value name : String}
    (hfirst : ∀ other ∈ before, Text.sameIgnoringCase other.1 name = false)
    (hline : Text.sameIgnoringCase line name = true) :
    first? (before ++ (line, value) :: after) name = some value := by
  have hnone : List.find? (named name) before = none := by
    simpa [List.find?_eq_none, named] using hfirst
  have hnamed : named name (line, value) = true := hline
  rw [first?, List.find?_append, hnone, Option.none_or, List.find?_cons_of_pos hnamed]
  rfl

theorem valuesOf_append (other value name : String) :
    (headers.append other value).valuesOf name =
      headers.valuesOf name ++ if Text.sameIgnoringCase other name then [value] else [] := by
  rw [append, valuesOf, List.filter_append, List.map_append, ← valuesOf]
  congr 1
  cases hsame : Text.sameIgnoringCase other name <;> simp [named, hsame]

theorem valuesOf_remove (other name : String) :
    (headers.remove other).valuesOf name =
      if Text.sameIgnoringCase other name then [] else headers.valuesOf name := by
  rw [remove, valuesOf, List.filter_filter]
  split
  · rename_i hsame
    rw [List.map_eq_nil_iff, List.filter_eq_nil_iff]
    intro line _ hkept
    simp only [Bool.and_eq_true, Bool.not_eq_true', named] at hkept
    -- A line with the name has the removed name as well.
    have hremoved : Text.sameIgnoringCase line.1 other = true :=
      Text.sameIgnoringCase_trans hkept.1 (Text.sameIgnoringCase_symm hsame)
    rw [hremoved] at hkept
    cases hkept.2
  · rename_i hother
    rw [valuesOf]
    congr 1
    apply List.filter_congr
    intro line _
    cases hnamed : named name line with
    | false => rfl
    | true =>
        have hkept : named other line = false := by
          rw [← Bool.not_eq_true]
          intro hremoved
          exact hother (Text.sameIgnoringCase_trans (Text.sameIgnoringCase_symm hremoved) hnamed)
        rw [hkept]
        rfl

theorem valuesOf_set (other value name : String) :
    (headers.set other value).valuesOf name =
      if Text.sameIgnoringCase other name then [value] else headers.valuesOf name := by
  rw [set, valuesOf_append, valuesOf_remove]
  split
  · rfl
  · exact List.append_nil _

/-- A header that is not there is set behind all the others. -/
theorem set_of_absent {name : String} (habsent : headers.first? name = none) (value : String) :
    headers.set name value = headers ++ [(name, value)] := by
  have hkept : headers.remove name = headers := by
    rw [remove, List.filter_eq_self]
    intro line hline
    rw [named, headers.first?_eq_none_iff.mp habsent line hline]
    rfl
  rw [set, hkept, append]

end Headers

/-- A change of the header lines of a response. -/
inductive HeaderChange where
  | set (name value : String)
  | append (name value : String)
  | remove (name : String)
deriving DecidableEq

namespace HeaderChange

def name : HeaderChange → String
  | set name _ => name
  | append name _ => name
  | remove name => name

def apply (r : Response) : HeaderChange → Response
  | set name value => r.setHeader name value
  | append name value => r.appendHeader name value
  | remove name => r.removeHeader name

/-- Whether a change is about the lines with a name. -/
def concerns (change : HeaderChange) (name : String) : Bool :=
  Text.sameIgnoringCase change.name name

/-- What a change does to the values of the name it concerns. -/
def replay (values : List String) : HeaderChange → List String
  | set _ value => [value]
  | append _ value => values ++ [value]
  | remove _ => []

/-- The line that a change adds. -/
def line? : HeaderChange → Option (String × String)
  | set name value => some (name, value)
  | append name value => some (name, value)
  | remove _ => none

/-- Whether a change takes a line away that is there. -/
def drops (line : String × String) : HeaderChange → Bool
  | set name _ => Headers.named name line
  | append _ _ => false
  | remove name => Headers.named name line

/-- Whether a line is left after changes. -/
def keep (changes : List HeaderChange) (line : String × String) : Bool :=
  changes.all fun change => !change.drops line

/-- The lines that changes add and that are left after the later ones. -/
def added : List HeaderChange → Headers
  | [] => []
  | change :: later => (change.line?.filter (keep later)).toList ++ added later

variable (r : Response) (change : HeaderChange)

theorem headers_apply : (change.apply r).headers =
    (r.headers.filter fun line => !change.drops line) ++ change.line?.toList := by
  cases change with
  | set name value => rfl
  | append name value =>
      have hall : (r.headers.filter fun line => !(append name value).drops line) = r.headers :=
        List.filter_eq_self.mpr fun _ _ => rfl
      rw [hall]
      rfl
  | remove name => exact (List.append_nil _).symm

theorem status_apply : (change.apply r).status = r.status := by
  cases change <;> rfl

theorem body_apply : (change.apply r).body = r.body := by
  cases change <;> rfl

/-- A change replays on the values of the name it concerns, and on no others. -/
theorem valuesOf_apply (name : String) : (change.apply r).headers.valuesOf name =
    if change.concerns name then change.replay (r.headers.valuesOf name)
    else r.headers.valuesOf name := by
  cases change with
  | set other value => exact Headers.valuesOf_set r.headers other value name
  | append other value =>
      refine (Headers.valuesOf_append r.headers other value name).trans ?_
      cases hsame : Text.sameIgnoringCase other name with
      | true => simp [concerns, HeaderChange.name, hsame, replay]
      | false => simp [concerns, HeaderChange.name, hsame]
  | remove other => exact Headers.valuesOf_remove r.headers other name

variable (changes : List HeaderChange)

/-- Changes one after another replay on a name those of them that concern it. -/
theorem valuesOf_foldl (name : String) : (changes.foldl apply r).headers.valuesOf name =
    (changes.filter (·.concerns name)).foldl replay (r.headers.valuesOf name) := by
  induction changes generalizing r with
  | nil => rfl
  | cons change later ih =>
      rw [List.foldl_cons, ih, valuesOf_apply]
      cases hconcerns : change.concerns name with
      | true => rw [if_pos rfl, List.filter_cons_of_pos (by exact hconcerns), List.foldl_cons]
      | false => rw [if_neg Bool.false_ne_true, List.filter_cons_of_neg (by simp [hconcerns])]

/-- After changes there are the lines of before and those that were added, in this order, as far as
no later change has dropped them. -/
theorem headers_foldl : (changes.foldl apply r).headers =
    r.headers.filter (keep changes) ++ added changes := by
  induction changes generalizing r with
  | nil => exact (List.append_nil _).symm ▸ (List.filter_eq_self.mpr fun _ _ => rfl).symm
  | cons change later ih =>
      rw [List.foldl_cons, ih, headers_apply, List.filter_append, List.filter_filter, added,
        ← List.append_assoc]
      congr 2
      · apply List.filter_congr
        intro line _
        rw [keep, keep, List.all_cons, Bool.and_comm]
      · cases change.line? with
        | none => rfl
        | some line => cases hkept : keep later line <;> simp [Option.filter, hkept]

theorem parts_foldl : (changes.foldl apply r).parts =
    (r.status, r.headers.filter (keep changes) ++ added changes, r.body.toBytes) := by
  have hrest : (changes.foldl apply r).status = r.status ∧
      (changes.foldl apply r).body = r.body := by
    induction changes generalizing r with
    | nil => exact ⟨rfl, rfl⟩
    | cons change later ih =>
        obtain ⟨hstatus, hbody⟩ := ih (change.apply r)
        exact ⟨hstatus.trans (status_apply r change), hbody.trans (body_apply r change)⟩
  rw [Response.parts, headers_foldl, hrest.1, hrest.2]

/-- Header lines are values under names. After any changes, the values of a name are what those
changes that concern the name make of its values before; the first of them is what is found, and no
further change that concerns another name makes a difference to them. A transport is handed the
lines of before and the added ones, in this order, as far as no later change has dropped them, which
under every name gives its values. -/
theorem replay_on_names (r : Response) (changes : List HeaderChange) :
    let after := changes.foldl apply r
    (∀ name,
      let values := (changes.filter (·.concerns name)).foldl replay (r.headers.valuesOf name)
      after.headers.valuesOf name = values ∧ after.headers.first? name = values.head? ∧
        Headers.valuesOf after.parts.2.1 name = values) ∧
    (∀ name (change : HeaderChange), change.concerns name = false →
      (change.apply after).headers.valuesOf name = after.headers.valuesOf name ∧
        (change.apply after).headers.first? name = after.headers.first? name) ∧
    after.parts = (r.status, r.headers.filter (keep changes) ++ added changes, r.body.toBytes) := by
  intro after
  refine ⟨?_, ?_, parts_foldl r changes⟩
  · intro name values
    have hvalues : after.headers.valuesOf name = values := valuesOf_foldl r changes name
    refine ⟨hvalues, ?_, hvalues⟩
    rw [Headers.first?_eq_head?, hvalues]
  · intro name change hother
    have hsame : (change.apply after).headers.valuesOf name = after.headers.valuesOf name := by
      rw [valuesOf_apply, hother, if_neg Bool.false_ne_true]
    refine ⟨hsame, ?_⟩
    rw [Headers.first?_eq_head?, Headers.first?_eq_head?, hsame]

/-- Two cookies stay in the order in which they were appended, a content type replaces the first one
in another spelling, and a line that was appended is removed. -/
theorem replay_on_names_sample :
    let changes := [append "Set-Cookie" "a=1", append "x-trace" "t", append "set-cookie" "b=2",
      set "Content-Type" "text/plain", remove "X-Trace"]
    let after := changes.foldl apply (Response.json 200 .null)
    after.headers.valuesOf "SET-COOKIE" = ["a=1", "b=2"] ∧
      after.headers.first? "content-type" = some "text/plain" ∧
      (apply after (remove "set-cookie")).headers.valuesOf "x-trace" = [] ∧
      after.parts.2.1 = [("Set-Cookie", "a=1"), ("set-cookie", "b=2"),
        ("Content-Type", "text/plain")] := by
  intro changes after
  obtain ⟨hvalues, hothers, hparts⟩ := replay_on_names (Response.json 200 .null) changes
  refine ⟨(hvalues "SET-COOKIE").1.trans (by decide),
    (hvalues "content-type").2.1.trans (by decide), ?_, ?_⟩
  · rw [(hothers "x-trace" (remove "set-cookie") (by decide)).1, (hvalues "x-trace").1]
    decide
  · rw [hparts]
    decide

end HeaderChange

end RequestDispatch
