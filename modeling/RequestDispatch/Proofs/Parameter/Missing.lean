import RequestDispatch.Proofs.Parameter.Soundness

/-!
When something is reported as missing. Every issue of a parameter stands below its location. At
the place of a parameter outside the body itself, only a parameter for which nothing was sent is
reported as missing: neither coercions nor constraints report that, and what a schema misses lies
deeper.
-/

namespace RequestDispatch

/-! ### What coercions and checks report -/

/-- None of the issues is that something is missing. -/
structure NoneMissing (issues : List Issue) : Prop where
  other : ∀ issue ∈ issues, issue.kind ≠ "missing"

namespace NoneMissing

theorem nil : NoneMissing [] where
  other := by simp

theorem single {loc : List String} {kind message : String} {input : Json}
    (hkind : kind ≠ "missing") : NoneMissing [⟨loc, kind, message, input⟩] where
  other := by simpa using hkind

theorem append {issues more : List Issue} (h : NoneMissing issues) (hmore : NoneMissing more) :
    NoneMissing (issues ++ more) where
  other := by
    intro issue hissue
    rcases List.mem_append.mp hissue with hin | hin
    · exact h.other issue hin
    · exact hmore.other issue hin

theorem flatMap {α : Type} {items : List α} {report : α → List Issue}
    (h : ∀ item ∈ items, NoneMissing (report item)) : NoneMissing (items.flatMap report) where
  other := by
    intro issue hissue
    obtain ⟨item, hitem, hissue⟩ := List.mem_flatMap.mp hissue
    exact (h item hitem).other issue hissue

end NoneMissing

theorem coerceText_noneMissing (type : ParamType) (text : String) (loc : List String) :
    NoneMissing (coerceText type text loc).issues := by
  unfold coerceText
  split
  · exact .nil
  · split
    · exact .nil
    · exact .single (by decide)
  · split
    · exact .nil
    · exact .single (by decide)
    · exact .single (by decide)
  · split
    · exact .nil
    · exact .single (by decide)
  · split
    · exact .nil
    · exact .single (by decide)
  · exact .single (by decide)

theorem coerceTexts_noneMissing (type : ParamType) (texts : List String) (loc : List String) :
    NoneMissing (coerceTexts type texts loc).issues := by
  unfold coerceTexts
  split
  · apply NoneMissing.flatMap
    intro coerced hcoerced
    obtain ⟨item, _, rfl⟩ := List.mem_map.mp hcoerced
    exact coerceText_noneMissing ..
  · split
    · exact coerceText_noneMissing ..
    · exact .nil

theorem Constraints.boundIssues_noneMissing (c : Constraints) (n : Number) (loc : List String) :
    NoneMissing (c.boundIssues n loc) := by
  constructor
  intro issue hissue
  obtain ⟨bound, hbound, hissue⟩ := List.mem_filterMap.mp hissue
  have hkind : issue.kind = bound.kind := by
    unfold Bound.issue? at hissue
    split at hissue
    · cases hissue
    · split at hissue
      · cases hissue
      · cases hissue
        rfl
  rw [hkind]
  simp only [bounds, List.mem_cons, List.not_mem_nil, or_false] at hbound
  obtain rfl | rfl | rfl | rfl := hbound <;> simp

theorem Constraints.lengthIssues_noneMissing (c : Constraints) (size : Nat)
    {short long : String} (hshort : short ≠ "missing") (hlong : long ≠ "missing")
    (noun suffix : String) (value : Json) (loc : List String) :
    NoneMissing (c.lengthIssues size short long noun suffix value loc) := by
  unfold lengthIssues
  apply NoneMissing.append
  · split
    · split
      · exact .single hshort
      · exact .nil
    · exact .nil
  · split
    · split
      · exact .single hlong
      · exact .nil
    · exact .nil

namespace CompiledParameter

theorem scalarIssues_noneMissing (p : CompiledParameter) (value : Json) (loc : List String) :
    NoneMissing (p.scalarIssues value loc) := by
  unfold scalarIssues
  split
  · exact Constraints.boundIssues_noneMissing ..
  · split
    · split
      · exact .nil
      · exact .single (by decide)
    · exact .nil
  · exact .nil

theorem constraintIssues_noneMissing (p : CompiledParameter) (value : Json)
    (loc : List String) : NoneMissing (p.constraintIssues value loc) := by
  unfold constraintIssues
  split
  · apply NoneMissing.append
    · exact Constraints.lengthIssues_noneMissing _ _ (by decide) (by decide) ..
    · rw [← List.flatMap_id]
      apply NoneMissing.flatMap
      intro issues hissues
      obtain ⟨i, hi, rfl⟩ := List.mem_mapIdx.mp hissues
      exact p.scalarIssues_noneMissing ..
  · apply NoneMissing.append
    · exact Constraints.lengthIssues_noneMissing _ _ (by decide) (by decide) ..
    · exact p.scalarIssues_noneMissing ..
  · exact p.scalarIssues_noneMissing ..

end CompiledParameter

/-- What a schema reports as missing is a property, which lies inside of the value. -/
theorem Violation.deeper_of_missing (violation : Violation) (place : List String)
    (hmissing : (violation.toIssue place).kind = "missing") :
    place.length < (violation.toIssue place).loc.length := by
  obtain ⟨path, cause, value⟩ := violation
  cases cause <;> simp_all [Violation.toIssue, Violation.issueKind]

/-- What is reported for a value as missing lies inside of it. -/
theorem CompiledParameter.deeper_of_missing {p : CompiledParameter} {value : Json}
    {place : List String} {issue : Issue} (hissue : issue ∈ p.issues value place)
    (hmissing : issue.kind = "missing") : place.length < issue.loc.length := by
  obtain hconstraint | hschema := List.mem_append.mp hissue
  · exact absurd hmissing ((p.constraintIssues_noneMissing value place).other issue hconstraint)
  · split at hschema
    · obtain ⟨violation, _, rfl⟩ := List.mem_map.mp hschema
      exact violation.deeper_of_missing place hmissing
    · cases hschema

theorem Bound.mem_issues_take {bound : Bound} {p : CompiledParameter} {coerced : Coerced}
    {place : List String} {issue : Issue} (hissue : issue ∈ (bound.take p coerced place).issues) :
    issue ∈ bound.issues ∨ issue ∈ coerced.issues ∨ ∃ v, issue ∈ p.issues v place := by
  have hcoerced (h : issue ∈ bound.issues ++ coerced.issues) :
      issue ∈ bound.issues ∨ issue ∈ coerced.issues ∨ ∃ v, issue ∈ p.issues v place := by
    obtain hin | hin := List.mem_append.mp h
    · exact .inl hin
    · exact .inr (.inl hin)
  unfold Bound.take at hissue
  dsimp only at hissue
  split at hissue
  · exact hcoerced hissue
  · rename_i v _
    split at hissue
    · exact hcoerced hissue
    · have hall : issue ∈ (bound.issues ++ coerced.issues) ++ p.issues v place := by
        split at hissue <;> exact hissue
      obtain hin | hin := List.mem_append.mp hall
      · exact hcoerced hin
      · exact .inr (.inr ⟨v, hin⟩)

namespace Binder

variable {b : Binder} {p : CompiledParameter}

/-! ### Where the issues of a parameter stand -/

theorem placeOf_starts (b : Binder) (p : CompiledParameter) :
    [p.declared.location.text] <+: b.placeOf p := by
  unfold placeOf
  split
  · exact List.prefix_rfl
  · exact List.prefix_append [p.declared.location.text] [p.key]

theorem unreadable_starts {issue : Issue} (hunreadable : b.unreadable? = some issue) :
    [Location.body.text] <+: issue.loc := by
  have hbody : ∀ fault, b.body = .error fault → [Location.body.text] <+: fault.loc := by
    intro fault hfault
    unfold body at hfault
    split at hfault
    · cases hfault
    · split at hfault
      · cases hfault
      · cases hfault
        exact List.prefix_append [Location.body.text] _
  unfold unreadable? at hunreadable
  split at hunreadable
  · cases hunreadable
    exact hbody _ ‹_›
  · cases hunreadable
  · split at hunreadable
    · cases hunreadable
    · split at hunreadable
      · cases hunreadable
      · cases hunreadable
        exact List.prefix_rfl

/-- Every issue of a parameter is about its location. -/
theorem alone_starts (p : CompiledParameter) :
    ∀ issue ∈ (b.alone p).issues, [p.declared.location.text] <+: issue.loc := by
  have hbelow {issues : List Issue} (h : Below (b.placeOf p) issues) :
      ∀ issue ∈ issues, [p.declared.location.text] <+: issue.loc := fun issue hissue =>
    (b.placeOf_starts p).trans (h.starts issue hissue)
  cases hfails : b.fails p with
  | true =>
      simp only [fails, Bool.and_eq_true, decide_eq_true_eq, Option.isSome_iff_exists] at hfails
      obtain ⟨hplace, issue, hunreadable⟩ := hfails
      rw [(alone_of_unreadable hplace hunreadable).1, hplace]
      simpa using unreadable_starts hunreadable
  | false =>
      have hknows : b.Knows (Bound.beginning .fresh).toBodyMemory := knows_fresh
      obtain ⟨hheard, parsed, hlookUp⟩ := lookUp_of_heard hfails hknows
      simp only [alone, bindFrom, List.foldl_cons, List.foldl_nil, bindOne, hlookUp]
      have htaken {coerced : Coerced} {P : Json → Prop}
          (hsettles : coerced.Settles (b.placeOf p) P) :
          ∀ issue ∈ (Bound.take { Bound.beginning .fresh with parsed := parsed } p coerced
            (b.placeOf p)).issues, [p.declared.location.text] <+: issue.loc := by
        rcases Bound.take_settles hsettles { Bound.beginning .fresh with parsed := parsed } with
          ⟨v, _, _, htake⟩ | ⟨reported, _, hplace, htake⟩
        · rw [htake]
          rintro issue ⟨⟩
        · rw [htake]
          exact hbelow hplace
      cases hfinds : b.finds p with
      | unreadable => exact absurd hfinds hheard
      | absent =>
          simp only [Bound.conclude]
          split
          · rintro issue ⟨⟩
          · split
            · exact hbelow (.single ..)
            · rintro issue ⟨⟩
      | texts ts => exact htaken (coerceTexts_settles _ (lookUp_texts_ne_nil hfinds) _)
      | json source => exact htaken (coerceJson_settles _ source _)

/-- Only parameters of the body report anything about it. -/
theorem location_of_issue {issue : Issue} (hissue : issue ∈ (b.alone p).issues)
    (hloc : issue.loc.head? = some Location.body.text) : p.declared.location = .body := by
  obtain ⟨rest, hrest⟩ := alone_starts p issue hissue
  rw [← hrest, List.singleton_append, List.head?_cons, Option.some.injEq] at hloc
  generalize p.declared.location = location at hloc
  cases location <;> simp_all [Location.text]

/-- Where texts are found for a parameter, the parameter is what they are coerced to. -/
theorem bindOne_of_texts (hplace : p.declared.location ≠ .body) {texts : List String}
    (htexts : b.lookUpTexts p = texts) (hsome : texts ≠ []) (bound : Bound) :
    b.bindOne bound p =
      bound.take p (coerceTexts p.declared.type texts (b.placeOf p)) (b.placeOf p) := by
  obtain ⟨text, rest, rfl⟩ := List.exists_cons_of_ne_nil hsome
  simp only [bindOne, lookUp, hplace, ↓reduceIte, htexts, Bound.conclude]

/-- A parameter for which texts are found is not reported as missing. -/
theorem deeper_of_texts (hplace : p.declared.location ≠ .body)
    (hsome : b.lookUpTexts p ≠ []) {issue : Issue} (hissue : issue ∈ (b.alone p).issues)
    (hmissing : issue.kind = "missing") : (b.placeOf p).length < issue.loc.length := by
  simp only [alone, bindFrom, List.foldl_cons, List.foldl_nil,
    bindOne_of_texts hplace rfl hsome] at hissue
  obtain hbefore | hcoerced | ⟨v, hvalue⟩ := Bound.mem_issues_take hissue
  · cases hbefore
  · exact absurd hmissing ((coerceTexts_noneMissing ..).other issue hcoerced)
  · exact CompiledParameter.deeper_of_missing hvalue hmissing

/-- No issue says that something is missing at the place of a path parameter, if texts are found
for every path parameter. -/
theorem not_missing_at_path
    (hsupplied : p.declared.location = .path → b.lookUpTexts p ≠ []) {issue : Issue}
    (hissue : issue ∈ (b.alone p).issues) (hmissing : issue.kind = "missing") (key : String) :
    issue.loc ≠ [Location.path.text, key] := by
  intro hloc
  have hstarts := alone_starts p issue hissue
  rw [hloc, List.cons_prefix_cons] at hstarts
  have hpath : p.declared.location = .path := by
    generalize p.declared.location = location at hstarts
    cases location <;> simp_all [Location.text]
  have hplace : b.placeOf p = [Location.path.text, p.key] := by
    simp [placeOf, hpath]
  have hdeeper := deeper_of_texts (by simp [hpath]) (hsupplied hpath) hissue hmissing
  rw [hloc, hplace] at hdeeper
  exact absurd hdeeper (Nat.lt_irrefl _)

end Binder

end RequestDispatch
