import RequestDispatch.Parameter.Binder

/-!
Binding reports everything, and parameters do not interfere. What is added for a parameter to
the values and issues of a binder is what the parameter comes to alone, whatever was bound
before it. The one exception is a body that cannot be read: the first parameter that needs it
reports the issue, and the others that need it add nothing.
-/

namespace RequestDispatch

/-- Inserts members one after another. -/
def Members.insertAll (values more : Members) : Members :=
  more.foldl (fun values member => values.insert member.1 member.2) values

/-- What is found where there may be a value. -/
def Found.ofOption : Option Json → Found
  | none => .absent
  | some v => .json v

namespace Bound

/-- Adds a value, if there is one, and issues. -/
def add (bound : Bound) (name : String) (value? : Option Json) (issues : List Issue) : Bound :=
  { bound with
    values := bound.values.insertAll (value?.map fun v => (name, v)).toList
    issues := bound.issues ++ issues }

/-- Taking up a value adds the same to whatever was bound before: the counter of issues stands
where the parameter begins. -/
theorem take_adds (p : CompiledParameter) (coerced : Coerced) (place : List String) :
    ∃ value? issues, ∀ bound : Bound,
      bound.take p coerced place = bound.add p.declared.name value? issues := by
  cases hvalue : coerced.value with
  | none =>
      refine ⟨none, coerced.issues, ?_⟩
      intro bound
      simp only [take, hvalue]
      rfl
  | some v =>
      cases hcoerced : coerced.issues with
      | cons issue rest =>
          refine ⟨none, issue :: rest, ?_⟩
          intro bound
          simp [take, hvalue, hcoerced, add, Members.insertAll]
      | nil =>
          cases hissues : p.issues v place with
          | nil =>
              refine ⟨some v, [], ?_⟩
              intro bound
              simp [take, hvalue, hcoerced, hissues, add, Members.insertAll]
          | cons issue rest =>
              refine ⟨none, issue :: rest, ?_⟩
              intro bound
              simp [take, hvalue, hcoerced, hissues, add, Members.insertAll]

/-- So does everything else that a look-up can lead to. -/
theorem conclude_adds (p : CompiledParameter) (place : List String) (found : Found) :
    ∃ value? issues, ∀ bound : Bound,
      bound.conclude p place found = bound.add p.declared.name value? issues := by
  cases found with
  | unreadable =>
      refine ⟨none, [], ?_⟩
      intro bound
      simp [conclude, add, Members.insertAll]
  | absent =>
      cases hdefault : p.declared.default with
      | some v =>
          refine ⟨some v, [], ?_⟩
          intro bound
          simp [conclude, hdefault, add, Members.insertAll]
      | none =>
          by_cases hrequired : p.declared.required
          · refine ⟨none, [.missing place], ?_⟩
            intro bound
            simp [conclude, hdefault, hrequired, add, Members.insertAll]
          · refine ⟨none, [], ?_⟩
            intro bound
            simp [conclude, hdefault, hrequired, add, Members.insertAll]
  | texts ts => exact take_adds p _ place
  | json v => exact take_adds p _ place

end Bound

namespace Binder

variable (b : Binder)

/-- The issue of a body that cannot be read: it is not JSON, or not an object although the
parameters are members of it. -/
def unreadable? : Option Issue :=
  match b.body with
  | .error issue => some issue
  | .ok none => none
  | .ok (some v) =>
      if !b.embed then none
      else
        match v with
        | .object _ => none
        | v => some (noObject v)

/-- What is remembered of the body is what parsing gives. -/
def Knows (memory : BodyMemory) : Prop :=
  memory.parsed = none ∨ memory.parsed = some b.body

/-- Whatever was bound before, this is what is found for a body parameter. Nothing is reported, and
all that is remembered is what parsing the body gives. -/
def LooksUp (p : CompiledParameter) (found : Found) : Prop :=
  ∀ bound : Bound, b.Knows bound.toBodyMemory →
    b.lookUp p bound = (found, { bound with parsed := some b.body })

/-- What one parameter comes to on a fresh binder. -/
def alone (p : CompiledParameter) : Bound :=
  b.bindFrom .fresh [p]

variable {b}

theorem knows_fresh : b.Knows .fresh :=
  Or.inl rfl

theorem parsedBody_eq {bound : Bound} (hknows : b.Knows bound.toBodyMemory) :
    b.parsedBody bound = (b.body, { bound with parsed := some b.body }) := by
  rcases hknows with hnone | hsome
  · simp only [parsedBody, hnone]
  · simp only [parsedBody, hsome]
    rw [← hsome]

/-- Outside the body, a look-up depends on nothing that was bound before. -/
theorem lookUp_outside {p : CompiledParameter} (hplace : p.declared.location ≠ .body) :
    ∃ found, ∀ bound, b.lookUp p bound = (found, bound) := by
  simp only [lookUp, hplace, ↓reduceIte]
  cases b.lookUpTexts p with
  | nil => exact ⟨.absent, fun _ => rfl⟩
  | cons text rest => exact ⟨.texts (text :: rest), fun _ => rfl⟩

theorem looksUp_nothing {p : CompiledParameter} (hplace : p.declared.location = .body)
    (hbody : b.body = .ok none) : b.LooksUp p .absent := by
  intro bound hknows
  simp only [lookUp, hplace, ↓reduceIte, lookUpBody, parsedBody_eq hknows, hbody]

theorem looksUp_whole {p : CompiledParameter} (hplace : p.declared.location = .body)
    (hembed : b.embed = false) {value? : Option Json} (hbody : b.body = .ok value?) :
    b.LooksUp p (.ofOption value?) := by
  cases value? with
  | none => exact looksUp_nothing hplace hbody
  | some v =>
      intro bound hknows
      simp only [lookUp, hplace, ↓reduceIte, lookUpBody, parsedBody_eq hknows, hbody, hembed,
        Bool.not_false, Found.ofOption]

theorem looksUp_member {p : CompiledParameter} (hplace : p.declared.location = .body)
    (hembed : b.embed = true) {members : Members}
    (hbody : b.body = .ok (some (.object members))) :
    b.LooksUp p (.ofOption (members.find? p.key)) := by
  intro bound hknows
  simp only [lookUp, hplace, ↓reduceIte, lookUpBody, parsedBody_eq hknows, hbody, hembed,
    Bool.not_true, Bool.false_eq_true]
  cases members.find? p.key <;> rfl

theorem unreadable?_of_other (hembed : b.embed = true) {v : Json}
    (hbody : b.body = .ok (some v)) (hother : ∀ members, v ≠ .object members) :
    b.unreadable? = some (noObject v) := by
  cases v with
  | object members => exact absurd rfl (hother members)
  | _ => simp [unreadable?, hbody, hembed]

/-- In a body that can be read, a look-up finds the same whether the body was parsed before. -/
theorem lookUp_readable {p : CompiledParameter} (hplace : p.declared.location = .body)
    (hreadable : b.unreadable? = none) : ∃ found, b.LooksUp p found := by
  cases hbody : b.body with
  | error issue => simp [unreadable?, hbody] at hreadable
  | ok value? =>
      cases hembed : b.embed with
      | false => exact ⟨_, looksUp_whole hplace hembed hbody⟩
      | true =>
          cases value? with
          | none => exact ⟨_, looksUp_nothing hplace hbody⟩
          | some v =>
              by_cases hobject : ∃ members, v = .object members
              · obtain ⟨members, rfl⟩ := hobject
                exact ⟨_, looksUp_member hplace hembed hbody⟩
              · have hother := unreadable?_of_other hembed hbody (not_exists.mp hobject)
                rw [hreadable] at hother
                cases hother

/-- In a body that cannot be read, nothing is found, and the issue is reported once. -/
theorem lookUp_unreadable {p : CompiledParameter} (hplace : p.declared.location = .body)
    {issue : Issue} (hunreadable : b.unreadable? = some issue) (bound : Bound)
    (hknows : b.Knows bound.toBodyMemory) :
    b.lookUp p bound =
      (.unreadable, Bound.reportBody { bound with parsed := some b.body } issue) := by
  simp only [lookUp, hplace, ↓reduceIte, lookUpBody, parsedBody_eq hknows]
  cases hbody : b.body with
  | error found =>
      simp only [unreadable?, hbody, Option.some.injEq] at hunreadable
      simp only [hunreadable]
  | ok value? =>
      cases value? with
      | none => simp [unreadable?, hbody] at hunreadable
      | some v =>
          cases hembed : b.embed with
          | false => simp [unreadable?, hbody, hembed] at hunreadable
          | true =>
              cases v with
              | object members => simp [unreadable?, hbody, hembed] at hunreadable
              | _ =>
                  simp only [unreadable?, hbody, hembed, Bool.not_true, Bool.false_eq_true,
                    ↓reduceIte, Option.some.injEq] at hunreadable
                  simp [hunreadable]

/-- A parameter that can be looked up adds the same to whatever was bound before. -/
theorem bindOne_adds {p : CompiledParameter}
    (hheard : p.declared.location ≠ .body ∨ b.unreadable? = none) :
    ∃ value? issues, ∀ bound : Bound, b.Knows bound.toBodyMemory →
      ∃ parsed, (parsed = bound.parsed ∨ parsed = some b.body) ∧
        b.bindOne bound p =
          Bound.add { bound with parsed := parsed } p.declared.name value? issues := by
  by_cases hplace : p.declared.location = .body
  · have hreadable : b.unreadable? = none := by
      rcases hheard with houtside | hreadable
      · exact absurd hplace houtside
      · exact hreadable
    obtain ⟨found, hfound⟩ := lookUp_readable hplace hreadable
    obtain ⟨value?, issues, hadds⟩ := Bound.conclude_adds p (b.placeOf p) found
    refine ⟨value?, issues, ?_⟩
    intro bound hknows
    refine ⟨some b.body, Or.inr rfl, ?_⟩
    simp only [bindOne, hfound bound hknows, hadds]
  · obtain ⟨found, hfound⟩ := lookUp_outside (b := b) hplace
    obtain ⟨value?, issues, hadds⟩ := Bound.conclude_adds p (b.placeOf p) found
    refine ⟨value?, issues, ?_⟩
    intro bound hknows
    refine ⟨bound.parsed, Or.inl rfl, ?_⟩
    simp only [bindOne, hfound bound, hadds]

/-- A parameter that can be looked up adds what it comes to alone. -/
theorem bindOne_of_heard {p : CompiledParameter}
    (hheard : p.declared.location ≠ .body ∨ b.unreadable? = none) (bound : Bound)
    (hknows : b.Knows bound.toBodyMemory) :
    b.Knows (b.bindOne bound p).toBodyMemory ∧
      (b.bindOne bound p).bodyReported = bound.bodyReported ∧
      (b.bindOne bound p).values = bound.values.insertAll (b.alone p).values ∧
      (b.bindOne bound p).issues = bound.issues ++ (b.alone p).issues := by
  obtain ⟨value?, issues, hadds⟩ := bindOne_adds hheard
  obtain ⟨parsed, hparsed, hbound⟩ := hadds bound hknows
  obtain ⟨_, _, halone⟩ := hadds (.beginning .fresh) knows_fresh
  have hvalues : (b.alone p).values = (value?.map fun v => (p.declared.name, v)).toList := by
    simp only [alone, bindFrom, List.foldl_cons, List.foldl_nil, halone, Bound.add]
    cases value? <;> rfl
  have hissues : (b.alone p).issues = issues := by
    simp only [alone, bindFrom, List.foldl_cons, List.foldl_nil, halone, Bound.add]
    exact List.nil_append _
  rw [hbound, hvalues, hissues]
  refine ⟨?_, rfl, rfl, rfl⟩
  rcases hparsed with rfl | rfl
  · exact hknows
  · exact Or.inr rfl

/-- A parameter that needs an unreadable body reports that, if nobody has done so, and adds no
value. -/
theorem bindOne_of_unreadable {p : CompiledParameter} (hplace : p.declared.location = .body)
    {issue : Issue} (hunreadable : b.unreadable? = some issue) (bound : Bound)
    (hknows : b.Knows bound.toBodyMemory) :
    b.Knows (b.bindOne bound p).toBodyMemory ∧
      (b.bindOne bound p).bodyReported = true ∧
      (b.bindOne bound p).values = bound.values ∧
      (b.bindOne bound p).issues =
        bound.issues ++ if bound.bodyReported then [] else [issue] := by
  simp only [bindOne, lookUp_unreadable hplace hunreadable bound hknows, Bound.conclude,
    Bound.reportBody]
  cases hreported : bound.bodyReported with
  | false => exact ⟨Or.inr rfl, rfl, rfl, rfl⟩
  | true =>
      refine ⟨Or.inr rfl, rfl, rfl, ?_⟩
      simp

theorem alone_of_unreadable {p : CompiledParameter} (hplace : p.declared.location = .body)
    {issue : Issue} (hunreadable : b.unreadable? = some issue) :
    (b.alone p).issues = [issue] ∧ (b.alone p).values = [] := by
  obtain ⟨_, _, hvalues, hissues⟩ :=
    bindOne_of_unreadable hplace hunreadable (.beginning .fresh) knows_fresh
  exact ⟨hissues, hvalues⟩

variable (b)

/-- The parameter needs the body, which cannot be read. -/
def fails (p : CompiledParameter) : Bool :=
  p.declared.location = .body && b.unreadable?.isSome

/-- The issues of parameters in order, after an unreadable body was reported or not: those of
each alone, except that an unreadable body is not reported again. -/
def reports : Bool → List CompiledParameter → List Issue
  | _, [] => []
  | reported, p :: rest =>
      (if reported && b.fails p then [] else (b.alone p).issues) ++
        reports (reported || b.fails p) rest

variable {b}

theorem fails_eq_false {p : CompiledParameter} :
    b.fails p = false ↔ p.declared.location ≠ .body ∨ b.unreadable? = none := by
  cases hunreadable : b.unreadable? <;> simp [fails, hunreadable]

/-- What one parameter adds to whatever was bound before. -/
theorem bindOne_eq (p : CompiledParameter) (bound : Bound)
    (hknows : b.Knows bound.toBodyMemory) :
    b.Knows (b.bindOne bound p).toBodyMemory ∧
      (b.bindOne bound p).bodyReported = (bound.bodyReported || b.fails p) ∧
      (b.bindOne bound p).values = bound.values.insertAll (b.alone p).values ∧
      (b.bindOne bound p).issues = bound.issues ++
        if bound.bodyReported && b.fails p then [] else (b.alone p).issues := by
  cases hfails : b.fails p with
  | false =>
      simp only [Bool.or_false, Bool.and_false, Bool.false_eq_true, ↓reduceIte]
      exact bindOne_of_heard (fails_eq_false.mp hfails) bound hknows
  | true =>
      simp only [fails, Bool.and_eq_true, decide_eq_true_eq, Option.isSome_iff_exists] at hfails
      obtain ⟨hplace, issue, hunreadable⟩ := hfails
      obtain ⟨hknows', hreported, hvalues, hissues⟩ :=
        bindOne_of_unreadable hplace hunreadable bound hknows
      obtain ⟨haloneIssues, haloneValues⟩ := alone_of_unreadable hplace hunreadable
      rw [haloneIssues, haloneValues, hreported]
      simp only [Bool.or_true, Bool.and_true]
      exact ⟨hknows', trivial, hvalues, hissues⟩

/-- What a group of parameters adds to whatever was bound before. -/
theorem foldl_bindOne_eq (params : List CompiledParameter) (bound : Bound)
    (hknows : b.Knows bound.toBodyMemory) :
    b.Knows (params.foldl b.bindOne bound).toBodyMemory ∧
      (params.foldl b.bindOne bound).bodyReported =
        (bound.bodyReported || params.any b.fails) ∧
      (params.foldl b.bindOne bound).values =
        params.foldl (fun values p => values.insertAll (b.alone p).values) bound.values ∧
      (params.foldl b.bindOne bound).issues =
        bound.issues ++ b.reports bound.bodyReported params := by
  induction params generalizing bound with
  | nil => simp [reports, hknows]
  | cons p rest ih =>
      obtain ⟨hnext, hreported, hvalues, hissues⟩ := bindOne_eq p bound hknows
      obtain ⟨hlast, hreportedLast, hvaluesLast, hissuesLast⟩ := ih (b.bindOne bound p) hnext
      refine ⟨hlast, ?_, ?_, ?_⟩
      · rw [List.foldl_cons, hreportedLast, hreported, List.any_cons, Bool.or_assoc]
      · rw [List.foldl_cons, hvaluesLast, hvalues, List.foldl_cons]
      · rw [List.foldl_cons, hissuesLast, hissues, hreported, reports, List.append_assoc]

theorem bindFrom_eq (params : List CompiledParameter) (memory : BodyMemory)
    (hknows : b.Knows memory) :
    b.Knows (b.bindFrom memory params).toBodyMemory ∧
      (b.bindFrom memory params).bodyReported = (memory.bodyReported || params.any b.fails) ∧
      (b.bindFrom memory params).values =
        params.foldl (fun (values : Members) p => values.insertAll (b.alone p).values) [] ∧
      (b.bindFrom memory params).issues = b.reports memory.bodyReported params := by
  obtain ⟨hlast, hreported, hvalues, hissues⟩ :=
    foldl_bindOne_eq params (.beginning memory) hknows
  exact ⟨hlast, hreported, hvalues, hissues⟩

theorem reports_append (reported : Bool) (params more : List CompiledParameter) :
    b.reports reported (params ++ more) =
      b.reports reported params ++ b.reports (reported || params.any b.fails) more := by
  induction params generalizing reported with
  | nil => simp [reports]
  | cons p rest ih =>
      rw [List.cons_append, reports, reports, ih, List.append_assoc, List.any_cons,
        Bool.or_assoc]

/-- The issues of all groups together are those of their parameters in one list. -/
theorem issues_bindGroups (groups : List (List CompiledParameter)) (memory : BodyMemory)
    (hknows : b.Knows memory) :
    (b.bindGroups memory groups).flatMap (·.issues) =
      b.reports memory.bodyReported groups.flatten := by
  induction groups generalizing memory with
  | nil => rfl
  | cons params rest ih =>
      obtain ⟨hnext, hreported, _, hissues⟩ := bindFrom_eq params memory hknows
      rw [bindGroups, List.flatMap_cons, List.flatten_cons, reports_append, ih _ hnext, hissues,
        hreported]

/-- The values of every group are those that its parameters have alone, inserted in order. -/
theorem values_bindGroups (groups : List (List CompiledParameter)) (memory : BodyMemory)
    (hknows : b.Knows memory) :
    (b.bindGroups memory groups).map (·.values) = groups.map fun params =>
      params.foldl (fun (values : Members) p => values.insertAll (b.alone p).values) [] := by
  induction groups generalizing memory with
  | nil => rfl
  | cons params rest ih =>
      obtain ⟨hnext, _, hvalues, _⟩ := bindFrom_eq params memory hknows
      rw [bindGroups, List.map_cons, List.map_cons, ih _ hnext, hvalues]

/-- Without the failure of a body, all parameters report what they report alone. -/
theorem reports_of_heard (params : List CompiledParameter) (reported : Bool)
    (hheard : ∀ p ∈ params, b.fails p = false) :
    b.reports reported params = params.flatMap fun p => (b.alone p).issues := by
  induction params generalizing reported with
  | nil => rfl
  | cons p rest ih =>
      have hrest := ih reported (fun other hother => hheard other (by simp [hother]))
      simp only [reports, hheard p (by simp), Bool.and_false, Bool.or_false, Bool.false_eq_true,
        ↓reduceIte, hrest, List.flatMap_cons]

/-- After an unreadable body was reported, only the parameters outside the body report. -/
theorem reports_of_reported (params : List CompiledParameter) {issue : Issue}
    (hunreadable : b.unreadable? = some issue) :
    b.reports true params =
      (params.filter fun p => p.declared.location ≠ .body).flatMap fun p =>
        (b.alone p).issues := by
  induction params with
  | nil => rfl
  | cons p rest ih =>
      by_cases hplace : p.declared.location = .body
      · have hfails : b.fails p = true := by simp [fails, hplace, hunreadable]
        simp [reports, hfails, hplace, ih]
      · have hfails : b.fails p = false := fails_eq_false.mpr (Or.inl hplace)
        simp [reports, hfails, hplace, ih]

/-- Binding is exhaustive, and parameters do not interfere. Every group has the values that its
parameters have alone. When the body can be read, or is not needed, all groups together report
what all parameters report alone, in order. When it cannot be read, the first parameter that
needs it reports that, and the others that need it report nothing; alone, each of them would
report it and have no value. How the parameters are cut into groups makes no difference to the
issues. -/
theorem bindGroups_exhaustive (b : Binder) (groups : List (List CompiledParameter)) :
    (b.bindGroups .fresh groups).map (·.values) = groups.map (fun params =>
      params.foldl (fun (values : Members) p => values.insertAll (b.alone p).values) []) ∧
    ((b.unreadable? = none ∨ ∀ p ∈ groups.flatten, p.declared.location ≠ .body) →
      (b.bindGroups .fresh groups).flatMap (·.issues) =
        groups.flatten.flatMap fun p => (b.alone p).issues) ∧
    (∀ issue, b.unreadable? = some issue →
      (∀ p, p.declared.location = .body →
        (b.alone p).issues = [issue] ∧ (b.alone p).values = []) ∧
      ∀ before p after, groups.flatten = before ++ p :: after →
        (∀ q ∈ before, q.declared.location ≠ .body) → p.declared.location = .body →
          (b.bindGroups .fresh groups).flatMap (·.issues) =
            (before.flatMap fun q => (b.alone q).issues) ++ issue ::
              (after.filter fun q => q.declared.location ≠ .body).flatMap fun q =>
                (b.alone q).issues) ∧
    ∀ others, others.flatten = groups.flatten →
      (b.bindGroups .fresh others).flatMap (·.issues) =
        (b.bindGroups .fresh groups).flatMap (·.issues) := by
  refine ⟨values_bindGroups groups .fresh knows_fresh, ?_, ?_, ?_⟩
  · intro hreadable
    rw [issues_bindGroups groups .fresh knows_fresh]
    apply reports_of_heard
    intro p hp
    rw [fails_eq_false]
    rcases hreadable with hnone | houtside
    · exact Or.inr hnone
    · exact Or.inl (houtside p hp)
  · intro issue hunreadable
    refine ⟨fun p hplace => alone_of_unreadable hplace hunreadable, ?_⟩
    intro before p after hgroups hbefore hplace
    have hfails : b.fails p = true := by simp [fails, hplace, hunreadable]
    have houtside : ∀ q ∈ before, b.fails q = false :=
      fun q hq => fails_eq_false.mpr (Or.inl (hbefore q hq))
    have hnone : before.any b.fails = false := by
      rw [List.any_eq_false]
      intro q hq
      simp [houtside q hq]
    rw [issues_bindGroups groups .fresh knows_fresh, hgroups, reports_append,
      reports_of_heard before _ houtside, hnone, reports, hfails,
      (alone_of_unreadable hplace hunreadable).1]
    simp only [BodyMemory.fresh, Bool.or_false, Bool.or_true, Bool.false_and,
      Bool.false_eq_true, ↓reduceIte, reports_of_reported after hunreadable]
    rfl
  · intro others hothers
    rw [issues_bindGroups others .fresh knows_fresh, issues_bindGroups groups .fresh knows_fresh,
      hothers]

/-- A request with a query field that is no number and a body that is no JSON. -/
def sampleBinder : Binder where
  request := { (default : Request) with query := "limit=ten", body := [123] }
  captures := []
  embed := false

/-- A required number without constraints. -/
def sampleParameter (name : String) (location : Location) : CompiledParameter :=
  ⟨.ofType name location .int, name, none, none⟩

theorem bindGroups_exhaustive_sample :
    let limit := sampleParameter "limit" .query
    let item := sampleParameter "item" .body
    let page := sampleParameter "page" .query
    let other := sampleParameter "other" .body
    ((sampleBinder.bindGroups .fresh [[limit, item], [page, other]]).flatMap
        (·.issues)).map (·.kind) = ["int_parsing", "json_invalid", "missing"] ∧
      (sampleBinder.bindGroups .fresh [[limit], [], [item, page, other]]).flatMap (·.issues) =
        (sampleBinder.bindGroups .fresh [[limit, item], [page, other]]).flatMap (·.issues) := by
  intro limit item page other
  obtain ⟨issue, hunreadable⟩ : ∃ issue, sampleBinder.unreadable? = some issue :=
    Option.isSome_iff_exists.mp (by decide)
  have hkind : some issue.kind = some "json_invalid" := by
    have hsome : (sampleBinder.unreadable?.map (·.kind)) = some "json_invalid" := by decide
    rw [hunreadable] at hsome
    exact hsome
  obtain ⟨_, _, hbroken, hcut⟩ :=
    bindGroups_exhaustive sampleBinder [[limit, item], [page, other]]
  have hissues := (hbroken issue hunreadable).2 [limit] item [page, other] rfl (by decide) rfl
  refine ⟨?_, hcut _ rfl⟩
  rw [hissues, List.map_append, List.map_cons, Option.some.inj hkind]
  decide

end Binder

end RequestDispatch
