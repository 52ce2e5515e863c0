import Mathlib.Data.List.Induction
import RequestDispatch.Proofs.Parameter.Binding
import RequestDispatch.Proofs.Parameter.Typing

/-!
What handlers can rely on. A value that is bound from a request has the declared type, is made of
what was received, and meets the constraints and the schema of its parameter. A parameter that is
found but not bound is reported at its own place, unless it needs a body that cannot be read.
-/

namespace RequestDispatch

theorem Members.mem_insert {name : String} {v : Json} {members : Members}
    {member : String × Json} (h : member ∈ members.insert name v) :
    member = (name, v) ∨ member ∈ members := by
  induction members with
  | nil => simpa [insert] using h
  | cons first rest ih =>
      simp only [insert] at h
      split at h
      · rcases List.mem_cons.mp h with rfl | hrest
        · exact Or.inl rfl
        · exact Or.inr (List.mem_cons_of_mem _ hrest)
      · split at h
        · exact List.mem_cons.mp h
        · rcases List.mem_cons.mp h with rfl | hrest
          · exact Or.inr List.mem_cons_self
          · exact (ih hrest).imp_right (List.mem_cons_of_mem _)

theorem Constraints.boundIssues_below (c : Constraints) (n : Number) (place : List String) :
    Below place (c.boundIssues n place) := by
  constructor
  intro issue hissue
  simp only [boundIssues, List.mem_filterMap] at hissue
  obtain ⟨bound, _, hbound⟩ := hissue
  unfold Bound.issue? at hbound
  split at hbound
  · cases hbound
  · split at hbound
    · cases hbound
    · cases hbound
      exact List.prefix_refl place

theorem Constraints.lengthIssues_below (c : Constraints) (size : Nat)
    (short long noun suffix : String) (value : Json) (place : List String) :
    Below place (c.lengthIssues size short long noun suffix value place) := by
  unfold lengthIssues
  apply Below.append
  · split
    · split
      · exact .single ..
      · exact .nil
    · exact .nil
  · split
    · split
      · exact .single ..
      · exact .nil
    · exact .nil

theorem Validator.issues_below (validator : Validator) (value : Json) (place : List String) :
    Below place (validator.issues value place) := by
  constructor
  intro issue hissue
  obtain ⟨violation, _, rfl⟩ := List.mem_map.mp hissue
  unfold Violation.toIssue
  split
  · exact ⟨_, (List.append_assoc ..).symm⟩
  · exact List.prefix_append ..

namespace CompiledParameter

theorem scalarIssues_below (p : CompiledParameter) (value : Json) (place : List String) :
    Below place (p.scalarIssues value place) := by
  unfold scalarIssues
  split
  · exact Constraints.boundIssues_below ..
  · split
    · split
      · exact .nil
      · exact .single ..
    · exact .nil
  · exact .nil

theorem constraintIssues_below (p : CompiledParameter) (value : Json) (place : List String) :
    Below place (p.constraintIssues value place) := by
  unfold constraintIssues
  split
  · apply Below.append (Constraints.lengthIssues_below ..)
    rw [← List.flatMap_id]
    apply Below.flatMap
    intro issues hissues
    obtain ⟨i, hi, rfl⟩ := List.mem_mapIdx.mp hissues
    exact ⟨toString i, p.scalarIssues_below ..⟩
  · exact .append (Constraints.lengthIssues_below ..) (p.scalarIssues_below ..)
  · exact p.scalarIssues_below ..

theorem issues_below (p : CompiledParameter) (value : Json) (place : List String) :
    Below place (p.issues value place) := by
  apply Below.append (p.constraintIssues_below value place)
  split
  · exact Validator.issues_below ..
  · exact .nil

/-- Nothing is reported for a value: neither by the constraints nor by the schema. -/
structure Approves (p : CompiledParameter) (v : Json) (place : List String) : Prop where
  constraints : p.constraintIssues v place = []
  schema : ∀ validator, p.validator = some validator → validator.issues v place = []

theorem approves_of_issues {p : CompiledParameter} {v : Json} {place : List String}
    (hnone : p.issues v place = []) : p.Approves v place := by
  obtain ⟨hconstraints, hschema⟩ := List.append_eq_nil_iff.mp hnone
  refine ⟨hconstraints, ?_⟩
  intro validator hvalidator
  simpa only [hvalidator] using hschema

end CompiledParameter

/-- A value comes from what was found. -/
inductive Found.Yields : Found → ParamType → Json → Prop where
  | texts {ts : List String} {type : ParamType} {v : Json} (h : type.Gathers ts v) :
      Yields (.texts ts) type v
  | json {source : Json} {type : ParamType} {v : Json} (h : type.Becomes source v) :
      Yields (.json source) type v

theorem Found.Yields.has {found : Found} {type : ParamType} {v : Json}
    (h : found.Yields type v) : type.Has v := by
  cases h with
  | texts h => exact h.has
  | json h => exact h.has

namespace Bound

/-- Taking up a value that settles binds a value with the property that is approved, or reports
something at its place. -/
theorem take_settles {P : Json → Prop} {p : CompiledParameter} {coerced : Coerced}
    {place : List String} (hsettles : coerced.Settles place P) (bound : Bound) :
    (∃ v, P v ∧ p.Approves v place ∧ bound.take p coerced place =
      { bound with values := bound.values.insert p.declared.name v }) ∨
    ∃ reported, reported ≠ [] ∧ Below place reported ∧ bound.take p coerced place =
      { bound with issues := bound.issues ++ reported } := by
  cases hcoerced : coerced.issues with
  | cons issue rest =>
      right
      refine ⟨issue :: rest, by simp, ?_, ?_⟩
      · rw [← hcoerced]
        exact hsettles.below
      · cases hvalue : coerced.value <;> simp [take, hvalue, hcoerced]
  | nil =>
      obtain ⟨v, hvalue, hv⟩ := hsettles.sound hcoerced
      cases hissues : p.issues v place with
      | nil =>
          left
          refine ⟨v, hv, CompiledParameter.approves_of_issues hissues, ?_⟩
          simp [take, hvalue, hcoerced, hissues]
      | cons issue rest =>
          right
          refine ⟨issue :: rest, by simp, ?_, ?_⟩
          · rw [← hissues]
            exact p.issues_below v place
          · simp [take, hvalue, hcoerced, hissues]

end Bound

namespace Binder

/-- What is found for a parameter. -/
def finds (b : Binder) (p : CompiledParameter) : Found :=
  (b.lookUp p (.beginning .fresh)).1

/-- A value is the one of a parameter in a request: it comes from what was found for the
parameter, has its type, and nothing is reported for it. -/
structure Vouches (b : Binder) (p : CompiledParameter) (v : Json) : Prop where
  received : (b.finds p).Yields p.declared.type v
  hasType : p.declared.type.Has v
  approved : p.Approves v (b.placeOf p)

/-- A member of the map belongs to one of the parameters: it has a value of the request, or the
default because nothing was sent. -/
def Supplies (b : Binder) (params : List CompiledParameter) (member : String × Json) : Prop :=
  ∃ p ∈ params, p.declared.name = member.1 ∧
    (b.Vouches p member.2 ∨ b.finds p = .absent ∧ p.declared.default = some member.2)

variable {b : Binder} {p : CompiledParameter}

theorem lookUp_texts_ne_nil {bound : Bound} {ts : List String}
    (h : (b.lookUp p bound).1 = .texts ts) : ts ≠ [] := by
  unfold lookUp at h
  split at h
  · unfold lookUpBody at h
    split at h
    · cases h
    · cases h
    · split at h
      · cases h
      · split at h
        · split at h <;> cases h
        · cases h
  · split at h
    · cases h
    · rename_i hsome
      cases h
      exact hsome

theorem finds_readable (hplace : p.declared.location = .body)
    (hreadable : b.unreadable? = none) : b.finds p ≠ .unreadable := by
  have hknows : b.Knows (Bound.beginning .fresh).toBodyMemory := knows_fresh
  simp only [finds, lookUp, hplace, ↓reduceIte, lookUpBody, parsedBody_eq hknows]
  cases hbody : b.body with
  | error issue => simp [unreadable?, hbody] at hreadable
  | ok value? =>
      cases value? with
      | none => simp
      | some v =>
          cases hembed : b.embed with
          | false => simp
          | true =>
              cases v with
              | object members =>
                  simp only [Bool.not_true, Bool.false_eq_true, ↓reduceIte]
                  cases Members.find? members p.key <;> simp
              | _ => simp [unreadable?, hbody, hembed] at hreadable

/-- Where the body does not stand in the way, a look-up finds the same after any others. -/
theorem lookUp_of_heard (hheard : b.fails p = false) {bound : Bound}
    (hknows : b.Knows bound.toBodyMemory) :
    b.finds p ≠ .unreadable ∧
      ∃ parsed, b.lookUp p bound = (b.finds p, { bound with parsed := parsed }) := by
  by_cases hplace : p.declared.location = .body
  · have hreadable : b.unreadable? = none :=
      (fails_eq_false.mp hheard).resolve_left fun houtside => houtside hplace
    obtain ⟨found, hfound⟩ := lookUp_readable hplace hreadable
    have hfinds : b.finds p = found := by
      rw [finds, hfound _ knows_fresh]
    refine ⟨finds_readable hplace hreadable, some b.body, ?_⟩
    rw [hfound bound hknows, hfinds]
  · obtain ⟨found, hfound⟩ := lookUp_outside (b := b) hplace
    have hfinds : b.finds p = found := by
      rw [finds, hfound]
    refine ⟨?_, bound.parsed, ?_⟩
    · simp only [finds, lookUp, hplace, ↓reduceIte]
      split <;> simp
    · rw [hfound bound, hfinds]

/-- What binding one parameter does to whatever was bound before. -/
inductive Handles (b : Binder) (p : CompiledParameter) (bound after : Bound) : Prop where
  /-- A value of the request is bound, and nothing is reported. -/
  | bound {v : Json} (hvouches : b.Vouches p v)
      (hvalues : after.values = bound.values.insert p.declared.name v)
      (hissues : after.issues = bound.issues)
  /-- What was found is not bound, which is reported at the place of the parameter. -/
  | refused {reported : List Issue} (hreported : reported ≠ [])
      (hbelow : Below (b.placeOf p) reported) (hvalues : after.values = bound.values)
      (hissues : after.issues = bound.issues ++ reported)
  /-- Nothing was found because the body cannot be read. -/
  | unheard {issue : Issue} (hplace : p.declared.location = .body)
      (hunreadable : b.unreadable? = some issue) (hvalues : after.values = bound.values)
      (hissues : after.issues = bound.issues ++ if bound.bodyReported then [] else [issue])
  /-- Nothing was sent, and the default is bound. -/
  | defaulted {v : Json} (habsent : b.finds p = .absent) (hdefault : p.declared.default = some v)
      (hvalues : after.values = bound.values.insert p.declared.name v)
  /-- Nothing was sent, and nothing is bound. -/
  | omitted (habsent : b.finds p = .absent) (hvalues : after.values = bound.values)

theorem handles_of_take {found : Found} {coerced : Coerced} (hfinds : b.finds p = found)
    (hsettles : coerced.Settles (b.placeOf p) (found.Yields p.declared.type)) {bound : Bound}
    {parsed : Option (Except Issue (Option Json))} :
    b.Handles p bound (Bound.take { bound with parsed := parsed } p coerced (b.placeOf p)) := by
  rcases Bound.take_settles hsettles { bound with parsed := parsed } with
    ⟨v, hv, happroved, htake⟩ | ⟨reported, hreported, hbelow, htake⟩
  · rw [htake]
    subst hfinds
    exact .bound ⟨hv, hv.has, happroved⟩ rfl rfl
  · rw [htake]
    exact .refused hreported hbelow rfl rfl

theorem bindOne_handles (p : CompiledParameter) {bound : Bound}
    (hknows : b.Knows bound.toBodyMemory) : b.Handles p bound (b.bindOne bound p) := by
  cases hfails : b.fails p with
  | true =>
      simp only [fails, Bool.and_eq_true, decide_eq_true_eq, Option.isSome_iff_exists] at hfails
      obtain ⟨hplace, issue, hunreadable⟩ := hfails
      obtain ⟨_, _, hvalues, hissues⟩ := bindOne_of_unreadable hplace hunreadable bound hknows
      exact .unheard hplace hunreadable hvalues hissues
  | false =>
      obtain ⟨hheard, parsed, hlookUp⟩ := lookUp_of_heard hfails hknows
      simp only [bindOne, hlookUp]
      cases hfinds : b.finds p with
      | unreadable => exact absurd hfinds hheard
      | absent =>
          simp only [Bound.conclude]
          split
          · exact .defaulted hfinds ‹_› rfl
          · split
            · exact .omitted hfinds rfl
            · exact .omitted hfinds rfl
      | texts ts =>
          have hsome : ts ≠ [] := lookUp_texts_ne_nil hfinds
          exact handles_of_take hfinds ((coerceTexts_settles _ hsome _).mono fun _ => .texts)
      | json source =>
          exact handles_of_take hfinds ((coerceJson_settles _ source _).mono fun _ => .json)

theorem bindFrom_append (memory : BodyMemory) (before : List CompiledParameter)
    (p : CompiledParameter) :
    b.bindFrom memory (before ++ [p]) = b.bindOne (b.bindFrom memory before) p := by
  simp only [bindFrom, List.foldl_append, List.foldl_cons, List.foldl_nil]

theorem mem_reports {issue : Issue} (hunreadable : b.unreadable? = some issue)
    (hplace : p.declared.location = .body) {params : List CompiledParameter} (hp : p ∈ params) :
    issue ∈ b.reports false params := by
  induction params with
  | nil => cases hp
  | cons q rest ih =>
      simp only [reports, Bool.false_and, Bool.false_eq_true, ↓reduceIte, Bool.false_or,
        List.mem_append]
      by_cases hq : q.declared.location = .body
      · left
        rw [(alone_of_unreadable hq hunreadable).1]
        exact List.mem_singleton_self issue
      · right
        have hfails : b.fails q = false := fails_eq_false.mpr (Or.inl hq)
        have hrest : p ∈ rest := by
          rcases List.mem_cons.mp hp with rfl | hrest
          · exact absurd hplace hq
          · exact hrest
        rw [hfails]
        exact ih hrest

/-- Every value of a group is one of the request or a default. -/
theorem supplies_bindFrom {memory : BodyMemory} (hknows : b.Knows memory)
    (params : List CompiledParameter) :
    ∀ member ∈ (b.bindFrom memory params).values, b.Supplies params member := by
  -- From the last parameter, which replaces an earlier value of the same name.
  induction params using List.reverseRecOn with
  | nil => rintro member ⟨⟩
  | append_singleton before p ih =>
      have hbefore : b.Knows (b.bindFrom memory before).toBodyMemory :=
        (bindFrom_eq before memory hknows).1
      have hold : ∀ member ∈ (b.bindFrom memory before).values,
          b.Supplies (before ++ [p]) member := by
        intro member hmember
        obtain ⟨q, hq, hsource⟩ := ih member hmember
        exact ⟨q, List.mem_append_left _ hq, hsource⟩
      have hnew {v : Json} (hv : b.Vouches p v ∨
          b.finds p = .absent ∧ p.declared.default = some v) :
          ∀ member ∈ (b.bindFrom memory before).values.insert p.declared.name v,
            b.Supplies (before ++ [p]) member := by
        intro member hmember
        rcases Members.mem_insert hmember with rfl | hmember
        · exact ⟨p, by simp, rfl, hv⟩
        · exact hold member hmember
      rw [bindFrom_append]
      cases bindOne_handles p hbefore with
      | bound hvouches hvalues =>
          rw [hvalues]
          exact hnew (Or.inl hvouches)
      | defaulted habsent hdefault hvalues =>
          rw [hvalues]
          exact hnew (Or.inr ⟨habsent, hdefault⟩)
      | refused _ _ hvalues =>
          rw [hvalues]
          exact hold
      | unheard _ _ hvalues =>
          rw [hvalues]
          exact hold
      | omitted _ hvalues =>
          rw [hvalues]
          exact hold

/-- A list in the query or in headers is made of every occurrence. -/
theorem finds_occurrences {item : ParamType} {texts : List String}
    (hlist : p.declared.type = .list item) (hfinds : b.finds p = .texts texts) :
    (p.declared.location = .query → texts = b.request.queryValues p.key) ∧
      (p.declared.location = .header → texts = b.request.headers.valuesOf p.key) := by
  have hisList : p.declared.type.isList = true := by rw [hlist]; rfl
  constructor <;>
  · intro hplace
    simp only [finds, lookUp, lookUpTexts, hplace, hisList, ↓reduceIte, reduceCtorEq] at hfinds
    split at hfinds
    · cases hfinds
    · cases hfinds
      rfl

/-- Binding is sound for the declared types. When something is found for a parameter, after any
others, then either a value is bound that has its type, is made of what was found item by item,
and has nothing reported for it by the constraints or the schema; or nothing is bound, and
something is reported below the place of the parameter, or the body cannot be read and that was
reported once. So every value that is handed on is sound or a default. -/
theorem bindFrom_sound (b : Binder) (memory : BodyMemory) (hknows : b.Knows memory)
    (before : List CompiledParameter) (p : CompiledParameter) :
    let bound := b.bindFrom memory before
    let after := b.bindFrom memory (before ++ [p])
    (b.finds p ≠ .absent →
      (∃ v, b.Vouches p v ∧ after.values = bound.values.insert p.declared.name v ∧
        after.issues = bound.issues) ∨
      after.values = bound.values ∧
        ((∃ reported, reported ≠ [] ∧ Below (b.placeOf p) reported ∧
            after.issues = bound.issues ++ reported) ∨
          ∃ issue, p.declared.location = .body ∧ b.unreadable? = some issue ∧
            (memory.bodyReported = false → issue ∈ after.issues))) ∧
    (∀ item texts, p.declared.type = .list item → b.finds p = .texts texts →
      (p.declared.location = .query → texts = b.request.queryValues p.key) ∧
        (p.declared.location = .header → texts = b.request.headers.valuesOf p.key)) ∧
    ∀ member ∈ after.values, b.Supplies (before ++ [p]) member := by
  intro bound after
  have hbound : b.Knows bound.toBodyMemory := (bindFrom_eq before memory hknows).1
  have hafter : after = b.bindOne bound p := bindFrom_append memory before p
  refine ⟨?_, fun item texts => finds_occurrences, supplies_bindFrom hknows _⟩
  intro hfound
  have hhandles : b.Handles p bound after := hafter ▸ bindOne_handles p hbound
  cases hhandles with
  | bound hvouches hvalues hissues => exact Or.inl ⟨_, hvouches, hvalues, hissues⟩
  | refused hreported hbelow hvalues hissues =>
      exact Or.inr ⟨hvalues, Or.inl ⟨_, hreported, hbelow, hissues⟩⟩
  | unheard hplace hunreadable hvalues =>
      refine Or.inr ⟨hvalues, Or.inr ⟨_, hplace, hunreadable, ?_⟩⟩
      intro hfresh
      have hissues : after.issues = b.reports memory.bodyReported (before ++ [p]) :=
        (bindFrom_eq (before ++ [p]) memory hknows).2.2.2
      rw [hissues, hfresh]
      exact mem_reports hunreadable hplace (by simp)
  | defaulted habsent => exact absurd habsent hfound
  | omitted habsent => exact absurd habsent hfound

/-- A list of numbers in the query. -/
def identifiers : CompiledParameter :=
  ⟨.ofType "id" .query (.list .int), "id", none, none⟩

theorem bindFrom_sound_sample :
    let b : Binder := ⟨{ (default : Request) with query := "id=7&page=2&id=8" }, [], false⟩
    ∃ v, b.Vouches identifiers v ∧ (b.bindFrom .fresh [identifiers]).values = [("id", v)] := by
  intro b
  have htexts : b.lookUpTexts identifiers = ["7", "8"] := by decide
  have hfinds : b.finds identifiers = .texts ["7", "8"] := by
    have hplace : identifiers.declared.location ≠ .body := by decide
    simp only [finds, lookUp, hplace, ↓reduceIte, htexts]
  obtain ⟨hsound, _, _⟩ := bindFrom_sound b .fresh knows_fresh [] identifiers
  rcases hsound (by simp [hfinds]) with ⟨v, hvouches, hvalues, _⟩ | ⟨hvalues, _⟩
  · exact ⟨v, hvouches, hvalues⟩
  · have hsome : (b.bindFrom .fresh [identifiers]).values ≠ [] := by decide
    exact absurd hvalues hsome

end Binder

end RequestDispatch
