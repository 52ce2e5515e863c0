import RequestDispatch.Reply

/-!
Replies under a declared schema. The schema judges the values that are sent as JSON: what it refuses
becomes an internal error, and is not sent. When nothing is returned under the JSON kind, the null
that stands for it is no value of the handler, and it is not judged.
-/

namespace RequestDispatch

namespace Validator

/-- A validator accepts a value when it reports nothing of it, at whatever place. -/
theorem issues_eq_nil_iff {validator : Validator} {v : Json} {place : List String} :
    validator.issues v place = [] ↔ validator.accepts v = true := by
  rw [issues, accepts, List.map_eq_nil_iff, List.isEmpty_iff]

end Validator

namespace ResponseDeclaration

/-- A value satisfies the declared schema, if there is one. -/
def Admits (declared : ResponseDeclaration) (v : Json) : Prop :=
  ∀ document ∈ declared.schema, ∃ validator,
    Validator.compile? document = some validator ∧ validator.accepts v = true

theorem admits_iff {declared : ResponseDeclaration} {document : Json} {validator : Validator}
    (hschema : declared.schema = some document)
    (hcompiled : Validator.compile? document = some validator) {v : Json} :
    declared.Admits v ↔ validator.accepts v = true := by
  constructor
  · intro hadmits
    obtain ⟨other, hother, haccepts⟩ := hadmits document hschema
    cases hcompiled.symm.trans hother
    exact haccepts
  · intro haccepts document' hdocument
    cases hschema.symm.trans hdocument
    exact ⟨validator, hcompiled, haccepts⟩

end ResponseDeclaration

namespace Reply

variable {declared : ResponseDeclaration} {validator : Validator} {response : Response}

theorem json_ne_response (v : Json) (r : Response) : json v ≠ .response r :=
  nofun

/-- Only the JSON kind has JSON in the body, and that is the value. -/
theorem json_of_render {kind : ResponseKind} {value v : Json}
    (hrender : render kind value declared = .ok response) (hbody : response.body = .json v) :
    kind = .json ∧ value = v := by
  unfold render at hrender
  split at hrender <;> cases hrender <;> cases hbody
  exact ⟨rfl, rfl⟩

/-- A value of the JSON kind is rendered when the validator accepts it. -/
theorem resolve_json_of_accepts {v : Json} (hkind : declared.kind.getD .json = .json)
    (haccepts : validator.accepts v = true) :
    (json v).resolve declared (some validator) = render .json v declared := by
  simp only [resolve, hkind, Validator.issues_eq_nil_iff.mpr haccepts]

/-- A value of the JSON kind that the validator does not accept is refused for what it reports. -/
theorem resolve_json_of_refused {v : Json} (hkind : declared.kind.getD .json = .json)
    (hrefused : ¬validator.accepts v = true) :
    (json v).resolve declared (some validator) =
      .error (schemaError (validator.issues v ["response"])) := by
  have hreported : validator.issues v ["response"] ≠ [] :=
    fun hnone => hrefused (Validator.issues_eq_nil_iff.mp hnone)
  obtain ⟨issue, rest, hissues⟩ := List.exists_cons_of_ne_nil hreported
  simp only [resolve, hkind, hissues]

/-- The other kinds render what there is. -/
theorem resolve_of_other {kind : ResponseKind} (hkind : declared.kind = some kind)
    (hother : kind ≠ .json) {reply : Reply} (hincomplete : ∀ r, reply ≠ .response r)
    (judge : Option Validator) : ∃ v, reply.resolve declared judge = render kind v declared := by
  cases reply with
  | response r => exact absurd rfl (hincomplete r)
  | empty => exact ⟨.null, by simp only [resolve, hkind]⟩
  | json v =>
      refine ⟨v, ?_⟩
      cases kind with
      | json => exact absurd rfl hother
      | html => simp only [resolve, hkind, Option.getD_some]
      | plainText => simp only [resolve, hkind, Option.getD_some]
      | redirect => simp only [resolve, hkind, Option.getD_some]

theorem not_json_of_other {kind : ResponseKind} (hkind : declared.kind = some kind)
    (hother : kind ≠ .json) {reply : Reply} (hincomplete : ∀ r, reply ≠ .response r)
    {judge : Option Validator} (hresolve : reply.resolve declared judge = .ok response) (v : Json) :
    response.body ≠ .json v := by
  obtain ⟨_, hrender⟩ := resolve_of_other hkind hother hincomplete judge
  intro hbody
  exact hother (json_of_render (hrender.symm.trans hresolve) hbody).1

/-- What is sent as JSON for a value has been accepted. -/
theorem accepts_of_resolve_json {value v : Json}
    (hresolve : (json value).resolve declared (some validator) = .ok response)
    (hbody : response.body = .json v) : value = v ∧ validator.accepts v = true := by
  by_cases hkind : declared.kind.getD .json = .json
  · by_cases haccepts : validator.accepts value = true
    · rw [resolve_json_of_accepts hkind haccepts] at hresolve
      obtain ⟨_, rfl⟩ := json_of_render hresolve hbody
      exact ⟨rfl, haccepts⟩
    · rw [resolve_json_of_refused hkind haccepts] at hresolve
      cases hresolve
  · cases hdeclared : declared.kind with
    | none => exact absurd (by rw [hdeclared, Option.getD_none]) hkind
    | some kind =>
        have hother : kind ≠ .json := by simpa only [hdeclared, Option.getD_some] using hkind
        exact absurd hbody (not_json_of_other hdeclared hother (json_ne_response value) hresolve v)

/-- Declared schemas are enforced on values. What is sent as JSON for a value satisfies the schema,
and a value of the JSON kind that does not is refused by an internal error with all that the
validator reports. -/
theorem resolve_enforces_schema {document : Json} (hschema : declared.schema = some document)
    (hcompiled : Validator.compile? document = some validator) {reply : Reply}
    (hincomplete : ∀ r, reply ≠ .response r) :
    (∀ response v, ¬(reply = .empty ∧ declared.kind = some .json) →
      reply.resolve declared (some validator) = .ok response → response.body = .json v →
      reply = .json v ∧ declared.Admits v) ∧
    (∀ v, reply = .json v → declared.kind.getD .json = .json → ¬declared.Admits v →
      reply.resolve declared (some validator) = .error (.internal
        ["response does not match the declared schema: "
          ++ "; ".intercalate ((validator.issues v ["response"]).map Issue.text)])) := by
  have hadmits (v : Json) : declared.Admits v ↔ validator.accepts v = true :=
    ResponseDeclaration.admits_iff hschema hcompiled
  refine ⟨?_, ?_⟩
  · intro response v hdelivers hresolve hbody
    cases reply with
    | response r => exact absurd rfl (hincomplete r)
    | empty =>
        cases hkind : declared.kind with
        | none =>
            simp only [resolve, hkind, Except.ok.injEq] at hresolve
            cases hresolve
            cases hbody
        | some kind =>
            -- Under the JSON kind the null that is sent for it has not been judged.
            have hother : kind ≠ .json := fun hjson => hdelivers ⟨rfl, hjson ▸ hkind⟩
            exact absurd hbody (not_json_of_other hkind hother hincomplete hresolve v)
    | json value =>
        obtain ⟨rfl, haccepts⟩ := accepts_of_resolve_json hresolve hbody
        exact ⟨rfl, (hadmits value).mpr haccepts⟩
  · rintro v rfl hkind hrefused
    exact resolve_json_of_refused hkind (mt (hadmits v).mpr hrefused)

/-- The schema of all objects. -/
def objects : Json :=
  .object [("type", .string "object")]

def objectValidator : Validator :=
  ⟨objects, (Schema.ofJson? objects).getD .accept⟩

/-- A text is refused where an object is declared. -/
theorem resolve_enforces_schema_sample :
    let declared : ResponseDeclaration := ⟨none, none, some objects⟩
    Validator.compile? objects = some objectValidator ∧ ¬declared.Admits (.string "none") ∧
      (json (.string "none")).resolve declared (some objectValidator) = .error (.internal
        ["response does not match the declared schema: "
          ++ "[type_error] response: \"none\" is not of type \"object\""]) := by
  intro declared
  have hschema : declared.schema = some objects := rfl
  have hcompiled : Validator.compile? objects = some objectValidator := by rfl
  have hrefused : ¬declared.Admits (.string "none") := by
    rw [ResponseDeclaration.admits_iff hschema hcompiled]
    decide +kernel
  have hreported : (objectValidator.issues (.string "none") ["response"]).map Issue.text =
      ["[type_error] response: \"none\" is not of type \"object\""] := by
    decide +kernel
  obtain ⟨_, hrefuses⟩ :=
    resolve_enforces_schema hschema hcompiled (json_ne_response (.string "none"))
  have hresolve := hrefuses _ rfl rfl hrefused
  rw [hreported] at hresolve
  exact ⟨hcompiled, hrefused, hresolve⟩

/-- The declared schema is not applied to the null that a JSON response has when nothing was
returned. -/
theorem empty_reply_unjudged :
    Validator.compile? objects = some objectValidator ∧ objectValidator.accepts .null = false ∧
      empty.resolve ⟨some .json, none, some objects⟩ (some objectValidator) =
        .ok (.json 200 .null) :=
  ⟨rfl, rfl, rfl⟩

end Reply

end RequestDispatch
