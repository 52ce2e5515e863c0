import RequestDispatch.Middleware.Standard
import RequestDispatch.Proofs.App.Likeness

/-!
What clients do not learn. The wording of internal errors and of panics is for the journal. When two
applications differ in nothing but that wording, their clients cannot tell one from the other; nor
can they tell which value was refused when a reply does not suit the response declaration of its
route.
-/

namespace RequestDispatch

variable {n : Nat} {σ : Type}

/-- Compares runs on the same effects and leaves out how internal errors and panics are worded. -/
def Likeness.reworded (σ : Type) : Likeness σ σ where
  effects := Eq
  verbatim := False

open Likeness (reworded)

/-- A middleware that does not read the journal. All else in the context is open to it. -/
def Middleware.Discreet (m : Middleware n σ) : Prop :=
  (reworded σ).Middlewares m m

/-- A reply whose value does not suit the response declaration of the route. -/
def RouteDeclaration.Refuses (declared : RouteDeclaration n σ) (reply : Reply) : Prop :=
  ∃ validator e, declared.compileResponse = .ok validator ∧
    reply.resolve declared.response validator = .error e

/-- A route with the handler of another one, which acts alike but for the wording of internal errors
and panics, and for the values of replies that are refused. -/
structure RouteDeclaration.Rewords (one two : RouteDeclaration n σ) : Prop where
  declared : two = { one with handler := two.handler }
  handler : (reworded σ).Routines (fun a b => a = b ∨ one.Refuses a ∧ one.Refuses b)
    one.handler two.handler

/-- An application with other handlers and other code of dependencies, which act alike in that
way. -/
structure AppDeclaration.Rewords (one two : AppDeclaration n σ) : Prop where
  declared : two = { one with catalog := two.catalog, routes := two.routes }
  catalog : (reworded σ).Catalogs one.catalog two.catalog
  routes : List.Forall₂ RouteDeclaration.Rewords one.routes two.routes

/-! ### What a refused reply comes to -/

namespace Reply

theorem internal_of_render {kind : ResponseKind} {value : Json} {declared : ResponseDeclaration}
    {e : DispatchError} (hrender : render kind value declared = .error e) :
    ∃ chain, e = .internal chain := by
  unfold render at hrender
  split at hrender <;> cases hrender
  exact ⟨_, rfl⟩

/-- A reply that is refused is an internal error. -/
theorem internal_of_resolve {reply : Reply} {declared : ResponseDeclaration}
    {validator : Option Validator} {e : DispatchError}
    (hresolve : reply.resolve declared validator = .error e) : ∃ chain, e = .internal chain := by
  unfold resolve at hresolve
  split at hresolve
  · cases hresolve
  · split at hresolve
    · cases hresolve
    · exact internal_of_render hresolve
  · split at hresolve
    · split at hresolve
      · exact internal_of_render hresolve
      · cases hresolve
        exact ⟨_, rfl⟩
    · exact internal_of_render hresolve

end Reply

namespace ExceptionMapper

variable {m : ExceptionMapper}

/-- Without a rule for them, internal errors all have one response. -/
theorem respond_internal (hrules : ∀ rule ∈ m.rules, rule.kind ≠ .internal) (chain : List String) :
    m.respond (.internal chain) = .detail 500 (.string "Internal Server Error") := by
  have hnone : m.rule? .internal = none := by
    rw [rule?, List.find?_eq_none]
    intro rule hrule
    simpa using hrules rule (List.mem_reverse.mp hrule)
  simp only [respond, DispatchError.kind, hnone, defaultResponse]

/-- Errors that are alike have the same response. -/
theorem respond_reworded (hrules : ∀ rule ∈ m.rules, rule.kind ≠ .internal) :
    (reworded σ).Mappers m m := by
  intro e f herrors
  by_cases hkind : e.kind = .internal
  · have hother := hkind
    rw [herrors.kind] at hother
    cases e <;> cases hkind
    cases f <;> cases hother
    rw [respond_internal hrules, respond_internal hrules]
  · rw [herrors.same (.inr hkind)]

end ExceptionMapper

/-! ### Applications that are reworded -/

/-- Replies that are the same, or both refused, become the same response or internal errors. -/
theorem RouteDeclaration.Rewords.alike {one two : RouteDeclaration n σ}
    (hrewords : one.Rewords two) : (reworded σ).RouteDeclarations one two := by
  obtain ⟨hdeclared, hhandler⟩ := hrewords
  rw [hdeclared]
  refine ⟨rfl, rfl, rfl, rfl, rfl, rfl, hhandler.mono ?_⟩
  rintro a b (rfl | ⟨⟨_, e, hvalidator, ha⟩, ⟨_, f, hother, hb⟩⟩) validator hcompiled
  · exact .refl _
  · obtain rfl := Except.ok.inj (hvalidator.symm.trans hcompiled)
    obtain rfl := Except.ok.inj (hother.symm.trans hcompiled)
    obtain ⟨_, rfl⟩ := Reply.internal_of_resolve ha
    obtain ⟨_, rfl⟩ := Reply.internal_of_resolve hb
    rw [ha, hb]
    exact .error (.of_internal False.elim)

theorem AppDeclaration.Rewords.alike {one two : AppDeclaration n σ} (hrewords : one.Rewords two)
    (hrules : ∀ rule ∈ one.rules, rule.kind ≠ .internal)
    (hdiscreet : ∀ m ∈ one.middlewares, m.Discreet) : (reworded σ).AppDeclarations one two := by
  obtain ⟨hdeclared, hcatalog, hroutes⟩ := hrewords
  rw [hdeclared]
  exact
    { settings := rfl
      catalog := hcatalog
      mapper := ExceptionMapper.respond_reworded hrules
      middlewares := List.forall₂_same.mpr hdiscreet
      routes := hroutes.imp fun _ _ hrewords => hrewords.alike }

theorem AppDeclaration.mapper_of_build {declared : AppDeclaration n σ} {app : App n σ}
    (hbuilt : declared.build = .ok app) :
    app.mapper = ⟨declared.rules, declared.settings.allowHeader⟩ := by
  unfold build at hbuilt
  split at hbuilt
  · cases hbuilt
  · split at hbuilt <;> cases hbuilt
    rfl

namespace App

/-- An application whose internal errors and panics are worded otherwise, or whose handlers reply
with other values that are refused, is built as well and gives the same response to every request.
The response to a refused reply, as to every internal error, is a fixed one. -/
theorem dispatch_conceals {declared redeclared : AppDeclaration n σ} {app : App n σ}
    (hbuilt : declared.build = .ok app) (hrewords : declared.Rewords redeclared)
    (hrules : ∀ rule ∈ declared.rules, rule.kind ≠ .internal)
    (hdiscreet : ∀ m ∈ declared.middlewares, m.Discreet) :
    (∃ rebuilt, redeclared.build = .ok rebuilt ∧
      ∀ request fresh state,
        (rebuilt.dispatch request fresh state).response =
          (app.dispatch request fresh state).response) ∧
    ∀ (route : Route n σ) (reply : Reply) (e : DispatchError), route.answerOf reply = .error e →
      app.mapper.respond e = .detail 500 (.string "Internal Server Error") := by
  obtain ⟨rebuilt, hrebuilt, happs⟩ := (hrewords.alike hrules hdiscreet).build hbuilt
  refine ⟨⟨rebuilt, hrebuilt, ?_⟩, ?_⟩
  · intro request fresh state
    exact (happs.dispatch request fresh rfl).response.symm
  · intro route reply e hrefused
    obtain ⟨chain, rfl⟩ := Reply.internal_of_resolve hrefused
    rw [AppDeclaration.mapper_of_build hbuilt]
    exact ExceptionMapper.respond_internal hrules chain

/-- A dependency that panics, and handlers of which one fails and one has a reply that is refused,
all of them with these words. -/
def wordyApp (wording : String) : AppDeclaration 1 Unit :=
  let secret : Dependency 1 Unit :=
    { name := "secret", parameters := [], references := [], scopes := [], provider := none
      cached := true
      routine := .inline fun _ effects => (.panicked (.text wording), effects) }
  let routeOf (pattern : String) (outcome : Outcome Reply) : RouteDeclaration 1 Unit :=
    { method := "GET", pattern, handlerName := "answer", parameters := [], references := []
      handler := .inline fun _ effects => (outcome, effects)
      response := ⟨some .html, none, none⟩ }
  { settings := .standard
    catalog := ⟨fun _ => secret, []⟩
    rules := []
    middlewares := [.requestId, .tracing]
    routes :=
      [{ routeOf "/panic" (.value .empty) with references := [⟨"secret", ⟨0, Nat.one_pos⟩, []⟩] },
       routeOf "/fail" (.failed (.internal [wording])),
       routeOf "/refuse" (.value (.json (.array [.string wording])))] }

/-- The two words cannot be told apart by any request. -/
theorem dispatch_conceals_sample :
    ∃ one two, (wordyApp "alpha").build = .ok one ∧ (wordyApp "omega").build = .ok two ∧
      ∀ request fresh state,
        (two.dispatch request fresh state).response =
          (one.dispatch request fresh state).response := by
  have hrewords : (wordyApp "alpha").Rewords (wordyApp "omega") := by
    refine ⟨rfl, ⟨rfl, ?_⟩, .cons ⟨rfl, ?_⟩ (.cons ⟨rfl, ?_⟩ (.cons ⟨rfl, ?_⟩ .nil))⟩
    · intro i
      refine ⟨rfl, rfl, rfl, rfl, rfl, rfl, .inline ?_⟩
      rintro input e _ rfl
      exact ⟨.panicked False.elim, rfl⟩
    · refine .inline ?_
      rintro input e _ rfl
      exact ⟨.value (.inl rfl), rfl⟩
    · refine .inline ?_
      rintro input e _ rfl
      exact ⟨.failed (.of_internal False.elim), rfl⟩
    · refine .inline ?_
      rintro input e _ rfl
      exact ⟨.value (.inr ⟨⟨none, _, rfl, rfl⟩, ⟨none, _, rfl, rfl⟩⟩), rfl⟩
  have hdiscreet : ∀ m ∈ (wordyApp "alpha").middlewares, m.Discreet := by
    intro m hm remaining ctx next hcontexts
    simp only [wordyApp, List.mem_cons, List.not_mem_nil, or_false] at hm
    obtain rfl | rfl := hm
    · refine .proceed hcontexts fun r back final hback => ⟨.ok ?_, hback⟩
      rw [hcontexts.requestId]
    · exact .proceed hcontexts fun r back final hback => ⟨.ok rfl, hback⟩
  obtain ⟨one, hone⟩ : ∃ one, (wordyApp "alpha").build = .ok one := ⟨_, rfl⟩
  obtain ⟨⟨two, htwo, hsame⟩, _⟩ := dispatch_conceals hone hrewords (by simp [wordyApp]) hdiscreet
  exact ⟨one, two, hone, htwo, hsame⟩

end App

end RequestDispatch
