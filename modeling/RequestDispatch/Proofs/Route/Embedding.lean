import RequestDispatch.Proofs.Parameter.Missing
import RequestDispatch.Proofs.Route.Aggregation
import RequestDispatch.Proofs.Route.PathParameters

/-!
How a route reads its body. The parameters that a route needs from the body, its own and those of
the dependencies that its references lead to, decide together whether each of them is a member of
the body or all of them are the body itself. Every route decides for itself, also about parameters
of a dependency that it shares with other routes.
-/

namespace RequestDispatch

variable {n : Nat} {σ : Type}

theorem needsEmbedding_iff {params : List CompiledParameter} :
    RouteDeclaration.needsEmbedding (RouteDeclaration.bodyParameters params) = true ↔
      (∃ p ∈ params, p.declared.location = .body ∧ p.declared.embed = true) ∨
      ∃ p ∈ params, ∃ q ∈ params, p.declared.location = .body ∧ q.declared.location = .body ∧
        p.declared.name ≠ q.declared.name := by
  simp only [RouteDeclaration.needsEmbedding, RouteDeclaration.bodyParameters, Bool.or_eq_true,
    List.any_eq_true, List.mem_filter, List.mem_map, decide_eq_true_eq]
  grind

namespace Route

variable {catalog : Catalog n σ} {declared : List (RouteDeclaration n σ)}
  {routes : List (Route n σ)} {graph : Graph n σ} {route : Route n σ} {request : Request}
  {captures : List (String × String)} {p : CompiledParameter}

/-! ### The parameters that share the body -/

/-- A body parameter that a route needs, of its own or for a dependency. -/
structure NeedsFromBody (route : Route n σ) (graph : Graph n σ) (p : CompiledParameter) :
    Prop where
  needs : route.Needs graph p
  location : p.declared.location = .body

/-- The body parameters of a route have to be members of its body: one of them asks for it, or two
of them have different names. -/
inductive SharesBody (route : Route n σ) (graph : Graph n σ) : Prop where
  | asked {p : CompiledParameter} (hp : route.NeedsFromBody graph p)
      (hembed : p.declared.embed = true)
  | apart {p q : CompiledParameter} (hp : route.NeedsFromBody graph p)
      (hq : route.NeedsFromBody graph q) (hnames : p.declared.name ≠ q.declared.name)

theorem SharesBody.exists_needed (hshares : route.SharesBody graph) :
    ∃ p, route.NeedsFromBody graph p := by
  cases hshares with
  | asked hp _ => exact ⟨_, hp⟩
  | apart hp _ _ => exact ⟨_, hp⟩

theorem allParameters_eq (route : Route n σ) (graph : Graph n σ) :
    route.allParameters graph = route.parameters ++
      (route.plan.reachable.filterMap fun i => graph.nodes[i]?).flatMap (·.parameters) := by
  rw [allParameters]
  congr 1
  induction route.plan.reachable with
  | nil => rfl
  | cons i rest ih =>
      rw [List.map_cons, List.flatten_cons, ih, Graph.parametersAt]
      cases hnode : graph.nodes[i]? with
      | none => rw [List.filterMap_cons_none hnode]; rfl
      | some node => rw [List.filterMap_cons_some hnode]; rfl

/-- A compiled route embeds its body exactly when its body parameters have to share it. -/
theorem embedBody_iff (hcompile : Route.compileAll catalog declared = .ok (routes, graph))
    (hroute : route ∈ routes) : route.embedBody = true ↔ route.SharesBody graph := by
  have hneeds (p : CompiledParameter) := needs_iff_mem (p := p)
    (Route.compiled_of_compileAll hcompile hroute)
  rw [(yields_of_compileAll hcompile hroute).embed, ← allParameters_eq, needsEmbedding_iff]
  simp only [← hneeds]
  constructor
  · rintro (⟨p, hp, hplace, hembed⟩ | ⟨p, hp, q, hq, hplace, hother, hnames⟩)
    · exact .asked ⟨hp, hplace⟩ hembed
    · exact .apart ⟨hp, hplace⟩ ⟨hq, hother⟩ hnames
  · rintro (⟨hp, hembed⟩ | ⟨hp, hq, hnames⟩)
    · exact .inl ⟨_, hp.needs, hp.location, hembed⟩
    · exact .inr ⟨_, hp.needs, _, hq.needs, hp.location, hq.location, hnames⟩

/-- Whatever a route needs is looked up under the name that its declaration gives. -/
theorem key_of_needs (hcompile : Route.compileAll catalog declared = .ok (routes, graph))
    (hroute : route ∈ routes) (hneeds : route.Needs graph p) : p.key = p.declared.lookupKey := by
  cases hneeds with
  | own hp =>
      exact Parameter.key_of_compileAll (yields_of_compileAll hcompile hroute).parameters p hp
  | below hway hp =>
      have hcompiled := Route.compiled_of_compileAll hcompile hroute
      obtain ⟨i, _, hnode⟩ := hcompiled.listed_of_way hway
      obtain ⟨_, _, _, hparams⟩ := hcompiled.compileAll_of_node (List.mem_of_getElem? hnode)
      exact Parameter.key_of_compileAll hparams p hp

/-! ### The two ways to read a body -/

/-- Each body parameter that a route needs is the member of the body under its key, and absent when
there is none. A body that is no object is an error, with one issue that is about the body. -/
structure ReadsMembers (route : Route n σ) (graph : Graph n σ) (request : Request)
    (captures : List (String × String)) (value? : Option Json) : Prop where
  places : ∀ p, route.NeedsFromBody graph p →
    (route.binder request captures).placeOf p = [Location.body.text, p.declared.lookupKey]
  nothing : value? = none → ∀ p, route.NeedsFromBody graph p →
    (route.binder request captures).LooksUp p .absent
  members : ∀ members : Members, value? = some (.object members) →
    ∀ p, route.NeedsFromBody graph p → (route.binder request captures).LooksUp p
      (.ofOption (members.find? p.declared.lookupKey))
  other : ∀ v, value? = some v → (∀ members, v ≠ .object members) →
    ∃ issues, route.bind graph request captures = .error (.validation issues) ∧
      issues.filter (·.loc.head? = some Location.body.text) = [Binder.noObject v]

/-- The body parameters that a route needs have one name, and each of them is the entire body, or
absent when there is none. -/
structure ReadsWhole (route : Route n σ) (graph : Graph n σ) (request : Request)
    (captures : List (String × String)) (value? : Option Json) : Prop where
  named : ∀ p q, route.NeedsFromBody graph p → route.NeedsFromBody graph q →
    p.declared.name = q.declared.name
  places : ∀ p, route.NeedsFromBody graph p →
    (route.binder request captures).placeOf p = [Location.body.text]
  whole : ∀ p, route.NeedsFromBody graph p →
    (route.binder request captures).LooksUp p (.ofOption value?)

/-- When the body is no object although a route needs members of it, all that is reported about the
body is that. -/
theorem bind_of_unreadable {issue : Issue}
    (hunreadable : (route.binder request captures).unreadable? = some issue)
    (hloc : issue.loc.head? = some Location.body.text)
    (hp : p ∈ route.allParameters graph) (hplace : p.declared.location = .body) :
    ∃ issues, route.bind graph request captures = .error (.validation issues) ∧
      issues.filter (·.loc.head? = some Location.body.text) = [issue] := by
  let b := route.binder request captures
  have hmem : issue ∈ route.reported graph b := by
    refine List.mem_flatMap.mpr ⟨p, hp, ?_⟩
    rw [(Binder.alone_of_unreadable hplace hunreadable).1]
    exact List.mem_singleton_self issue
  obtain ⟨hnone, _⟩ | ⟨_, herror⟩ := bind_decides route graph request captures
  · rw [hnone] at hmem
    cases hmem
  · refine ⟨_, herror, ?_⟩
    -- No issue is left twice, and what is about the body is the issue that is given.
    apply List.perm_singleton.mp
    apply (List.perm_ext_iff_of_nodup ((Issue.firsts_nodup _).filter _)
      (List.nodup_singleton issue)).mpr
    have hsame (other : Issue) (hother : other ∈ Issue.firsts (route.reported graph b))
        (hbody : other.loc.head? = some Location.body.text) : other = issue := by
      obtain ⟨q, _, halone⟩ := List.mem_flatMap.mp (Issue.mem_of_mem_firsts hother)
      have hlocation := Binder.location_of_issue halone hbody
      rw [(Binder.alone_of_unreadable hlocation hunreadable).1] at halone
      exact List.mem_singleton.mp halone
    intro other
    rw [List.mem_filter, List.mem_singleton, decide_eq_true_eq]
    constructor
    · rintro ⟨hother, hbody⟩
      exact hsame other hother hbody
    · rintro rfl
      obtain ⟨first, hfirst, hequals⟩ := Issue.exists_mem_firsts hmem
      obtain rfl := hsame first hfirst (hequals.loc ▸ hloc)
      exact ⟨hfirst, hloc⟩

/-- Every route decides for itself how its body is read, and does so consistently. When some body
parameter that the route needs, of its own or for a dependency that its references lead to, asks to
be embedded, or when two of them have different names, then each of them is the member of the body
under its key. Otherwise all of them have one name, and each of them is the entire body. -/
theorem body_read_consistently
    (hcompile : Route.compileAll catalog declared = .ok (routes, graph)) (hroute : route ∈ routes)
    {value? : Option Json} (hbody : (route.binder request captures).body = .ok value?) :
    (route.SharesBody graph → route.ReadsMembers graph request captures value?) ∧
    (¬ route.SharesBody graph → route.ReadsWhole graph request captures value?) := by
  have hcompiled := Route.compiled_of_compileAll hcompile hroute
  have hdecided := embedBody_iff hcompile hroute
  constructor
  · intro hshares
    have hembed : (route.binder request captures).embed = true := hdecided.mpr hshares
    refine ⟨?_, ?_, ?_, ?_⟩
    · intro p hp
      simp only [Binder.placeOf, hp.location, hembed, key_of_needs hcompile hroute hp.needs]
      rfl
    · rintro rfl p hp
      exact Binder.looksUp_nothing hp.location hbody
    · rintro members rfl p hp
      rw [← key_of_needs hcompile hroute hp.needs]
      exact Binder.looksUp_member hp.location hembed hbody
    · rintro v rfl hother
      obtain ⟨p, hp⟩ := hshares.exists_needed
      exact bind_of_unreadable (Binder.unreadable?_of_other hembed hbody hother) rfl
        (hp.needs.mem_allParameters hcompiled) hp.location
  · intro halone
    have hembed : (route.binder request captures).embed = false := by
      rw [← Bool.not_eq_true]
      exact fun hembed => halone (hdecided.mp hembed)
    refine ⟨?_, ?_, ?_⟩
    · intro p q hp hq
      by_contra hnames
      exact halone (.apart hp hq hnames)
    · intro p hp
      simp only [Binder.placeOf, hp.location, hembed]
      rfl
    · intro p hp
      exact Binder.looksUp_whole hp.location hembed hbody

/-- A buyer who is read from the body. -/
def buyerCatalog : Catalog 1 Unit where
  dependency _ :=
    { GraphBuilder.plainDependency "buyer" [] [] with parameters := [.ofBody "buyer"] }
  overrides := []

/-- A route that requires the buyer and has body parameters of its own. -/
def buyingRoute (pattern : String) (parameters : List Parameter) : RouteDeclaration 1 Unit where
  method := "POST"
  pattern := pattern
  handlerName := "buy"
  handler := .inline fun _ effects => (.value .empty, effects)
  parameters := parameters
  references := [⟨"buyer", ⟨0, Nat.one_pos⟩, []⟩]
  response := .unspecified

/-- A request with a body. -/
def posted (text : String) : Request :=
  { (default : Request) with body := Text.Utf8.encode text }

theorem body_posted (route : Route n σ) (text : String) (v : Json)
    (hblank : (Text.Utf8.encode text).all Text.isBlankByte = false)
    (hparse : Json.parse (Text.Utf8.encode text) = .ok v) :
    (route.binder (posted text) []).body = .ok (some v) := by
  simp only [Binder.body, binder, posted, hblank, hparse, Bool.false_eq_true, ↓reduceIte]

/-- The buyer is the entire body of one route. The other has a note as well, and there the buyer is
a member of the body, for which a number will not do. -/
theorem body_read_consistently_sample :
    ∃ routes graph whole shared p,
      Route.compileAll buyerCatalog
        [buyingRoute "/carts" [], buyingRoute "/orders" [.ofBody "note"]] = .ok (routes, graph) ∧
      routes = [whole, shared] ∧
      whole.NeedsFromBody graph p ∧ shared.NeedsFromBody graph p ∧
      (whole.binder (posted "\x7b\"buyer\":7\x7d") []).LooksUp p
        (.json (.object [("buyer", .number (.int 7))])) ∧
      (shared.binder (posted "\x7b\"buyer\":7\x7d") []).LooksUp p (.json (.number (.int 7))) ∧
      ∃ issues, shared.bind graph (posted "7") [] = .error (.validation issues) ∧
        issues.filter (·.loc.head? = some Location.body.text) =
          [Binder.noObject (.number (.int 7))] := by
  obtain ⟨routes, graph, whole, shared, p, note, hcompile, hroutes, hfirst, hsecond, hown, hhere,
      halone, hkey⟩ :
      ∃ routes graph whole shared p note,
        Route.compileAll buyerCatalog
          [buyingRoute "/carts" [], buyingRoute "/orders" [.ofBody "note"]] = .ok (routes, graph) ∧
        routes = [whole, shared] ∧
        whole.NeedsFromBody graph p ∧ shared.NeedsFromBody graph p ∧
        shared.NeedsFromBody graph note ∧ p.declared.name ≠ note.declared.name ∧
        whole.embedBody = false ∧ p.declared.lookupKey = "buyer" :=
    ⟨_, _, _, _, _, _, rfl, rfl,
      ⟨.below (.here (List.mem_singleton_self _) rfl) (List.mem_singleton_self _), rfl⟩,
      ⟨.below (.here (List.mem_singleton_self _) rfl) (List.mem_singleton_self _), rfl⟩,
      ⟨.own (List.mem_singleton_self _), rfl⟩, (by decide : "buyer" ≠ "note"), rfl, rfl⟩
  have hwhole : whole ∈ routes := hroutes ▸ List.mem_cons_self
  have hshared : shared ∈ routes := hroutes ▸ List.mem_cons_of_mem _ List.mem_cons_self
  have hobject (route : Route 1 Unit) := body_posted route "\x7b\"buyer\":7\x7d"
    (.object [("buyer", .number (.int 7))]) (by decide) (by cbv)
  have hnumber := body_posted shared "7" (.number (.int 7)) (by decide) (by cbv)
  have hentire := (body_read_consistently hcompile hwhole (hobject whole)).2 (by
    rw [← embedBody_iff hcompile hwhole, halone]
    exact Bool.false_ne_true)
  have hmember := (body_read_consistently hcompile hshared (hobject shared)).1
    (.apart hsecond hown hhere)
  have hother := (body_read_consistently hcompile hshared hnumber).1 (.apart hsecond hown hhere)
  refine ⟨routes, graph, whole, shared, p, hcompile, hroutes, hfirst, hsecond,
    hentire.whole p hfirst, ?_, hother.other _ rfl (by simp)⟩
  have hfound := hmember.members _ rfl p hsecond
  rwa [hkey] at hfound

end Route

end RequestDispatch
