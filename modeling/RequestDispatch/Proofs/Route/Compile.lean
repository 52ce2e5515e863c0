import RequestDispatch.Proofs.Dependency.Nodes
import RequestDispatch.Proofs.Dependency.Routes
import RequestDispatch.Proofs.Parameter.Declaration
import RequestDispatch.Proofs.Routing.Captures

/-!
What compiling routes reads and checks. A compiled route has one path parameter for each placeholder
of its template and no others, and every path parameter of a dependency that it can reach is named
like a placeholder as well. Whether the body is embedded is told by the parameters of the route and
of these dependencies.
-/

namespace RequestDispatch

variable {n : Nat} {σ : Type}

theorem Parameter.declared_of_compile {p : Parameter} {owner : String}
    {compiled : CompiledParameter} (hcompile : p.compile owner = .ok compiled) :
    compiled.declared = p := by
  unfold compile at hcompile
  split at hcompile
  · cases hcompile
  · split at hcompile
    · cases hcompile
    · cases hcompile
      rfl

/-- Whatever is compiled looks up the name that its declaration gives. -/
theorem Parameter.key_of_compile {p : Parameter} {owner : String} {compiled : CompiledParameter}
    (hcompile : p.compile owner = .ok compiled) : compiled.key = compiled.declared.lookupKey := by
  unfold compile at hcompile
  split at hcompile
  · cases hcompile
  · split at hcompile
    · cases hcompile
    · cases hcompile
      rfl

theorem Parameter.key_of_compileAll {owner : String}
    {permit : Parameter → Except RegistrationError Unit} {seen : List (Location × String)}
    {params : List Parameter} {compiled : List CompiledParameter}
    (hcompile : compileAll owner permit seen params = .ok compiled) :
    ∀ c ∈ compiled, c.key = c.declared.lookupKey := by
  induction params generalizing seen compiled with
  | nil =>
      cases hcompile
      exact List.forall_mem_nil _
  | cons p rest ih =>
      simp only [compileAll] at hcompile
      split at hcompile
      · cases hcompile
      · split at hcompile
        · cases hcompile
        · split at hcompile
          · cases hcompile
          · rename_i first hfirst
            cases hrest : compileAll owner permit ((p.location, p.name) :: seen) rest with
            | error fault =>
                rw [hrest] at hcompile
                cases hcompile
            | ok more =>
                rw [hrest] at hcompile
                cases hcompile
                exact List.forall_mem_cons.mpr ⟨key_of_compile hfirst, ih hrest⟩

/-- Declarations that compile are all there, none twice, and all permitted. -/
theorem Parameter.compileAll_ok {owner : String}
    {permit : Parameter → Except RegistrationError Unit}
    {seen : List (Location × String)} {params : List Parameter}
    {compiled : List CompiledParameter}
    (hcompile : compileAll owner permit seen params = .ok compiled) :
    compiled.map (·.declared) = params ∧ (∀ p ∈ params, p.site ∉ seen) ∧
      (params.map site).Nodup ∧ ∀ p ∈ params, permit p = .ok () := by
  induction params generalizing seen compiled with
  | nil =>
      cases hcompile
      exact ⟨rfl, by simp, List.nodup_nil, by simp⟩
  | cons p rest ih =>
      simp only [compileAll] at hcompile
      split at hcompile
      · cases hcompile
      · rename_i hnew
        split at hcompile
        · cases hcompile
        · rename_i hpermit
          split at hcompile
          · cases hcompile
          · rename_i first hfirst
            cases hrest : compileAll owner permit ((p.location, p.name) :: seen) rest with
            | error fault =>
                rw [hrest] at hcompile
                cases hcompile
            | ok more =>
                rw [hrest] at hcompile
                cases hcompile
                obtain ⟨hdeclared, hunseen, hdistinct, hpermitted⟩ := ih hrest
                refine ⟨by rw [List.map_cons, declared_of_compile hfirst, hdeclared], ?_, ?_, ?_⟩
                · intro q hq
                  obtain rfl | hq := List.mem_cons.mp hq
                  · exact hnew
                  · exact fun hseen => hunseen q hq (List.mem_cons_of_mem _ hseen)
                · rw [List.map_cons, List.nodup_cons]
                  refine ⟨?_, hdistinct⟩
                  intro hagain
                  obtain ⟨q, hq, hsame⟩ := List.mem_map.mp hagain
                  exact hunseen q hq (hsame ▸ List.mem_cons_self)
                · intro q hq
                  obtain rfl | hq := List.mem_cons.mp hq
                  · exact hpermit
                  · exact hpermitted q hq

/-- A loop over checks that comes to its end has passed each of them. -/
theorem ok_of_forM {α ε : Type} {check : α → Except ε Unit} {items : List α}
    (hchecked : items.forM check = .ok ()) : ∀ a ∈ items, check a = .ok () := by
  rw [List.forM_eq_forM] at hchecked
  induction items with
  | nil =>
      rintro a ⟨⟩
  | cons first rest ih =>
      rw [List.forM_cons] at hchecked
      cases hfirst : check first with
      | error fault =>
          rw [hfirst] at hchecked
          cases hchecked
      | ok _ =>
          rw [hfirst] at hchecked
          intro a ha
          obtain rfl | hrest := List.mem_cons.mp ha
          · exact hfirst
          · exact ih hchecked a hrest

namespace RouteDeclaration

variable {catalog : Catalog n σ}

theorem name_of_permit {route : String} {template : Template} {p : Parameter}
    (hpermit : permit route template p = .ok ()) (hpath : p.location = .path) :
    p.name ∈ template.names := by
  by_contra hunknown
  rw [permit, if_pos ⟨hpath, hunknown⟩] at hpermit
  cases hpermit

theorem name_of_permitNode {declared : RouteDeclaration n σ} {template : Template}
    {node : Node n} (hpermit : declared.permitNode template catalog node = .ok ())
    {p : CompiledParameter} (hp : p ∈ node.parameters) (hpath : p.declared.location = .path) :
    p.declared.name ∈ template.names :=
  name_of_permit (ok_of_forM hpermit p hp) hpath

/-- A compiled route: its template and parameters are read from the declaration, its parameters and
those of the nodes that it reaches tell whether the body is embedded, and these nodes are
permitted. -/
structure Yields (declared : RouteDeclaration n σ) (catalog : Catalog n σ)
    (nodes : List (Node n)) (route : Route n σ) : Prop where
  template : Template.parse declared.pattern = .ok route.template
  parameters : Parameter.compileAll declared.description
    (permit declared.description route.template) []
    (declared.parameters ++ declared.implicitParameters route.template) = .ok route.parameters
  embed : route.embedBody = needsEmbedding (bodyParameters (route.parameters ++
    (route.plan.reachable.filterMap fun i => nodes[i]?).flatMap (·.parameters)))
  nodes : ∀ i ∈ route.plan.reachable, ∀ node, nodes[i]? = some node →
    declared.permitNode route.template catalog node = .ok ()

theorem Compiles.yields {declared : RouteDeclaration n σ} {b last : GraphBuilder n}
    {route : Route n σ} (hcompiles : declared.Compiles catalog b last route) :
    declared.Yields catalog last.nodes route := by
  refine ⟨hcompiles.template, hcompiles.parameters, hcompiles.embed, ?_⟩
  intro i hi node hnode
  exact ok_of_forM hcompiles.permitted node (List.mem_filterMap.mpr ⟨i, hi, hnode⟩)

/-- In the graph that is finished later, a route reaches the same nodes. -/
theorem Yields.mono {declared : RouteDeclaration n σ} {nodes more : List (Node n)}
    {route : Route n σ} (hyields : declared.Yields catalog nodes route) (hmore : nodes <+: more)
    (hreachable : ∀ i ∈ route.plan.reachable, i < nodes.length) :
    declared.Yields catalog more route := by
  obtain ⟨rest, rfl⟩ := hmore
  have hsame : ∀ i ∈ route.plan.reachable, (nodes ++ rest)[i]? = nodes[i]? :=
    fun i hi => List.getElem?_append_left (hreachable i hi)
  refine ⟨hyields.template, hyields.parameters, ?_, ?_⟩
  · rw [List.filterMap_congr hsame]
    exact hyields.embed
  · intro i hi node hnode
    exact hyields.nodes i hi node ((hsame i hi).symm.trans hnode)

theorem yields_of_compileAll {declared : List (RouteDeclaration n σ)} {b last : GraphBuilder n}
    {routes : List (Route n σ)} (hsound : b.Sound catalog)
    (hcompile : compileAll catalog declared b = .ok (routes, last)) {route : Route n σ}
    (hroute : route ∈ routes) : route.declared.Yields catalog last.nodes route := by
  obtain ⟨hlast, hroutes⟩ := compileAll_ok hcompile
  obtain ⟨before, after, hsplit, next, hcompiles⟩ := hroutes route hroute
  -- The builder of the routes before it, then that of the route, then that of the routes after it.
  have hbefore := GraphBuilder.planEach_keeps catalog before b hsound
  have hthen := (GraphBuilder.plan_follows catalog route.declared.references _ hbefore.sound).1
  have hlater := GraphBuilder.planEach_keeps catalog after _ hthen.sound
  have hnodes : next.nodes <+: last.nodes := by
    rw [hlast, hsplit, GraphBuilder.planEach_append, hcompiles.last_eq]
    exact hlater.nodes
  apply hcompiles.yields.mono hnodes
  intro i hi
  rw [hcompiles.last_eq]
  exact GraphBuilder.plan_lt_length hbefore.sound hcompiles.plan i (List.mem_append_right _ hi)

end RouteDeclaration

namespace Route

variable {catalog : Catalog n σ} {declared : List (RouteDeclaration n σ)}
  {routes : List (Route n σ)} {graph : Graph n σ} {route : Route n σ}

theorem yields_of_compileAll (hcompile : Route.compileAll catalog declared = .ok (routes, graph))
    (hroute : route ∈ routes) : route.declared.Yields catalog graph.nodes route := by
  unfold Route.compileAll at hcompile
  cases hall : RouteDeclaration.compileAll catalog declared .empty with
  | error fault =>
      rw [hall] at hcompile
      cases hcompile
  | ok result =>
      rw [hall] at hcompile
      cases hcompile
      exact RouteDeclaration.yields_of_compileAll (GraphBuilder.sound_empty catalog) hall hroute

/-- The path parameters of a route have the names of its placeholders, each once. -/
theorem path_names (hyields : route.declared.Yields catalog graph.nodes route) :
    ((route.parameters.filter fun p => p.declared.location = .path).map
      (·.declared.name)).Perm route.template.names := by
  obtain ⟨hdeclared, _, hdistinct, hpermitted⟩ := Parameter.compileAll_ok hyields.parameters
  have hplaceholders := Template.names_nodup hyields.template
  rw [← hdeclared] at hdistinct hpermitted
  apply (List.perm_ext_iff_of_nodup ?_ hplaceholders).mpr
  · intro name
    simp only [List.mem_map, List.mem_filter, decide_eq_true_eq]
    constructor
    · rintro ⟨p, ⟨hp, hpath⟩, rfl⟩
      exact RouteDeclaration.name_of_permit (hpermitted _ (List.mem_map_of_mem hp)) hpath
    · intro hname
      -- A placeholder without a declared parameter has an implicit one.
      have hthere : ∃ q ∈ route.parameters.map (·.declared),
          q.location = .path ∧ q.name = name := by
        rw [hdeclared]
        by_cases hany : route.declared.parameters.any
            fun p => p.location = .path && p.name = name
        · obtain ⟨q, hq, hsame⟩ := List.any_eq_true.mp hany
          simp only [Bool.and_eq_true, decide_eq_true_eq] at hsame
          exact ⟨q, List.mem_append_left _ hq, hsame⟩
        · refine ⟨_, List.mem_append_right _ (List.mem_map_of_mem (a := name) ?_), rfl, rfl⟩
          rw [List.mem_filter]
          exact ⟨hname, by simpa using hany⟩
      obtain ⟨q, hq, hpath, hsame⟩ := hthere
      obtain ⟨p, hp, rfl⟩ := List.mem_map.mp hq
      exact ⟨p, ⟨hp, hpath⟩, hsame⟩
  · -- Two path parameters of one name would stand at the same site.
    rw [List.map_map] at hdistinct
    have hsites := (List.filter_sublist (p := fun p : CompiledParameter =>
      decide (p.declared.location = .path))).map (Parameter.site ∘ (·.declared))
        |>.nodup hdistinct
    have hpaths : (route.parameters.filter fun p => p.declared.location = .path).map
        (Parameter.site ∘ (·.declared)) =
      ((route.parameters.filter fun p => p.declared.location = .path).map
        (·.declared.name)).map (Location.path, ·) := by
      rw [List.map_map]
      apply List.map_congr_left
      intro p hp
      simp only [List.mem_filter, decide_eq_true_eq] at hp
      simp only [Function.comp_apply, Parameter.site, hp.2]
    rw [hpaths] at hsites
    exact hsites.of_map _

end Route

end RequestDispatch
