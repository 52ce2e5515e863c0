import RequestDispatch.Proofs.Route.Aggregation

/-!
What stands under the name of a parameter. Parameters of one owner are told apart by location and
name, and their values are kept by name alone. So under a name stands the value of the last
parameter of that name that has one, and a parameter that was sent is found under its name unless a
later one of the same name, in another location, has a value as well.
-/

namespace RequestDispatch

variable {n : Nat} {σ : Type}

namespace Members

theorem find?_cons (name other : String) (v : Json) (rest : Members) :
    find? ((name, v) :: rest) other = if other = name then some v else find? rest other := by
  by_cases hsame : other = name
  · simp [find?, hsame]
  · simp [find?, hsame, Ne.symm hsame]

theorem find?_insert (name other : String) (v : Json) (members : Members) :
    find? (members.insert name v) other =
      if other = name then some v else members.find? other := by
  induction members with
  | nil => exact find?_cons name other v []
  | cons member rest ih =>
      obtain ⟨first, w⟩ := member
      simp only [insert]
      split
      · rename_i hreplaced
        subst hreplaced
        rw [find?_cons, find?_cons]
        split <;> rfl
      · rename_i hkept
        split
        · rw [find?_cons]
        · rw [find?_cons, ih, find?_cons]
          by_cases hfirst : other = first
          · subst hfirst
            rw [if_pos rfl, if_pos rfl, if_neg (Ne.symm hkept)]
          · rw [if_neg hfirst, if_neg hfirst]

end Members

namespace Binder

variable {b : Binder}

theorem handles_alone (p : CompiledParameter) :
    b.Handles p (.beginning .fresh) (b.alone p) :=
  bindOne_handles p knows_fresh

/-- A parameter alone has a value under its own name, or none. -/
theorem alone_values (b : Binder) (p : CompiledParameter) :
    (b.alone p).values = [] ∨ ∃ v, (b.alone p).values = [(p.declared.name, v)] := by
  cases handles_alone (b := b) p with
  | bound _ hvalues _ => exact .inr ⟨_, hvalues⟩
  | refused _ _ hvalues _ => exact .inl hvalues
  | unheard _ _ hvalues _ => exact .inl hvalues
  | defaulted _ _ hvalues => exact .inr ⟨_, hvalues⟩
  | omitted _ hvalues => exact .inl hvalues

/-- A parameter that was sent, and for which nothing is reported, has the value that it was
coerced to. -/
theorem alone_of_found {p : CompiledParameter} (hfound : b.finds p ≠ .absent)
    (hissues : (b.alone p).issues = []) :
    ∃ v, b.Vouches p v ∧ (b.alone p).values = [(p.declared.name, v)] := by
  cases handles_alone (b := b) p with
  | bound hvouches hvalues _ => exact ⟨_, hvouches, hvalues⟩
  | refused hreported _ _ hadded => exact absurd (hadded.symm.trans hissues) hreported
  | unheard _ _ _ hadded => cases hadded.symm.trans hissues
  | defaulted habsent => exact absurd habsent hfound
  | omitted habsent => exact absurd habsent hfound

/-- A parameter that was not sent and has no default has no value. -/
theorem alone_of_absent {p : CompiledParameter} (habsent : b.finds p = .absent)
    (hnone : p.declared.default = none) : (b.alone p).values = [] := by
  cases handles_alone (b := b) p with
  | bound hvouches _ _ =>
      have hreceived := hvouches.received
      rw [habsent] at hreceived
      cases hreceived
  | refused _ _ hvalues _ => exact hvalues
  | unheard _ _ hvalues _ => exact hvalues
  | defaulted _ hdefault =>
      rw [hnone] at hdefault
      cases hdefault
  | omitted _ hvalues => exact hvalues

theorem find?_insertAll_alone (values : Members) (p : CompiledParameter) (name : String) :
    (values.insertAll (b.alone p).values).find? name =
      ((b.alone p).values.find? name).or (values.find? name) := by
  obtain hnone | ⟨v, hvalue⟩ := b.alone_values p
  · rw [hnone]
    rfl
  · rw [hvalue, Members.find?_cons]
    simp only [Members.insertAll, List.foldl_cons, List.foldl_nil, Members.find?_insert]
    split <;> rfl

/-- Under a name stands the value of the last parameter that has one for it. -/
theorem find?_bindFrom (params : List CompiledParameter) (name : String) :
    (b.bindFrom .fresh params).values.find? name =
      params.reverse.findSome? fun p => (b.alone p).values.find? name := by
  rw [(bindFrom_eq params .fresh knows_fresh).2.2.1]
  induction params using List.reverseRecOn with
  | nil => rfl
  | append_singleton before p ih =>
      rw [List.foldl_append, List.foldl_cons, List.foldl_nil, find?_insertAll_alone, ih,
        List.reverse_concat, List.findSome?_cons]
      cases (b.alone p).values.find? name <;> rfl

/-- A value that no later parameter replaces is found under its name. -/
theorem find?_of_unreplaced {before after : List CompiledParameter} {p : CompiledParameter}
    {v : Json} (hvalue : (b.alone p).values = [(p.declared.name, v)])
    (hlater : ∀ q ∈ after, q.declared.name = p.declared.name → (b.alone q).values = []) :
    (b.bindFrom .fresh (before ++ p :: after)).values.find? p.declared.name = some v := by
  rw [find?_bindFrom, List.findSome?_eq_some_iff]
  refine ⟨after.reverse, p, before.reverse, by simp, ?_, ?_⟩
  · rw [hvalue, Members.find?_cons, if_pos rfl]
  · intro q hq
    obtain hnone | ⟨w, hw⟩ := b.alone_values q
    · rw [hnone]
      rfl
    · have hother : p.declared.name ≠ q.declared.name := by
        intro hsame
        have hnone := hlater q (List.mem_reverse.mp hq) hsame.symm
        rw [hw] at hnone
        cases hnone
      rw [hw, Members.find?_cons, if_neg hother]
      rfl

end Binder

namespace Route

variable {catalog : Catalog n σ} {route : Route n σ} {graph : Graph n σ} {request : Request}
  {captures : List (String × String)}

/-- The parameters of the route, or of a node that it reaches, and what they are bound to. -/
inductive Assigns (route : Route n σ) (graph : Graph n σ) (bound : BoundRequest) :
    List CompiledParameter → Members → Prop where
  | own : Assigns route graph bound route.parameters bound.route
  | below {i : Nat} {node : Node n} (hi : i ∈ route.plan.reachable)
      (hnode : graph.nodes[i]? = some node) :
      Assigns route graph bound node.parameters (bound.node i)

variable {bound : BoundRequest} {params : List CompiledParameter} {values : Members}

theorem Assigns.mem_allParameters (hassigns : route.Assigns graph bound params values)
    {p : CompiledParameter} (hp : p ∈ params) : p ∈ route.allParameters graph := by
  cases hassigns with
  | own => exact List.mem_append_left _ hp
  | below hi hnode => exact mem_allParameters_of_node hi hnode hp

theorem Assigns.values_eq (hassigns : route.Assigns graph bound params values)
    (hbind : route.bind graph request captures = .ok bound) :
    values = ((route.binder request captures).bindFrom .fresh params).values := by
  obtain ⟨_, hown, hbelow⟩ := bind_ok hbind
  cases hassigns with
  | own => exact hown
  | below hi hnode =>
      rw [hbelow _ hi (List.getElem?_eq_some_iff.mp hnode).1, Graph.parametersAt_eq hnode]

/-- No owner has two parameters of one location and name. -/
theorem Assigns.sites_nodup {declared : List (RouteDeclaration n σ)} {routes : List (Route n σ)}
    (hcompile : Route.compileAll catalog declared = .ok (routes, graph)) (hroute : route ∈ routes)
    (hassigns : route.Assigns graph bound params values) :
    (params.map fun p => p.declared.site).Nodup := by
  have hcompiled : ∃ owner permit declared,
      Parameter.compileAll owner permit [] declared = .ok params := by
    cases hassigns with
    | own => exact ⟨_, _, _, (yields_of_compileAll hcompile hroute).parameters⟩
    | below _ hnode =>
        exact (Route.compiled_of_compileAll hcompile hroute).compileAll_of_node
          (List.mem_of_getElem? hnode)
  obtain ⟨_, _, _, hparams⟩ := hcompiled
  obtain ⟨rfl, _, hdistinct, _⟩ := Parameter.compileAll_ok hparams
  rwa [List.map_map] at hdistinct

/-- What stands under the name of a parameter. When a route is bound, then of its own parameters
and of those of each node that it reaches, the last one of a name that has a value stands under the
name. A parameter that was sent has the value that it was coerced to, of its type and approved. That
value is found under the name of the parameter, unless a later parameter of the same name, in another
location, was sent as well or has a default. -/
theorem bind_retrieves {declared : List (RouteDeclaration n σ)} {routes : List (Route n σ)}
    (hcompile : Route.compileAll catalog declared = .ok (routes, graph)) (hroute : route ∈ routes)
    (hbind : route.bind graph request captures = .ok bound)
    (hassigns : route.Assigns graph bound params values) :
    let b := route.binder request captures
    (∀ name, values.find? name =
      params.reverse.findSome? fun p => (b.alone p).values.find? name) ∧
    ∀ before p after, params = before ++ p :: after → b.finds p ≠ .absent →
      ∃ v, b.Vouches p v ∧ (b.alone p).values = [(p.declared.name, v)] ∧
        ((∀ q ∈ after, q.declared.name = p.declared.name →
            q.declared.location ≠ p.declared.location →
            b.finds q = .absent ∧ q.declared.default = none) →
          values.find? p.declared.name = some v) := by
  intro b
  have hvalues : values = (b.bindFrom .fresh params).values := hassigns.values_eq hbind
  have hissues : ∀ p ∈ route.allParameters graph, (b.alone p).issues = [] :=
    bind_eq_ok_iff.mp ⟨bound, hbind⟩
  refine ⟨fun name => hvalues ▸ Binder.find?_bindFrom params name, ?_⟩
  rintro before p after rfl hfound
  have hp := hassigns.mem_allParameters (List.mem_append_right before List.mem_cons_self)
  obtain ⟨v, hvouches, hvalue⟩ := Binder.alone_of_found hfound (hissues p hp)
  refine ⟨v, hvouches, hvalue, ?_⟩
  intro hlater
  rw [hvalues]
  apply Binder.find?_of_unreplaced hvalue
  intro q hq hname
  -- Two parameters of one name stand at different sites, so in different locations.
  have hsites := hassigns.sites_nodup hcompile hroute
  rw [List.map_append, List.map_cons, List.nodup_append, List.nodup_cons] at hsites
  have hlocation : q.declared.location ≠ p.declared.location := by
    intro hsame
    have hsite : q.declared.site = p.declared.site := by rw [Parameter.site, hsame, hname]; rfl
    exact hsites.2.1.1 (hsite ▸ List.mem_map_of_mem hq)
  obtain ⟨habsent, hnone⟩ := hlater q hq hname hlocation
  exact Binder.alone_of_absent habsent hnone

def bareCatalog : Catalog 0 Unit where
  dependency i := i.elim0
  overrides := []

/-- A route without dependencies. -/
def plainRoute (pattern : String) (parameters : List Parameter) : RouteDeclaration 0 Unit :=
  { RouteDeclaration.of "GET" pattern "show" (.inline fun _ effects => (.value .empty, effects))
      with parameters }

/-- A token in the query, or another one in a header. -/
def tokenRoute : RouteDeclaration 0 Unit :=
  plainRoute "/items"
    [.ofType "token" .query .string, (Parameter.ofType "token" .header .string).optional]

/-- Without the header, the token of the query is found. -/
theorem bind_retrieves_sample :
    ∃ routes graph route bound,
      Route.compileAll bareCatalog [tokenRoute] = .ok (routes, graph) ∧ route ∈ routes ∧
      route.bind graph (queried "token=t") [] = .ok bound ∧
      bound.route.find? "token" = some (.string "t") := by
  obtain ⟨routes, graph, route, bound, query, header, hcompile, hroute, hbind, hparams, hfound,
      halone, habsent, hnone⟩ :
      ∃ routes graph route bound query header,
        Route.compileAll bareCatalog [tokenRoute] = .ok (routes, graph) ∧ route ∈ routes ∧
        route.bind graph (queried "token=t") [] = .ok bound ∧
        route.parameters = [] ++ query :: [header] ∧
        (route.binder (queried "token=t") []).finds query = .texts ["t"] ∧
        ((route.binder (queried "token=t") []).alone query).values = [("token", .string "t")] ∧
        (route.binder (queried "token=t") []).finds header = .absent ∧
        header.declared.default = none :=
    ⟨_, _, _, _, _, _, rfl, List.mem_singleton_self _, rfl, rfl, rfl, rfl, rfl, rfl⟩
  obtain ⟨_, hretrieves⟩ := bind_retrieves hcompile hroute hbind .own
  obtain ⟨v, _, hvalue, hunreplaced⟩ := hretrieves [] query [header] hparams (by simp [hfound])
  rw [halone, List.singleton_inj, Prod.mk.injEq] at hvalue
  obtain ⟨hname, rfl⟩ := hvalue
  refine ⟨routes, graph, route, bound, hcompile, hroute, hbind, ?_⟩
  rw [hname]
  apply hunreplaced
  intro q hq _ _
  obtain rfl := List.mem_singleton.mp hq
  exact ⟨habsent, hnone⟩

/-- The identifier in the query is declared as a number, and a placeholder has its name. -/
def itemQueryRoute : RouteDeclaration 0 Unit :=
  plainRoute "/items/{id}" [.ofType "id" .query .int]

/-- A declared parameter is lost to the placeholder of its name: it was sent and has a number as its
value, and under its name stands the text of the path. -/
theorem replaced_parameter :
    ∃ routes graph table route captures bound p,
      Route.compileAll bareCatalog [itemQueryRoute] = .ok (routes, graph) ∧
      Table.ofEntries (routes.map Route.entry) = .ok table ∧
      table.route "GET" "/items/seven" = .matched route captures ∧
      route.bind graph (queried "id=7") captures = .ok bound ∧
      p ∈ route.parameters ∧ p.declared ∈ itemQueryRoute.parameters ∧ p.declared.name = "id" ∧
      (route.binder (queried "id=7") captures).finds p = .texts ["7"] ∧
      ((route.binder (queried "id=7") captures).alone p).values = [("id", .number (.int 7))] ∧
      bound.route.find? "id" = some (.string "seven") :=
  ⟨_, _, _, _, _, _, _, rfl, rfl, rfl, rfl, List.mem_cons_self, List.mem_singleton_self _, rfl, rfl,
    rfl, rfl⟩

end Route

end RequestDispatch
