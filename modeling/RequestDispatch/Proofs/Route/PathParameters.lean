import RequestDispatch.Proofs.Parameter.Missing
import RequestDispatch.Proofs.Route.Bind
import RequestDispatch.Proofs.Route.Compile

/-!
A matched request supplies its path parameters. The template of a route, the parameters that are
compiled for it and for the dependencies it can reach, the captures of a match, and the names under
which the binder looks them up fit together: no path parameter is ever missing or defaulted.
-/

namespace RequestDispatch

variable {n : Nat} {σ : Type}

namespace Route

/-- A parameter that a route needs: its own, or one of a dependency that its references lead to. -/
inductive Needs (route : Route n σ) (graph : Graph n σ) : CompiledParameter → Prop where
  | own {p : CompiledParameter} (hp : p ∈ route.parameters) : Needs route graph p
  | below {p : CompiledParameter} {way : List Edge} {node : Node n}
      (hway : graph.Way route.plan.roots way node) (hp : p ∈ node.parameters) :
      Needs route graph p

variable {catalog : Catalog n σ} {route : Route n σ} {graph : Graph n σ}

theorem Needs.mem_allParameters {references : List (Reference n)}
    (hcompiled : Compiled catalog references graph route.plan) {p : CompiledParameter}
    (hneeds : route.Needs graph p) : p ∈ route.allParameters graph := by
  cases hneeds with
  | own hp => exact List.mem_append_left _ hp
  | below hway hp =>
      obtain ⟨i, hi, hnode⟩ := hcompiled.listed_of_way hway
      exact mem_allParameters_of_node hi hnode hp

/-- The parameters that are bound for a route are those that it needs. -/
theorem needs_iff_mem {references : List (Reference n)}
    (hcompiled : Compiled catalog references graph route.plan) {p : CompiledParameter} :
    route.Needs graph p ↔ p ∈ route.allParameters graph := by
  refine ⟨Needs.mem_allParameters hcompiled, ?_⟩
  intro hp
  obtain hown | hbelow := List.mem_append.mp hp
  · exact .own hown
  · obtain ⟨params, hgroup, hp⟩ := List.mem_flatten.mp hbelow
    obtain ⟨i, hi, rfl⟩ := List.mem_map.mp hgroup
    obtain ⟨way, node, hnode, hway⟩ := hcompiled.way_of_listed i hi
    exact .below hway (Graph.parametersAt_eq hnode ▸ hp)

/-- Path parameters are named like placeholders, wherever they come from. -/
theorem name_of_mem_allParameters (hyields : route.declared.Yields catalog graph.nodes route)
    {p : CompiledParameter} (hp : p ∈ route.allParameters graph)
    (hpath : p.declared.location = .path) : p.declared.name ∈ route.template.names := by
  obtain hown | hbelow := List.mem_append.mp hp
  · apply (path_names hyields).mem_iff.mp
    apply List.mem_map_of_mem
    rw [List.mem_filter]
    exact ⟨hown, by simpa using hpath⟩
  · obtain ⟨params, hgroup, hp⟩ := List.mem_flatten.mp hbelow
    obtain ⟨i, hi, rfl⟩ := List.mem_map.mp hgroup
    rw [Graph.parametersAt] at hp
    cases hnode : graph.nodes[i]? with
    | none =>
        rw [hnode] at hp
        cases hp
    | some node =>
        rw [hnode] at hp
        exact RouteDeclaration.name_of_permitNode (hyields.nodes i hi node hnode) hp hpath

/-- A match of a compiled route supplies the texts of all path parameters: for each of them the
decoded piece of the path at the place of its placeholder, and nothing else. -/
theorem lookUpTexts_of_matched (hyields : route.declared.Yields catalog graph.nodes route)
    {pieces : List String} (hfits : route.entry.Fits pieces) (request : Request)
    {p : CompiledParameter} (hp : p ∈ route.allParameters graph)
    (hpath : p.declared.location = .path) :
    ∃ (place : Nat) (type : Option ParamType) (piece : String),
      route.template.segments[place]? = some (.placeholder p.declared.name type) ∧
      pieces[place]? = some piece ∧
      (route.binder request (route.entry.captures pieces)).lookUpTexts p =
        [Text.Percent.decode piece] := by
  have hname := name_of_mem_allParameters hyields hp hpath
  obtain ⟨place, type, piece, hsegment, hpiece, hfilter⟩ :=
    Entry.capture_of_name hfits (Template.names_nodup hyields.template) hname
  refine ⟨place, type, piece, hsegment, hpiece, ?_⟩
  simp only [Binder.lookUpTexts, hpath, binder, hfilter]
  rfl

/-- A matched request supplies its path parameters. The path parameters of the matched route have
exactly the names of its placeholders, each once. Every parameter that the route needs, of its own
or for a dependency that it can reach, is among those that are bound. When it is a path parameter,
it is what the decoded piece of the path at the place of its placeholder is coerced to, whatever
the request holds and whatever was bound before: no default stands in for it. And when binding
fails, it is not because a path parameter is missing. -/
theorem matched_supplies_path {declared : List (RouteDeclaration n σ)} {routes : List (Route n σ)}
    (hcompile : Route.compileAll catalog declared = .ok (routes, graph))
    {table : Table (Route n σ)} (htable : Table.ofEntries (routes.map Route.entry) = .ok table)
    {method : Method} {path : String} {captures : List (String × String)}
    (hmatched : table.route method path = .matched route captures) :
    route.template.names.Nodup ∧
    ((route.parameters.filter fun p => p.declared.location = .path).map
      (·.declared.name)).Perm route.template.names ∧
    (∀ p, route.Needs graph p → p ∈ route.allParameters graph) ∧
    ∀ request,
      let b := route.binder request captures
      (∀ p ∈ route.allParameters graph, p.declared.location = .path →
        ∃ (place : Nat) (type : Option ParamType) (piece : String),
          route.template.segments[place]? = some (.placeholder p.declared.name type) ∧
          ((Template.piecesOf path).map String.ofList)[place]? = some piece ∧
          ∀ bound, b.bindOne bound p = bound.take p
            (coerceTexts p.declared.type [Text.Percent.decode piece] (b.placeOf p))
            (b.placeOf p)) ∧
      ∀ e, route.bind graph request captures = .error e →
        ∃ issues, e = .validation issues ∧
          ∀ issue ∈ issues, issue.kind = "missing" →
            ∀ key, issue.loc ≠ [Location.path.text, key] := by
  obtain ⟨entry, hentry, rfl, hfits, rfl⟩ := Table.entry_of_matched htable hmatched
  obtain ⟨route, hroute, rfl⟩ := List.mem_map.mp hentry
  have hyields := yields_of_compileAll hcompile hroute
  have hcompiled := Route.compiled_of_compileAll hcompile hroute
  refine ⟨Template.names_nodup hyields.template, path_names hyields,
    fun p hneeds => hneeds.mem_allParameters hcompiled, ?_⟩
  intro request b
  have htexts := fun (p : CompiledParameter) (hp : p ∈ route.allParameters graph)
    (hpath : p.declared.location = .path) => lookUpTexts_of_matched hyields hfits request hp hpath
  constructor
  · intro p hp hpath
    obtain ⟨place, type, piece, hsegment, hpiece, hfound⟩ := htexts p hp hpath
    refine ⟨place, type, piece, hsegment, hpiece, ?_⟩
    exact Binder.bindOne_of_texts (by simp [hpath]) hfound (by simp)
  · intro e hbind
    obtain ⟨rfl, _⟩ := bind_error hbind
    refine ⟨_, rfl, ?_⟩
    intro issue hissue hmissing key
    obtain ⟨p, hp, halone⟩ := Binder.mem_of_mem_reports (Issue.mem_of_mem_distinct hissue)
    refine Binder.not_missing_at_path ?_ halone hmissing key
    intro hpath
    obtain ⟨_, _, _, _, _, hfound⟩ := htexts p hp hpath
    exact hfound.symm ▸ List.cons_ne_nil _ _

/-- A route whose identifier the owner of an item reads as well. -/
def ownerCatalog : Catalog 1 Unit where
  dependency _ :=
    { GraphBuilder.plainDependency "owner" [] [] with
      parameters := [.ofType "id" .path .string] }
  overrides := []

def itemRoute : RouteDeclaration 1 Unit where
  method := "GET"
  pattern := "/items/{id:int}"
  handlerName := "show"
  handler := .inline fun _ effects => (.value .empty, effects)
  parameters := []
  references := [⟨"owner", ⟨0, Nat.one_pos⟩, []⟩]
  response := .unspecified

/-- The identifier, which is written as the escape of a digit, is bound as the number 7 for the
route and as the text "7" for the owner, whatever the request holds. -/
theorem matched_supplies_path_sample :
    ∃ routes graph table route captures own owners,
      Route.compileAll ownerCatalog [itemRoute] = .ok (routes, graph) ∧
      Table.ofEntries (routes.map Route.entry) = .ok table ∧
      table.route "GET" "/items/%37" = .matched route captures ∧
      route.parameters = [own] ∧ graph.parametersAt 0 = [owners] ∧
      ∀ request,
        let b := route.binder request captures
        (b.bindOne (.beginning .fresh) own).values = [("id", .number (.int 7))] ∧
        (b.bindOne (.beginning .fresh) owners).values = [("id", .string "7")] := by
  obtain ⟨routes, graph, table, route, captures, own, owners, hcompile, htable, hmatched, hown,
      howners, hall, hpaths, hsegments, hnumber, htext⟩ :
      ∃ routes graph table route captures own owners,
        Route.compileAll ownerCatalog [itemRoute] = .ok (routes, graph) ∧
        Table.ofEntries (routes.map Route.entry) = .ok table ∧
        table.route "GET" "/items/%37" = .matched route captures ∧
        route.parameters = [own] ∧ graph.parametersAt 0 = [owners] ∧
        route.allParameters graph = [own, owners] ∧
        (own.declared.location = .path ∧ owners.declared.location = .path) ∧
        route.template.segments = [.literal "items", .placeholder "id" (some .int)] ∧
        (∀ place, (Bound.take (.beginning .fresh) own
          (coerceTexts own.declared.type ["7"] place) place).values =
            [("id", .number (.int 7))]) ∧
        ∀ place, (Bound.take (.beginning .fresh) owners
          (coerceTexts owners.declared.type ["7"] place) place).values = [("id", .string "7")] :=
    ⟨_, _, _, _, _, _, _, rfl, rfl, rfl, rfl, rfl, rfl, ⟨rfl, rfl⟩, rfl, fun _ => rfl, fun _ => rfl⟩
  have hpieces : (Template.piecesOf "/items/%37").map String.ofList = ["items", "%37"] := by cbv
  have hdecoded : Text.Percent.decode "%37" = "7" := by cbv
  obtain ⟨_, _, _, hbinds⟩ := matched_supplies_path hcompile htable hmatched
  refine ⟨routes, graph, table, route, captures, own, owners, hcompile, htable, hmatched, hown,
    howners, ?_⟩
  intro request b
  have hbound (p : CompiledParameter) (hp : p ∈ route.allParameters graph)
      (hpath : p.declared.location = .path) (bound : Bound) :
      b.bindOne bound p =
        bound.take p (coerceTexts p.declared.type ["7"] (b.placeOf p)) (b.placeOf p) := by
    obtain ⟨place, type, piece, hsegment, hpiece, hbound⟩ := (hbinds request).1 p hp hpath
    rw [hsegments] at hsegment
    rw [hpieces] at hpiece
    -- The placeholder is the second segment.
    obtain _ | _ | place := place
    · cases hsegment
    · cases hpiece
      rw [hbound bound, hdecoded]
    · cases hpiece
  rw [hall] at hbound
  constructor
  · rw [hbound own List.mem_cons_self hpaths.1]
    exact hnumber _
  · rw [hbound owners (List.mem_cons_of_mem _ List.mem_cons_self) hpaths.2]
    exact htext _

end Route

end RequestDispatch
