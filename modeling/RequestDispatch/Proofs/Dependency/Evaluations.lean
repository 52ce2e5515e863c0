import RequestDispatch.Proofs.Dependency.Accounting
import RequestDispatch.Proofs.Dependency.Caching
import RequestDispatch.Proofs.Dependency.Deliveries

/-!
How often the code of dependencies runs. In a resolution that succeeds, the code of every cached
dependency that can be reached runs once, the code of one that is not cached runs once for each
reference in a run above it or in the plan, and no other code runs. All code runs behind what it
refers to, and all references to a cached dependency receive the value of its only run.
-/

namespace RequestDispatch

variable {n : Nat} {σ : Type}

namespace Event

theorem beginnings_pos_iff {log : List (Event n)} {i : Fin n} :
    0 < beginnings log i ↔ ∃ input, .began i input ∈ log := by
  unfold beginnings
  rw [List.countP_pos_iff]
  constructor
  · rintro ⟨event, hevent, hbegins⟩
    cases event with
    | began identity input =>
        simp only [begins, decide_eq_true_eq] at hbegins
        exact ⟨input, hbegins ▸ hevent⟩
    | ended identity value => cases hbegins
  · rintro ⟨input, hinput⟩
    exact ⟨_, hinput, by simp [begins]⟩

theorem results_pos {log : List (Event n)} {i : Fin n} {value : Provided}
    (hended : .ended i value ∈ log) : 0 < results log i := by
  unfold results
  rw [List.countP_pos_iff]
  exact ⟨_, hended, by simp [ends]⟩

/-- Code that ended once has one value. -/
theorem value_of_results {log : List (Event n)} {i : Fin n} (honce : results log i = 1) :
    ∃ value, ∀ other, .ended i other ∈ log ↔ other = value := by
  unfold results at honce
  rw [List.countP_eq_length_filter, List.length_eq_one_iff] at honce
  obtain ⟨event, hevent⟩ := honce
  have hmember (other : Provided) :
      .ended i other ∈ log ↔ Event.ended i other = event := by
    rw [← List.mem_singleton, ← hevent, List.mem_filter]
    simp [ends]
  have hends : event ∈ log.filter (ends i) := by
    rw [hevent]
    exact List.mem_singleton_self event
  cases event with
  | began identity input => simp [ends] at hends
  | ended identity value =>
      have hidentity : identity = i := by simpa [ends] using (List.mem_filter.mp hends).2
      subst hidentity
      refine ⟨value, ?_⟩
      intro other
      rw [hmember]
      simp

end Event

namespace Graph

variable {graph : Graph n σ}

/-- A dependency can be reached along edges. -/
def Reachable (graph : Graph n σ) (edges : List Edge) (i : Fin n) : Prop :=
  ∃ way last, graph.Way edges way last ∧ last.identity = i

theorem exists_link {edges : List Edge} {i : Fin n} (hlinks : 0 < graph.links edges i) :
    ∃ edge ∈ edges, ∃ node, graph.nodes[edge.node]? = some node ∧ node.identity = i := by
  unfold links at hlinks
  rw [List.countP_pos_iff] at hlinks
  obtain ⟨edge, hedge, htarget⟩ := hlinks
  simp only [target?, decide_eq_true_eq, Option.map_eq_some_iff] at htarget
  exact ⟨edge, hedge, htarget⟩

/-- A demand comes from the edges themselves or from a run above. -/
theorem demand_pos {edges : List Edge} {runs : Fin n → Nat} {i : Fin n}
    (hdemand : 0 < graph.demand edges runs i) :
    0 < graph.links edges i ∨
      ∃ node ∈ graph.nodes, 0 < runs node.identity ∧ 0 < graph.links node.edges i := by
  by_contra hnone
  rw [not_or] at hnone
  obtain ⟨hlinks, hnodes⟩ := hnone
  have hsum : (graph.nodes.map fun node =>
      runs node.identity * graph.links node.edges i).sum = 0 := by
    apply List.sum_eq_zero
    intro term hterm
    obtain ⟨node, hnode, rfl⟩ := List.mem_map.mp hterm
    by_contra hterm
    have hpos := Nat.pos_of_ne_zero hterm
    exact hnodes ⟨node, hnode, Nat.pos_of_mul_pos_right hpos, Nat.pos_of_mul_pos_left hpos⟩
  unfold demand at hdemand
  omega

/-- A node that runs lies on a way, if runs do not exceed the demand: its demand comes from the
edges that are given, or from a run of a node behind it. -/
theorem way_of_runs {catalog : Catalog n σ} (harena : Arena catalog graph.nodes)
    {edges : List Edge} {runs : Fin n → Nat} (hruns : ∀ i, runs i ≤ graph.demand edges runs i)
    (behind : Nat) {j : Nat} {node : Node n} (hnode : graph.nodes[j]? = some node)
    (hbehind : graph.nodes.length - j ≤ behind) (hpos : 0 < runs node.identity) :
    ∃ way, graph.Way edges way node := by
  induction behind generalizing j node with
  | zero =>
      have hless := (List.getElem?_eq_some_iff.mp hnode).1
      omega
  | succ behind ih =>
      rcases demand_pos (Nat.lt_of_lt_of_le hpos (hruns _)) with
        hlinks | ⟨upper, hupper, hupperRuns, hlinks⟩
      · obtain ⟨edge, hedge, target, htarget, hsame⟩ := exists_link hlinks
        have hplace : edge.node = j := harena.index_unique htarget hnode hsame
        exact ⟨[edge], .here hedge (hplace ▸ hnode)⟩
      · obtain ⟨edge, hedge, target, htarget, hsame⟩ := exists_link hlinks
        have hplace : edge.node = j := harena.index_unique htarget hnode hsame
        obtain ⟨k, hk⟩ := List.getElem?_of_mem hupper
        -- Edges lead down, so fewer nodes are behind the upper one.
        have hbelow := (harena.edge_below hk hedge).1
        obtain ⟨way, hway⟩ := ih hk (by omega) hupperRuns
        exact ⟨way ++ [edge], hway.snoc hedge (hplace ▸ hnode)⟩

theorem reachable_of_runs {catalog : Catalog n σ} (harena : Arena catalog graph.nodes)
    {edges : List Edge} {runs : Fin n → Nat} (hruns : ∀ i, runs i ≤ graph.demand edges runs i)
    {i : Fin n} (hpos : 0 < runs i) : graph.Reachable edges i := by
  have hlinked : ∃ upper, 0 < graph.links upper i := by
    rcases demand_pos (Nat.lt_of_lt_of_le hpos (hruns i)) with hlinks | ⟨_, _, _, hlinks⟩
    · exact ⟨_, hlinks⟩
    · exact ⟨_, hlinks⟩
  obtain ⟨upper, hlinks⟩ := hlinked
  obtain ⟨edge, _, node, hnode, rfl⟩ := exists_link hlinks
  obtain ⟨way, hway⟩ := way_of_runs harena hruns _ hnode (Nat.le_refl _) hpos
  exact ⟨way, node, hway, rfl⟩

/-- Whatever can be reached along edges whose values were produced was produced, if all that
ended has begun. -/
theorem ended_of_way {catalog : Catalog n σ} (harena : Arena catalog graph.nodes)
    {log : List (Event n)} (hordered : graph.Ordered log)
    (hbegan : ∀ i value, .ended i value ∈ log → ∃ input, .began i input ∈ log)
    {edges way : List Edge} {last : Node n} (hway : graph.Way edges way last)
    (hedges : ∀ edge ∈ edges, ∃ value, graph.Produces log edge value) :
    ∃ value, .ended last.identity value ∈ log := by
  induction hway with
  | here hedge hnode =>
      obtain ⟨value, node, hfound, hended⟩ := hedges _ hedge
      rw [hnode, Option.some.injEq] at hfound
      exact ⟨value, hfound ▸ hended⟩
  | @further edges way edge node last hedge hnode _ ih =>
      apply ih
      intro other hother
      obtain ⟨value, found, hfound, hended⟩ := hedges _ hedge
      rw [hnode, Option.some.injEq] at hfound
      subst hfound
      obtain ⟨input, hinput⟩ := hbegan _ _ hended
      obtain ⟨before, after, hlog⟩ := List.append_of_mem hinput
      obtain ⟨upper, hupper, hsame, values, _, hvalues⟩ := hordered _ _ _ _ hlog
      have hupperNode : upper = node :=
        harena.node_unique hupper (List.mem_of_getElem? hnode) hsame
      subst hupperNode
      obtain ⟨found, _, hproduces⟩ := exists_of_forall₂ hvalues hother
      exact ⟨found, hproduces.mono ⟨_, hlog.symm⟩⟩

end Graph

/-- A resolution in the light of what happened to the code of dependencies. -/
structure Graph.Evaluated (graph : Graph n σ) (roots : List Edge) (provisions : Provisions)
    (log : List (Event n)) : Prop where
  /-- Cached code that can be reached runs once, and there is one value of it to receive. -/
  cached : ∀ i, (graph.catalog.dependency i).cached = true → graph.Reachable roots i →
    Event.beginnings log i = 1 ∧ ∃ value, ∀ other, .ended i other ∈ log ↔ other = value
  /-- Other code runs once for each reference to it, from the roots and from the runs above. -/
  uncached : ∀ i, (graph.catalog.dependency i).cached = false →
    Event.beginnings log i = graph.demand roots (Event.beginnings log) i
  /-- Nothing else runs. -/
  unreached : ∀ i, ¬graph.Reachable roots i → Event.beginnings log i = 0
  /-- All code that begins ends with a value. -/
  finished : ∀ i, Event.results log i = Event.beginnings log i
  ordered : graph.Ordered log
  supplied : graph.Supplies log roots provisions

namespace Resolver

variable {r : Resolver n σ} {plan : Plan} {p after : Progress n σ} {provisions : Provisions}

theorem recorded_of_resolve (hrun : r.resolve plan p = (.ok provisions, after)) :
    ∃ last, r.recorded.resolve plan p.onRecord = (.ok provisions, last) ∧ last.erase = after ∧
      last.effects.state.log = r.history plan p := by
  have hmirrors := mirrors_resolve (r := r) plan p.onRecord
  have herase : p.onRecord.erase = p := rfl
  rw [herase, hrun] at hmirrors
  obtain ⟨hresult, hafter⟩ := Prod.ext_iff.mp hmirrors
  exact ⟨(r.recorded.resolve plan p.onRecord).2, Prod.ext hresult.symm rfl, hafter.symm, rfl⟩

/-- The account of a resolution: code of cached dependencies runs at most once, and other code as
often as it is demanded. -/
theorem account_of_resolve (hdistinct : (r.graph.nodes.map (·.identity)).Nodup)
    (hrun : r.resolve plan p = (.ok provisions, after)) (i : Fin n) :
    Event.results (r.history plan p) i = Event.beginnings (r.history plan p) i ∧
      Event.beginnings (r.history plan p) i ≤
        r.graph.demand plan.roots (Event.beginnings (r.history plan p)) i ∧
      ((r.graph.catalog.dependency i).cached = true →
        Event.beginnings (r.history plan p) i ≤ 1) ∧
      ((r.graph.catalog.dependency i).cached = false →
        Event.beginnings (r.history plan p) i =
          r.graph.demand plan.roots (Event.beginnings (r.history plan p)) i) := by
  obtain ⟨last, hrecorded, _, hlog⟩ := recorded_of_resolve hrun
  have hdistinct : (r.recorded.graph.nodes.map (·.identity)).Nodup := hdistinct
  obtain ⟨runs, hspends, hcounts⟩ := spends_of_resolve hdistinct (logs_recorded r) hrecorded
  have hbeginnings : Event.beginnings (r.history plan p) = runs := by
    funext i
    rw [← hlog]
    exact (hcounts i).1.trans (Nat.zero_add _)
  have hresults : Event.results (r.history plan p) i = runs i := by
    rw [← hlog]
    exact (hcounts i).2.trans (Nat.zero_add _)
  rw [hbeginnings]
  refine ⟨hresults, hspends.demanded i, ?_, hspends.uncached i⟩
  intro hcached
  have hspent := hspends.cached i hcached
  have hengaged := last.cache.engagements_le i
  omega

/-- The history of a resolution that begins with an empty cache: code begins with what was
produced before, and the provisions were produced. -/
theorem supplies_of_history (hempty : p.cache = .empty)
    (hrun : r.resolve plan p = (.ok provisions, after)) :
    r.graph.Ordered (r.history plan p) ∧
      r.graph.Supplies (r.history plan p) plan.roots provisions := by
  obtain ⟨last, hrecorded, _, hlog⟩ := recorded_of_resolve hrun
  have hconsistent : r.recorded.Consistent (·.state.log) p.onRecord := by
    refine ⟨?_, Graph.ordered_nil⟩
    intro i value hfilled
    have hgate : p.cache.gate i = .filled value := hfilled
    rw [hempty] at hgate
    cases hgate
  obtain ⟨hlast, hsupplied⟩ := supplies_of_resolve (logs_recorded r) hconsistent hrecorded
  rw [← hlog]
  exact ⟨hlast.ordered, hsupplied⟩

/-- A cached dependency that can be reached has run, because its value was received. -/
theorem ended_of_reachable {catalog : Catalog n σ} (harena : Arena catalog r.graph.nodes)
    (hempty : p.cache = .empty) (hrun : r.resolve plan p = (.ok provisions, after)) {i : Fin n}
    (hreachable : r.graph.Reachable plan.roots i) :
    0 < Event.results (r.history plan p) i := by
  -- The roots have values, and code that has begun had values for all that it refers to.
  obtain ⟨way, last, hway, rfl⟩ := hreachable
  obtain ⟨hordered, values, _, hvalues⟩ := supplies_of_history hempty hrun
  have hbegan : ∀ i value, .ended i value ∈ r.history plan p →
      ∃ input, .began i input ∈ r.history plan p := by
    intro i value hended
    have hpos := Event.results_pos hended
    rw [(account_of_resolve harena.distinct hrun i).1] at hpos
    exact Event.beginnings_pos_iff.mp hpos
  have hroots : ∀ edge ∈ plan.roots, ∃ value,
      r.graph.Produces (r.history plan p) edge value := by
    intro edge hedge
    obtain ⟨value, _, hproduces⟩ := exists_of_forall₂ hvalues hedge
    exact ⟨value, hproduces⟩
  obtain ⟨value, hended⟩ := Graph.ended_of_way harena hordered hbegan hway hroots
  exact Event.results_pos hended

/-- How often the code of dependencies runs, and on what. When a resolution succeeds that begins
with an empty cache, it goes the same way on record, and in what happens to code then, every
cached dependency that can be reached runs once, every other one runs once for each reference,
and what cannot be reached does not run. All code begins with values that had been produced for
what it refers to, and the provisions at the end are such values, so that all references to a
cached dependency receive the only value of it. -/
theorem resolve_evaluates (r : Resolver n σ) {catalog : Catalog n σ}
    {references : List (Reference n)} {plan : Plan}
    (hcompiled : Compiled catalog references r.graph plan) {p after : Progress n σ}
    (hempty : p.cache = .empty) {provisions : Provisions}
    (hrun : r.resolve plan p = (.ok provisions, after)) :
    (∃ last, r.recorded.resolve plan p.onRecord = (.ok provisions, last) ∧
      last.erase = after ∧ last.effects.state.log = r.history plan p) ∧
    r.graph.Evaluated plan.roots provisions (r.history plan p) := by
  have harena := hcompiled.arena
  have haccount := account_of_resolve harena.distinct hrun
  obtain ⟨hordered, hsupplied⟩ := supplies_of_history hempty hrun
  refine ⟨recorded_of_resolve hrun, ?_, ?_, ?_, ?_, hordered, hsupplied⟩
  · intro i hcached hreachable
    obtain ⟨hresults, _, hmost, _⟩ := haccount i
    have hleast := ended_of_reachable harena hempty hrun hreachable
    have honce : Event.beginnings (r.history plan p) i = 1 := by
      have hle := hmost hcached
      omega
    exact ⟨honce, Event.value_of_results (hresults.trans honce)⟩
  · intro i hcached
    exact (haccount i).2.2.2 hcached
  · intro i hunreachable
    by_contra hruns
    exact hunreachable (Graph.reachable_of_runs harena (fun j => (haccount j).2.1)
      (Nat.pos_of_ne_zero hruns))
  · intro i
    exact (haccount i).1

/-- The token is not cached, and the user requires it twice. -/
theorem resolve_evaluates_sample :
    let r := tokenResolver.caching fun i => i ≠ 0
    let log := r.history (tokenPlan ["read"]) ⟨.empty, ⟨0, []⟩, []⟩
    Event.beginnings log 1 = 1 ∧ Event.beginnings log 0 = 2 := by
  intro r log
  have hcompiled : Compiled r.graph.catalog [⟨"user", 1, []⟩, ⟨"again", 1, ["read"]⟩] r.graph
      (tokenPlan ["read"]) := Compiled.intro [] [] (tokenPlan ["read"]) rfl
  have hrun : r.resolve (tokenPlan ["read"]) ⟨.empty, ⟨0, []⟩, []⟩ =
      (.ok [("user", .text "token of the user"), ("again", .text "token of the user")],
        (r.resolve (tokenPlan ["read"]) ⟨.empty, ⟨0, []⟩, []⟩).2) := Prod.ext rfl rfl
  obtain ⟨_, hevaluated⟩ := resolve_evaluates r hcompiled rfl hrun
  have huser : Event.beginnings log 1 = 1 :=
    (hevaluated.cached 1 rfl ⟨_, _, .here List.mem_cons_self rfl, rfl⟩).1
  refine ⟨huser, ?_⟩
  have htoken : Event.beginnings log 0 =
      r.graph.demand (tokenPlan ["read"]).roots (Event.beginnings log) 0 :=
    hevaluated.uncached 0 rfl
  have hdemand : r.graph.demand (tokenPlan ["read"]).roots (Event.beginnings log) 0 =
      0 + (Event.beginnings log 0 * 0 + (Event.beginnings log 1 * 2 + 0)) := rfl
  omega

end Resolver

end RequestDispatch
