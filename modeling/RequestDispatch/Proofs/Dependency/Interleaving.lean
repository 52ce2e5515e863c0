import RequestDispatch.Proofs.Dependency.Completion
import RequestDispatch.Proofs.Dependency.Strands

/-!
Strands in any order share evaluations and do not block each other. A gate is taken exactly while
one strand evaluates its dependency; a value that fills a gate stays there, and is what every strand
of the dependency is resolved to; and a strand that holds a gate waits only for gates of nodes
further to the front, so that some strand can always advance until all have come to their ends.
-/

namespace RequestDispatch

variable {n : Nat} {σ : Type}

/-- The number of evaluations that hold a gate. -/
def Cache.holders (cache : Cache n) (i : Fin n) : Nat :=
  if cache.gate i = .taken then 1 else 0

namespace Cache

theorem holders_of_taken {cache : Cache n} {i : Fin n} (htaken : cache.gate i = .taken) :
    cache.holders i = 1 :=
  if_pos htaken

theorem holders_of_ne {cache : Cache n} {i : Fin n} (hnot : cache.gate i ≠ .taken) :
    cache.holders i = 0 :=
  if_neg hnot

theorem holders_le_one (cache : Cache n) (i : Fin n) : cache.holders i ≤ 1 := by
  unfold holders
  split <;> omega

theorem taken_of_holders {cache : Cache n} {i : Fin n} (hpos : 0 < cache.holders i) :
    cache.gate i = .taken := by
  by_contra hnot
  rw [holders_of_ne hnot] at hpos
  exact Nat.lt_irrefl 0 hpos

theorem holders_set_of_ne (cache : Cache n) {identity other : Fin n} (hne : other ≠ identity)
    (gate : Gate) : (cache.set identity gate).holders other = cache.holders other := by
  rw [holders, holders, gate_set_of_ne cache hne]

end Cache

namespace Resolver

variable {r : Resolver n σ}

/-! ### Counting evaluations -/

section

variable (i : Fin n)

theorem evaluators_append (first rest : List (Strand n)) :
    r.evaluators i (first ++ rest) = r.evaluators i first + r.evaluators i rest := by
  rw [evaluators, Strand.allOf_append, List.countP_append]
  rfl

theorem evaluators_cons (s : Strand n) (rest : List (Strand n)) :
    r.evaluators i (s :: rest) = r.evaluators i [s] + r.evaluators i rest :=
  evaluators_append i [s] rest

/-- What evaluates in a list with one strand put into it. -/
theorem evaluators_within (before after : List (Strand n)) (s : Strand n) :
    r.evaluators i (before ++ s :: after) =
      r.evaluators i [s] + (r.evaluators i before + r.evaluators i after) := by
  rw [evaluators_append, evaluators_cons]
  omega

theorem evaluators_gathering (visit : Visit n) (below : List (Strand n)) :
    r.evaluators i [.gathering visit below] =
      r.evaluators i below + if r.evaluates i (.gathering visit below) then 1 else 0 := by
  simp only [evaluators, Strand.allOf, Strand.all, List.append_nil, List.countP_cons]

theorem evaluators_running (visit : Visit n) (provided : Provisions) (polls : Nat) :
    r.evaluators i [.running visit provided polls] =
      if r.evaluates i (.running visit provided polls) then 1 else 0 := by
  simp only [evaluators, Strand.allOf, Strand.all, List.append_nil, List.countP_singleton]

@[simp] theorem evaluators_pending (inherited : Scopes) (edge : Edge) :
    r.evaluators i [.pending inherited edge] = 0 := rfl

@[simp] theorem evaluators_waiting (visit : Visit n) : r.evaluators i [.waiting visit] = 0 := rfl

@[simp] theorem evaluators_resolved (visit : Visit n) (value : Provided) :
    r.evaluators i [.resolved visit value] = 0 := rfl

@[simp] theorem evaluators_failed (e : DispatchError) : r.evaluators i [.failed e] = 0 := rfl

theorem evaluators_begun (visit : Visit n) : r.evaluators i visit.begun = 0 := by
  unfold Visit.begun
  induction visit.node.edges with
  | nil => rfl
  | cons edge rest ih =>
      rw [List.map_cons, evaluators_cons, ih, evaluators_pending]

theorem evaluators_of_values {strands : List (Strand n)} {values : List Provided}
    (hvalues : strands.mapM Strand.value? = some values) : r.evaluators i strands = 0 := by
  induction strands generalizing values with
  | nil => rfl
  | cons s rest ih =>
      rw [List.mapM_cons] at hvalues
      cases s with
      | resolved visit value =>
          cases hrest : rest.mapM Strand.value? with
          | none => simp [Strand.value?, hrest] at hvalues
          | some more =>
              rw [evaluators_cons, ih hrest, evaluators_resolved]
      | _ => simp [Strand.value?] at hvalues

theorem evaluators_pos_iff {strands : List (Strand n)} :
    0 < r.evaluators i strands ↔ ∃ s ∈ Strand.allOf strands, r.evaluates i s = true := by
  rw [evaluators, List.countP_pos_iff]

theorem any_evaluates_iff {s : Strand n} :
    s.all.any (r.evaluates i) = true ↔ 0 < r.evaluators i [s] := by
  rw [evaluators_pos_iff, List.any_eq_true, Strand.allOf, Strand.allOf, List.append_nil]

/-- Giving up a strand frees the gates that it holds. -/
theorem holders_abandon {s : Strand n} {cache : Cache n}
    (hle : r.evaluators i [s] ≤ cache.holders i) :
    cache.holders i = r.evaluators i [s] + (r.abandon s cache).holders i := by
  have hone := cache.holders_le_one i
  by_cases hany : s.all.any (r.evaluates i) = true
  · have hpos := (any_evaluates_iff i).mp hany
    have htaken := Cache.taken_of_holders (Nat.lt_of_lt_of_le hpos hle)
    have hfree : (r.abandon s cache).gate i = .free := if_pos ⟨hany, htaken⟩
    have hnone : (r.abandon s cache).holders i = 0 := by
      apply Cache.holders_of_ne
      rw [hfree]
      exact Gate.noConfusion
    omega
  · have hzero : ¬0 < r.evaluators i [s] := fun hpos => hany ((any_evaluates_iff i).mpr hpos)
    have hgate : (r.abandon s cache).gate i = cache.gate i := if_neg fun hboth => hany hboth.1
    have hsame : (r.abandon s cache).holders i = cache.holders i := by
      rw [Cache.holders, Cache.holders, hgate]
    omega

/-- An evaluation that ends with a value leaves its gate. -/
theorem holders_keep (visit : Visit n) (value : Provided) (cache : Cache n)
    (provided : Provisions) (polls : Nat) :
    (r.keep visit value cache).holders i =
      if r.evaluates i (.running visit provided polls) then 0 else cache.holders i := by
  cases hcached : (r.graph.dependency visit.node).cached with
  | false => simp [keep, evaluates, hcached]
  | true =>
      by_cases hi : visit.node.identity = i
      · subst hi
        simp [keep, evaluates, hcached, Cache.holders]
      · simp [keep, evaluates, hcached, hi, Cache.holders_set_of_ne cache (Ne.symm hi)]

end

section

variable {visit : Visit n} {provided : Provisions} {polls : Nat} {p q : Progress n σ}

/-- While polled code pauses, the gates are as before. -/
theorem cache_of_runBody_running
    (hrun : r.runBody visit provided polls p = (.ok (.running visit provided (polls + 1)), q)) :
    q.cache = p.cache := by
  obtain ⟨_, _, hcache⟩ | ⟨_, hvalue, _⟩ := runBody_ok hrun
  · exact hcache
  · cases hvalue

/-- Polled code that ends with a value may fill the gate of its dependency. -/
theorem cache_of_runBody_resolved {value : Provided}
    (hrun : r.runBody visit provided polls p = (.ok (.resolved value), q)) :
    q.cache = r.keep visit value p.cache := by
  obtain ⟨hpause, _⟩ | ⟨_, hvalue, hcache⟩ := runBody_ok hrun
  · cases hpause
  · cases hvalue
    exact hcache

/-- When polled code fails, the gates are as before. -/
theorem cache_of_runBody_error {e : DispatchError}
    (hrun : r.runBody visit provided polls p = (.error e, q)) : q.cache = p.cache := by
  simp only [runBody] at hrun
  split at hrun
  · cases hrun
  · rename_i outcome effects _
    cases outcome with
    | value value => cases hrun
    | failed e =>
        cases hrun
        rfl
    | panicked panic =>
        cases hrun
        rfl

end

/-! ### One evaluation at a time -/

theorem Approaches.balance {visit : Visit n} {s : Strand n} {p q : Progress n σ}
    (happroach : r.Approaches visit p s q) (i : Fin n) :
    r.evaluators i [s] + p.cache.holders i = q.cache.holders i := by
  cases happroach with
  | uncached hcached =>
      simp [evaluators_gathering, evaluators_begun, evaluates, hcached]
  | first hcached hfree =>
      rw [evaluators_gathering, evaluators_begun]
      by_cases hi : visit.node.identity = i
      · subst hi
        have hnot : p.cache.gate visit.node.identity ≠ .taken := by
          rcases hfree with hgate | hgate <;> rw [hgate] <;> exact Gate.noConfusion
        rw [Cache.holders_of_ne hnot, Cache.holders_of_taken (Cache.gate_set_self ..)]
        simp [evaluates, hcached]
      · rw [Cache.holders_set_of_ne _ (Ne.symm hi)]
        simp [evaluates, hi]
  | waits _ _ => rw [evaluators_waiting, Nat.zero_add]
  | recalls _ _ _ _ _ _ => rw [evaluators_resolved, Nat.zero_add]
  | refused _ _ _ _ _ _ _ => rw [evaluators_failed, Nat.zero_add]

/-- A strand takes a gate when it begins to evaluate a dependency, and leaves it when it ceases
to. -/
theorem Advances.balance {s t : Strand n} {p q : Progress n σ} (hadvances : r.Advances s p t q)
    (i : Fin n) (hle : r.evaluators i [s] ≤ p.cache.holders i) :
    r.evaluators i [t] + p.cache.holders i = r.evaluators i [s] + q.cache.holders i := by
  induction hadvances with
  | refused _ _ => rw [evaluators_failed, evaluators_pending]
  | arrives _ happroach => rw [happroach.balance, evaluators_pending, Nat.zero_add]
  | returns _ happroach => rw [happroach.balance, evaluators_waiting, Nat.zero_add]
  | @within visit before after s t p q _ ih =>
      -- The evaluation that gathers goes on, and so do those beside the strand that advances.
      have hstill : r.evaluates i (.gathering visit (before ++ t :: after)) =
          r.evaluates i (.gathering visit (before ++ s :: after)) := rfl
      rw [evaluators_gathering, evaluators_within] at hle ⊢
      rw [evaluators_gathering, evaluators_within, hstill]
      have hpart := ih (by omega)
      omega
  | gathers hvalues =>
      rw [evaluators_gathering, evaluators_of_values i hvalues, Nat.zero_add, evaluators_running]
      rfl
  | givesUp _ =>
      have hfreed := holders_abandon i hle
      rw [evaluators_failed, Nat.zero_add]
      exact hfreed
  | pauses hrun =>
      rw [cache_of_runBody_running hrun]
      rfl
  | @ends visit provided polls value p q hrun =>
      have hone := p.cache.holders_le_one i
      rw [evaluators_running] at hle ⊢
      rw [evaluators_resolved, cache_of_runBody_resolved hrun,
        holders_keep i visit value p.cache provided polls]
      by_cases hevaluates : r.evaluates i (.running visit provided polls) = true
      · rw [if_pos hevaluates] at hle ⊢
        rw [if_pos hevaluates]
        omega
      · rw [if_neg hevaluates, if_neg hevaluates]
  | fails hrun =>
      have hfreed := holders_abandon i hle
      rw [evaluators_failed, cache_of_runBody_error hrun, Nat.zero_add]
      exact hfreed

/-! ### Values that stay -/

theorem filled_abandon {s : Strand n} {cache : Cache n} {i : Fin n} {value : Provided}
    (hfilled : cache.gate i = .filled value) : (r.abandon s cache).gate i = .filled value := by
  have hnot : ¬(s.all.any (r.evaluates i) = true ∧ cache.gate i = .taken) := by
    rintro ⟨_, htaken⟩
    rw [hfilled] at htaken
    cases htaken
  exact (if_neg hnot).trans hfilled

theorem Approaches.filled {visit : Visit n} {s : Strand n} {p q : Progress n σ}
    (happroach : r.Approaches visit p s q) {i : Fin n} {value : Provided}
    (hfilled : p.cache.gate i = .filled value) : q.cache.gate i = .filled value := by
  cases happroach with
  | first hcached hfree =>
      have hi : i ≠ visit.node.identity := by
        rintro rfl
        rw [hfilled] at hfree
        rcases hfree with hgate | hgate <;> cases hgate
      exact (Cache.gate_set_of_ne p.cache hi .taken).trans hfilled
  | _ => exact hfilled

/-- A gate that is filled stays so. -/
theorem Advances.filled {s t : Strand n} {p q : Progress n σ} (hadvances : r.Advances s p t q)
    {i : Fin n} {value : Provided} (hle : r.evaluators i [s] ≤ p.cache.holders i)
    (hfilled : p.cache.gate i = .filled value) : q.cache.gate i = .filled value := by
  induction hadvances with
  | refused _ _ => exact hfilled
  | arrives _ happroach => exact happroach.filled hfilled
  | returns _ happroach => exact happroach.filled hfilled
  | within _ ih =>
      rw [evaluators_gathering, evaluators_within] at hle
      exact ih (by omega) hfilled
  | gathers _ => exact hfilled
  | givesUp _ => exact filled_abandon hfilled
  | pauses hrun =>
      rw [cache_of_runBody_running hrun]
      exact hfilled
  | @ends visit provided polls value p q hrun =>
      -- Whoever fills a gate has held it, so it was not filled before.
      have hnot : p.cache.gate i ≠ .taken := by
        rw [hfilled]
        exact Gate.noConfusion
      rw [Cache.holders_of_ne hnot, evaluators_running] at hle
      rw [cache_of_runBody_resolved hrun, keep]
      split
      · rename_i hcached
        have hi : i ≠ visit.node.identity := by
          rintro rfl
          simp [evaluates, hcached] at hle
        exact (Cache.gate_set_of_ne p.cache hi _).trans hfilled
      · exact hfilled
  | fails hrun =>
      rw [← cache_of_runBody_error hrun] at hfilled
      exact filled_abandon hfilled

/-- A strand of a cached dependency that is resolved to a value. -/
def Observes (r : Resolver n σ) (strands : List (Strand n)) (i : Fin n) (value : Provided) : Prop :=
  ∃ visit, .resolved visit value ∈ Strand.allOf strands ∧
    (r.graph.dependency visit.node).cached = true ∧ visit.node.identity = i

theorem observes_append_iff {first rest : List (Strand n)} {i : Fin n} {value : Provided} :
    r.Observes (first ++ rest) i value ↔ r.Observes first i value ∨ r.Observes rest i value := by
  simp only [Observes, Strand.allOf_append, List.mem_append, or_and_right, exists_or]

theorem observes_within_iff {before after : List (Strand n)} {s : Strand n} {i : Fin n}
    {value : Provided} :
    r.Observes (before ++ s :: after) i value ↔
      r.Observes [s] i value ∨ r.Observes before i value ∨ r.Observes after i value := by
  rw [observes_append_iff, ← List.singleton_append, observes_append_iff]
  exact or_left_comm

theorem observes_gathering_iff {visit : Visit n} {below : List (Strand n)} {i : Fin n}
    {value : Provided} :
    r.Observes [.gathering visit below] i value ↔ r.Observes below i value := by
  simp [Observes, Strand.allOf, Strand.all]

theorem allOf_begun (inherited : Scopes) (edges : List Edge) :
    Strand.allOf (edges.map (Strand.pending (n := n) inherited)) =
      edges.map (.pending inherited) := by
  induction edges with
  | nil => rfl
  | cons edge rest ih => rw [List.map_cons, Strand.allOf, ih]; rfl

theorem not_observes_begun (visit : Visit n) {i : Fin n} {value : Provided} :
    ¬r.Observes visit.begun i value := by
  rintro ⟨_, hmem, _⟩
  rw [Visit.begun, allOf_begun] at hmem
  obtain ⟨_, _, hpending⟩ := List.mem_map.mp hmem
  cases hpending

theorem Approaches.observes {visit : Visit n} {s : Strand n} {p q : Progress n σ}
    (happroach : r.Approaches visit p s q) {i : Fin n} {value : Provided}
    (hobserves : r.Observes [s] i value) : q.cache.gate i = .filled value := by
  cases happroach with
  | uncached _ => exact absurd (observes_gathering_iff.mp hobserves) (not_observes_begun visit)
  | first _ _ => exact absurd (observes_gathering_iff.mp hobserves) (not_observes_begun visit)
  | recalls final level hcached hfilled _ _ =>
      obtain ⟨_, hmem, _, rfl⟩ := hobserves
      cases List.mem_singleton.mp hmem
      exact hfilled
  | _ =>
      obtain ⟨_, hmem, _⟩ := hobserves
      cases List.mem_singleton.mp hmem

/-- A value that a strand observes was observed before, or it is in the gate. -/
theorem Advances.observes {s t : Strand n} {p q : Progress n σ} (hadvances : r.Advances s p t q)
    {i : Fin n} {value : Provided} (hobserves : r.Observes [t] i value) :
    r.Observes [s] i value ∨ q.cache.gate i = .filled value := by
  induction hadvances with
  | arrives _ happroach => exact .inr (happroach.observes hobserves)
  | returns _ happroach => exact .inr (happroach.observes hobserves)
  | within _ ih =>
      rw [observes_gathering_iff, observes_within_iff] at hobserves ⊢
      obtain hpart | hbeside := hobserves
      · exact (ih hpart).imp_left .inl
      · exact .inl (.inr hbeside)
  | ends hrun =>
      obtain ⟨_, hmem, hcached, rfl⟩ := hobserves
      cases List.mem_singleton.mp hmem
      refine .inr ?_
      rw [cache_of_runBody_resolved hrun, keep, if_pos hcached]
      exact Cache.gate_set_self ..
  | _ =>
      obtain ⟨_, hmem, _⟩ := hobserves
      cases List.mem_singleton.mp hmem

/-! ### Where strands lead -/

/-- A strand stands at a node of the graph, and what it gathers lies further to the front. -/
def Sited (r : Resolver n σ) : Strand n → Prop
  | .pending _ edge => ∃ node, r.graph.nodes[edge.node]? = some node
  | .gathering visit below => r.graph.nodes[visit.index]? = some visit.node ∧
      ∀ s ∈ below, ∀ i, s.place? = some i → i < visit.index
  | .waiting visit | .running visit _ _ | .resolved visit _ =>
      r.graph.nodes[visit.index]? = some visit.node
  | .failed _ => True

/-- A strand and all beneath it are at their places. -/
def SitedAll (r : Resolver n σ) (strands : List (Strand n)) : Prop :=
  ∀ s ∈ Strand.allOf strands, r.Sited s

theorem sitedAll_within_iff {before after : List (Strand n)} {s : Strand n} :
    r.SitedAll (before ++ s :: after) ↔ r.SitedAll [s] ∧ r.SitedAll (before ++ after) := by
  simp only [SitedAll, Strand.allOf_append, Strand.allOf, List.append_nil, List.forall_mem_append]
  exact and_left_comm

theorem SitedAll.sited {s : Strand n} (hsited : r.SitedAll [s]) : r.Sited s := by
  apply hsited
  rw [Strand.allOf]
  exact List.mem_append_left _ s.mem_all_self

theorem sitedAll_gathering_iff {visit : Visit n} {below : List (Strand n)} :
    r.SitedAll [.gathering visit below] ↔ r.Sited (.gathering visit below) ∧ r.SitedAll below := by
  simp only [SitedAll, Strand.allOf, Strand.all, List.append_nil, List.forall_mem_cons]

theorem Approaches.place {visit : Visit n} {s : Strand n} {p q : Progress n σ}
    (happroach : r.Approaches visit p s q) :
    s.place? = some visit.index ∨ s.place? = none := by
  cases happroach with
  | refused _ _ _ _ _ _ _ => exact .inr rfl
  | _ => exact .inl rfl

/-- A strand keeps its place until it fails. -/
theorem Advances.place {s t : Strand n} {p q : Progress n σ} (hadvances : r.Advances s p t q) :
    t.place? = s.place? ∨ t.place? = none := by
  cases hadvances with
  | arrives hvisit happroach =>
      obtain hplace | hplace := happroach.place
      · rw [hplace, hvisit.index]
        exact .inl rfl
      · exact .inr hplace
  | returns _ happroach => exact happroach.place
  | refused _ _ => exact .inr rfl
  | givesUp _ => exact .inr rfl
  | fails _ => exact .inr rfl
  | _ => exact .inl rfl

section

variable {catalog : Catalog n σ} (harena : Arena catalog r.graph.nodes)
include harena

theorem sitedAll_begun {visit : Visit n}
    (hnode : r.graph.nodes[visit.index]? = some visit.node) :
    r.SitedAll [.gathering visit visit.begun] := by
  rw [sitedAll_gathering_iff]
  refine ⟨⟨hnode, ?_⟩, ?_⟩
  · intro s hs i hi
    obtain ⟨edge, hedge, rfl⟩ := List.mem_map.mp hs
    cases hi
    exact (harena.edge_below hnode hedge).1
  · intro s hs
    rw [Visit.begun, allOf_begun] at hs
    obtain ⟨edge, hedge, rfl⟩ := List.mem_map.mp hs
    exact (harena.edge_below hnode hedge).2

theorem Approaches.sited {visit : Visit n} {s : Strand n} {p q : Progress n σ}
    (happroach : r.Approaches visit p s q)
    (hnode : r.graph.nodes[visit.index]? = some visit.node) : r.SitedAll [s] := by
  cases happroach with
  | uncached _ => exact sitedAll_begun harena hnode
  | first _ _ => exact sitedAll_begun harena hnode
  | refused _ _ _ _ _ _ _ => exact List.forall_mem_singleton.mpr trivial
  | _ => exact List.forall_mem_singleton.mpr hnode

theorem Advances.sited {s t : Strand n} {p q : Progress n σ} (hadvances : r.Advances s p t q)
    (hsited : r.SitedAll [s]) : r.SitedAll [t] := by
  induction hadvances with
  | arrives hvisit happroach => exact happroach.sited harena hvisit.stands
  | returns _ happroach =>
      exact happroach.sited harena hsited.sited
  | within hpart ih =>
      rw [sitedAll_gathering_iff, sitedAll_within_iff] at hsited ⊢
      obtain ⟨⟨hnode, hlower⟩, hs, hbeside⟩ := hsited
      refine ⟨⟨hnode, ?_⟩, ih hs, hbeside⟩
      intro u hu i hi
      obtain hu | rfl | hu : _ := by simpa only [List.mem_append, List.mem_cons] using hu
      · exact hlower u (by simp [hu]) i hi
      · obtain hplace | hplace := hpart.place
        · exact hlower _ (by simp) i (hplace ▸ hi)
        · rw [hplace] at hi
          cases hi
      · exact hlower u (by simp [hu]) i hi
  | gathers _ =>
      have hnode := (sitedAll_gathering_iff.mp hsited).1.1
      exact List.forall_mem_singleton.mpr hnode
  | refused _ _ => exact List.forall_mem_singleton.mpr trivial
  | givesUp _ => exact List.forall_mem_singleton.mpr trivial
  | fails _ => exact List.forall_mem_singleton.mpr trivial
  | pauses _ => exact List.forall_mem_singleton.mpr hsited.sited
  | ends _ => exact List.forall_mem_singleton.mpr hsited.sited

end

end Resolver

end RequestDispatch
