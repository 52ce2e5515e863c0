import RequestDispatch.Proofs.Dependency.Enforcement
import RequestDispatch.Proofs.Dependency.Interleaving
import RequestDispatch.Proofs.Dependency.Schedule

/-!
Resolutions in which branches advance in any order. Whatever the order, cached dependencies are
evaluated by one branch at a time and never again once they have a value, everybody sees the same
value, and nobody is stuck. The order of the resolver is one of them.
-/

namespace RequestDispatch

variable {n : Nat} {σ : Type}

namespace Strand

/-- What is beneath a strand that is beneath another one is beneath that. -/
theorem all_trans {s t u : Strand n} (ht : t ∈ s.all) (hu : u ∈ t.all) : u ∈ s.all := by
  induction s using induction_parts with
  | hstep s ih =>
      rw [all_eq, List.mem_cons, mem_allOf_iff] at ht
      obtain rfl | ⟨part, hpart, htpart⟩ := ht
      · exact hu
      · rw [all_eq, List.mem_cons, mem_allOf_iff]
        exact .inr ⟨part, hpart, ih part hpart htpart⟩

theorem mem_allOf_of_parts {strands : List (Strand n)} {s t : Strand n} (hs : s ∈ allOf strands)
    (ht : t ∈ s.parts) : t ∈ allOf strands := by
  obtain ⟨root, hroot, hbeneath⟩ := mem_allOf_iff.mp hs
  have hpart : t ∈ s.all := by
    rw [all_eq, List.mem_cons, mem_allOf_iff]
    exact .inr ⟨t, ht, t.mem_all_self⟩
  exact mem_allOf_iff.mpr ⟨root, hroot, all_trans hbeneath hpart⟩

/-- When all strands have come to their ends, one of them has failed or all have a value. -/
theorem failed_or_values {strands : List (Strand n)} (hended : ∀ s ∈ strands, s.Ended) :
    (∃ e, .failed e ∈ strands) ∨ ∃ values, strands.mapM value? = some values := by
  induction strands with
  | nil => exact .inr ⟨[], rfl⟩
  | cons s rest ih =>
      have hs := hended s List.mem_cons_self
      obtain ⟨e, he⟩ | ⟨values, hvalues⟩ := ih fun t ht => hended t (List.mem_cons_of_mem _ ht)
      · exact .inl ⟨e, List.mem_cons_of_mem _ he⟩
      · cases s with
        | resolved visit value =>
            refine .inr ⟨value :: values, ?_⟩
            simp [List.mapM_cons, value?, hvalues]
        | failed e => exact .inl ⟨e, List.mem_cons_self⟩
        | _ => exact hs.elim

end Strand

namespace Resolver

variable {r : Resolver n σ}

/-! ### What holds in every state -/

/-- Strands and the cache that they share. -/
structure Coherent (r : Resolver n σ) (strands : List (Strand n)) (p : Progress n σ) : Prop where
  /-- A gate is taken while a strand evaluates its dependency, and then it is the only one. -/
  balanced : ∀ i, r.evaluators i strands = p.cache.holders i
  observed : ∀ i value, r.Observes strands i value → p.cache.gate i = .filled value
  sited : r.SitedAll strands

theorem coherent_begun (plan : Plan) (hreaches : r.Reaches r.top plan.roots) {p : Progress n σ}
    (hsettled : p.cache.Settled) : r.Coherent plan.begun p := by
  have hall : Strand.allOf (plan.begun : List (Strand n)) = plan.begun := allOf_begun [] plan.roots
  have hpending {s : Strand n} (hs : s ∈ Strand.allOf plan.begun) :
      ∃ edge ∈ plan.roots, .pending [] edge = s := by
    rw [hall] at hs
    exact List.mem_map.mp hs
  constructor
  · intro i
    rw [Cache.holders_of_ne (hsettled i), ← Nat.le_zero, ← Nat.not_lt, evaluators_pos_iff]
    rintro ⟨s, hs, hevaluates⟩
    obtain ⟨edge, _, rfl⟩ := hpending hs
    cases hevaluates
  · rintro i value ⟨visit, hmem, _⟩
    obtain ⟨edge, _, hedge⟩ := hpending hmem
    cases hedge
  · intro s hs
    obtain ⟨edge, hedge, rfl⟩ := hpending hs
    exact (hreaches edge hedge).2

section

variable {catalog : Catalog n σ} (harena : Arena catalog r.graph.nodes)
include harena

/-- Whichever strand advances, strands stay coherent, and filled gates keep their values. -/
theorem Turn.coherent {strands next : List (Strand n)} {p q : Progress n σ}
    (hturn : r.Turn (strands, p) (next, q)) (hcoherent : r.Coherent strands p) :
    r.Coherent next q ∧ ∀ i value, p.cache.gate i = .filled value →
      q.cache.gate i = .filled value := by
  cases hturn with
  | @intro before after s t _ _ hadvances =>
      have hshare (i : Fin n) : r.evaluators i [s] ≤ p.cache.holders i := by
        rw [← hcoherent.balanced, evaluators_within]
        omega
      have hfilled (i : Fin n) (value : Provided) (hgate : p.cache.gate i = .filled value) :
          q.cache.gate i = .filled value := hadvances.filled (hshare i) hgate
      refine ⟨⟨?_, ?_, ?_⟩, hfilled⟩
      · intro i
        have hbalance := hadvances.balance i (hshare i)
        have hbefore := hcoherent.balanced i
        rw [evaluators_within] at hbefore ⊢
        omega
      · intro i value hobserves
        rw [observes_within_iff] at hobserves
        obtain ht | hbeside := hobserves
        · obtain hs | hgate := hadvances.observes ht
          · exact hfilled i value
              (hcoherent.observed i value (observes_within_iff.mpr (.inl hs)))
          · exact hgate
        · exact hfilled i value
            (hcoherent.observed i value (observes_within_iff.mpr (.inr hbeside)))
      · obtain ⟨hs, hbeside⟩ := sitedAll_within_iff.mp hcoherent.sited
        exact sitedAll_within_iff.mpr ⟨hadvances.sited harena hs, hbeside⟩

/-- The same holds of any number of turns. -/
theorem Interleaves.coherent {state next : List (Strand n) × Progress n σ}
    (hruns : r.Interleaves state next) (hcoherent : r.Coherent state.1 state.2) :
    r.Coherent next.1 next.2 ∧ ∀ i value, state.2.cache.gate i = .filled value →
      next.2.cache.gate i = .filled value := by
  induction hruns with
  | refl => exact ⟨hcoherent, fun _ _ hgate => hgate⟩
  | tail _ hturn ih =>
      obtain ⟨hmiddle, hkept⟩ := ih
      obtain ⟨hlast, hthen⟩ := Turn.coherent harena hturn hmiddle
      exact ⟨hlast, fun i value hgate => hthen i value (hkept i value hgate)⟩

end

/-! ### Who waits for whom -/

theorem SitedAll.part {strands : List (Strand n)} (hsited : r.SitedAll strands) {s : Strand n}
    (hs : s ∈ Strand.allOf strands) : r.SitedAll [s] := by
  intro t ht
  rw [Strand.allOf, Strand.allOf, List.append_nil] at ht
  obtain ⟨root, hroot, hbeneath⟩ := Strand.mem_allOf_iff.mp hs
  exact hsited t (Strand.mem_allOf_iff.mpr ⟨root, hroot, Strand.all_trans hbeneath ht⟩)

/-- What is beneath a strand lies further to the front than its node. -/
theorem SitedAll.place_lt {s : Strand n} (hsited : r.SitedAll [s]) {t : Strand n}
    (ht : t ∈ Strand.allOf s.parts) {i j : Nat} (hs : s.place? = some i)
    (hplace : t.place? = some j) : j < i := by
  induction s using Strand.induction_parts generalizing i with
  | hstep s ih =>
      cases s with
      | gathering visit below =>
          cases hs
          obtain ⟨⟨_, hlower⟩, hbelow⟩ := sitedAll_gathering_iff.mp hsited
          obtain ⟨part, hpart, htpart⟩ := Strand.mem_allOf_iff.mp ht
          rw [Strand.all_eq, List.mem_cons] at htpart
          obtain rfl | hbeneath := htpart
          · exact hlower t hpart j hplace
          · have hmember : part ∈ Strand.allOf below :=
              Strand.mem_allOf_iff.mpr ⟨part, hpart, part.mem_all_self⟩
            cases hk : part.place? with
            | some k =>
                have hless := hlower part hpart k hk
                have hmore := ih part hpart (hbelow.part hmember) hbeneath hk
                omega
            | none =>
                cases part with
                | failed e => cases hbeneath
                | _ => cases hk
      | _ => cases ht

/-! ### Somebody can always advance -/

/-- A strand that something can be done for. -/
def CanAdvance (r : Resolver n σ) (p : Progress n σ) (s : Strand n) : Prop :=
  ∃ t q, r.Advances s p t q

/-- Authorized strands always go on somehow. -/
theorem exists_approach {visit : Visit n} (hnode : r.graph.nodes[visit.index]? = some visit.node)
    (p : Progress n σ) : ∃ s q, r.Approaches visit p s q := by
  have htop : visit.index ≤ r.top := Nat.le_of_lt (List.getElem?_eq_some_iff.mp hnode).1
  cases hcached : (r.graph.dependency visit.node).cached with
  | false => exact ⟨_, _, .uncached hcached⟩
  | true =>
      cases hgate : p.cache.gate visit.node.identity with
      | untouched => exact ⟨_, _, .first hcached (.inl hgate)⟩
      | free => exact ⟨_, _, .first hcached (.inr hgate)⟩
      | taken => exact ⟨_, _, .waits hcached hgate⟩
      | filled value =>
          cases hchecked : r.authorizeBelow r.top visit.scopes visit.node.edges with
          | error e => exact ⟨_, _, .refused value r.top e hcached hgate htop hchecked⟩
          | ok _ => exact ⟨_, _, .recalls value r.top hcached hgate htop hchecked⟩

theorem canAdvance_pending {inherited : Scopes} {edge : Edge}
    (hsited : r.Sited (.pending inherited edge)) (p : Progress n σ) :
    r.CanAdvance p (.pending inherited edge) := by
  obtain ⟨node, hnode⟩ := hsited
  cases hcredentials : authorize r.request (r.graph.dependency node)
      (accumulate inherited edge (r.graph.dependency node)) with
  | error e => exact ⟨_, _, .refused hnode hcredentials⟩
  | ok credentials =>
      have hvisit : r.Visits inherited edge ⟨edge.node, node, _, credentials⟩ :=
        ⟨rfl, hnode, rfl, hcredentials⟩
      obtain ⟨s, q, happroach⟩ := exists_approach hvisit.stands p
      exact ⟨s, q, .arrives hvisit happroach⟩

theorem canAdvance_running (visit : Visit n) (provided : Provisions) (polls : Nat)
    (p : Progress n σ) : r.CanAdvance p (.running visit provided polls) := by
  cases hrun : r.runBody visit provided polls p with
  | mk result q =>
      cases result with
      | error e => exact ⟨_, _, .fails hrun⟩
      | ok b =>
          obtain ⟨rfl, _⟩ | ⟨value, rfl, _⟩ := runBody_ok hrun
          · exact ⟨_, _, .pauses hrun⟩
          · exact ⟨_, _, .ends hrun⟩

/-- An evaluation goes on when all that it gathers has come to its end. -/
theorem canAdvance_gathering {visit : Visit n} {below : List (Strand n)}
    (hended : ∀ s ∈ below, s.Ended) (p : Progress n σ) :
    r.CanAdvance p (.gathering visit below) := by
  obtain ⟨e, he⟩ | ⟨values, hvalues⟩ := Strand.failed_or_values hended
  · exact ⟨_, _, .givesUp he⟩
  · exact ⟨_, _, .gathers hvalues⟩

/-- What can advance beneath a strand can advance as a part of it. -/
theorem CanAdvance.within {p : Progress n σ} {s t : Strand n} (ht : t ∈ s.all)
    (hadvance : r.CanAdvance p t) : r.CanAdvance p s := by
  induction s using Strand.induction_parts with
  | hstep s ih =>
      rw [Strand.all_eq, List.mem_cons, Strand.mem_allOf_iff] at ht
      obtain rfl | ⟨part, hpart, htpart⟩ := ht
      · exact hadvance
      · obtain ⟨next, q, hnext⟩ := ih part hpart htpart
        cases s with
        | gathering visit below =>
            obtain ⟨before, after, rfl⟩ := List.append_of_mem hpart
            exact ⟨_, q, .within hnext⟩
        | _ => cases hpart

theorem exists_turn {strands : List (Strand n)} {p : Progress n σ} {s : Strand n}
    (hs : s ∈ Strand.allOf strands) (hadvance : r.CanAdvance p s) :
    ∃ next, r.Turn (strands, p) next := by
  obtain ⟨root, hroot, hbeneath⟩ := Strand.mem_allOf_iff.mp hs
  obtain ⟨next, q, hnext⟩ := hadvance.within hbeneath
  obtain ⟨before, after, rfl⟩ := List.append_of_mem hroot
  exact ⟨_, .intro before after hnext⟩

/-- Where a strand has not come to its end, something can be done. It may have to wait for a gate,
but then whoever holds the gate can do something, or waits for something further to the front. -/
theorem Coherent.exists_canAdvance {catalog : Catalog n σ} (harena : Arena catalog r.graph.nodes)
    {strands : List (Strand n)} {p : Progress n σ} (hcoherent : r.Coherent strands p) (i : Nat)
    (s : Strand n) (hs : s ∈ Strand.allOf strands) (hopen : ¬s.Ended) (hplace : s.place? = some i) :
    ∃ t ∈ Strand.allOf strands, r.CanAdvance p t := by
  induction i using Nat.strongRecOn generalizing s with
  | ind i ih =>
      have hgathering (visit : Visit n) (below : List (Strand n))
          (hmember : .gathering visit below ∈ Strand.allOf strands) (hindex : visit.index = i) :
          ∃ t ∈ Strand.allOf strands, r.CanAdvance p t := by
        by_cases hended : ∀ part ∈ below, part.Ended
        · exact ⟨_, hmember, canAdvance_gathering hended p⟩
        · simp only [not_forall] at hended
          obtain ⟨part, hpart, hstill⟩ := hended
          cases hk : part.place? with
          | some k =>
              have hless := (hcoherent.sited _ hmember).2 part hpart k hk
              exact ih k (by omega) part (Strand.mem_allOf_of_parts hmember hpart) hstill hk
          | none =>
              cases part with
              | failed e => exact absurd trivial hstill
              | _ => cases hk
      have hsited := hcoherent.sited s hs
      cases s with
      | pending inherited edge => exact ⟨_, hs, canAdvance_pending hsited p⟩
      | running visit provided polls => exact ⟨_, hs, canAdvance_running visit provided polls p⟩
      | resolved visit value => exact absurd trivial hopen
      | failed e => exact absurd trivial hopen
      | gathering visit below => exact hgathering visit below hs (Option.some.inj hplace)
      | waiting visit =>
          by_cases htaken : p.cache.gate visit.node.identity = .taken
          · -- Whoever evaluates the dependency stands at the same node.
            have hone : 0 < r.evaluators visit.node.identity strands := by
              rw [hcoherent.balanced, Cache.holders_of_taken htaken]
              exact Nat.one_pos
            obtain ⟨holder, hholder, hevaluates⟩ := (evaluators_pos_iff _).mp hone
            have hthere := hcoherent.sited holder hholder
            cases holder with
            | running other provided polls =>
                exact ⟨_, hholder, canAdvance_running other provided polls p⟩
            | gathering other below =>
                simp only [evaluates, Bool.and_eq_true, decide_eq_true_eq] at hevaluates
                have hsame := harena.index_unique hthere.1 hsited hevaluates.2
                exact hgathering other below hholder (hsame.trans (Option.some.inj hplace))
            | _ => cases hevaluates
          · obtain ⟨t, q, happroach⟩ := exists_approach hsited p
            exact ⟨_, hs, t, q, .returns htaken happroach⟩

/-- Whatever the order in which branches of a resolution advance: a cached dependency is evaluated
by one of them at a time, exactly while its gate is taken; once the gate is filled, nobody evaluates
it any more, and its value stays; all that is resolved for the dependency, at any time, has this
value; whoever holds the gate of a node waits only at gates of nodes further to the front; and as
long as a root has not come to its end, some branch can advance. What the resolver comes to, with
its rounds, is what branches come to in one of these orders. -/
theorem interleaving_coherent (r : Resolver n σ) (catalog : Catalog n σ)
    (references : List (Reference n)) (plan : Plan)
    (hcompiled : Compiled catalog references r.graph plan) (p : Progress n σ)
    (hsettled : p.cache.Settled) :
    (∀ strands q, r.Interleaves (plan.begun, p) (strands, q) →
      (∀ i, r.evaluators i strands ≤ 1 ∧
        (r.evaluators i strands = 1 ↔ q.cache.gate i = .taken)) ∧
      (∀ later s, r.Interleaves (strands, q) (later, s) → ∀ i value,
        (q.cache.gate i = .filled value →
          s.cache.gate i = .filled value ∧ r.evaluators i later = 0) ∧
        (r.Observes strands i value → ∀ other, r.Observes later i other → other = value)) ∧
      (∀ holder ∈ Strand.allOf strands, ∀ i place, r.evaluates i holder = true →
        holder.place? = some place →
          ∀ visit, .waiting visit ∈ holder.all → visit.index < place) ∧
      ((∃ s ∈ strands, ¬s.Ended) → ∃ next, r.Turn (strands, q) next)) ∧
    r.Attains plan p (r.resolve plan p) := by
  have harena := hcompiled.arena
  have hreaches := hcompiled.reaches_roots
  refine ⟨?_, attains_resolve harena plan hreaches p hsettled⟩
  intro strands q hreached
  have hbegun := coherent_begun plan hreaches hsettled
  have hcoherent := (Interleaves.coherent harena hreached hbegun).1
  refine ⟨?_, ?_, ?_, ?_⟩
  · intro i
    have hone := q.cache.holders_le_one i
    rw [hcoherent.balanced]
    refine ⟨hone, ?_, Cache.holders_of_taken⟩
    intro hheld
    apply Cache.taken_of_holders
    rw [hheld]
    exact Nat.one_pos
  · intro later s hthen i value
    obtain ⟨hlater, hkept⟩ := Interleaves.coherent harena hthen hcoherent
    constructor
    · intro hgate
      have hfilled := hkept i value hgate
      refine ⟨hfilled, ?_⟩
      rw [hlater.balanced]
      apply Cache.holders_of_ne
      rw [hfilled]
      exact Gate.noConfusion
    · intro hobserves other hother
      have hfilled := hkept i value (hcoherent.observed i value hobserves)
      rw [hlater.observed i other hother] at hfilled
      exact Gate.filled.inj hfilled
  · intro holder hholder i place hevaluates hplace visit hwaits
    rw [Strand.all_eq, List.mem_cons] at hwaits
    obtain rfl | hbeneath := hwaits
    · cases hevaluates
    · exact (hcoherent.sited.part hholder).place_lt hbeneath hplace rfl
  · rintro ⟨s, hs, hopen⟩
    have hmember := Strand.mem_allOf_iff.mpr ⟨s, hs, s.mem_all_self⟩
    obtain ⟨place, hplace⟩ : ∃ place, s.place? = some place := by
      cases s with
      | failed e => exact absurd trivial hopen
      | _ => exact ⟨_, rfl⟩
    obtain ⟨t, ht, hadvance⟩ :=
      hcoherent.exists_canAdvance harena place s hmember hopen hplace
    exact exists_turn ht hadvance

/-- A visit of the session, for which these scopes were collected. -/
def sessionVisit (scopes : Scopes) : Visit 2 :=
  ⟨0, ⟨session, [], []⟩, scopes, some ⟨none, ["read"], .null⟩⟩

def profileVisit : Visit 2 :=
  ⟨1, ⟨profile, [], [⟨"session", 0, ["read"]⟩]⟩, [], none⟩

/-- The profile is begun before the session, and waits for it while it is evaluated for the other
root. -/
theorem interleaving_coherent_sample :
    let begun : List (Strand 2) × Progress 2 Unit := ((samplePlan []).begun, ⟨.empty, ⟨(), []⟩, []⟩)
    ∃ strands q, sampleResolver.Interleaves begun (strands, q) ∧
      .waiting (sessionVisit ["read"]) ∈ Strand.allOf strands ∧
      sampleResolver.evaluators session strands = 1 ∧
      ∃ next, sampleResolver.Turn (strands, q) next := by
  intro begun
  let profileTaken : Cache 2 := Cache.empty.set profile .taken
  let bothTaken : Cache 2 := profileTaken.set session .taken
  let root : Strand 2 := .pending [] ⟨"session", 0, []⟩
  let part : Strand 2 := .pending [] ⟨"session", 0, ["read"]⟩
  have hprofile : sampleResolver.Visits [] ⟨"profile", 1, []⟩ profileVisit := ⟨rfl, rfl, rfl, rfl⟩
  have hroot : sampleResolver.Visits [] ⟨"session", 0, []⟩ (sessionVisit []) :=
    ⟨rfl, rfl, rfl, rfl⟩
  have hpart : sampleResolver.Visits [] ⟨"session", 0, ["read"]⟩ (sessionVisit ["read"]) :=
    ⟨rfl, rfl, rfl, rfl⟩
  have hfirst : sampleResolver.Turn begun
      ([root, .gathering profileVisit [part]], ⟨profileTaken, ⟨(), []⟩, []⟩) :=
    .intro [root] [] (.arrives hprofile (.first rfl (.inl rfl)))
  have hsecond : sampleResolver.Turn
      ([root, .gathering profileVisit [part]], ⟨profileTaken, ⟨(), []⟩, []⟩)
      ([.gathering (sessionVisit []) [], .gathering profileVisit [part]],
        ⟨bothTaken, ⟨(), []⟩, []⟩) :=
    .intro [] [.gathering profileVisit [part]]
      (.arrives hroot (.first rfl (.inl rfl)))
  have hwaits : sampleResolver.Advances (.gathering profileVisit ([] ++ part :: []))
      ⟨bothTaken, ⟨(), []⟩, []⟩
      (.gathering profileVisit ([] ++ .waiting (sessionVisit ["read"]) :: []))
      ⟨bothTaken, ⟨(), []⟩, []⟩ :=
    .within (.arrives hpart (.waits rfl rfl))
  have hthird : sampleResolver.Turn
      ([.gathering (sessionVisit []) [], .gathering profileVisit [part]],
        ⟨bothTaken, ⟨(), []⟩, []⟩)
      ([.gathering (sessionVisit []) [],
        .gathering profileVisit [.waiting (sessionVisit ["read"])]], ⟨bothTaken, ⟨(), []⟩, []⟩) :=
    .intro [.gathering (sessionVisit []) []] [] hwaits
  have hreached := ((Relation.ReflTransGen.single hfirst).tail hsecond).tail hthird
  have hcompiled : Compiled sampleCatalog
      [⟨"session", session, []⟩, ⟨"profile", profile, []⟩] sampleResolver.graph (samplePlan []) :=
    .intro [] [] (samplePlan []) rfl
  obtain ⟨hsingle, _, _, hopen⟩ := (interleaving_coherent sampleResolver sampleCatalog _
    (samplePlan []) hcompiled _ Cache.settled_empty).1 _ _ hreached
  have hmember : .waiting (sessionVisit ["read"]) ∈ Strand.allOf
      [.gathering (sessionVisit []) [],
        .gathering profileVisit [.waiting (sessionVisit ["read"])]] := by
    simp [Strand.allOf, Strand.all]
  refine ⟨_, _, hreached, hmember, (hsingle session).2.mpr rfl, hopen ⟨_, List.mem_cons_self, ?_⟩⟩
  exact id

end Resolver

end RequestDispatch
