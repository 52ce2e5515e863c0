import RequestDispatch.Proofs.Dependency.Gates

/-!
Branches do not wait for one another for ever. A branch that waits does so at a gate that some
branch holds, and what is evaluated below that branch lies further to the front of the graph.
So when no branch can do anything, all of them have a value.
-/

namespace RequestDispatch

variable {n : Nat} {σ : Type}

namespace Resolver

mutual

/-- A branch that a poll leaves as it is: its ends have a value or wait at gates that are
taken. -/
def Idle (cache : Cache n) : Branch n → Prop
  | .resolved _ => True
  | .waiting visit => cache.gate visit.node.identity = .taken
  | .gathering _ below => AllIdle cache below ∧ below.mapM Branch.value? = none
  | .running .. => False

def AllIdle (cache : Cache n) : List (Branch n) → Prop
  | [] => True
  | b :: rest => Idle cache b ∧ AllIdle cache rest

end

variable {r : Resolver n σ} {catalog : Catalog n σ}

mutual

theorem taken_of_idle (cache : Cache n) (b : Branch n) (hidle : Idle cache b) (visit : Visit n)
    (hvisit : visit ∈ awaited b) : cache.gate visit.node.identity = .taken := by
  cases b with
  | resolved value => simp [awaited] at hvisit
  | waiting other =>
      simp only [awaited, List.mem_singleton] at hvisit
      subst hvisit
      exact hidle
  | gathering other below => exact taken_of_allIdle cache below hidle.1 visit hvisit
  | running other provided polls => exact hidle.elim

theorem taken_of_allIdle (cache : Cache n) (branches : List (Branch n))
    (hidle : AllIdle cache branches) (visit : Visit n) (hvisit : visit ∈ awaitedAll branches) :
    cache.gate visit.node.identity = .taken := by
  cases branches with
  | nil => simp [awaitedAll] at hvisit
  | cons b rest =>
      rw [awaitedAll, List.mem_append] at hvisit
      rcases hvisit with hfirst | hrest
      · exact taken_of_idle cache b hidle.1 visit hfirst
      · exact taken_of_allIdle cache rest hidle.2 visit hrest

end

theorem eq_of_mem_claims {visit other : Visit n} (hother : other ∈ r.claims visit) : other = visit := by
  unfold claims at hother
  split at hother
  · exact List.mem_singleton.mp hother
  · simp at hother

mutual

/-- Visits of a branch stand at their nodes. -/
theorem node_of_covers (b : Branch n) (inherited : Scopes) (edge : Edge)
    (hcovers : r.Covers b inherited edge) (visit : Visit n)
    (hvisit : visit ∈ r.held b ∨ visit ∈ awaited b) :
    r.graph.nodes[visit.index]? = some visit.node := by
  cases b with
  | resolved value => simp [held, awaited] at hvisit
  | waiting other =>
      simp only [held, awaited, List.not_mem_nil, List.mem_singleton, false_or] at hvisit
      subst hvisit
      exact hcovers.stands
  | gathering other below =>
      rw [held, awaited, List.mem_append] at hvisit
      rcases hvisit with (hclaim | hheld) | hawaited
      · rw [eq_of_mem_claims hclaim]
        exact hcovers.1.stands
      · exact node_of_coversAll below _ _ hcovers.2 visit (Or.inl hheld)
      · exact node_of_coversAll below _ _ hcovers.2 visit (Or.inr hawaited)
  | running other provided polls =>
      simp only [held, awaited, List.not_mem_nil, or_false] at hvisit
      rw [eq_of_mem_claims hvisit]
      exact hcovers.1.stands

theorem node_of_coversAll (branches : List (Branch n)) (inherited : Scopes) (edges : List Edge)
    (hcovers : r.CoversAll branches inherited edges) (visit : Visit n)
    (hvisit : visit ∈ r.heldAll branches ∨ visit ∈ awaitedAll branches) :
    r.graph.nodes[visit.index]? = some visit.node := by
  cases branches with
  | nil => simp [heldAll, awaitedAll] at hvisit
  | cons b rest =>
      cases edges with
      | nil => cases hcovers
      | cons edge edges =>
          rw [heldAll, awaitedAll, List.mem_append, List.mem_append] at hvisit
          rcases hvisit with (hfirst | hrest) | (hfirst | hrest)
          · exact node_of_covers b _ _ hcovers.1 visit (Or.inl hfirst)
          · exact node_of_coversAll rest _ _ hcovers.2 visit (Or.inl hrest)
          · exact node_of_covers b _ _ hcovers.1 visit (Or.inr hfirst)
          · exact node_of_coversAll rest _ _ hcovers.2 visit (Or.inr hrest)

end

mutual

/-- An idle branch without a value waits for something at its own node or below. -/
theorem exists_awaited (harena : Arena catalog r.graph.nodes) (cache : Cache n)
    (b : Branch n) (inherited : Scopes) (edge : Edge)
    (hcovers : r.Covers b inherited edge) (hidle : Idle cache b) (hvalue : b.value? = none) :
    ∃ visit ∈ awaited b, visit.index ≤ edge.node := by
  cases b with
  | resolved value => cases hvalue
  | waiting visit => exact ⟨visit, by simp [awaited], Nat.le_of_eq hcovers.index⟩
  | gathering visit below =>
      obtain ⟨other, hother, lower, hlower, hle⟩ :=
        exists_awaitedAll harena cache below _ _ hcovers.2 hidle.1 hidle.2
      have hless := (harena.edge_below hcovers.1.node hlower).1
      exact ⟨other, hother, by omega⟩
  | running visit provided polls => exact hidle.elim

theorem exists_awaitedAll (harena : Arena catalog r.graph.nodes) (cache : Cache n)
    (branches : List (Branch n)) (inherited : Scopes) (edges : List Edge)
    (hcovers : r.CoversAll branches inherited edges) (hidle : AllIdle cache branches)
    (hvalues : branches.mapM Branch.value? = none) :
    ∃ visit ∈ awaitedAll branches, ∃ edge ∈ edges, visit.index ≤ edge.node := by
  cases branches with
  | nil => simp at hvalues
  | cons b rest =>
      cases edges with
      | nil => cases hcovers
      | cons edge edges =>
          cases hvalue : b.value? with
          | none =>
              obtain ⟨visit, hvisit, hle⟩ :=
                exists_awaited harena cache b _ _ hcovers.1 hidle.1 hvalue
              exact ⟨visit, List.mem_append_left _ hvisit, edge, by simp, hle⟩
          | some value =>
              have hrest : rest.mapM Branch.value? = none := by
                cases hmore : rest.mapM Branch.value? with
                | none => rfl
                | some values => simp [List.mapM_cons, hvalue, hmore] at hvalues
              obtain ⟨visit, hvisit, lower, hlower, hle⟩ :=
                exists_awaitedAll harena cache rest _ _ hcovers.2 hidle.2 hrest
              exact ⟨visit, List.mem_append_right _ hvisit, lower, by simp [hlower], hle⟩

end

mutual

/-- An idle evaluation waits for something further to the front than its own node. -/
theorem exists_awaited_below (harena : Arena catalog r.graph.nodes) (cache : Cache n)
    (b : Branch n) (inherited : Scopes) (edge : Edge) (hcovers : r.Covers b inherited edge)
    (hidle : Idle cache b) (holder : Visit n) (hholder : holder ∈ r.held b) :
    ∃ visit ∈ awaited b, visit.index < holder.index := by
  cases b with
  | resolved value => simp [held] at hholder
  | waiting visit => simp [held] at hholder
  | gathering visit below =>
      rw [held, List.mem_append] at hholder
      rcases hholder with hclaim | hbelow
      · obtain ⟨other, hother, lower, hlower, hle⟩ :=
          exists_awaitedAll harena cache below _ _ hcovers.2 hidle.1 hidle.2
        have hless := (harena.edge_below hcovers.1.node hlower).1
        rw [eq_of_mem_claims hclaim, hcovers.1.index]
        exact ⟨other, hother, by omega⟩
      · exact exists_awaitedAll_below harena cache below _ _ hcovers.2 hidle.1 holder hbelow
  | running visit provided polls => exact hidle.elim

theorem exists_awaitedAll_below (harena : Arena catalog r.graph.nodes) (cache : Cache n)
    (branches : List (Branch n)) (inherited : Scopes) (edges : List Edge)
    (hcovers : r.CoversAll branches inherited edges) (hidle : AllIdle cache branches)
    (holder : Visit n) (hholder : holder ∈ r.heldAll branches) :
    ∃ visit ∈ awaitedAll branches, visit.index < holder.index := by
  cases branches with
  | nil => simp [heldAll] at hholder
  | cons b rest =>
      cases edges with
      | nil => cases hcovers
      | cons edge edges =>
          rw [heldAll, List.mem_append] at hholder
          rcases hholder with hfirst | hrest
          · obtain ⟨visit, hvisit, hless⟩ :=
              exists_awaited_below harena cache b _ _ hcovers.1 hidle.1 holder hfirst
            exact ⟨visit, List.mem_append_left _ hvisit, hless⟩
          · obtain ⟨visit, hvisit, hless⟩ :=
              exists_awaitedAll_below harena cache rest _ _ hcovers.2 hidle.2 holder hrest
            exact ⟨visit, List.mem_append_right _ hvisit, hless⟩

end

/-- When no branch can do anything and every taken gate is held by one of them, all of them
have a value. Otherwise the one that waits furthest to the front would wait for a branch that
itself waits for something still further there. -/
theorem values_of_allIdle (harena : Arena catalog r.graph.nodes) (cache : Cache n)
    (branches : List (Branch n)) (inherited : Scopes) (edges : List Edge)
    (hcovers : r.CoversAll branches inherited edges) (hidle : AllIdle cache branches)
    (hheld : ∀ i, cache.gate i = .taken → ∃ visit ∈ r.heldAll branches, visit.node.identity = i) :
    ∃ values, branches.mapM Branch.value? = some values := by
  have hnone (index : Nat) : ∀ visit ∈ awaitedAll branches, visit.index ≠ index := by
    induction index using Nat.strongRecOn with
    | ind index ih =>
        intro visit hvisit hindex
        obtain ⟨holder, hholder, hsame⟩ :=
          hheld _ (taken_of_allIdle cache branches hidle visit hvisit)
        have hvisitNode := node_of_coversAll branches _ _ hcovers visit (Or.inr hvisit)
        have hholderNode := node_of_coversAll branches _ _ hcovers holder (Or.inl hholder)
        have hplace := harena.index_unique hholderNode hvisitNode hsame
        obtain ⟨lower, hlower, hless⟩ :=
          exists_awaitedAll_below harena cache branches _ _ hcovers hidle holder hholder
        exact ih lower.index (by omega) lower hlower rfl
  cases hvalues : branches.mapM Branch.value? with
  | some values => exact ⟨values, rfl⟩
  | none =>
      obtain ⟨visit, hvisit, _⟩ :=
        exists_awaitedAll harena cache branches _ _ hcovers hidle hvalues
      exact absurd rfl (hnone visit.index visit hvisit)

end Resolver

end RequestDispatch
