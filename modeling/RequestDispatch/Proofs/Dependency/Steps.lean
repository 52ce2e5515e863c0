import RequestDispatch.Dependency.Resolver

/-!
What a step of a resolution has done when it did not fail. There is one statement for each kind
of step, and what branches keep through a resolution is derived from these.
-/

namespace RequestDispatch

variable {n : Nat} {σ : Type}

/-- Code pauses only while it has pauses left. -/
theorem Routine.lt_pauses_of_poll {ι α : Type} (routine : Routine σ ι α) (polls : Nat)
    (input : ι) (effects after : Effects σ)
    (hpause : routine.poll polls input effects = (none, after)) : polls < routine.pauses := by
  cases routine with
  | inline run => cases hpause
  | suspending pauses attempt conclude =>
      by_cases hless : polls < pauses
      · exact hless
      · simp only [poll, hless, ↓reduceIte] at hpause
        cases hpause

namespace Resolver

variable (r : Resolver n σ)

/-- The number of pauses that the code of a visited dependency may make. -/
def pausesOf (visit : Visit n) : Nat :=
  (r.graph.dependency visit.node).routine.pauses

/-- The cache after a visited dependency has got a value. -/
def keep (visit : Visit n) (value : Provided) (cache : Cache n) : Cache n :=
  if (r.graph.dependency visit.node).cached then cache.set visit.node.identity (.filled value)
  else cache

/-- How an authorized branch goes on. -/
inductive Arrives (level : Nat) (start : Scopes → Edge → Step n σ (Branch n)) (visit : Visit n)
    (p : Progress n σ) : Branch n → Progress n σ → Prop where
  /-- The dependency is not cached, and is evaluated. -/
  | uncached {b : Branch n} {after : Progress n σ}
      (hcached : (r.graph.dependency visit.node).cached = false)
      (hrun : r.evaluate start visit p = (.ok b, after)) : Arrives level start visit p b after
  /-- Nobody has come to the gate yet. -/
  | first {b : Branch n} {after : Progress n σ}
      (hcached : (r.graph.dependency visit.node).cached = true)
      (hfree : p.cache.gate visit.node.identity = .untouched ∨
        p.cache.gate visit.node.identity = .free)
      (hrun : r.evaluate start visit
        { p with cache := p.cache.set visit.node.identity .taken } = (.ok b, after)) :
      Arrives level start visit p b after
  /-- Somebody else evaluates the dependency. -/
  | waits (hcached : (r.graph.dependency visit.node).cached = true)
      (htaken : p.cache.gate visit.node.identity = .taken) :
      Arrives level start visit p (.waiting visit) p
  /-- The dependency was evaluated, and the ways below it are authorized. -/
  | recalls (value : Provided) (hcached : (r.graph.dependency visit.node).cached = true)
      (hfilled : p.cache.gate visit.node.identity = .filled value)
      (hchecked : r.authorizeBelow level visit.scopes visit.node.edges = .ok ()) :
      Arrives level start visit p (.resolved value) p

variable {r}

/-- Polled code pauses, or it ends with a value. -/
theorem runBody_ok {visit : Visit n} {provided : Provisions} {polls : Nat}
    {p after : Progress n σ} {b : Branch n}
    (hrun : r.runBody visit provided polls p = (.ok b, after)) :
    (b = .running visit provided (polls + 1) ∧ polls < r.pausesOf visit ∧
        after.cache = p.cache) ∨
      ∃ value, b = .resolved value ∧ after.cache = r.keep visit value p.cache := by
  simp only [runBody] at hrun
  split at hrun
  · rename_i effects hpoll
    cases hrun
    exact Or.inl ⟨rfl, Routine.lt_pauses_of_poll _ _ _ _ _ hpoll, rfl⟩
  · rename_i outcome effects hpoll
    cases outcome with
    | value value =>
        cases hrun
        exact Or.inr ⟨value, rfl, rfl⟩
    | failed e => cases hrun
    | panicked panic => cases hrun

/-- An evaluation runs its code when everything below it has a value, and else waits on. -/
theorem gathered_ok {visit : Visit n} {below : List (Branch n)} {p after : Progress n σ}
    {b : Branch n} (hrun : r.gathered visit below p = (.ok b, after)) :
    (∃ values, below.mapM Branch.value? = some values ∧
        r.runBody visit ((visit.node.edges.map (·.name)).zip values) 0 p = (.ok b, after)) ∨
      (below.mapM Branch.value? = none ∧ b = .gathering visit below ∧ after = p) := by
  simp only [gathered] at hrun
  split at hrun
  · rename_i values hvalues
    exact Or.inl ⟨values, hvalues, hrun⟩
  · rename_i hvalues
    cases hrun
    exact Or.inr ⟨hvalues, rfl, rfl⟩

theorem pollEach_nil_ok {α β : Type} {poll : α → Step n σ β} {p after : Progress n σ}
    {results : List β} (hrun : pollEach poll [] p = (.ok results, after)) :
    results = [] ∧ after = p := by
  cases hrun
  exact ⟨rfl, rfl⟩

theorem pollEach_cons_ok {α β : Type} {poll : α → Step n σ β} {a : α} {rest : List α}
    {p after : Progress n σ} {results : List β}
    (hrun : pollEach poll (a :: rest) p = (.ok results, after)) :
    ∃ b next more, poll a p = (.ok b, next) ∧ pollEach poll rest next = (.ok more, after) ∧
      results = b :: more := by
  simp only [pollEach] at hrun
  split at hrun
  · cases hrun
  · rename_i b next hfirst
    split at hrun
    · cases hrun
    · rename_i more last hmore
      cases hrun
      exact ⟨b, next, more, hfirst, hmore, rfl⟩

theorem evaluate_ok {start : Scopes → Edge → Step n σ (Branch n)} {visit : Visit n}
    {p after : Progress n σ} {b : Branch n}
    (hrun : r.evaluate start visit p = (.ok b, after)) :
    ∃ below next, pollEach (start visit.scopes) visit.node.edges p = (.ok below, next) ∧
      r.gathered visit below next = (.ok b, after) := by
  simp only [evaluate] at hrun
  split at hrun
  · cases hrun
  · rename_i below next hbegun
    exact ⟨below, next, hbegun, hrun⟩

theorem arrive_ok {level : Nat} {start : Scopes → Edge → Step n σ (Branch n)} {visit : Visit n}
    {p after : Progress n σ} {b : Branch n}
    (hrun : r.arrive level start visit p = (.ok b, after)) :
    r.Arrives level start visit p b after := by
  simp only [arrive] at hrun
  cases hcached : (r.graph.dependency visit.node).cached with
  | false =>
      simp only [hcached, Bool.not_false, ↓reduceIte] at hrun
      exact .uncached hcached hrun
  | true =>
      simp only [hcached, Bool.not_true, Bool.false_eq_true, ↓reduceIte] at hrun
      cases hgate : p.cache.gate visit.node.identity with
      | untouched =>
          simp only [hgate] at hrun
          exact .first hcached (Or.inl hgate) hrun
      | free =>
          simp only [hgate] at hrun
          exact .first hcached (Or.inr hgate) hrun
      | taken =>
          simp only [hgate] at hrun
          cases hrun
          exact .waits hcached hgate
      | filled value =>
          simp only [hgate] at hrun
          split at hrun
          · cases hrun
          · rename_i hchecked
            cases hrun
            exact .recalls value hcached hgate hchecked

/-- A branch that begins has found its node and was authorized. -/
theorem start_ok {level : Nat} {inherited : Scopes} {edge : Edge} {p after : Progress n σ}
    {b : Branch n} (hrun : r.start (level + 1) inherited edge p = (.ok b, after)) :
    ∃ node credentials, r.graph.nodes[edge.node]? = some node ∧
      authorize r.request (r.graph.dependency node)
        (accumulate inherited edge (r.graph.dependency node)) = .ok credentials ∧
      r.arrive level (r.start level) ⟨edge.node, node,
        accumulate inherited edge (r.graph.dependency node), credentials⟩ p = (.ok b, after) := by
  simp only [start] at hrun
  split at hrun
  · cases hrun
  · rename_i node hnode
    split at hrun
    · cases hrun
    · rename_i credentials hcredentials
      exact ⟨node, credentials, hnode, hcredentials, hrun⟩

theorem poll_gathering_ok {visit : Visit n} {below : List (Branch n)} {p after : Progress n σ}
    {b : Branch n} (hrun : r.poll (.gathering visit below) p = (.ok b, after)) :
    ∃ more next, r.pollAll below p = (.ok more, next) ∧
      r.gathered visit more next = (.ok b, after) := by
  simp only [poll] at hrun
  split at hrun
  · cases hrun
  · rename_i more next hbelow
    exact ⟨more, next, hbelow, hrun⟩

theorem pollAll_cons_ok {b : Branch n} {rest next : List (Branch n)} {p after : Progress n σ}
    (hrun : r.pollAll (b :: rest) p = (.ok next, after)) :
    ∃ first middle others, r.poll b p = (.ok first, middle) ∧
      r.pollAll rest middle = (.ok others, after) ∧ next = first :: others := by
  simp only [pollAll] at hrun
  split at hrun
  · cases hrun
  · rename_i first middle hfirst
    split at hrun
    · cases hrun
    · rename_i others last hrest
      cases hrun
      exact ⟨first, middle, others, hfirst, hrest, rfl⟩

/-- Branches have values when all of them are resolved. -/
theorem values_eq_some_iff {branches : List (Branch n)} {values : List Provided} :
    branches.mapM Branch.value? = some values ↔ branches = values.map .resolved := by
  constructor
  · intro hvalues
    induction branches generalizing values with
    | nil =>
        cases hvalues
        rfl
    | cons b rest ih =>
        rw [List.mapM_cons] at hvalues
        cases b with
        | resolved value =>
            cases hrest : rest.mapM Branch.value? with
            | none => simp [Branch.value?, hrest] at hvalues
            | some more =>
                simp only [Branch.value?, hrest] at hvalues
                cases hvalues
                rw [ih hrest, List.map_cons]
        | waiting visit => simp [Branch.value?] at hvalues
        | gathering visit below => simp [Branch.value?] at hvalues
        | running visit provided polls => simp [Branch.value?] at hvalues
  · rintro rfl
    induction values with
    | nil => rfl
    | cons value rest ih => simp [List.mapM_cons, Branch.value?, ih]

theorem finish_of_values {branches : List (Branch n)} {values : List Provided}
    (hvalues : branches.mapM Branch.value? = some values) (rounds : Nat) (p : Progress n σ) :
    r.finish rounds branches p = (.ok values, p) := by
  cases rounds <;> simp [finish, hvalues]

theorem finish_of_round {branches next : List (Branch n)} {p middle : Progress n σ}
    (hvalues : branches.mapM Branch.value? = none)
    (hround : r.pollAll branches p = (.ok next, middle)) (rounds : Nat) :
    r.finish (rounds + 1) branches p = r.finish rounds next middle := by
  simp [finish, hvalues, hround]

theorem finish_of_error {branches : List (Branch n)} {p after : Progress n σ} {e : DispatchError}
    (hvalues : branches.mapM Branch.value? = none)
    (hround : r.pollAll branches p = (.error e, after)) (rounds : Nat) :
    r.finish (rounds + 1) branches p = (.error e, after) := by
  simp [finish, hvalues, hround]

/-- Branches that finish have their values, or they go through another round. -/
theorem finish_ok {rounds : Nat} {branches : List (Branch n)} {p after : Progress n σ}
    {values : List Provided} (hrun : r.finish rounds branches p = (.ok values, after)) :
    (branches.mapM Branch.value? = some values ∧ after = p) ∨
      ∃ left next middle, rounds = left + 1 ∧ r.pollAll branches p = (.ok next, middle) ∧
        r.finish left next middle = (.ok values, after) := by
  cases hvalues : branches.mapM Branch.value? with
  | some found =>
      rw [finish_of_values hvalues] at hrun
      cases hrun
      exact Or.inl ⟨rfl, rfl⟩
  | none =>
      cases rounds with
      | zero => simp [finish, hvalues] at hrun
      | succ left =>
          cases hround : r.pollAll branches p with
          | mk result middle =>
              cases result with
              | error e => simp [finish, hvalues, hround] at hrun
              | ok next =>
                  rw [finish_of_round hvalues hround] at hrun
                  exact Or.inr ⟨left, next, middle, rfl, rfl, hrun⟩

/-- A resolution that succeeds has begun all its roots and finished the branches. -/
theorem resolve_ok {plan : Plan} {p after : Progress n σ} {provisions : Provisions}
    (hrun : r.resolve plan p = (.ok provisions, after)) :
    ∃ branches next values, pollEach (r.start r.top []) plan.roots p = (.ok branches, next) ∧
      r.finish (r.allowance plan.roots) branches next = (.ok values, after) := by
  simp only [resolve] at hrun
  split at hrun
  · cases hrun
  · rename_i values last hfollowed
    cases hrun
    simp only [followAll] at hfollowed
    split at hfollowed
    · cases hfollowed
    · rename_i branches next hbegun
      exact ⟨branches, next, values, hbegun, hfollowed⟩

/-! ### How many values there are -/

theorem length_of_pollEach {α β : Type} {poll : α → Step n σ β} {items : List α}
    {p after : Progress n σ} {results : List β}
    (hrun : pollEach poll items p = (.ok results, after)) : results.length = items.length := by
  induction items generalizing p results with
  | nil =>
      obtain ⟨rfl, _⟩ := pollEach_nil_ok hrun
      rfl
  | cons a rest ih =>
      obtain ⟨b, next, more, _, hmore, rfl⟩ := pollEach_cons_ok hrun
      rw [List.length_cons, List.length_cons, ih hmore]

theorem length_of_pollAll {branches next : List (Branch n)} {p after : Progress n σ}
    (hrun : r.pollAll branches p = (.ok next, after)) : next.length = branches.length := by
  induction branches generalizing p next with
  | nil =>
      simp only [pollAll] at hrun
      cases hrun
      rfl
  | cons b rest ih =>
      obtain ⟨first, middle, others, _, hothers, rfl⟩ := pollAll_cons_ok hrun
      rw [List.length_cons, List.length_cons, ih hothers]

theorem length_of_finish {rounds : Nat} {branches : List (Branch n)} {p after : Progress n σ}
    {values : List Provided} (hrun : r.finish rounds branches p = (.ok values, after)) :
    values.length = branches.length := by
  induction rounds generalizing branches p with
  | zero =>
      obtain ⟨hvalues, _⟩ | ⟨_, _, _, hrounds, _⟩ := finish_ok hrun
      · rw [values_eq_some_iff.mp hvalues, List.length_map]
      · cases hrounds
  | succ rounds ih =>
      obtain ⟨hvalues, _⟩ | ⟨left, next, middle, hrounds, hround, hrest⟩ := finish_ok hrun
      · rw [values_eq_some_iff.mp hvalues, List.length_map]
      · cases hrounds
        rw [ih hrest, length_of_pollAll hround]

/-- A resolution that succeeds provides a value for every root, in the order of the roots. -/
theorem names_of_resolve {plan : Plan} {p after : Progress n σ} {provisions : Provisions}
    (hrun : r.resolve plan p = (.ok provisions, after)) :
    provisions.map (·.1) = plan.roots.map (·.name) := by
  obtain ⟨branches, next, values, hbegun, hfinish⟩ := resolve_ok hrun
  have hlength : values.length = plan.roots.length := by
    rw [length_of_finish hfinish, length_of_pollEach hbegun]
  simp only [resolve, followAll, hbegun, hfinish] at hrun
  cases hrun
  apply List.map_fst_zip
  rw [List.length_map]
  exact Nat.le_of_eq hlength.symm

end Resolver

end RequestDispatch
