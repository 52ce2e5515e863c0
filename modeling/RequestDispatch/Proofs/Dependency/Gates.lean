import RequestDispatch.Proofs.Dependency.Branches

/-!
Who holds the gates of cached dependencies, and who waits at them. A branch that evaluates a
cached dependency holds its gate until it has filled it, so behind every gate that was taken
during a resolution there is a branch that works on it. A branch that waits stands at a gate
that was taken or filled.
-/

namespace RequestDispatch

variable {n : Nat} {σ : Type}

namespace Cache

/-- Somebody evaluates the dependency of a gate or has done so. -/
def Engaged (cache : Cache n) (identity : Fin n) : Prop :=
  cache.gate identity = .taken ∨ ∃ value, cache.gate identity = .filled value

@[simp] theorem gate_set_self (cache : Cache n) (identity : Fin n) (gate : Gate) :
    (cache.set identity gate).gate identity = gate := by
  simp [set]

theorem gate_set_of_ne (cache : Cache n) {identity other : Fin n} (hne : other ≠ identity)
    (gate : Gate) : (cache.set identity gate).gate other = cache.gate other := by
  simp [set, hne]

end Cache

namespace Resolver

variable (r : Resolver n σ)

/-- An evaluation of a cached dependency holds its gate. -/
def claims (visit : Visit n) : List (Visit n) :=
  if (r.graph.dependency visit.node).cached then [visit] else []

mutual

/-- The evaluations of a branch that hold gates. -/
def held : Branch n → List (Visit n)
  | .resolved _ => []
  | .waiting _ => []
  | .gathering visit below => r.claims visit ++ heldAll below
  | .running visit _ _ => r.claims visit

def heldAll : List (Branch n) → List (Visit n)
  | [] => []
  | b :: rest => held b ++ heldAll rest

end

mutual

/-- The visits of a branch that wait at gates. -/
def awaited : Branch n → List (Visit n)
  | .resolved _ => []
  | .waiting visit => [visit]
  | .gathering _ below => awaitedAll below
  | .running .. => []

def awaitedAll : List (Branch n) → List (Visit n)
  | [] => []
  | b :: rest => awaited b ++ awaitedAll rest

end

/-- A visit that waits where somebody else came first. -/
def AtGate (cache : Cache n) (visit : Visit n) : Prop :=
  (r.graph.dependency visit.node).cached = true ∧ cache.Engaged visit.node.identity

/-- What a step does at the gates, when those of `before` are held at its beginning. Those of
`after` are held at its end, and no other gate is taken unless it was before; gates that were
engaged stay so, and so are those at which the visits `waits` wait. -/
structure Moves (before after waits : List (Visit n)) (p q : Progress n σ) : Prop where
  handover : ∀ i, q.cache.gate i = .taken →
    (∃ visit ∈ after, visit.node.identity = i) ∨
      (p.cache.gate i = .taken ∧ ∀ visit ∈ before, visit.node.identity ≠ i)
  engaged : ∀ i, p.cache.Engaged i → q.cache.Engaged i
  waits : ∀ visit ∈ waits, r.AtGate q.cache visit

variable {r}

theorem AtGate.later {before after waits : List (Visit n)} {p q : Progress n σ}
    {visit : Visit n} (hgate : r.AtGate p.cache visit)
    (hmoves : r.Moves before after waits p q) : r.AtGate q.cache visit :=
  ⟨hgate.1, hmoves.engaged _ hgate.2⟩

namespace Moves

variable {before middle after waits more : List (Visit n)} {p q s : Progress n σ}

/-- A step that leaves the cache alone hands nothing over. -/
theorem still (holders : List (Visit n)) (hwaits : ∀ visit ∈ waits, r.AtGate q.cache visit)
    (hcache : q.cache = p.cache) : r.Moves holders holders waits p q := by
  refine ⟨?_, ?_, hwaits⟩
  · intro i htaken
    by_cases hheld : ∃ visit ∈ holders, visit.node.identity = i
    · exact Or.inl hheld
    · exact Or.inr ⟨hcache ▸ htaken, fun visit hvisit hsame => hheld ⟨visit, hvisit, hsame⟩⟩
  · intro i hengaged
    rw [hcache]
    exact hengaged

/-- Of two steps, the second begins with the gates that the first one holds at its end. -/
theorem trans (hfirst : r.Moves before middle waits p q)
    (hsecond : r.Moves middle after more q s) : r.Moves before after more p s := by
  refine ⟨?_, ?_, hsecond.waits⟩
  · intro i htaken
    rcases hsecond.handover i htaken with hafter | ⟨htaken', hfree⟩
    · exact Or.inl hafter
    · rcases hfirst.handover i htaken' with ⟨visit, hvisit, hsame⟩ | hbefore
      · exact absurd hsame (hfree visit hvisit)
      · exact Or.inr hbefore
  · intro i hengaged
    exact hsecond.engaged i (hfirst.engaged i hengaged)

/-- Two steps of two branches, one after the other. -/
theorem append {before' after' : List (Visit n)} (hfirst : r.Moves before after waits p q)
    (hsecond : r.Moves before' after' more q s) :
    r.Moves (before ++ before') (after ++ after') (waits ++ more) p s := by
  refine ⟨?_, ?_, ?_⟩
  · intro i htaken
    rcases hsecond.handover i htaken with ⟨visit, hvisit, hsame⟩ | ⟨htaken', hfree'⟩
    · exact Or.inl ⟨visit, List.mem_append_right _ hvisit, hsame⟩
    · rcases hfirst.handover i htaken' with ⟨visit, hvisit, hsame⟩ | ⟨hbefore, hfree⟩
      · exact Or.inl ⟨visit, List.mem_append_left _ hvisit, hsame⟩
      · refine Or.inr ⟨hbefore, ?_⟩
        intro visit hvisit
        rcases List.mem_append.mp hvisit with hleft | hright
        · exact hfree visit hleft
        · exact hfree' visit hright
  · intro i hengaged
    exact hsecond.engaged i (hfirst.engaged i hengaged)
  · intro visit hvisit
    rcases List.mem_append.mp hvisit with hleft | hright
    · exact (hfirst.waits visit hleft).later hsecond
    · exact hsecond.waits visit hright

/-- A step of the branches below an evaluation, which holds its own gate meanwhile. -/
theorem below (holders : List (Visit n)) (hbelow : r.Moves before after waits p q) :
    r.Moves (holders ++ before) (holders ++ after) waits p q := by
  have hstill : r.Moves holders holders [] p p := still holders (by simp) rfl
  exact hstill.append hbelow

/-- An evaluation takes a gate that nobody has. -/
theorem take (visit : Visit n) (p : Progress n σ)
    (hcached : (r.graph.dependency visit.node).cached = true) :
    r.Moves [] (r.claims visit) [] p
      { p with cache := p.cache.set visit.node.identity .taken } := by
  refine ⟨?_, ?_, by simp⟩
  · intro i htaken
    by_cases hsame : visit.node.identity = i
    · exact Or.inl ⟨visit, by simp [claims, hcached], hsame⟩
    · refine Or.inr ⟨?_, by simp⟩
      rwa [Cache.gate_set_of_ne _ (Ne.symm hsame)] at htaken
  · intro i hengaged
    by_cases hsame : i = visit.node.identity
    · subst hsame
      exact Or.inl (Cache.gate_set_self _ _ _)
    · unfold Cache.Engaged
      rw [Cache.gate_set_of_ne _ hsame]
      exact hengaged

/-- An evaluation that ends with a value fills its gate. -/
theorem keep (visit : Visit n) (value : Provided) {p q : Progress n σ}
    (hcache : q.cache = r.keep visit value p.cache) : r.Moves (r.claims visit) [] [] p q := by
  cases hcached : (r.graph.dependency visit.node).cached with
  | false =>
      simp only [Resolver.keep, hcached, Bool.false_eq_true, ↓reduceIte] at hcache
      simp only [claims, hcached, Bool.false_eq_true, ↓reduceIte]
      exact still [] (by simp) hcache
  | true =>
      simp only [Resolver.keep, hcached, ↓reduceIte] at hcache
      simp only [claims, hcached, ↓reduceIte]
      refine ⟨?_, ?_, by simp⟩
      · intro i htaken
        rw [hcache] at htaken
        by_cases hsame : i = visit.node.identity
        · subst hsame
          simp at htaken
        · rw [Cache.gate_set_of_ne _ hsame] at htaken
          refine Or.inr ⟨htaken, ?_⟩
          simp only [List.mem_singleton, forall_eq]
          exact Ne.symm hsame
      · intro i hengaged
        rw [hcache]
        by_cases hsame : i = visit.node.identity
        · subst hsame
          exact Or.inr ⟨value, Cache.gate_set_self _ _ _⟩
        · unfold Cache.Engaged
          rw [Cache.gate_set_of_ne _ hsame]
          exact hengaged

end Moves

theorem moves_of_runBody (visit : Visit n) (provided : Provisions) (polls : Nat)
    (p after : Progress n σ) (b : Branch n)
    (hrun : r.runBody visit provided polls p = (.ok b, after)) :
    r.Moves (r.claims visit) (r.held b) (awaited b) p after := by
  rcases runBody_ok hrun with ⟨rfl, _, hcache⟩ | ⟨value, rfl, hcache⟩
  · simp only [held, awaited]
    exact Moves.still _ (by simp) hcache
  · simp only [held, awaited]
    exact Moves.keep visit value hcache

theorem held_of_values {branches : List (Branch n)} {values : List Provided}
    (hvalues : branches.mapM Branch.value? = some values) : r.heldAll branches = [] := by
  obtain rfl := values_eq_some_iff.mp hvalues
  clear hvalues
  induction values with
  | nil => rfl
  | cons value rest ih => simp [heldAll, held, ih]

theorem moves_of_gathered (visit : Visit n) (below : List (Branch n)) (p after : Progress n σ)
    (b : Branch n) (hwaits : ∀ other ∈ awaitedAll below, r.AtGate p.cache other)
    (hrun : r.gathered visit below p = (.ok b, after)) :
    r.Moves (r.claims visit ++ r.heldAll below) (r.held b) (awaited b) p after := by
  rcases gathered_ok hrun with ⟨values, hvalues, hbody⟩ | ⟨_, rfl, rfl⟩
  · rw [held_of_values hvalues, List.append_nil]
    exact moves_of_runBody _ _ _ _ _ _ hbody
  · simp only [held, awaited]
    exact Moves.still _ hwaits rfl

theorem moves_of_pollEach {α : Type} {poll : α → Step n σ (Branch n)}
    (hpoll : ∀ a p b after, poll a p = (.ok b, after) →
      r.Moves [] (r.held b) (awaited b) p after)
    (items : List α) (p after : Progress n σ) (branches : List (Branch n))
    (hrun : pollEach poll items p = (.ok branches, after)) :
    r.Moves [] (r.heldAll branches) (awaitedAll branches) p after := by
  induction items generalizing p branches with
  | nil =>
      obtain ⟨rfl, rfl⟩ := pollEach_nil_ok hrun
      exact Moves.still [] (by simp [awaitedAll]) rfl
  | cons a rest ih =>
      obtain ⟨b, next, more, hfirst, hmore, rfl⟩ := pollEach_cons_ok hrun
      exact (hpoll _ _ _ _ hfirst).append (ih _ _ hmore)

theorem moves_of_arrive (level : Nat) (start : Scopes → Edge → Step n σ (Branch n))
    (hstart : ∀ inherited edge p b after, start inherited edge p = (.ok b, after) →
      r.Moves [] (r.held b) (awaited b) p after)
    (visit : Visit n) (p : Progress n σ) (b : Branch n) (after : Progress n σ)
    (hrun : r.arrive level start visit p = (.ok b, after)) :
    r.Moves [] (r.held b) (awaited b) p after := by
  have hevaluate (p : Progress n σ) (hrun : r.evaluate start visit p = (.ok b, after)) :
      r.Moves (r.claims visit) (r.held b) (awaited b) p after := by
    obtain ⟨below, next, hbegun, hgathered⟩ := evaluate_ok hrun
    have hbelow := (moves_of_pollEach (hstart visit.scopes) _ _ _ _ hbegun).below
      (r.claims visit)
    rw [List.append_nil] at hbelow
    exact hbelow.trans (moves_of_gathered _ _ _ _ _ hbelow.waits hgathered)
  cases arrive_ok hrun with
  | uncached hcached hrun =>
      have hmoves := hevaluate p hrun
      simp only [claims, hcached, Bool.false_eq_true, ↓reduceIte] at hmoves
      exact hmoves
  | first hcached _ hrun => exact (Moves.take visit p hcached).trans (hevaluate _ hrun)
  | waits hcached htaken =>
      refine Moves.still [] ?_ rfl
      simp only [awaited, List.mem_singleton, forall_eq]
      exact ⟨hcached, Or.inl htaken⟩
  | recalls value _ _ _ => exact Moves.still [] (by simp [awaited]) rfl

theorem moves_of_start (level : Nat) (inherited : Scopes) (edge : Edge) (p : Progress n σ)
    (b : Branch n) (after : Progress n σ)
    (hrun : r.start level inherited edge p = (.ok b, after)) :
    r.Moves [] (r.held b) (awaited b) p after := by
  induction level generalizing inherited edge p b after with
  | zero => cases hrun
  | succ level ih =>
      obtain ⟨node, credentials, _, _, harrive⟩ := start_ok hrun
      exact moves_of_arrive level _ ih _ _ _ _ harrive

mutual

/-- What a poll of a branch does at the gates. -/
theorem moves_of_poll (b : Branch n) (p after : Progress n σ) (next : Branch n)
    (hrun : r.poll b p = (.ok next, after)) :
    r.Moves (r.held b) (r.held next) (awaited next) p after := by
  cases b with
  | resolved value =>
      simp only [poll] at hrun
      cases hrun
      exact Moves.still _ (by simp [awaited]) rfl
  | waiting visit =>
      simp only [poll] at hrun
      exact moves_of_arrive _ _ (moves_of_start _) _ _ _ _ hrun
  | gathering visit below =>
      obtain ⟨more, last, hbelow, hgathered⟩ := poll_gathering_ok hrun
      have hmore := (moves_of_pollAll below _ _ _ hbelow).below (r.claims visit)
      exact hmore.trans (moves_of_gathered _ _ _ _ _ hmore.waits hgathered)
  | running visit provided polls =>
      simp only [poll] at hrun
      exact moves_of_runBody _ _ _ _ _ _ hrun

theorem moves_of_pollAll (branches : List (Branch n)) (p after : Progress n σ)
    (next : List (Branch n)) (hrun : r.pollAll branches p = (.ok next, after)) :
    r.Moves (r.heldAll branches) (r.heldAll next) (awaitedAll next) p after := by
  cases branches with
  | nil =>
      simp only [pollAll] at hrun
      cases hrun
      exact Moves.still [] (by simp [awaitedAll]) rfl
  | cons b rest =>
      obtain ⟨first, middle, others, hfirst, hrest, rfl⟩ := pollAll_cons_ok hrun
      exact (moves_of_poll b _ _ _ hfirst).append (moves_of_pollAll rest _ _ _ hrest)

end

end Resolver

end RequestDispatch
