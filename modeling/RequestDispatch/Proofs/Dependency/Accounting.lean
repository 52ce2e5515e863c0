import RequestDispatch.Proofs.Dependency.Demand

/-!
Accounts of runs. Without a cache every reference leads to a run of its own; with a cache the
first one engages the gate and leads to the only run. Each step of a resolution settles this for
the references that it follows, and the accounts of steps add up.
-/

namespace RequestDispatch

variable {n : Nat} {σ : Type}

namespace Resolver

mutual

/-- The number of evaluations of a dependency in a branch whose code has not begun. -/
def gathers (i : Fin n) : Branch n → Nat
  | .resolved _ => 0
  | .waiting _ => 0
  | .gathering visit below => (if visit.node.identity = i then 1 else 0) + gathersAll i below
  | .running .. => 0

def gathersAll (i : Fin n) : List (Branch n) → Nat
  | [] => 0
  | b :: rest => gathers i b + gathersAll i rest

end

mutual

/-- The number of evaluations of a dependency in a branch whose code has begun. -/
def executes (i : Fin n) : Branch n → Nat
  | .resolved _ => 0
  | .waiting _ => 0
  | .gathering _ below => executesAll i below
  | .running visit _ _ => if visit.node.identity = i then 1 else 0

def executesAll (i : Fin n) : List (Branch n) → Nat
  | [] => 0
  | b :: rest => executes i b + executesAll i rest

end

variable (r : Resolver n σ)

mutual

/-- Code that has begun in a branch has paused, as often as it may. -/
def Paused : Branch n → Prop
  | .resolved _ => True
  | .waiting _ => True
  | .gathering _ below => PausedAll below
  | .running visit _ polls => 0 < polls ∧ polls ≤ r.pausesOf visit

def PausedAll : List (Branch n) → Prop
  | [] => True
  | b :: rest => Paused b ∧ PausedAll rest

end

/-- The evaluations that are begun for references along some edges, and for those that they lead
to: one for each reference to a dependency that is not cached, and at most one for the others,
where the gate was not engaged. -/
structure Spends (edges : List Edge) (spent : Fin n → Nat) (before after : Cache n) : Prop where
  uncached : ∀ i, (r.graph.catalog.dependency i).cached = false →
    spent i = r.graph.demand edges spent i
  cached : ∀ i, (r.graph.catalog.dependency i).cached = true →
    spent i + before.engagements i ≤ after.engagements i
  demanded : ∀ i, spent i ≤ r.graph.demand edges spent i

variable {r}

namespace Spends

variable {edges more : List Edge} {spent others : Fin n → Nat} {before middle after : Cache n}

theorem nothing (hcaches : ∀ i, before.engagements i ≤ after.engagements i) :
    r.Spends [] (fun _ => 0) before after where
  uncached i _ := (Graph.demand_nil i).symm
  cached i _ := by
    have hcache := hcaches i
    omega
  demanded i := Nat.zero_le _

theorem append (hfirst : r.Spends edges spent before middle)
    (hsecond : r.Spends more others middle after) :
    r.Spends (edges ++ more) (fun i => spent i + others i) before after where
  uncached i hcached := by
    rw [Graph.demand_append, ← hfirst.uncached i hcached, ← hsecond.uncached i hcached]
  cached i hcached := by
    have hleft := hfirst.cached i hcached
    have hright := hsecond.cached i hcached
    omega
  demanded i := by
    have hleft := hfirst.demanded i
    have hright := hsecond.demanded i
    rw [Graph.demand_append]
    omega

variable {edge : Edge} {node : Node n}

/-- An evaluation is begun, with all that its edges lead to. -/
theorem run (hdistinct : (r.graph.nodes.map (·.identity)).Nodup)
    (hnode : r.graph.nodes[edge.node]? = some node)
    (hbelow : r.Spends node.edges spent middle after)
    (hgate : ∀ i, (r.graph.catalog.dependency i).cached = true →
      (if node.identity = i then 1 else 0) + before.engagements i ≤ middle.engagements i) :
    r.Spends [edge] (fun i => spent i + if node.identity = i then 1 else 0) before after where
  uncached i hcached := by
    have hdemand := Graph.demand_run hdistinct hnode spent i
    have hspent := hbelow.uncached i hcached
    omega
  cached i hcached := by
    have hspent := hbelow.cached i hcached
    have hengaged := hgate i hcached
    omega
  demanded i := by
    have hdemand := Graph.demand_run hdistinct hnode spent i
    have hspent := hbelow.demanded i
    omega

/-- A reference to a cached dependency need not lead to an evaluation. -/
theorem skip (hnode : r.graph.nodes[edge.node]? = some node)
    (hcached : (r.graph.dependency node).cached = true) (cache : Cache n) :
    r.Spends [edge] (fun _ => 0) cache cache where
  uncached i huncached := by
    have hdemand := Graph.demand_single hnode i
    have hne : node.identity ≠ i := by
      rintro rfl
      rw [Graph.dependency, huncached] at hcached
      cases hcached
    simp only [hne, ↓reduceIte] at hdemand
    omega
  cached i _ := by omega
  demanded i := Nat.zero_le _

end Spends

variable (r) in
/-- What a step settles, for the references along some edges that it follows for the first time.
Every evaluation that is begun is in the log or still gathers what is below it, and every one
whose code has begun has a result in the log or still runs. -/
structure Accounts (log : Effects σ → List (Event n)) (edges : List Edge)
    (before after : List (Branch n)) (p q : Progress n σ) : Prop where
  paused : r.PausedAll after
  settled : ∃ spent, r.Spends edges spent p.cache q.cache ∧ ∀ i,
    Event.beginnings (log q.effects) i + gathersAll i after =
        Event.beginnings (log p.effects) i + gathersAll i before + spent i ∧
      Event.results (log q.effects) i + executesAll i after + gathersAll i after =
        Event.results (log p.effects) i + executesAll i before + gathersAll i before + spent i

theorem gathersAll_append (i : Fin n) (branches more : List (Branch n)) :
    gathersAll i (branches ++ more) = gathersAll i branches + gathersAll i more := by
  induction branches with
  | nil => simp [gathersAll]
  | cons b rest ih =>
      rw [List.cons_append, gathersAll, gathersAll, ih]
      omega

theorem executesAll_append (i : Fin n) (branches more : List (Branch n)) :
    executesAll i (branches ++ more) = executesAll i branches + executesAll i more := by
  induction branches with
  | nil => simp [executesAll]
  | cons b rest ih =>
      rw [List.cons_append, executesAll, executesAll, ih]
      omega

theorem pausedAll_append {branches more : List (Branch n)} (hbranches : r.PausedAll branches)
    (hmore : r.PausedAll more) : r.PausedAll (branches ++ more) := by
  induction branches with
  | nil => exact hmore
  | cons b rest ih => exact ⟨hbranches.1, ih hbranches.2⟩

/-- Branches that all have a value have nothing left to do. -/
theorem idle_of_values {branches : List (Branch n)} {values : List Provided}
    (hvalues : branches.mapM Branch.value? = some values) (i : Fin n) :
    gathersAll i branches = 0 ∧ executesAll i branches = 0 := by
  obtain rfl := values_eq_some_iff.mp hvalues
  clear hvalues
  induction values with
  | nil => exact ⟨rfl, rfl⟩
  | cons value rest ih => simp [gathersAll, gathers, executesAll, executes, ih]

theorem engagements_keep (visit : Visit n) (value : Provided) (cache : Cache n) (i : Fin n) :
    cache.engagements i ≤ (r.keep visit value cache).engagements i := by
  unfold keep
  split
  · rw [Cache.engagements_set _ _ (Or.inr ⟨value, rfl⟩)]
    have hle := cache.engagements_le i
    split <;> omega
  · exact Nat.le_refl _

namespace Accounts

variable {log : Effects σ → List (Event n)} {edges more : List Edge}
  {before after middle others : List (Branch n)} {p q s : Progress n σ}

/-- A step that begins no evaluation and runs no code. -/
theorem still (hspends : r.Spends edges (fun _ => 0) p.cache q.cache)
    (hpaused : r.PausedAll after) (hgathers : ∀ i, gathersAll i after = gathersAll i before)
    (hexecutes : ∀ i, executesAll i after = executesAll i before)
    (hlog : log q.effects = log p.effects) : r.Accounts log edges before after p q := by
  refine ⟨hpaused, _, hspends, ?_⟩
  intro i
  have hgather := hgathers i
  have hexecute := hexecutes i
  rw [hlog]
  omega

theorem refl (hpaused : r.PausedAll before) : r.Accounts log [] before before p p :=
  still (Spends.nothing fun _ => Nat.le_refl _) hpaused (fun _ => rfl) (fun _ => rfl) rfl

theorem trans (hfirst : r.Accounts log edges before middle p q)
    (hsecond : r.Accounts log more middle after q s) :
    r.Accounts log (edges ++ more) before after p s := by
  obtain ⟨spent, hspends, hcounts⟩ := hfirst.settled
  obtain ⟨spent', hspends', hcounts'⟩ := hsecond.settled
  refine ⟨hsecond.paused, _, hspends.append hspends', ?_⟩
  intro i
  have hleft := hcounts i
  have hright := hcounts' i
  omega

/-- Two steps of different branches, one after the other. -/
theorem append {before' after' : List (Branch n)} (hfirst : r.Accounts log edges before after p q)
    (hsecond : r.Accounts log more before' after' q s) :
    r.Accounts log (edges ++ more) (before ++ before') (after ++ after') p s := by
  obtain ⟨spent, hspends, hcounts⟩ := hfirst.settled
  obtain ⟨spent', hspends', hcounts'⟩ := hsecond.settled
  refine ⟨pausedAll_append hfirst.paused hsecond.paused, _, hspends.append hspends', ?_⟩
  intro i
  have hleft := hcounts i
  have hright := hcounts' i
  simp only [gathersAll_append, executesAll_append]
  omega

/-- A step of the branches below an evaluation. -/
theorem below (visit : Visit n) (hbelow : r.Accounts log edges before after p q) :
    r.Accounts log edges [.gathering visit before] [.gathering visit after] p q := by
  obtain ⟨spent, hspends, hcounts⟩ := hbelow.settled
  refine ⟨⟨hbelow.paused, trivial⟩, spent, hspends, ?_⟩
  intro i
  have hcount := hcounts i
  simp only [gathersAll, gathers, executesAll, executes]
  omega

/-- An evaluation is begun for an edge, with the branches below it. -/
theorem run (hdistinct : (r.graph.nodes.map (·.identity)).Nodup) {edge : Edge}
    {visit : Visit n} (hnode : r.graph.nodes[edge.node]? = some visit.node)
    (hbelow : r.Accounts log visit.node.edges [] after q s)
    (hgate : ∀ i, (r.graph.catalog.dependency i).cached = true →
      (if visit.node.identity = i then 1 else 0) + p.cache.engagements i ≤ q.cache.engagements i)
    (hlog : log q.effects = log p.effects) :
    r.Accounts log [edge] [] [.gathering visit after] p s := by
  obtain ⟨spent, hspends, hcounts⟩ := hbelow.settled
  refine ⟨⟨hbelow.paused, trivial⟩, _, hspends.run hdistinct hnode hgate, ?_⟩
  intro i
  have hcount := hcounts i
  rw [hlog] at hcount
  simp only [gathersAll, gathers, executesAll, executes] at hcount ⊢
  omega

end Accounts

variable {log : Effects σ → List (Event n)}

/-- Code begins when all branches below its evaluation have a value. -/
theorem accounts_of_first (hlogs : r.Logs log) {visit : Visit n} {below : List (Branch n)}
    {values : List Provided} (hvalues : below.mapM Branch.value? = some values)
    {provided : Provisions} {p after : Progress n σ} {b : Branch n}
    (hrun : r.runBody visit provided 0 p = (.ok b, after)) :
    r.Accounts log [] [.gathering visit below] [b] p after := by
  obtain ⟨begun, hfirst, _, hends⟩ := hlogs.runBody hrun
  have hidle := idle_of_values hvalues
  rcases hends with ⟨rfl, hless, hcache, hlog⟩ | ⟨value, rfl, hcache, hlog⟩
  · refine ⟨⟨⟨Nat.one_pos, hless⟩, trivial⟩, _, Spends.nothing fun i => hcache ▸ Nat.le_refl _, ?_⟩
    intro i
    rw [hlog, hfirst rfl, Event.beginnings_append, Event.results_append]
    simp [gathersAll, gathers, executesAll, executes, hidle i]
  · refine ⟨⟨trivial, trivial⟩, _,
      Spends.nothing fun i => hcache ▸ engagements_keep visit value _ i, ?_⟩
    intro i
    rw [hlog, hfirst rfl, Event.beginnings_append, Event.results_append]
    simp [gathersAll, gathers, executesAll, executes, hidle i]

/-- Code that has paused goes on. -/
theorem accounts_of_later (hlogs : r.Logs log) {visit : Visit n} {provided : Provisions}
    {polls : Nat} (hpaused : r.Paused (.running visit provided polls)) {p after : Progress n σ}
    {b : Branch n} (hrun : r.runBody visit provided polls p = (.ok b, after)) :
    r.Accounts log [] [.running visit provided polls] [b] p after := by
  obtain ⟨begun, _, hlater, hends⟩ := hlogs.runBody hrun
  have hnone : begun = [] := hlater hpaused.1 hpaused.2
  rcases hends with ⟨rfl, hless, hcache, hlog⟩ | ⟨value, rfl, hcache, hlog⟩
  · refine Accounts.still (Spends.nothing fun i => hcache ▸ Nat.le_refl _)
      ⟨⟨Nat.succ_pos _, hless⟩, trivial⟩ (fun i => rfl) (fun i => rfl) ?_
    rw [hlog, hnone, List.append_nil]
  · refine ⟨⟨trivial, trivial⟩, _,
      Spends.nothing fun i => hcache ▸ engagements_keep visit value _ i, ?_⟩
    intro i
    rw [hlog, hnone, Event.beginnings_append, Event.results_append]
    simp [gathersAll, gathers, executesAll, executes]

theorem accounts_of_gathered (hlogs : r.Logs log) {visit : Visit n} {below : List (Branch n)}
    (hpaused : r.PausedAll below) {p after : Progress n σ} {b : Branch n}
    (hrun : r.gathered visit below p = (.ok b, after)) :
    r.Accounts log [] [.gathering visit below] [b] p after := by
  rcases gathered_ok hrun with ⟨values, hvalues, hbody⟩ | ⟨_, rfl, rfl⟩
  · exact accounts_of_first hlogs hvalues hbody
  · exact Accounts.refl ⟨hpaused, trivial⟩

theorem accounts_of_pollEach {poll : Edge → Step n σ (Branch n)}
    (hpoll : ∀ edge p b after, poll edge p = (.ok b, after) →
      r.Accounts log [edge] [] [b] p after)
    (edges : List Edge) (p after : Progress n σ) (branches : List (Branch n))
    (hrun : pollEach poll edges p = (.ok branches, after)) :
    r.Accounts log edges [] branches p after := by
  induction edges generalizing p branches with
  | nil =>
      obtain ⟨rfl, rfl⟩ := pollEach_nil_ok hrun
      exact Accounts.refl trivial
  | cons edge rest ih =>
      obtain ⟨b, next, more, hfirst, hmore, rfl⟩ := pollEach_cons_ok hrun
      exact (hpoll _ _ _ _ hfirst).append (ih _ _ hmore)

theorem accounts_of_arrive (hdistinct : (r.graph.nodes.map (·.identity)).Nodup)
    (hlogs : r.Logs log) (level : Nat) (start : Scopes → Edge → Step n σ (Branch n))
    (hstart : ∀ inherited edge p b after, start inherited edge p = (.ok b, after) →
      r.Accounts log [edge] [] [b] p after)
    {edge : Edge} {visit : Visit n} (hnode : r.graph.nodes[edge.node]? = some visit.node)
    {p after : Progress n σ} {b : Branch n} (hrun : r.arrive level start visit p = (.ok b, after)) :
    r.Accounts log [edge] [] [b] p after := by
  have hevaluate (q : Progress n σ) (hlog : log q.effects = log p.effects)
      (hgate : ∀ i, (r.graph.catalog.dependency i).cached = true →
        (if visit.node.identity = i then 1 else 0) + p.cache.engagements i ≤
          q.cache.engagements i)
      (hrun : r.evaluate start visit q = (.ok b, after)) :
      r.Accounts log [edge] [] [b] p after := by
    obtain ⟨below, next, hbegun, hgathered⟩ := evaluate_ok hrun
    have hbelow := accounts_of_pollEach (hstart visit.scopes) _ _ _ _ hbegun
    exact (hbelow.run hdistinct hnode hgate hlog).trans
      (accounts_of_gathered hlogs hbelow.paused hgathered)
  cases arrive_ok hrun with
  | uncached hcached hrun =>
      apply hevaluate p rfl ?_ hrun
      intro i hi
      have hne : visit.node.identity ≠ i := by
        rintro rfl
        rw [Graph.dependency, hi] at hcached
        cases hcached
      simp only [hne, ↓reduceIte]
      omega
  | first hcached hfree hrun =>
      refine hevaluate { p with cache := p.cache.set visit.node.identity .taken } rfl ?_ hrun
      intro i _
      -- Nobody had engaged the gate, so this is the only run that it is engaged for.
      rw [Cache.engagements_set _ _ (Or.inl rfl)]
      split
      · rename_i hsame
        have hzero : p.cache.engagements i = 0 := hsame ▸ Cache.engagements_of_free hfree
        omega
      · omega
  | waits hcached _ =>
      exact Accounts.still (Spends.skip hnode hcached _) ⟨trivial, trivial⟩ (fun _ => rfl)
        (fun _ => rfl) rfl
  | recalls value hcached _ _ =>
      exact Accounts.still (Spends.skip hnode hcached _) ⟨trivial, trivial⟩ (fun _ => rfl)
        (fun _ => rfl) rfl

theorem accounts_of_start (hdistinct : (r.graph.nodes.map (·.identity)).Nodup)
    (hlogs : r.Logs log) (level : Nat) (inherited : Scopes) (edge : Edge) (p : Progress n σ)
    (b : Branch n) (after : Progress n σ)
    (hrun : r.start level inherited edge p = (.ok b, after)) :
    r.Accounts log [edge] [] [b] p after := by
  induction level generalizing inherited edge p b after with
  | zero => cases hrun
  | succ level ih =>
      obtain ⟨node, credentials, hnode, _, harrive⟩ := start_ok hrun
      exact accounts_of_arrive hdistinct hlogs level _ ih hnode harrive

/-- A branch that waits begins no evaluation: its gate stays engaged. -/
theorem accounts_of_waiting {level : Nat} {start : Scopes → Edge → Step n σ (Branch n)}
    {visit : Visit n} {p after : Progress n σ} {b : Branch n}
    (hgate : r.AtGate p.cache visit) (hrun : r.arrive level start visit p = (.ok b, after)) :
    r.Accounts log [] [.waiting visit] [b] p after := by
  obtain ⟨hcached, hengaged⟩ := hgate
  -- The gate was engaged when the branch came here, and no step disengages it.
  cases arrive_ok hrun with
  | uncached huncached _ =>
      rw [hcached] at huncached
      cases huncached
  | first _ hfree _ =>
      rcases hengaged with htaken | ⟨value, hfilled⟩
      · rw [htaken] at hfree
        simp at hfree
      · rw [hfilled] at hfree
        simp at hfree
  | waits _ _ => exact Accounts.refl ⟨trivial, trivial⟩
  | recalls value _ _ _ =>
      exact Accounts.still (Spends.nothing fun _ => Nat.le_refl _) ⟨trivial, trivial⟩
        (fun _ => rfl) (fun _ => rfl) rfl

mutual

/-- What a poll of a branch settles. It follows no references of the branches that are there. -/
theorem accounts_of_poll (hlogs : r.Logs log) (b : Branch n) (hpaused : r.Paused b)
    (p after : Progress n σ) (hgates : ∀ visit ∈ awaited b, r.AtGate p.cache visit)
    (next : Branch n) (hrun : r.poll b p = (.ok next, after)) :
    r.Accounts log [] [b] [next] p after := by
  cases b with
  | resolved value =>
      simp only [poll] at hrun
      cases hrun
      exact Accounts.refl ⟨trivial, trivial⟩
  | waiting visit =>
      simp only [poll] at hrun
      exact accounts_of_waiting (hgates visit (by simp [awaited])) hrun
  | gathering visit below =>
      obtain ⟨more, last, hbelow, hgathered⟩ := poll_gathering_ok hrun
      have hmore := accounts_of_pollAll hlogs below hpaused p last hgates more hbelow
      exact (hmore.below visit).trans (accounts_of_gathered hlogs hmore.paused hgathered)
  | running visit provided polls =>
      simp only [poll] at hrun
      exact accounts_of_later hlogs hpaused hrun

theorem accounts_of_pollAll (hlogs : r.Logs log) (branches : List (Branch n))
    (hpaused : r.PausedAll branches) (p after : Progress n σ)
    (hgates : ∀ visit ∈ awaitedAll branches, r.AtGate p.cache visit) (next : List (Branch n))
    (hrun : r.pollAll branches p = (.ok next, after)) :
    r.Accounts log [] branches next p after := by
  cases branches with
  | nil =>
      simp only [pollAll] at hrun
      cases hrun
      exact Accounts.refl trivial
  | cons b rest =>
      obtain ⟨first, middle, others, hfirst, hrest, rfl⟩ := pollAll_cons_ok hrun
      have hb : ∀ visit ∈ awaited b, r.AtGate p.cache visit :=
        fun visit hvisit => hgates visit (List.mem_append_left _ hvisit)
      have hmoves := moves_of_poll b _ _ _ hfirst
      have hlater : ∀ visit ∈ awaitedAll rest, r.AtGate middle.cache visit :=
        fun visit hvisit => (hgates visit (List.mem_append_right _ hvisit)).later hmoves
      exact (accounts_of_poll hlogs b hpaused.1 p middle hb first hfirst).append
        (accounts_of_pollAll hlogs rest hpaused.2 middle after hlater others hrest)

end

theorem accounts_of_finish (hlogs : r.Logs log) (rounds : Nat) (branches : List (Branch n))
    (hpaused : r.PausedAll branches) (p after : Progress n σ)
    (hgates : ∀ visit ∈ awaitedAll branches, r.AtGate p.cache visit) (values : List Provided)
    (hrun : r.finish rounds branches p = (.ok values, after)) :
    ∃ last, last.mapM Branch.value? = some values ∧ r.Accounts log [] branches last p after := by
  induction rounds generalizing branches p with
  | zero =>
      rcases finish_ok hrun with ⟨hvalues, rfl⟩ | ⟨_, _, _, hrounds, _⟩
      · exact ⟨branches, hvalues, Accounts.refl hpaused⟩
      · cases hrounds
  | succ rounds ih =>
      rcases finish_ok hrun with ⟨hvalues, rfl⟩ | ⟨left, next, middle, hrounds, hround, hrest⟩
      · exact ⟨branches, hvalues, Accounts.refl hpaused⟩
      · cases hrounds
        have haccounts := accounts_of_pollAll hlogs branches hpaused p middle hgates next hround
        have hmoves := moves_of_pollAll branches _ _ _ hround
        obtain ⟨last, hlast, hrounds⟩ :=
          ih next haccounts.paused middle hmoves.waits hrest
        exact ⟨last, hlast, haccounts.trans hrounds⟩

/-- The account of a resolution that succeeds: all code that was begun has ended with a value,
as often as the references demand. -/
theorem spends_of_resolve (hdistinct : (r.graph.nodes.map (·.identity)).Nodup)
    (hlogs : r.Logs log) {plan : Plan} {p after : Progress n σ} {provisions : Provisions}
    (hrun : r.resolve plan p = (.ok provisions, after)) :
    ∃ spent, r.Spends plan.roots spent p.cache after.cache ∧ ∀ i,
      Event.beginnings (log after.effects) i = Event.beginnings (log p.effects) i + spent i ∧
        Event.results (log after.effects) i = Event.results (log p.effects) i + spent i := by
  obtain ⟨branches, next, values, hbegun, hfinish⟩ := resolve_ok hrun
  have hbranches := accounts_of_pollEach (accounts_of_start hdistinct hlogs r.top []) _ _ _ _ hbegun
  have hmoves := moves_of_pollEach (moves_of_start (r := r) r.top []) _ _ _ _ hbegun
  obtain ⟨last, hlast, hrounds⟩ :=
    accounts_of_finish hlogs _ branches hbranches.paused next after hmoves.waits values hfinish
  have haccounts := hbranches.trans hrounds
  -- References are followed at the beginning only, and none in the rounds after it.
  rw [List.append_nil] at haccounts
  obtain ⟨spent, hspends, hcounts⟩ := haccounts.settled
  refine ⟨spent, hspends, ?_⟩
  intro i
  have hcount := hcounts i
  obtain ⟨hgathers, hexecutes⟩ := idle_of_values hlast i
  simp only [hgathers, hexecutes, gathersAll, executesAll] at hcount
  omega

end Resolver

end RequestDispatch
