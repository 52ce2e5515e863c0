import RequestDispatch.Proofs.Dependency.Afresh
import RequestDispatch.Proofs.Dependency.Gates

/-!
The cache cannot be observed. Every value in it is what a computation of its dependency gave
afresh, and a branch that takes such a value authorizes the ways that the computation would
authorize, in the same order. So with code that computes what it ends with, a resolution ends
as the one without a cache does.
-/

namespace RequestDispatch

variable {n : Nat} {σ : Type}

namespace Resolver

variable (r : Resolver n σ) (body : Fin n → DependencyInput → Outcome Provided)

/-- The code at the end of every way down from some edges computes what it ends with. -/
def ComputesBelow (edges : List Edge) : Prop :=
  ∀ way last, r.graph.Way edges way last →
    (r.graph.dependency last).routine.Computes (body last.identity)

/-- Every value in a cache was computed afresh somewhere. -/
def Recalls (cache : Cache n) : Prop :=
  ∀ i value, cache.gate i = .filled value →
    ∃ level inherited edge node, r.graph.nodes[edge.node]? = some node ∧ node.identity = i ∧
      r.afresh body level inherited edge = .ok value

/-- No node before this place is being evaluated. -/
def ClearBelow (place : Nat) (cache : Cache n) : Prop :=
  ∀ i node, r.graph.nodes[i]? = some node → i < place → cache.gate node.identity ≠ .taken

/-- A step ends as a computation does: with the same error, or with what stands for its value
and with a cache that still recalls only what was computed, and in which no more gates are
taken than in `base`. -/
def Agrees {α β : Type} (present : α → β) (computed : Except DispatchError α) (base : Cache n)
    (result : Except DispatchError β × Progress n σ) : Prop :=
  match computed with
  | .error e => result.1 = .error e
  | .ok a =>
      result.1 = .ok (present a) ∧ r.Recalls body result.2.cache ∧
        ∀ i, result.2.cache.gate i = .taken → base.gate i = .taken

variable {r body}

theorem ComputesBelow.of_mem {edges : List Edge} (hcomputes : r.ComputesBelow body edges)
    {edge : Edge} (hedge : edge ∈ edges) : r.ComputesBelow body [edge] := by
  intro way last hway
  exact hcomputes way last (hway.mono (by simpa using hedge))

theorem ComputesBelow.below {edge : Edge} (hcomputes : r.ComputesBelow body [edge])
    {node : Node n} (hnode : r.graph.nodes[edge.node]? = some node) :
    r.ComputesBelow body node.edges := by
  intro way last hway
  exact hcomputes (edge :: way) last (.further (by simp) hnode hway)

theorem recalls_empty : r.Recalls body .empty := by
  rintro i value ⟨⟩

/-- A value that was computed afresh may go into the cache. -/
theorem Recalls.fill {cache : Cache n} (hrecalls : r.Recalls body cache) {node : Node n}
    {value : Provided} (hrecall : ∃ level inherited edge,
      r.graph.nodes[edge.node]? = some node ∧ r.afresh body level inherited edge = .ok value) :
    r.Recalls body (cache.set node.identity (.filled value)) := by
  intro i found hfilled
  by_cases hsame : i = node.identity
  · subst hsame
    rw [Cache.gate_set_self] at hfilled
    cases hfilled
    obtain ⟨level, inherited, edge, hnode, hvalue⟩ := hrecall
    exact ⟨level, inherited, edge, node, hnode, rfl, hvalue⟩
  · rw [Cache.gate_set_of_ne _ hsame] at hfilled
    exact hrecalls i found hfilled

/-- Taking a gate leaves the values in the cache alone. -/
theorem Recalls.take {cache : Cache n} (hrecalls : r.Recalls body cache) (identity : Fin n) :
    r.Recalls body (cache.set identity .taken) := by
  intro i found hfilled
  by_cases hsame : i = identity
  · subst hsame
    rw [Cache.gate_set_self] at hfilled
    cases hfilled
  · rw [Cache.gate_set_of_ne _ hsame] at hfilled
    exact hrecalls i found hfilled

theorem Agrees.error {α β : Type} {present : α → β} {e : DispatchError} {base : Cache n}
    {result : Except DispatchError β × Progress n σ}
    (hagrees : r.Agrees body present (.error e) base result) :
    ∃ after, result = (.error e, after) :=
  ⟨result.2, Prod.ext hagrees rfl⟩

theorem Agrees.ok {α β : Type} {present : α → β} {a : α} {base : Cache n}
    {result : Except DispatchError β × Progress n σ}
    (hagrees : r.Agrees body present (.ok a) base result) :
    ∃ after, result = (.ok (present a), after) ∧ r.Recalls body after.cache ∧
      ∀ i, after.cache.gate i = .taken → base.gate i = .taken :=
  ⟨result.2, Prod.ext hagrees.1 rfl, hagrees.2⟩

theorem Agrees.of_subset {α β : Type} {present : α → β} {computed : Except DispatchError α}
    {cache base : Cache n} {result : Except DispatchError β × Progress n σ}
    (hagrees : r.Agrees body present computed cache result)
    (hsubset : ∀ i, cache.gate i = .taken → base.gate i = .taken) :
    r.Agrees body present computed base result := by
  cases computed with
  | error e => exact hagrees
  | ok a => exact ⟨hagrees.1, hagrees.2.1, fun i htaken => hsubset i (hagrees.2.2 i htaken)⟩

theorem ClearBelow.mono {low high : Nat} {cache : Cache n} (hclear : r.ClearBelow high cache)
    (hle : low ≤ high) : r.ClearBelow low cache :=
  fun i node hnode hless => hclear i node hnode (Nat.lt_of_lt_of_le hless hle)

/-- Taking the gate of a node leaves those of the nodes before it clear. -/
theorem ClearBelow.take {catalog : Catalog n σ} (harena : Arena catalog r.graph.nodes)
    {place : Nat} {node : Node n} (hnode : r.graph.nodes[place]? = some node) {cache : Cache n}
    (hclear : r.ClearBelow place cache) :
    r.ClearBelow place (cache.set node.identity .taken) := by
  intro i other hother hless
  have hne : other.identity ≠ node.identity := by
    intro hsame
    have hplace := harena.index_unique hother hnode hsame
    omega
  rw [Cache.gate_set_of_ne _ hne]
  exact hclear i other hother hless

theorem ClearBelow.of_subset {place : Nat} {cache later : Cache n}
    (hclear : r.ClearBelow place cache)
    (hsubset : ∀ i, later.gate i = .taken → cache.gate i = .taken) :
    r.ClearBelow place later :=
  fun i node hnode hless htaken => hclear i node hnode hless (hsubset _ htaken)

/-- Steps that agree with computations one by one agree with them one after another. -/
theorem agrees_pollEach {α : Type} (computed : α → Except DispatchError Provided)
    (poll : α → Step n σ (Branch n)) (base : Cache n) (items : List α)
    (hpoll : ∀ a ∈ items, ∀ p : Progress n σ, r.Recalls body p.cache →
      (∀ i, p.cache.gate i = .taken → base.gate i = .taken) →
        r.Agrees body Branch.resolved (computed a) base (poll a p))
    (p : Progress n σ) (hrecalls : r.Recalls body p.cache)
    (hsubset : ∀ i, p.cache.gate i = .taken → base.gate i = .taken) :
    r.Agrees body (List.map Branch.resolved) (items.mapM computed) base
      (pollEach poll items p) := by
  induction items generalizing p with
  | nil => exact ⟨rfl, hrecalls, hsubset⟩
  | cons a rest ih =>
      have hfirst := hpoll a (by simp) p hrecalls hsubset
      rw [mapM_cons_eq]
      cases hcomputed : computed a with
      | error e =>
          rw [hcomputed] at hfirst
          obtain ⟨next, hresult⟩ := hfirst.error
          simp only [pollEach, hresult]
          rfl
      | ok value =>
          rw [hcomputed] at hfirst
          obtain ⟨next, hresult, hnext, hnextSubset⟩ := hfirst.ok
          have hrest := ih (fun other hother => hpoll other (by simp [hother])) next hnext
            hnextSubset
          cases hmore : rest.mapM computed with
          | error e =>
              rw [hmore] at hrest
              obtain ⟨last, hlast⟩ := hrest.error
              simp only [pollEach, hresult, hlast]
              rfl
          | ok values =>
              rw [hmore] at hrest
              obtain ⟨last, hlast, hlastRecalls, hlastSubset⟩ := hrest.ok
              simp only [pollEach, hresult, hlast]
              exact ⟨rfl, hlastRecalls, hlastSubset⟩

/-- The code of a visited dependency ends as it computes, and a value goes into the cache. -/
theorem agrees_runBody (visit : Visit n) (provided : Provisions)
    (hcomputes : (r.graph.dependency visit.node).routine.Computes (body visit.node.identity))
    (hrecall : ∀ value,
      r.ending visit.node (body visit.node.identity (r.inputOf visit provided).unscoped) =
        .ok value → ∃ level inherited edge, r.graph.nodes[edge.node]? = some visit.node ∧
          r.afresh body level inherited edge = .ok value)
    (base : Cache n) (p : Progress n σ) (hrecalls : r.Recalls body p.cache)
    (hbase : ∀ i, p.cache.gate i = .taken → base.gate i = .taken ∨
      ((r.graph.dependency visit.node).cached = true ∧ i = visit.node.identity)) :
    r.Agrees body Branch.resolved
      (r.ending visit.node (body visit.node.identity (r.inputOf visit provided).unscoped)) base
      (r.runBody visit provided 0 p) := by
  obtain ⟨run, hinline, hrun⟩ := hcomputes
  rw [← hrun _ p.effects] at hrecall ⊢
  simp only [runBody, hinline, Routine.poll]
  cases hresult : run (r.inputOf visit provided) p.effects with
  | mk outcome effects =>
      rw [hresult] at hrecall
      cases outcome with
      | failed e => rfl
      | panicked panic => rfl
      | value value =>
          cases hcached : (r.graph.dependency visit.node).cached with
          | false =>
              simp only [Prod.map, settle, hcached]
              refine ⟨rfl, hrecalls, ?_⟩
              intro i htaken
              rcases hbase i htaken with htaken' | ⟨hcached', _⟩
              · exact htaken'
              · rw [hcached] at hcached'
                cases hcached'
          | true =>
              simp only [Prod.map, settle, hcached]
              refine ⟨rfl, hrecalls.fill (hrecall value rfl), ?_⟩
              intro i htaken
              have hother : i ≠ visit.node.identity := by
                rintro rfl
                simp at htaken
              rcases hbase i (by simpa [Cache.gate_set_of_ne _ hother] using htaken) with
                htaken' | ⟨_, hsame⟩
              · exact htaken'
              · exact absurd hsame hother

/-- An evaluation agrees with the computation, when the branches below it do. Its own gate
may be taken meanwhile. -/
theorem agrees_evaluate (below : Scopes → Edge → Except DispatchError Provided)
    (start : Scopes → Edge → Step n σ (Branch n)) (visit : Visit n)
    (hcomputes : (r.graph.dependency visit.node).routine.Computes (body visit.node.identity))
    (hrecall : ∀ value, r.evaluateAfresh body below visit = .ok value →
      ∃ level inherited edge, r.graph.nodes[edge.node]? = some visit.node ∧
        r.afresh body level inherited edge = .ok value)
    (base : Cache n) (p : Progress n σ) (hrecalls : r.Recalls body p.cache)
    (hbase : ∀ i, p.cache.gate i = .taken → base.gate i = .taken ∨
      ((r.graph.dependency visit.node).cached = true ∧ i = visit.node.identity))
    (hstart : ∀ edge ∈ visit.node.edges, ∀ q : Progress n σ, r.Recalls body q.cache →
      (∀ i, q.cache.gate i = .taken → p.cache.gate i = .taken) →
        r.Agrees body Branch.resolved (below visit.scopes edge) p.cache
          (start visit.scopes edge q)) :
    r.Agrees body Branch.resolved (r.evaluateAfresh body below visit) base
      (r.evaluate start visit p) := by
  have hbelow := agrees_pollEach (below visit.scopes) (start visit.scopes) p.cache
    visit.node.edges hstart p hrecalls (fun _ htaken => htaken)
  unfold evaluateAfresh at hrecall ⊢
  cases hcomputed : visit.node.edges.mapM (below visit.scopes) with
  | error e =>
      rw [hcomputed] at hbelow
      obtain ⟨next, hresult⟩ := hbelow.error
      simp only [evaluate, hresult]
      rfl
  | ok values =>
      rw [hcomputed] at hbelow hrecall
      obtain ⟨next, hresult, hnext, hsubset⟩ := hbelow.ok
      simp only [evaluate, hresult, gathered, values_eq_some_iff.mpr rfl]
      exact agrees_runBody visit _ hcomputes hrecall base next hnext
        (fun i htaken => hbase i (hsubset i htaken))

/-- The branches below a visit agree with the computations there. -/
def AgreesBelow (r : Resolver n σ) (body : Fin n → DependencyInput → Outcome Provided)
    (level place : Nat) (edges : List Edge) : Prop :=
  ∀ (scopes : Scopes) (base : Cache n), r.ClearBelow place base → ∀ edge ∈ edges,
    ∀ q : Progress n σ, r.Recalls body q.cache →
      (∀ i, q.cache.gate i = .taken → base.gate i = .taken) →
        r.Agrees body Branch.resolved (r.afresh body level scopes edge) base
          (r.start level scopes edge q)

/-- An authorized branch agrees with the computation, whether it evaluates the dependency or
takes the value from the cache. -/
theorem agrees_arrive {catalog : Catalog n σ} (harena : Arena catalog r.graph.nodes)
    (level : Nat) (inherited : Scopes) (edge : Edge) (hless : edge.node < level + 1)
    (node : Node n) (hnode : r.graph.nodes[edge.node]? = some node)
    (credentials : Option Credentials)
    (hcredentials : authorize r.request (r.graph.dependency node)
      (accumulate inherited edge (r.graph.dependency node)) = .ok credentials)
    (hself : (r.graph.dependency node).routine.Computes (body node.identity))
    (hbelow : r.AgreesBelow body level edge.node node.edges) (p : Progress n σ)
    (hrecalls : r.Recalls body p.cache) (hclear : r.ClearBelow (edge.node + 1) p.cache) :
    r.Agrees body Branch.resolved (r.afresh body (level + 1) inherited edge) p.cache
      (r.arrive level (r.start level) ⟨edge.node, node,
        accumulate inherited edge (r.graph.dependency node), credentials⟩ p) := by
  have hafresh : r.afresh body (level + 1) inherited edge =
      r.evaluateAfresh body (r.afresh body level) ⟨edge.node, node,
        accumulate inherited edge (r.graph.dependency node), credentials⟩ :=
    afresh_of_granted hnode hcredentials
  have hfree : r.ClearBelow edge.node p.cache := hclear.mono (Nat.le_succ _)
  have hrecall : ∀ value,
      r.evaluateAfresh body (r.afresh body level) ⟨edge.node, node,
        accumulate inherited edge (r.graph.dependency node), credentials⟩ = .ok value →
      ∃ level inherited edge, r.graph.nodes[edge.node]? = some node ∧
        r.afresh body level inherited edge = .ok value :=
    fun value hvalue => ⟨level + 1, inherited, edge, hnode, hafresh.trans hvalue⟩
  simp only [arrive]
  cases hcached : (r.graph.dependency node).cached with
  | false =>
      rw [hafresh]
      exact agrees_evaluate _ _ _ hself hrecall p.cache p hrecalls
        (fun i htaken => Or.inl htaken) (hbelow _ _ hfree)
  | true =>
      simp only [Bool.not_true, Bool.false_eq_true, ↓reduceIte]
      have htaken : ∀ i, (p.cache.set node.identity .taken).gate i = .taken →
          p.cache.gate i = .taken ∨ ((r.graph.dependency node).cached = true ∧
            i = node.identity) := by
        intro i htaken
        by_cases hsame : i = node.identity
        · exact Or.inr ⟨hcached, hsame⟩
        · rw [Cache.gate_set_of_ne _ hsame] at htaken
          exact Or.inl htaken
      -- Whether nobody came before or somebody gave up makes no difference.
      have hevaluate : r.Agrees body Branch.resolved (r.afresh body (level + 1) inherited edge)
          p.cache (r.evaluate (r.start level) ⟨edge.node, node,
            accumulate inherited edge (r.graph.dependency node), credentials⟩
              { p with cache := p.cache.set node.identity .taken }) := by
        rw [hafresh]
        exact agrees_evaluate _ _ _ hself hrecall p.cache _ (hrecalls.take _) htaken
          (hbelow _ _ (hfree.take harena hnode))
      cases hgate : p.cache.gate node.identity with
      | taken => exact absurd hgate (hclear edge.node node hnode (Nat.lt_succ_self _))
      | filled value =>
          obtain ⟨lower, scopes, other, found, hfound, hidentity, hvalue⟩ :=
            hrecalls _ _ hgate
          have hplace := harena.index_unique hfound hnode hidentity
          have hagain : r.afresh body (level + 1) inherited edge =
              (r.authorizeSite level inherited edge).map fun _ => value := by
            refine afresh_site hplace hvalue ?_
            intro node hnode
            exact afresh_again harena level node.edges
              ((r.reaches_below harena hnode).mono (Nat.le_of_lt_succ hless))
          rw [hagain]
          simp only [authorizeSite, hnode, hcredentials]
          cases r.authorizeBelow level (accumulate inherited edge (r.graph.dependency node))
              node.edges with
          | error e => rfl
          | ok _ => exact ⟨rfl, hrecalls, fun _ htaken => htaken⟩
      | untouched => exact hevaluate
      | free => exact hevaluate

/-- A branch that begins while no node up to its own is being evaluated ends at once, as the
computation does. -/
theorem agrees_start {catalog : Catalog n σ} (harena : Arena catalog r.graph.nodes)
    (level : Nat) (inherited : Scopes) (edge : Edge) (hreaches : r.Reaches level [edge])
    (hcomputes : r.ComputesBelow body [edge]) (p : Progress n σ)
    (hrecalls : r.Recalls body p.cache) (hclear : r.ClearBelow (edge.node + 1) p.cache) :
    r.Agrees body Branch.resolved (r.afresh body level inherited edge) p.cache
      (r.start level inherited edge p) := by
  induction level generalizing inherited edge p with
  | zero => rfl
  | succ level ih =>
      obtain ⟨hless, node, hnode⟩ := hreaches edge (by simp)
      have hdown : r.Reaches level node.edges :=
        (r.reaches_below harena hnode).mono (Nat.le_of_lt_succ hless)
      have hcomputesBelow := hcomputes.below hnode
      have hbelow : r.AgreesBelow body level edge.node node.edges := by
        intro scopes base hfree other hother q hq hsubset
        have hplace := (harena.edge_below hnode hother).1
        exact (ih scopes other (hdown.of_mem hother) (hcomputesBelow.of_mem hother) q hq
          ((hfree.of_subset hsubset).mono hplace)).of_subset hsubset
      have hself : (r.graph.dependency node).routine.Computes (body node.identity) :=
        hcomputes [edge] node (.here (by simp) hnode)
      cases hcredentials : authorize r.request (r.graph.dependency node)
          (accumulate inherited edge (r.graph.dependency node)) with
      | error e =>
          rw [afresh_of_refused hnode hcredentials]
          simp only [start, hnode, hcredentials]
          rfl
      | ok credentials =>
          simp only [start, hnode, hcredentials]
          exact agrees_arrive harena level inherited edge hless node hnode credentials
            hcredentials hself hbelow p hrecalls hclear

/-- A resolution that begins while nobody evaluates anything, with a cache that recalls only
what was computed afresh, ends as the one that computes everything afresh. -/
theorem resolve_computes {catalog : Catalog n σ} (harena : Arena catalog r.graph.nodes)
    (plan : Plan) (hreaches : r.Reaches r.top plan.roots)
    (hcomputes : r.ComputesBelow body plan.roots) (p : Progress n σ)
    (hrecalls : r.Recalls body p.cache) (hfree : ∀ i, p.cache.gate i ≠ .taken) :
    (r.resolve plan p).1 = r.resolveAfresh body plan := by
  have hroots := agrees_pollEach (r.afresh body r.top []) (r.start r.top []) p.cache plan.roots
    (fun edge hedge q hq hsubset =>
      (agrees_start harena r.top [] edge (hreaches.of_mem hedge) (hcomputes.of_mem hedge) q hq
        (fun i node _ _ htaken => hfree _ (hsubset _ htaken))).of_subset hsubset)
    p hrecalls (fun _ htaken => htaken)
  cases hcomputed : plan.roots.mapM (r.afresh body r.top []) with
  | error e =>
      rw [hcomputed] at hroots
      obtain ⟨after, hresult⟩ := hroots.error
      simp only [resolve, followAll, resolveAfresh, hcomputed, hresult]
  | ok values =>
      rw [hcomputed] at hroots
      obtain ⟨after, hresult, _, _⟩ := hroots.ok
      simp only [resolve, followAll, resolveAfresh, hcomputed, hresult,
        finish_of_values (values_eq_some_iff.mpr rfl)]

/-- The cache cannot be observed: with code that computes what it ends with from its input
without the scopes, a resolution that begins with an empty cache ends as the one that
authorizes and computes everything afresh at every reference, with the same values under the
same names or with the same error. -/
theorem resolve_eq_resolveAfresh (r : Resolver n σ)
    (body : Fin n → DependencyInput → Outcome Provided) (catalog : Catalog n σ)
    (references : List (Reference n)) (plan : Plan)
    (hcompiled : Compiled catalog references r.graph plan)
    (hcomputes : ∀ way last, r.graph.Way plan.roots way last →
      (r.graph.dependency last).routine.Computes (body last.identity))
    (p : Progress n σ) (hempty : p.cache = .empty) :
    (r.resolve plan p).1 = r.resolveAfresh body plan := by
  refine resolve_computes hcompiled.arena plan hcompiled.reaches_roots hcomputes p ?_ ?_
  · rw [hempty]
    exact recalls_empty
  · rw [hempty]
    rintro i ⟨⟩

/-- A token that is counted whenever it is made, and a user who requires it twice. -/
def tokenCatalog : Catalog 2 Nat where
  dependency i :=
    if i = 0 then
      { name := "token"
        parameters := []
        references := []
        scopes := []
        provider := some ⟨"token", fun _ => .granted ⟨none, ["read"], .null⟩⟩
        cached := true
        routine := .inline fun _ effects =>
          (.value (.text "token"), { effects with state := effects.state + 1 }) }
    else
      { name := "user"
        parameters := []
        references := [⟨"first", 0, []⟩, ⟨"second", 0, ["read"]⟩]
        scopes := []
        provider := none
        cached := true
        routine := .inline fun input effects =>
          (match input.provided.text "second" with
            | .ok token => .value (.text (token ++ " of the user"))
            | .error e => .failed e, effects) }
  overrides := []

def tokenResolver : Resolver 2 Nat where
  graph := ⟨tokenCatalog, [⟨0, [], []⟩, ⟨1, [], [⟨"first", 0, []⟩, ⟨"second", 0, ["read"]⟩]⟩]⟩
  params _ := []
  request := default
  requestId := default

def tokenBody (i : Fin 2) (input : DependencyInput) : Outcome Provided :=
  if i = 0 then .value (.text "token")
  else
    match input.provided.text "second" with
    | .ok token => .value (.text (token ++ " of the user"))
    | .error e => .failed e

/-- A plan that requires the user twice, the second time with scopes. -/
def tokenPlan (scopes : List String) : Plan :=
  ⟨[⟨"user", 1, []⟩, ⟨"again", 1, scopes⟩], [1, 0]⟩

theorem resolve_eq_resolveAfresh_sample :
    (tokenResolver.resolve (tokenPlan ["write"]) ⟨.empty, ⟨0, []⟩, []⟩).1 =
      .error (.forbidden "Not enough permissions" ["write"]) ∧
    (tokenResolver.resolve (tokenPlan ["read"]) ⟨.empty, ⟨0, []⟩, []⟩).1 =
      .ok [("user", .text "token of the user"), ("again", .text "token of the user")] := by
  have hcomputes (node : Node 2) : (tokenResolver.graph.dependency node).routine.Computes
      (tokenBody node.identity) := by
    by_cases htoken : node.identity = 0
    · simp only [Graph.dependency, tokenResolver, tokenCatalog, htoken, ↓reduceIte]
      exact ⟨_, rfl, fun _ _ => rfl⟩
    · simp only [Graph.dependency, tokenResolver, tokenCatalog, htoken, ↓reduceIte]
      refine ⟨_, rfl, ?_⟩
      intro input effects
      simp only [tokenBody, htoken, ↓reduceIte]
      rfl
  constructor
  · rw [resolve_eq_resolveAfresh tokenResolver tokenBody tokenCatalog
      [⟨"user", 1, []⟩, ⟨"again", 1, ["write"]⟩] (tokenPlan ["write"])
      (Compiled.intro [] [] (tokenPlan ["write"]) rfl) (fun _ last _ => hcomputes last) _ rfl]
    rfl
  · rw [resolve_eq_resolveAfresh tokenResolver tokenBody tokenCatalog
      [⟨"user", 1, []⟩, ⟨"again", 1, ["read"]⟩] (tokenPlan ["read"])
      (Compiled.intro [] [] (tokenPlan ["read"]) rfl) (fun _ last _ => hcomputes last) _ rfl]
    rfl

/-- The same resolver, with other dependencies cached. -/
def caching (r : Resolver n σ) (cached : Fin n → Bool) : Resolver n σ :=
  { r with
    graph :=
      { r.graph with
        catalog :=
          { r.graph.catalog with
            dependency := fun i => { r.graph.catalog.dependency i with cached := cached i } } } }

theorem way_of_caching {cached : Fin n → Bool} {edges way : List Edge} {last : Node n}
    (hway : (r.caching cached).graph.Way edges way last) : r.graph.Way edges way last := by
  induction hway with
  | here hedge hnode => exact .here hedge hnode
  | further hedge hnode _ ih => exact .further hedge hnode ih

theorem arena_caching {catalog : Catalog n σ} (harena : Arena catalog r.graph.nodes)
    (cached : Fin n → Bool) :
    Arena { catalog with
      dependency := fun i => { catalog.dependency i with cached := cached i } }
      (r.caching cached).graph.nodes :=
  ⟨harena.distinct, fun i node hnode =>
    (harena.follows i node hnode).imp fun _ _ hfollows =>
      ⟨hfollows.name, hfollows.scopes, hfollows.target⟩⟩

theorem afresh_caching (cached : Fin n → Bool) (level : Nat) :
    (r.caching cached).afresh body level = r.afresh body level := by
  induction level with
  | zero => rfl
  | succ level ih =>
      funext inherited edge
      simp only [afresh, ih]
      rfl

/-- Which dependencies are cached makes no difference to how a resolution ends, when their
code computes what it ends with; in particular it ends as if none were cached. -/
theorem resolve_caching {catalog : Catalog n σ} {references : List (Reference n)} {plan : Plan}
    (hcompiled : Compiled catalog references r.graph plan)
    (hcomputes : ∀ way last, r.graph.Way plan.roots way last →
      (r.graph.dependency last).routine.Computes (body last.identity))
    (cached : Fin n → Bool) (p q : Progress n σ) (hp : p.cache = .empty)
    (hq : q.cache = .empty) :
    ((r.caching cached).resolve plan q).1 = (r.resolve plan p).1 := by
  have hfree (p : Progress n σ) (hp : p.cache = .empty) (i : Fin n) : p.cache.gate i ≠ .taken := by
    rw [hp]
    rintro ⟨⟩
  rw [resolve_computes hcompiled.arena plan hcompiled.reaches_roots hcomputes p
      (hp ▸ recalls_empty) (hfree p hp),
    resolve_computes (arena_caching hcompiled.arena cached) plan hcompiled.reaches_roots
      (fun way last hway => hcomputes way last (way_of_caching hway)) q
      (hq ▸ recalls_empty) (hfree q hq)]
  unfold resolveAfresh
  rw [afresh_caching]
  rfl

end Resolver

end RequestDispatch
