import RequestDispatch.Proofs.Dependency.Branches

/-!
Which code a resolution runs, whether it succeeds or fails. The code of a dependency is run only
for a branch that was followed down from the roots, and at every node on its way the request has
passed the provider there, if there is one, with the scopes collected on the way to that node. It
is run with the scopes and the credentials of that branch.
-/

namespace RequestDispatch

variable {n : Nat} {σ ε : Type}

/-- Something is provided for each edge, under its name. -/
def Provisions.NamedBy (provided : Provisions) (edges : List Edge) : Prop :=
  provided.map (·.1) = edges.map (·.name)

theorem Provisions.namedBy_zip {edges : List Edge} {values : List Provided}
    (hlength : values.length = edges.length) :
    NamedBy ((edges.map (·.name)).zip values) edges := by
  apply List.map_fst_zip
  rw [List.length_map]
  exact Nat.le_of_eq hlength.symm

namespace Resolver

variable (r : Resolver n σ)

/-- A visit that was come to along a way from some edges, through visits of all nodes on it. -/
inductive Reached (roots : List Edge) : List Edge → Visit n → Prop where
  | root {edge : Edge} {visit : Visit n} (hedge : edge ∈ roots) (hvisit : r.Visits [] edge visit) :
      Reached roots [edge] visit
  | further {way : List Edge} {edge : Edge} {upper lower : Visit n}
      (hupper : Reached roots way upper) (hedge : edge ∈ upper.node.edges)
      (hlower : r.Visits upper.scopes edge lower) : Reached roots (way ++ [edge]) lower

variable {r}

namespace Reached

variable {roots way : List Edge} {visit : Visit n}

theorem node_at (hreached : r.Reached roots way visit) :
    r.graph.nodes[visit.index]? = some visit.node := by
  cases hreached with
  | root _ hvisit => exact hvisit.index ▸ hvisit.node
  | further _ _ hlower => exact hlower.index ▸ hlower.node

theorem to_way (hreached : r.Reached roots way visit) :
    r.graph.Way roots way visit.node := by
  induction hreached with
  | root hedge hvisit => exact .here hedge hvisit.node
  | further _ hedge hlower ih => exact ih.snoc hedge hlower.node

/-- The scopes of a visit are those that are mentioned on the way to it. -/
theorem mem_scopes_iff (hreached : r.Reached roots way visit) (scope : String) :
    scope ∈ visit.scopes ↔ scope ∈ r.graph.scopesAlong way := by
  induction hreached with
  | root _ hvisit =>
      rw [hvisit.scopes, Graph.mem_accumulate_iff hvisit.node]
      simp only [List.nil_append, Graph.scopesAlong, List.flatMap_cons, List.flatMap_nil,
        List.append_nil]
  | further _ _ hlower ih =>
      rw [hlower.scopes, Graph.mem_accumulate_iff hlower.node]
      simp only [Graph.scopesAlong, List.flatMap_append, List.flatMap_cons, List.flatMap_nil,
        List.append_nil, List.mem_append] at ih ⊢
      rw [ih]

/-- The request has passed the provider at the end of the way. -/
theorem authorizes (hreached : r.Reached roots way visit) :
    (r.graph.dependency visit.node).Authorizes r.request (r.graph.scopesAlong way) := by
  rw [← Dependency.Authorizes.congr hreached.mem_scopes_iff]
  apply (authorize_ok_iff _ _ _).mp
  cases hreached with
  | root _ hvisit => exact ⟨_, hvisit.credentials⟩
  | further _ _ hlower => exact ⟨_, hlower.credentials⟩

/-- It has passed every provider on the way, with the scopes collected up to there. -/
theorem authorizes_along (hreached : r.Reached roots way visit) {first : List Edge}
    (hfirst : first <+: way) {upper : Node n} (hupper : r.graph.Way roots first upper) :
    (r.graph.dependency upper).Authorizes r.request (r.graph.scopesAlong first) := by
  have hlast {way : List Edge} {visit : Visit n} (hreached : r.Reached roots way visit)
      (hupper : r.graph.Way roots way upper) :
      (r.graph.dependency upper).Authorizes r.request (r.graph.scopesAlong way) := by
    rw [hupper.unique hreached.to_way]
    exact hreached.authorizes
  induction hreached with
  | @root edge visit hedge hvisit =>
      rw [← List.nil_append [edge], List.prefix_concat_iff] at hfirst
      obtain rfl | hnil := hfirst
      · exact hlast (.root hedge hvisit) hupper
      · rw [List.prefix_nil.mp hnil] at hupper
        cases hupper
  | @further way edge upperVisit lower habove hedge hlower ih =>
      rw [List.prefix_concat_iff] at hfirst
      obtain rfl | hbefore := hfirst
      · exact hlast (.further habove hedge hlower) hupper
      · exact ih hbefore

end Reached

/-! ### What steps log -/

/-- Polled code logs nothing, or that the code of its dependency is run on its input. -/
def Announces (r : Resolver n σ) (log : Effects σ → List ε)
    (announce : Fin n → DependencyInput → ε) : Prop :=
  ∀ (node : Node n) (polls : Nat) (input : DependencyInput) (effects : Effects σ),
    ∃ more, log ((r.graph.dependency node).routine.poll polls input effects).2 =
      log effects ++ more ∧ ∀ event ∈ more, event = announce node.identity input

/-- The code of a dependency is run for a visit that was reached, on the input of that visit: its
scopes and credentials, and something provided under every name that its node requires. -/
def Calls (r : Resolver n σ) (announce : Fin n → DependencyInput → ε) (roots : List Edge)
    (event : ε) : Prop :=
  ∃ way visit provided, r.Reached roots way visit ∧
    provided.NamedBy visit.node.edges ∧
    event = announce visit.node.identity (r.inputOf visit provided)

/-- What a step adds to the log, whether it fails or not, and what its result is. -/
structure Adds {α : Type} (log : Effects σ → List ε) (permits : ε → Prop) (holds : α → Prop)
    (p : Progress n σ) (result : Except DispatchError α × Progress n σ) : Prop where
  logged : ∃ more, log result.2.effects = log p.effects ++ more ∧ ∀ event ∈ more, permits event
  holds : ∀ a, result.1 = .ok a → holds a

namespace Adds

variable {log : Effects σ → List ε} {permits : ε → Prop} {α β : Type} {holds : α → Prop}
  {keeps : β → Prop} {p q : Progress n σ}

theorem pure {a : α} (ha : holds a) (heffects : q.effects = p.effects) :
    Adds log permits holds p (.ok a, q) where
  logged := ⟨[], by rw [heffects, List.append_nil], by simp⟩
  holds := by
    rintro a ⟨⟩
    exact ha

theorem throw (e : DispatchError) : Adds log permits holds p (.error e, p) where
  logged := ⟨[], by rw [List.append_nil], by simp⟩
  holds := by rintro a ⟨⟩

/-- A step that has failed has logged what it has logged. -/
theorem failed {e : DispatchError} (hfailed : Adds log permits holds p (.error e, q)) :
    Adds log permits keeps p (.error e, q) where
  logged := hfailed.logged
  holds := by rintro a ⟨⟩

theorem andThen {a : α} (hfirst : Adds log permits holds p (.ok a, q))
    {result : Except DispatchError β × Progress n σ}
    (hnext : holds a → Adds log permits keeps q result) : Adds log permits keeps p result := by
  have hrest := hnext (hfirst.holds a rfl)
  obtain ⟨more, hmore, hpermitted⟩ := hfirst.logged
  obtain ⟨others, hothers, hallowed⟩ := hrest.logged
  refine ⟨⟨more ++ others, ?_, ?_⟩, hrest.holds⟩
  · rw [hothers, hmore, List.append_assoc]
  · intro event hevent
    obtain hin | hin := List.mem_append.mp hevent
    · exact hpermitted event hin
    · exact hallowed event hin

/-- Only the effects at the beginning count. -/
theorem congr {result : Except DispatchError α × Progress n σ}
    (hadds : Adds log permits holds q result) (heffects : q.effects = p.effects) :
    Adds log permits holds p result where
  logged := heffects ▸ hadds.logged
  holds := hadds.holds

end Adds

/-- All visits in a branch were reached, and code goes on with what its node requires. -/
inductive Grounded (r : Resolver n σ) (roots : List Edge) : Branch n → Prop where
  | resolved (value : Provided) : Grounded r roots (.resolved value)
  | waiting {way : List Edge} {visit : Visit n} (hvisit : r.Reached roots way visit) :
      Grounded r roots (.waiting visit)
  | gathering {way : List Edge} {visit : Visit n} {below : List (Branch n)}
      (hvisit : r.Reached roots way visit) (heach : below.length = visit.node.edges.length)
      (hbelow : ∀ b ∈ below, Grounded r roots b) : Grounded r roots (.gathering visit below)
  | running {way : List Edge} {visit : Visit n} (hvisit : r.Reached roots way visit)
      {provided : Provisions} (hprovided : provided.NamedBy visit.node.edges) (polls : Nat) :
      Grounded r roots (.running visit provided polls)

variable {log : Effects σ → List ε} {announce : Fin n → DependencyInput → ε} {roots : List Edge}

theorem adds_runBody (hannounces : r.Announces log announce) {way : List Edge}
    {visit : Visit n} (hvisit : r.Reached roots way visit) {provided : Provisions}
    (hprovided : provided.NamedBy visit.node.edges) (polls : Nat) (p : Progress n σ) :
    Adds log (r.Calls announce roots) (r.Grounded roots) p (r.runBody visit provided polls p) := by
  obtain ⟨more, hmore, hevents⟩ :=
    hannounces visit.node polls (r.inputOf visit provided) p.effects
  have hlogged : ∃ more, log ((r.graph.dependency visit.node).routine.poll polls
      (r.inputOf visit provided) p.effects).2 = log p.effects ++ more ∧
        ∀ event ∈ more, r.Calls announce roots event :=
    ⟨more, hmore, fun event hevent =>
      ⟨way, visit, provided, hvisit, hprovided, hevents event hevent⟩⟩
  simp only [runBody]
  cases hpoll : (r.graph.dependency visit.node).routine.poll polls (r.inputOf visit provided)
      p.effects with
  | mk outcome effects =>
      rw [hpoll] at hlogged
      cases outcome with
      | none =>
          refine ⟨hlogged, ?_⟩
          rintro b ⟨⟩
          exact .running hvisit hprovided _
      | some outcome =>
          cases outcome with
          | value value =>
              refine ⟨hlogged, ?_⟩
              rintro b ⟨⟩
              exact .resolved value
          | failed e => exact ⟨hlogged, by rintro b ⟨⟩⟩
          | panicked panic => exact ⟨hlogged, by rintro b ⟨⟩⟩

theorem adds_gathered (hannounces : r.Announces log announce) {way : List Edge}
    {visit : Visit n} (hvisit : r.Reached roots way visit) {below : List (Branch n)}
    (heach : below.length = visit.node.edges.length) (hbelow : ∀ b ∈ below, r.Grounded roots b)
    (p : Progress n σ) :
    Adds log (r.Calls announce roots) (r.Grounded roots) p (r.gathered visit below p) := by
  simp only [gathered]
  cases hvalues : below.mapM Branch.value? with
  | none => exact .pure (.gathering hvisit heach hbelow) rfl
  | some values =>
      have hlength : values.length = visit.node.edges.length := by
        rw [← heach, values_eq_some_iff.mp hvalues, List.length_map]
      exact adds_runBody hannounces hvisit (Provisions.namedBy_zip hlength) 0 p

theorem adds_pollEach {α β : Type} {permits : ε → Prop} {holds : β → Prop}
    {step : α → Step n σ β} {items : List α}
    (hstep : ∀ a ∈ items, ∀ p, Adds log permits holds p (step a p)) (p : Progress n σ) :
    Adds log permits (fun results => results.length = items.length ∧ ∀ b ∈ results, holds b) p
      (pollEach step items p) := by
  induction items generalizing p with
  | nil => exact .pure (by simp) rfl
  | cons a rest ih =>
      have hfirst := hstep a List.mem_cons_self p
      simp only [pollEach]
      cases hresult : step a p with
      | mk result next =>
          rw [hresult] at hfirst
          cases result with
          | error e => exact hfirst.failed
          | ok b =>
              refine hfirst.andThen fun hb => ?_
              have hrest := ih (fun a ha => hstep a (List.mem_cons_of_mem _ ha)) next
              dsimp only
              cases hmore : pollEach step rest next with
              | mk more last =>
                  rw [hmore] at hrest
                  cases more with
                  | error e => exact hrest.failed
                  | ok bs =>
                      refine hrest.andThen fun hbs => .pure ?_ rfl
                      exact ⟨congrArg (· + 1) hbs.1, List.forall_mem_cons.mpr ⟨hb, hbs.2⟩⟩

theorem adds_evaluate (hannounces : r.Announces log announce)
    {start : Scopes → Edge → Step n σ (Branch n)} {way : List Edge} {visit : Visit n}
    (hvisit : r.Reached roots way visit)
    (hstart : ∀ edge ∈ visit.node.edges, ∀ p,
      Adds log (r.Calls announce roots) (r.Grounded roots) p (start visit.scopes edge p))
    (p : Progress n σ) :
    Adds log (r.Calls announce roots) (r.Grounded roots) p (r.evaluate start visit p) := by
  have hbegun := adds_pollEach hstart p
  simp only [evaluate]
  cases hresult : pollEach (start visit.scopes) visit.node.edges p with
  | mk result next =>
      rw [hresult] at hbegun
      cases result with
      | error e => exact hbegun.failed
      | ok below =>
          exact hbegun.andThen fun hbelow =>
            adds_gathered hannounces hvisit hbelow.1 hbelow.2 next

theorem adds_arrive (hannounces : r.Announces log announce) (level : Nat)
    {start : Scopes → Edge → Step n σ (Branch n)} {way : List Edge} {visit : Visit n}
    (hvisit : r.Reached roots way visit)
    (hstart : ∀ edge ∈ visit.node.edges, ∀ p,
      Adds log (r.Calls announce roots) (r.Grounded roots) p (start visit.scopes edge p))
    (p : Progress n σ) :
    Adds log (r.Calls announce roots) (r.Grounded roots) p (r.arrive level start visit p) := by
  have hevaluate := adds_evaluate hannounces hvisit hstart
  have htaken := hevaluate { p with cache := p.cache.set visit.node.identity .taken }
  simp only [arrive]
  cases (r.graph.dependency visit.node).cached with
  | false => exact hevaluate p
  | true =>
      simp only [Bool.not_true, Bool.false_eq_true, ↓reduceIte]
      cases p.cache.gate visit.node.identity with
      | taken => exact .pure (.waiting hvisit) rfl
      | filled value =>
          cases r.authorizeBelow level visit.scopes visit.node.edges with
          | error e => exact .throw e
          | ok _ => exact .pure (.resolved value) rfl
      | untouched => exact htaken.congr rfl
      | free => exact htaken.congr rfl

/-- A branch that is begun below what was reached, or at a root, reaches its visit. -/
theorem adds_start (hannounces : r.Announces log announce) (level : Nat) (inherited : Scopes)
    (edge : Edge)
    (hreaches : ∀ visit, r.Visits inherited edge visit → ∃ way, r.Reached roots way visit)
    (p : Progress n σ) :
    Adds log (r.Calls announce roots) (r.Grounded roots) p (r.start level inherited edge p) := by
  induction level generalizing inherited edge p with
  | zero => exact .throw _
  | succ level ih =>
      simp only [start]
      cases hnode : r.graph.nodes[edge.node]? with
      | none => exact .throw _
      | some node =>
          dsimp only
          cases hcredentials : authorize r.request (r.graph.dependency node)
              (accumulate inherited edge (r.graph.dependency node)) with
          | error e => exact .throw e
          | ok credentials =>
              obtain ⟨way, hvisit⟩ := hreaches ⟨edge.node, node,
                accumulate inherited edge (r.graph.dependency node), credentials⟩
                ⟨rfl, hnode, rfl, hcredentials⟩
              apply adds_arrive hannounces level hvisit
              intro lower hlower q
              exact ih _ lower (fun _ hbelow => ⟨_, hvisit.further hlower hbelow⟩) q

mutual

theorem adds_poll (hannounces : r.Announces log announce) (b : Branch n)
    (hb : r.Grounded roots b) (p : Progress n σ) :
    Adds log (r.Calls announce roots) (r.Grounded roots) p (r.poll b p) := by
  cases b with
  | resolved value =>
      simp only [poll]
      exact .pure (.resolved value) rfl
  | waiting visit =>
      cases hb with
      | waiting hvisit =>
          simp only [poll]
          apply adds_arrive hannounces _ hvisit
          intro lower hlower q
          apply adds_start hannounces _ _ lower
          intro next hnext
          exact ⟨_, hvisit.further hlower hnext⟩
  | gathering visit below =>
      cases hb with
      | gathering hvisit heach hbelow =>
          have hpolled := adds_pollAll hannounces below hbelow p
          simp only [poll]
          cases hresult : r.pollAll below p with
          | mk result next =>
              rw [hresult] at hpolled
              cases result with
              | error e => exact hpolled.failed
              | ok more =>
                  exact hpolled.andThen fun hmore =>
                    adds_gathered hannounces hvisit (hmore.1.trans heach) hmore.2 next
  | running visit provided polls =>
      cases hb with
      | running hvisit hprovided =>
          simp only [poll]
          exact adds_runBody hannounces hvisit hprovided polls p

theorem adds_pollAll (hannounces : r.Announces log announce) (branches : List (Branch n))
    (hbranches : ∀ b ∈ branches, r.Grounded roots b) (p : Progress n σ) :
    Adds log (r.Calls announce roots)
      (fun next => next.length = branches.length ∧ ∀ b ∈ next, r.Grounded roots b) p
      (r.pollAll branches p) := by
  cases branches with
  | nil =>
      simp only [pollAll]
      exact .pure (by simp) rfl
  | cons b rest =>
      have hfirst := adds_poll hannounces b (hbranches b List.mem_cons_self) p
      simp only [pollAll]
      cases hresult : r.poll b p with
      | mk result next =>
          rw [hresult] at hfirst
          cases result with
          | error e => exact hfirst.failed
          | ok polled =>
              refine hfirst.andThen fun hpolled => ?_
              have hrest := adds_pollAll hannounces rest
                (fun b hb => hbranches b (List.mem_cons_of_mem _ hb)) next
              dsimp only
              cases hmore : r.pollAll rest next with
              | mk more last =>
                  rw [hmore] at hrest
                  cases more with
                  | error e => exact hrest.failed
                  | ok others =>
                      refine hrest.andThen fun hothers => .pure ?_ rfl
                      exact ⟨congrArg (· + 1) hothers.1,
                        List.forall_mem_cons.mpr ⟨hpolled, hothers.2⟩⟩

end

theorem adds_finish (hannounces : r.Announces log announce) (rounds : Nat)
    (branches : List (Branch n)) (hbranches : ∀ b ∈ branches, r.Grounded roots b)
    (p : Progress n σ) :
    Adds log (r.Calls announce roots) (fun _ => True) p (r.finish rounds branches p) := by
  induction rounds generalizing branches p with
  | zero =>
      cases hvalues : branches.mapM Branch.value? with
      | some values =>
          rw [finish_of_values hvalues]
          exact .pure trivial rfl
      | none =>
          simp only [finish, hvalues]
          exact .throw _
  | succ rounds ih =>
      cases hvalues : branches.mapM Branch.value? with
      | some values =>
          rw [finish_of_values hvalues]
          exact .pure trivial rfl
      | none =>
          have hround := adds_pollAll hannounces branches hbranches p
          simp only [finish, hvalues]
          cases hresult : r.pollAll branches p with
          | mk result next =>
              rw [hresult] at hround
              cases result with
              | error e => exact hround.failed
              | ok more => exact hround.andThen fun hmore => ih more hmore.2 next

/-- A resolution runs code only for visits that were reached from the roots of the plan. -/
theorem adds_resolve (hannounces : r.Announces log announce) (plan : Plan) (p : Progress n σ) :
    Adds log (r.Calls announce plan.roots) (fun _ => True) p (r.resolve plan p) := by
  have hbegun : Adds log (r.Calls announce plan.roots) (fun branches =>
        branches.length = plan.roots.length ∧ ∀ b ∈ branches, r.Grounded plan.roots b) p
      (pollEach (r.start r.top []) plan.roots p) := by
    apply adds_pollEach
    intro edge hedge q
    apply adds_start hannounces r.top [] edge
    intro visit hvisit
    exact ⟨[edge], .root hedge hvisit⟩
  simp only [resolve, followAll]
  cases hresult : pollEach (r.start r.top []) plan.roots p with
  | mk result next =>
      rw [hresult] at hbegun
      cases result with
      | error e => exact ⟨hbegun.logged, by rintro a ⟨⟩⟩
      | ok branches =>
          have hfinished := hbegun.andThen fun hbranches =>
            adds_finish hannounces (r.allowance plan.roots) branches hbranches.2 next
          dsimp only
          cases hvalues : r.finish (r.allowance plan.roots) branches next with
          | mk values last =>
              rw [hvalues] at hfinished
              cases values with
              | error e => exact ⟨hfinished.logged, by rintro a ⟨⟩⟩
              | ok found => exact ⟨hfinished.logged, fun _ _ => trivial⟩

end Resolver

end RequestDispatch
