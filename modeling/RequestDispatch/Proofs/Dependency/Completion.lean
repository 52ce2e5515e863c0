import RequestDispatch.Proofs.Dependency.Effort

/-!
A resolution comes to its end. When the request passes every provider on its ways, a step fails
only because code that it runs has ended without a value; and since every round leaves less to
do, the rounds that a resolution is allowed are enough. What code has done is told from its
effects: they are faulty when some code has ended without a value.
-/

namespace RequestDispatch

variable {n : Nat} {σ : Type}

/-- Nobody is evaluating anything. That is how a cache is found between resolutions. -/
def Cache.Settled (cache : Cache n) : Prop :=
  ∀ i, cache.gate i ≠ .taken

theorem Cache.settled_empty : (Cache.empty : Cache n).Settled := by
  rintro i ⟨⟩

theorem Cache.settled_release (cache : Cache n) : cache.release.Settled := by
  intro i
  simp only [release]
  split
  · simp
  · assumption

theorem Cache.release_of_settled {cache : Cache n} (hsettled : cache.Settled) :
    cache.release = cache := by
  unfold release
  congr 1
  funext i
  split
  · rename_i htaken
    exact absurd htaken (hsettled i)
  · rfl

namespace Resolver

variable {faulty : Effects σ → Prop}

/-- The code of dependencies leaves faulty effects exactly when it ends without a value. -/
def Marks (r : Resolver n σ) (faulty : Effects σ → Prop) : Prop :=
  ∀ (node : Node n) (polls : Nat) (input : DependencyInput) (effects : Effects σ),
    ¬faulty effects →
      let result := (r.graph.dependency node).routine.poll polls input effects
      faulty result.2 ↔ ∃ outcome, result.1 = some outcome ∧ ¬∃ value, outcome = .value value

/-- A step has failed exactly if it has left faulty effects. -/
inductive Blames (faulty : Effects σ → Prop) {α : Type} :
    Except DispatchError α × Progress n σ → Prop where
  | done {a : α} {after : Progress n σ} (hsound : ¬faulty after.effects) :
      Blames faulty (.ok a, after)
  | failed {e : DispatchError} {after : Progress n σ} (hfaulty : faulty after.effects) :
      Blames faulty (.error e, after)

theorem Blames.ok_iff {α : Type} {result : Except DispatchError α × Progress n σ}
    (hblames : Blames faulty result) :
    (∃ a after, result = (.ok a, after)) ↔ ¬faulty result.2.effects := by
  cases hblames with
  | done hsound => exact iff_of_true ⟨_, _, rfl⟩ hsound
  | failed hfaulty =>
      refine iff_of_false ?_ (not_not.mpr hfaulty)
      rintro ⟨_, _, ⟨⟩⟩

variable {r : Resolver n σ}

theorem blames_runBody (hmarks : r.Marks faulty) (visit : Visit n) (provided : Provisions)
    (polls : Nat) (p : Progress n σ) (hsound : ¬faulty p.effects) :
    Blames faulty (r.runBody visit provided polls p) := by
  have hpolled := hmarks visit.node polls (r.inputOf visit provided) p.effects hsound
  simp only [runBody]
  cases hpoll : (r.graph.dependency visit.node).routine.poll polls (r.inputOf visit provided)
      p.effects with
  | mk result effects =>
      simp only [hpoll] at hpolled
      cases result with
      | none => exact .done (by simpa using hpolled)
      | some outcome =>
          cases outcome with
          | value value => exact .done (by simpa using hpolled)
          | failed e => exact .failed (by simpa using hpolled)
          | panicked panic => exact .failed (by simpa using hpolled)

theorem blames_gathered (hmarks : r.Marks faulty) (visit : Visit n) (below : List (Branch n))
    (p : Progress n σ) (hsound : ¬faulty p.effects) :
    Blames faulty (r.gathered visit below p) := by
  simp only [gathered]
  split
  · exact blames_runBody hmarks visit _ _ p hsound
  · exact .done hsound

theorem blames_pollEach {α β : Type} (poll : α → Step n σ β) (items : List α)
    (hpoll : ∀ a ∈ items, ∀ p : Progress n σ, ¬faulty p.effects → Blames faulty (poll a p))
    (p : Progress n σ) (hsound : ¬faulty p.effects) : Blames faulty (pollEach poll items p) := by
  induction items generalizing p with
  | nil => exact .done hsound
  | cons a rest ih =>
      have hfirst := hpoll a List.mem_cons_self p hsound
      simp only [pollEach]
      cases hresult : poll a p with
      | mk result next =>
          rw [hresult] at hfirst
          cases hfirst with
          | failed hfaulty => exact .failed hfaulty
          | done hnext =>
              have hrest := ih (fun other hother => hpoll other (List.mem_cons_of_mem _ hother))
                next hnext
              dsimp only
              cases hmore : pollEach poll rest next with
              | mk more last =>
                  rw [hmore] at hrest
                  cases hrest with
                  | failed hfaulty => exact .failed hfaulty
                  | done hlast => exact .done hlast

/-- An authorized branch goes on, unless code fails, when the branches below it do. -/
theorem blames_arrive {catalog : Catalog n σ} (harena : Arena catalog r.graph.nodes)
    (hmarks : r.Marks faulty) (visit : Visit n)
    (hbelow : r.graph.Authorized r.request visit.scopes visit.node.edges) (level : Nat)
    (hreaches : r.Reaches level visit.node.edges) (start : Scopes → Edge → Step n σ (Branch n))
    (hstart : ∀ edge ∈ visit.node.edges, ∀ p : Progress n σ, ¬faulty p.effects →
      Blames faulty (start visit.scopes edge p))
    (p : Progress n σ) (hsound : ¬faulty p.effects) :
    Blames faulty (r.arrive level start visit p) := by
  have hevaluate (p : Progress n σ) (hsound : ¬faulty p.effects) :
      Blames faulty (r.evaluate start visit p) := by
    have hbegun := blames_pollEach _ _ hstart p hsound
    simp only [evaluate]
    cases hresult : pollEach (start visit.scopes) visit.node.edges p with
    | mk result next =>
        rw [hresult] at hbegun
        cases hbegun with
        | failed hfaulty => exact .failed hfaulty
        | done hnext => exact blames_gathered hmarks visit _ next hnext
  have hchecked := r.authorizeBelow_of_authorized harena level _ _ hreaches hbelow
  simp only [arrive, hchecked]
  split
  · exact hevaluate p hsound
  · split
    · exact .done hsound
    · exact .done hsound
    · exact hevaluate _ hsound

/-- The first step of an authorized way, with what goes on from there. -/
theorem authorized_first {inherited : Scopes} {edges : List Edge}
    (hauthorized : r.graph.Authorized r.request inherited edges) {edge : Edge}
    (hedge : edge ∈ edges) {node : Node n} (hnode : r.graph.nodes[edge.node]? = some node) :
    (∃ credentials, authorize r.request (r.graph.dependency node)
      (accumulate inherited edge (r.graph.dependency node)) = .ok credentials) ∧
    r.graph.Authorized r.request (accumulate inherited edge (r.graph.dependency node))
      node.edges := by
  obtain ⟨hfirst, hbelow⟩ :=
    (Graph.authorized_iff _ _ _).mp hauthorized edge hedge node hnode
  exact ⟨(authorize_ok_iff _ _ _).mpr hfirst, hbelow⟩

theorem blames_start {catalog : Catalog n σ} (harena : Arena catalog r.graph.nodes)
    (hmarks : r.Marks faulty) (level : Nat) (inherited : Scopes) (edge : Edge)
    (hreaches : r.Reaches level [edge])
    (hauthorized : r.graph.Authorized r.request inherited [edge]) (p : Progress n σ)
    (hsound : ¬faulty p.effects) : Blames faulty (r.start level inherited edge p) := by
  induction level generalizing inherited edge p with
  | zero =>
      have hless := (hreaches edge List.mem_cons_self).1
      omega
  | succ level ih =>
      obtain ⟨hless, node, hnode⟩ := hreaches edge List.mem_cons_self
      obtain ⟨⟨credentials, hcredentials⟩, hbelow⟩ :=
        authorized_first hauthorized List.mem_cons_self hnode
      have hdown : r.Reaches level node.edges :=
        (r.reaches_below harena hnode).mono (Nat.le_of_lt_succ hless)
      simp only [start, hnode, hcredentials]
      refine blames_arrive harena hmarks ⟨edge.node, node, _, credentials⟩ hbelow level hdown _ ?_
        p hsound
      intro other hother
      exact ih _ other (hdown.of_mem hother) ((Graph.authorized_each _ _ _).mp hbelow other hother)

mutual

/-- A branch of an authorized edge goes on, unless code fails. -/
theorem blames_poll {catalog : Catalog n σ} (harena : Arena catalog r.graph.nodes)
    (hmarks : r.Marks faulty) (b : Branch n) (inherited : Scopes) (edge : Edge)
    (hcovers : r.Covers b inherited edge)
    (hauthorized : r.graph.Authorized r.request inherited [edge]) (p : Progress n σ)
    (hsound : ¬faulty p.effects) : Blames faulty (r.poll b p) := by
  cases b with
  | resolved value =>
      simp only [poll]
      exact .done hsound
  | waiting visit =>
      obtain ⟨_, hbelow⟩ := authorized_first hauthorized List.mem_cons_self hcovers.node
      rw [← hcovers.scopes] at hbelow
      have hdown : r.Reaches r.top visit.node.edges :=
        (r.reaches_below harena hcovers.node).mono
          (Nat.le_of_lt (List.getElem?_eq_some_iff.mp hcovers.node).1)
      simp only [poll]
      refine blames_arrive harena hmarks visit hbelow r.top hdown _ ?_ p hsound
      intro other hother
      exact blames_start harena hmarks _ _ other (hdown.of_mem hother)
        ((Graph.authorized_each _ _ _).mp hbelow other hother)
  | gathering visit below =>
      obtain ⟨_, hbelow⟩ := authorized_first hauthorized List.mem_cons_self hcovers.1.node
      rw [← hcovers.1.scopes] at hbelow
      have hpolled := blames_pollAll harena hmarks below _ _ hcovers.2 hbelow p hsound
      simp only [poll]
      cases hresult : r.pollAll below p with
      | mk result next =>
          rw [hresult] at hpolled
          cases hpolled with
          | failed hfaulty => exact .failed hfaulty
          | done hnext => exact blames_gathered hmarks visit _ next hnext
  | running visit provided polls =>
      simp only [poll]
      exact blames_runBody hmarks visit _ _ p hsound

theorem blames_pollAll {catalog : Catalog n σ} (harena : Arena catalog r.graph.nodes)
    (hmarks : r.Marks faulty) (branches : List (Branch n)) (inherited : Scopes)
    (edges : List Edge) (hcovers : r.CoversAll branches inherited edges)
    (hauthorized : r.graph.Authorized r.request inherited edges) (p : Progress n σ)
    (hsound : ¬faulty p.effects) : Blames faulty (r.pollAll branches p) := by
  cases branches with
  | nil =>
      simp only [pollAll]
      exact .done hsound
  | cons b rest =>
      cases edges with
      | nil => cases hcovers
      | cons edge edges =>
          have heach := (Graph.authorized_each _ _ _).mp hauthorized
          have hlater : r.graph.Authorized r.request inherited edges :=
            (Graph.authorized_each _ _ _).mpr fun other hother =>
              heach other (List.mem_cons_of_mem _ hother)
          have hfirst := blames_poll harena hmarks b _ _ hcovers.1
            (heach edge List.mem_cons_self) p hsound
          simp only [pollAll]
          cases hresult : r.poll b p with
          | mk result next =>
              rw [hresult] at hfirst
              cases hfirst with
              | failed hfaulty => exact .failed hfaulty
              | done hnext =>
                  have hrest := blames_pollAll harena hmarks rest _ _ hcovers.2 hlater next hnext
                  dsimp only
                  cases hmore : r.pollAll rest next with
                  | mk more last =>
                      rw [hmore] at hrest
                      cases hrest with
                      | failed hfaulty => exact .failed hfaulty
                      | done hlast => exact .done hlast

end

/-- Somebody works at every gate that is taken, and whoever waits does so behind somebody
else. -/
structure Attended (r : Resolver n σ) (cache : Cache n) (branches : List (Branch n)) : Prop where
  waits : ∀ visit ∈ awaitedAll branches, r.AtGate cache visit
  holders : ∀ i, cache.gate i = .taken →
    ∃ visit ∈ r.heldAll branches, visit.node.identity = i

/-- The gates stay attended when those that are handed over were. -/
theorem Moves.attended {before : List (Visit n)} {branches : List (Branch n)}
    {p q : Progress n σ}
    (hmoves : r.Moves before (r.heldAll branches) (awaitedAll branches) p q)
    (hbefore : ∀ i, p.cache.gate i = .taken → ∃ visit ∈ before, visit.node.identity = i) :
    r.Attended q.cache branches := by
  refine ⟨hmoves.waits, ?_⟩
  intro i htaken
  rcases hmoves.handover i htaken with hheld | ⟨htaken', hfree⟩
  · exact hheld
  · obtain ⟨visit, hvisit, hsame⟩ := hbefore i htaken'
    exact absurd hsame (hfree visit hvisit)

theorem Attended.settled {cache : Cache n} {branches : List (Branch n)} {values : List Provided}
    (hattended : r.Attended cache branches)
    (hvalues : branches.mapM Branch.value? = some values) : cache.Settled := by
  intro i htaken
  obtain ⟨visit, hvisit, _⟩ := hattended.holders i htaken
  rw [held_of_values hvalues] at hvisit
  cases hvisit

/-- A round of attended branches, not all of which have a value, leaves less to do. -/
theorem cost_of_round {catalog : Catalog n σ} (harena : Arena catalog r.graph.nodes)
    (branches : List (Branch n)) (inherited : Scopes) (edges : List Edge)
    (hcovers : r.CoversAll branches inherited edges) (p after : Progress n σ)
    (next : List (Branch n)) (hattended : r.Attended p.cache branches)
    (hvalues : branches.mapM Branch.value? = none)
    (hrun : r.pollAll branches p = (.ok next, after)) :
    r.costAll next < r.costAll branches := by
  rcases cost_of_pollAll harena branches _ _ hcovers _ _ _ hattended.waits hrun with
    hless | ⟨_, _, hidle⟩
  · exact hless
  · obtain ⟨values, hsome⟩ :=
      values_of_allIdle harena p.cache branches _ _ hcovers hidle hattended.holders
    rw [hsome] at hvalues
    cases hvalues

/-- Attended branches finish within as many rounds as there is work left, unless code fails. -/
theorem blames_finish {catalog : Catalog n σ} (harena : Arena catalog r.graph.nodes)
    (hmarks : r.Marks faulty) (inherited : Scopes) (edges : List Edge)
    (hauthorized : r.graph.Authorized r.request inherited edges) (rounds : Nat)
    (branches : List (Branch n)) (hcovers : r.CoversAll branches inherited edges)
    (hcost : r.costAll branches ≤ rounds) (p : Progress n σ)
    (hattended : r.Attended p.cache branches) (hsound : ¬faulty p.effects) :
    Blames faulty (r.finish rounds branches p) := by
  induction rounds generalizing branches p with
  | zero =>
      cases hvalues : branches.mapM Branch.value? with
      | some values =>
          rw [finish_of_values hvalues]
          exact .done hsound
      | none =>
          have hpos := costAll_pos harena branches _ _ hcovers hvalues
          omega
  | succ rounds ih =>
      cases hvalues : branches.mapM Branch.value? with
      | some values =>
          rw [finish_of_values hvalues]
          exact .done hsound
      | none =>
          have hpolled := blames_pollAll harena hmarks branches _ _ hcovers hauthorized p hsound
          cases hround : r.pollAll branches p with
          | mk result after =>
              rw [hround] at hpolled
              cases hpolled with
              | failed hfaulty =>
                  rw [finish_of_error hvalues hround]
                  exact .failed hfaulty
              | @done next _ hafter =>
                  have hless :=
                    cost_of_round harena branches _ _ hcovers _ _ _ hattended hvalues hround
                  have hnext := coversAll_of_pollAll branches _ _ hcovers _ _ _ hround
                  have hstill :=
                    (moves_of_pollAll branches _ _ _ hround).attended hattended.holders
                  rw [finish_of_round hvalues hround]
                  exact ih next hnext (by omega) after hstill hafter

/-- A resolution that is authorized everywhere fails only because code has failed, when it begins
with a settled cache. -/
theorem blames_resolve {catalog : Catalog n σ} (harena : Arena catalog r.graph.nodes)
    (hmarks : r.Marks faulty) (plan : Plan) (hreaches : r.Reaches r.top plan.roots)
    (hauthorized : r.graph.Authorized r.request [] plan.roots) (p : Progress n σ)
    (hsettled : p.cache.Settled) (hsound : ¬faulty p.effects) :
    Blames faulty (r.resolve plan p) := by
  have hbegins : Blames faulty (pollEach (r.start r.top []) plan.roots p) := by
    refine blames_pollEach _ _ ?_ p hsound
    intro edge hedge
    exact blames_start harena hmarks _ _ edge (hreaches.of_mem hedge)
      ((Graph.authorized_each _ _ _).mp hauthorized edge hedge)
  simp only [resolve, followAll]
  cases hbegun : pollEach (r.start r.top []) plan.roots p with
  | mk result next =>
      rw [hbegun] at hbegins
      cases hbegins with
      | failed hfaulty => exact .failed hfaulty
      | @done branches _ hnext =>
          have hcovers := covers_of_begun hbegun
          have hattended : r.Attended next.cache branches :=
            (moves_of_pollEach (moves_of_start r.top []) _ _ _ _ hbegun).attended
              (fun i htaken => absurd htaken (hsettled i))
          have hcost : r.costAll branches ≤ r.allowance plan.roots :=
            cost_of_pollEach _ (cost_of_start harena r.top []) _ _ _ hbegun
          have hfinishes := blames_finish harena hmarks _ _ hauthorized _ branches hcovers hcost
            next hattended hnext
          dsimp only
          cases hfinish : r.finish (r.allowance plan.roots) branches next with
          | mk values last =>
              rw [hfinish] at hfinishes
              cases hfinishes with
              | failed hfaulty => exact .failed hfaulty
              | done hlast => exact .done hlast

theorem settled_of_finish (rounds : Nat) (branches : List (Branch n)) (p after : Progress n σ)
    (values : List Provided) (hattended : r.Attended p.cache branches)
    (hrun : r.finish rounds branches p = (.ok values, after)) : after.cache.Settled := by
  induction rounds generalizing branches p with
  | zero =>
      rcases finish_ok hrun with ⟨hvalues, rfl⟩ | ⟨_, _, _, hrounds, _⟩
      · exact hattended.settled hvalues
      · cases hrounds
  | succ rounds ih =>
      rcases finish_ok hrun with ⟨hvalues, rfl⟩ | ⟨left, next, middle, hrounds, hround, hrest⟩
      · exact hattended.settled hvalues
      · cases hrounds
        have hmoves := moves_of_pollAll branches _ _ _ hround
        exact ih next middle (hmoves.attended hattended.holders) hrest

/-- A resolution leaves the cache settled, whether it succeeds or fails. -/
theorem settled_of_resolve (plan : Plan) (p : Progress n σ) (hsettled : p.cache.Settled) :
    (r.resolve plan p).2.cache.Settled := by
  cases hfollowed : r.followAll plan.roots p with
  | mk result after =>
      cases result with
      | error e =>
          simp only [resolve, hfollowed]
          exact Cache.settled_release _
      | ok values =>
          simp only [resolve, hfollowed]
          simp only [followAll] at hfollowed
          split at hfollowed
          · cases hfollowed
          · rename_i branches next hbegun
            have hmoves := moves_of_pollEach (moves_of_start r.top []) _ _ _ _ hbegun
            exact settled_of_finish _ branches next after values
              (hmoves.attended fun i htaken => absurd htaken (hsettled i)) hfollowed

end Resolver

end RequestDispatch
