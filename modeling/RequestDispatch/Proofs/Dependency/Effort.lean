import Mathlib.Data.List.Induction
import RequestDispatch.Proofs.Dependency.Deadlock

/-!
How much there is to do. A branch takes a bounded number of polls, which is fixed by the node
it belongs to when it begins. A round in which some branch does something leaves less to do;
in any other round nothing changes, and all branches are idle.
-/

namespace RequestDispatch

variable {n : Nat} {σ : Type}

private theorem foldlSnoc {α : Type} (step : List Nat → α → Nat) (items : List α) :
    (items.foldl (fun found a => found ++ [step found a]) []).length = items.length ∧
      ∀ i a, items[i]? = some a →
        (items.foldl (fun found a => found ++ [step found a]) [])[i]? =
          some (step ((items.foldl (fun found a => found ++ [step found a]) []).take i) a) := by
  induction items using List.reverseRecOn with
  | nil => simp
  | append_singleton items last ih =>
      obtain ⟨hlength, hitems⟩ := ih
      rw [List.foldl_append, List.foldl_cons, List.foldl_nil]
      refine ⟨by simp [hlength], ?_⟩
      intro i a ha
      by_cases hi : i < items.length
      · rw [List.getElem?_append_left hi] at ha
        rw [List.getElem?_append_left (by omega), List.take_append_of_le_length (by omega)]
        exact hitems i a ha
      · have hlast : i = items.length := by
          have hless := (List.getElem?_eq_some_iff.mp ha).1
          rw [List.length_append, List.length_singleton] at hless
          omega
        subst hlast
        rw [List.getElem?_concat_length, Option.some.injEq] at ha
        subst ha
        rw [← hlength, List.getElem?_concat_length, List.take_left]

namespace Resolver

variable (r : Resolver n σ)

/-- The most polls that the evaluation of a node can take. -/
def effort (i : Nat) : Nat :=
  r.efforts.getD i 0

theorem allowance_nil : r.allowance [] = 0 :=
  rfl

theorem allowance_cons (edge : Edge) (rest : List Edge) :
    r.allowance (edge :: rest) = r.effort edge.node + r.allowance rest :=
  rfl

/-- Edges that lead below a place need the efforts of the nodes before it only. -/
theorem effortOf_take (efforts : List Nat) {i : Nat} {edges : List Edge}
    (hbelow : ∀ edge ∈ edges, edge.node < i) :
    effortOf (efforts.take i) edges = effortOf efforts edges := by
  induction edges with
  | nil => rfl
  | cons edge rest ih =>
      have hless := hbelow edge List.mem_cons_self
      have hrest := ih fun other hother => hbelow other (List.mem_cons_of_mem _ hother)
      simp only [effortOf, hrest, List.getD_eq_getElem?_getD, List.getElem?_take, hless, ↓reduceIte]

/-- The evaluation of a node takes one poll for every pause and for its end, and those of what
lies below it. -/
theorem effort_eq {catalog : Catalog n σ} (harena : Arena catalog r.graph.nodes) {i : Nat}
    {node : Node n} (hnode : r.graph.nodes[i]? = some node) :
    r.effort i = (r.graph.dependency node).routine.pauses + r.allowance node.edges + 1 := by
  have hefforts := (foldlSnoc (fun efforts node =>
    (r.graph.dependency node).routine.pauses + effortOf efforts node.edges + 1)
      r.graph.nodes).2 i node hnode
  have hbelow : effortOf (r.efforts.take i) node.edges = r.allowance node.edges :=
    effortOf_take r.efforts fun edge hedge => (harena.edge_below hnode hedge).1
  rw [← hbelow, effort, List.getD_eq_getElem?_getD]
  change (r.efforts[i]?).getD 0 = _
  unfold efforts
  rw [hefforts]
  rfl

mutual

/-- The most polls that a branch can take from here on. -/
def cost : Branch n → Nat
  | .resolved _ => 0
  | .waiting visit => r.effort visit.index
  | .gathering visit below => r.pausesOf visit + costAll below + 1
  | .running visit _ polls => r.pausesOf visit - polls + 1

def costAll : List (Branch n) → Nat
  | [] => 0
  | b :: rest => cost b + costAll rest

end

variable {r}

theorem cost_of_runBody (visit : Visit n) (provided : Provisions) (polls : Nat)
    (p after : Progress n σ) (b : Branch n)
    (hrun : r.runBody visit provided polls p = (.ok b, after)) :
    r.cost b ≤ r.pausesOf visit - polls := by
  rcases runBody_ok hrun with ⟨rfl, hless, _⟩ | ⟨value, rfl, _⟩
  · simp only [cost]
    omega
  · simp [cost]

/-- Branches below an evaluation that all have a value leave only the code of the dependency
to be run. -/
theorem cost_of_gathered (visit : Visit n) (below : List (Branch n)) (p after : Progress n σ)
    (b : Branch n) (hrun : r.gathered visit below p = (.ok b, after)) :
    r.cost b ≤ r.pausesOf visit ∨
      (b = .gathering visit below ∧ after = p ∧ below.mapM Branch.value? = none) := by
  rcases gathered_ok hrun with ⟨values, _, hbody⟩ | ⟨hvalues, rfl, rfl⟩
  · exact Or.inl (cost_of_runBody _ _ _ _ _ _ hbody)
  · exact Or.inr ⟨rfl, rfl, hvalues⟩

theorem cost_of_pollEach {poll : Edge → Step n σ (Branch n)} (edges : List Edge)
    (hpoll : ∀ edge p b after, poll edge p = (.ok b, after) → r.cost b ≤ r.effort edge.node)
    (p after : Progress n σ) (branches : List (Branch n))
    (hrun : pollEach poll edges p = (.ok branches, after)) :
    r.costAll branches ≤ r.allowance edges := by
  induction edges generalizing p branches with
  | nil =>
      obtain ⟨rfl, _⟩ := pollEach_nil_ok hrun
      simp [costAll, allowance_nil]
  | cons edge rest ih =>
      obtain ⟨b, next, more, hfirst, hmore, rfl⟩ := pollEach_cons_ok hrun
      have hedge := hpoll edge _ _ _ hfirst
      have hrest := ih _ _ hmore
      rw [costAll, allowance_cons]
      omega

theorem cost_of_arrive {catalog : Catalog n σ} (harena : Arena catalog r.graph.nodes)
    (visit : Visit n) (hnode : r.graph.nodes[visit.index]? = some visit.node) (level : Nat)
    (start : Scopes → Edge → Step n σ (Branch n))
    (hstart : ∀ inherited edge p b after, start inherited edge p = (.ok b, after) →
      r.cost b ≤ r.effort edge.node)
    (p after : Progress n σ) (b : Branch n)
    (hrun : r.arrive level start visit p = (.ok b, after)) :
    r.cost b ≤ r.effort visit.index := by
  have heffort := r.effort_eq harena hnode
  have hevaluate (p : Progress n σ) (hrun : r.evaluate start visit p = (.ok b, after)) :
      r.cost b ≤ r.effort visit.index := by
    obtain ⟨below, next, hbegun, hgathered⟩ := evaluate_ok hrun
    have hbelow := cost_of_pollEach visit.node.edges (hstart visit.scopes) _ _ _ hbegun
    rw [heffort]
    rcases cost_of_gathered _ _ _ _ _ hgathered with hle | ⟨rfl, _, _⟩
    · simp only [pausesOf] at hle
      omega
    · simp only [cost, pausesOf]
      omega
  cases arrive_ok hrun with
  | uncached _ hrun => exact hevaluate p hrun
  | first _ _ hrun => exact hevaluate _ hrun
  | waits _ _ => exact Nat.le_refl _
  | recalls value _ _ _ => exact Nat.zero_le _

theorem cost_of_start {catalog : Catalog n σ} (harena : Arena catalog r.graph.nodes)
    (level : Nat) (inherited : Scopes) (edge : Edge) (p : Progress n σ) (b : Branch n)
    (after : Progress n σ) (hrun : r.start level inherited edge p = (.ok b, after)) :
    r.cost b ≤ r.effort edge.node := by
  induction level generalizing inherited edge p b after with
  | zero => cases hrun
  | succ level ih =>
      obtain ⟨node, credentials, hnode, _, harrive⟩ := start_ok hrun
      exact cost_of_arrive harena ⟨edge.node, node, _, credentials⟩ hnode level _ ih _ _ _ harrive

/-- Of a cached dependency that somebody else came to first, a branch takes the value or waits
on, without doing anything. -/
theorem cost_of_arrive_atGate (visit : Visit n) (level : Nat)
    (start : Scopes → Edge → Step n σ (Branch n)) (p after : Progress n σ) (b : Branch n)
    (hgate : r.AtGate p.cache visit) (hrun : r.arrive level start visit p = (.ok b, after)) :
    r.cost b = 0 ∨ (b = .waiting visit ∧ after = p ∧
      p.cache.gate visit.node.identity = .taken) := by
  obtain ⟨hcached, hengaged⟩ := hgate
  cases arrive_ok hrun with
  | uncached huncached _ =>
      rw [hcached] at huncached
      cases huncached
  | first _ hfree _ =>
      rcases hengaged with htaken | ⟨value, hfilled⟩
      · simp [htaken] at hfree
      · simp [hfilled] at hfree
  | waits _ htaken => exact Or.inr ⟨rfl, rfl, htaken⟩
  | recalls value _ _ _ => exact Or.inl rfl

/-- Branches that are not all resolved have something left to do. -/
theorem costAll_pos {catalog : Catalog n σ} (harena : Arena catalog r.graph.nodes)
    (branches : List (Branch n)) (inherited : Scopes) (edges : List Edge)
    (hcovers : r.CoversAll branches inherited edges)
    (hvalues : branches.mapM Branch.value? = none) : 0 < r.costAll branches := by
  induction branches generalizing edges with
  | nil => cases hvalues
  | cons b rest ih =>
      cases edges with
      | nil => cases hcovers
      | cons edge edges =>
          rw [costAll]
          cases b with
          | resolved value =>
              have hrest : rest.mapM Branch.value? = none := by
                cases hrest : rest.mapM Branch.value? with
                | none => rfl
                | some values => simp [Branch.value?, hrest] at hvalues
              exact Nat.add_pos_right _ (ih edges hcovers.2 hrest)
          | waiting visit =>
              rw [cost, r.effort_eq harena hcovers.1.stands]
              omega
          | _ =>
              rw [cost]
              omega

mutual

/-- A poll leaves less to do, or it does nothing at all because the branch is idle. -/
theorem cost_of_poll {catalog : Catalog n σ} (harena : Arena catalog r.graph.nodes)
    (b : Branch n) (inherited : Scopes) (edge : Edge) (hcovers : r.Covers b inherited edge)
    (p after : Progress n σ) (next : Branch n)
    (hwaits : ∀ visit ∈ awaited b, r.AtGate p.cache visit)
    (hrun : r.poll b p = (.ok next, after)) :
    r.cost next < r.cost b ∨ (next = b ∧ after = p ∧ Idle p.cache b) := by
  cases b with
  | resolved value =>
      simp only [poll] at hrun
      cases hrun
      exact Or.inr ⟨rfl, rfl, trivial⟩
  | waiting visit =>
      simp only [poll] at hrun
      have hgate := hwaits visit (by simp [awaited])
      rcases cost_of_arrive_atGate _ _ _ _ _ _ hgate hrun with hzero | ⟨rfl, rfl, htaken⟩
      · left
        rw [hzero, cost, r.effort_eq harena hcovers.stands]
        exact Nat.zero_lt_succ _
      · exact Or.inr ⟨rfl, rfl, htaken⟩
  | gathering visit below =>
      obtain ⟨more, last, hbelow, hgathered⟩ := poll_gathering_ok hrun
      have hmore := cost_of_pollAll harena below _ _ hcovers.2 _ _ _ hwaits hbelow
      rcases cost_of_gathered _ _ _ _ _ hgathered with hle | ⟨rfl, rfl, hvalues⟩
      · left
        rw [cost]
        omega
      · rcases hmore with hless | ⟨rfl, rfl, hidle⟩
        · left
          rw [cost, cost]
          omega
        · exact Or.inr ⟨rfl, rfl, hidle, hvalues⟩
  | running visit provided polls =>
      simp only [poll] at hrun
      have hle := cost_of_runBody _ _ _ _ _ _ hrun
      left
      rw [cost]
      omega

theorem cost_of_pollAll {catalog : Catalog n σ} (harena : Arena catalog r.graph.nodes)
    (branches : List (Branch n)) (inherited : Scopes) (edges : List Edge)
    (hcovers : r.CoversAll branches inherited edges) (p after : Progress n σ)
    (next : List (Branch n)) (hwaits : ∀ visit ∈ awaitedAll branches, r.AtGate p.cache visit)
    (hrun : r.pollAll branches p = (.ok next, after)) :
    r.costAll next < r.costAll branches ∨
      (next = branches ∧ after = p ∧ AllIdle p.cache branches) := by
  cases branches with
  | nil =>
      simp only [pollAll] at hrun
      cases hrun
      exact Or.inr ⟨rfl, rfl, trivial⟩
  | cons b rest =>
      cases edges with
      | nil => cases hcovers
      | cons edge edges =>
          obtain ⟨first, middle, others, hfirst, hrest, rfl⟩ := pollAll_cons_ok hrun
          have hwaitsFirst : ∀ visit ∈ awaited b, r.AtGate p.cache visit :=
            fun visit hvisit => hwaits visit (List.mem_append_left _ hvisit)
          -- The first poll may change gates, but none that the others wait at becomes free.
          have hwaitsRest : ∀ visit ∈ awaitedAll rest, r.AtGate middle.cache visit :=
            fun visit hvisit => (hwaits visit (List.mem_append_right _ hvisit)).later
              (moves_of_poll b _ _ _ hfirst)
          have hcostFirst := cost_of_poll harena b _ _ hcovers.1 _ _ _ hwaitsFirst hfirst
          have hcostRest := cost_of_pollAll harena rest _ _ hcovers.2 _ _ _ hwaitsRest hrest
          rw [costAll, costAll]
          rcases hcostFirst with hless | ⟨rfl, rfl, hidle⟩
          · rcases hcostRest with hless' | ⟨rfl, _, _⟩
            · left
              omega
            · left
              omega
          · rcases hcostRest with hless' | ⟨rfl, rfl, hidle'⟩
            · left
              omega
            · exact Or.inr ⟨rfl, rfl, hidle, hidle'⟩

end

end Resolver

end RequestDispatch
