import RequestDispatch.Proofs.Dependency.Gates
import RequestDispatch.Proofs.Dependency.Recording

/-!
Where values come from. Every value that is handed to code, kept in a cache or returned at the
end is one with which code of its dependency has ended before. A log shows that: in front of the
event that code begins stand the events that produced what the code was given.
-/

namespace RequestDispatch

variable {n : Nat} {σ : Type}

namespace Graph

variable (graph : Graph n σ) (log : List (Event n))

/-- The code of the dependency that an edge leads to has ended with a value. -/
def Produces (edge : Edge) (value : Provided) : Prop :=
  ∃ node, graph.nodes[edge.node]? = some node ∧ .ended node.identity value ∈ log

/-- Provisions consist of one value for each edge, under its name, that was produced before. -/
def Supplies (edges : List Edge) (provided : Provisions) : Prop :=
  ∃ values, provided = (edges.map (·.name)).zip values ∧
    List.Forall₂ (graph.Produces log) edges values

/-- Code begins when everything that its node refers to was produced, with those values. -/
def Ordered : Prop :=
  ∀ before identity input after, log = before ++ .began identity input :: after →
    ∃ node ∈ graph.nodes, node.identity = identity ∧
      graph.Supplies before node.edges input.provided

variable {graph} {log}

theorem Produces.mono {more : List (Event n)} {edge : Edge} {value : Provided}
    (hproduces : graph.Produces log edge value) (hmore : log <+: more) :
    graph.Produces more edge value := by
  obtain ⟨node, hnode, hended⟩ := hproduces
  exact ⟨node, hnode, hmore.subset hended⟩

theorem ordered_nil : graph.Ordered [] := by
  intro before identity input after hlog
  simp at hlog

private theorem splitLast {event added : Event n} {before after : List (Event n)}
    (hlog : log ++ [added] = before ++ event :: after) :
    (before = log ∧ event = added) ∨ ∃ rest, log = before ++ event :: rest := by
  rcases List.eq_nil_or_concat after with rfl | ⟨rest, last, rfl⟩
  · obtain ⟨hbefore, hevent⟩ := List.append_inj' hlog rfl
    exact Or.inl ⟨hbefore.symm, (List.singleton_inj.mp hevent).symm⟩
  · rw [List.concat_eq_append, ← List.cons_append, ← List.append_assoc] at hlog
    exact Or.inr ⟨rest, (List.append_inj' hlog rfl).1⟩

theorem Ordered.began (hordered : graph.Ordered log) {node : Node n} (hnode : node ∈ graph.nodes)
    {input : DependencyInput} (hsupplies : graph.Supplies log node.edges input.provided) :
    graph.Ordered (log ++ [.began node.identity input]) := by
  intro before identity other after hlog
  rcases splitLast hlog with ⟨rfl, hevent⟩ | ⟨rest, hrest⟩
  · cases hevent
    exact ⟨node, hnode, rfl, hsupplies⟩
  · exact hordered before identity other rest hrest

theorem Ordered.ended (hordered : graph.Ordered log) (identity : Fin n) (value : Provided) :
    graph.Ordered (log ++ [.ended identity value]) := by
  intro before other input after hlog
  rcases splitLast hlog with ⟨_, hevent⟩ | ⟨rest, hrest⟩
  · cases hevent
  · exact hordered before other input rest hrest

end Graph

namespace Resolver

variable (r : Resolver n σ)

/-- The values in the cache were produced, and so was everything that code was given. -/
structure Consistent (log : Effects σ → List (Event n)) (p : Progress n σ) : Prop where
  recalled : ∀ i value, p.cache.gate i = .filled value → .ended i value ∈ log p.effects
  ordered : r.graph.Ordered (log p.effects)

/-- What a step does to the log. -/
structure Continues (log : Effects σ → List (Event n)) (p q : Progress n σ) : Prop where
  longer : log p.effects <+: log q.effects
  consistent : r.Consistent log q

mutual

/-- A branch that belongs to an edge. Its value, if it has one, was produced. -/
def Delivers (log : List (Event n)) : Branch n → Edge → Prop
  | .resolved value, edge => r.graph.Produces log edge value
  | .waiting visit, edge => r.graph.nodes[edge.node]? = some visit.node
  | .gathering visit below, edge =>
      r.graph.nodes[edge.node]? = some visit.node ∧ DeliversAll log below visit.node.edges
  | .running visit _ polls, edge =>
      r.graph.nodes[edge.node]? = some visit.node ∧ 0 < polls ∧ polls ≤ r.pausesOf visit

def DeliversAll (log : List (Event n)) : List (Branch n) → List Edge → Prop
  | [], [] => True
  | b :: rest, edge :: edges => Delivers log b edge ∧ DeliversAll log rest edges
  | _, _ => False

end

variable {r}

mutual

theorem Delivers.mono {log more : List (Event n)} (hmore : log <+: more) (b : Branch n)
    (edge : Edge) (hdelivers : r.Delivers log b edge) : r.Delivers more b edge := by
  cases b with
  | resolved value => exact Graph.Produces.mono hdelivers hmore
  | waiting visit => exact hdelivers
  | gathering visit below => exact ⟨hdelivers.1, DeliversAll.mono hmore below _ hdelivers.2⟩
  | running visit provided polls => exact hdelivers

theorem DeliversAll.mono {log more : List (Event n)} (hmore : log <+: more)
    (branches : List (Branch n)) (edges : List Edge)
    (hdelivers : r.DeliversAll log branches edges) : r.DeliversAll more branches edges := by
  cases branches with
  | nil => cases edges <;> exact hdelivers
  | cons b rest =>
      cases edges with
      | nil => exact hdelivers
      | cons edge edges =>
          exact ⟨Delivers.mono hmore b edge hdelivers.1,
            DeliversAll.mono hmore rest edges hdelivers.2⟩

end

/-- The values of branches that all have one were produced. -/
theorem produces_of_values {log : List (Event n)} {branches : List (Branch n)} {edges : List Edge}
    {values : List Provided} (hdelivers : r.DeliversAll log branches edges)
    (hvalues : branches.mapM Branch.value? = some values) :
    List.Forall₂ (r.graph.Produces log) edges values := by
  obtain rfl := values_eq_some_iff.mp hvalues
  clear hvalues
  induction values generalizing edges with
  | nil =>
      cases edges with
      | nil => exact .nil
      | cons edge rest => cases hdelivers
  | cons value rest ih =>
      cases edges with
      | nil => cases hdelivers
      | cons edge edges => exact .cons hdelivers.1 (ih hdelivers.2)

variable {log : Effects σ → List (Event n)}

theorem Continues.refl {p : Progress n σ} (hconsistent : r.Consistent log p) :
    r.Continues log p p :=
  ⟨List.prefix_rfl, hconsistent⟩

theorem Continues.trans {p q s : Progress n σ} (hfirst : r.Continues log p q)
    (hsecond : r.Continues log q s) : r.Continues log p s :=
  ⟨hfirst.longer.trans hsecond.longer, hsecond.consistent⟩

/-- Values that were produced before have been produced after a step that fills no gate. -/
theorem Continues.unfilled {p q : Progress n σ} (hconsistent : r.Consistent log p)
    (hlonger : log p.effects <+: log q.effects) (hordered : r.graph.Ordered (log q.effects))
    (hunfilled : ∀ i value, q.cache.gate i = .filled value → p.cache.gate i = .filled value) :
    r.Continues log p q := by
  refine ⟨hlonger, ?_, hordered⟩
  intro i value hfilled
  exact hlonger.subset (hconsistent.recalled i value (hunfilled i value hfilled))

/-- A value goes into the cache when it was produced. -/
theorem Continues.kept {p q : Progress n σ} (hconsistent : r.Consistent log p)
    (hlonger : log p.effects <+: log q.effects) (hordered : r.graph.Ordered (log q.effects))
    {visit : Visit n} {value : Provided} (hcache : q.cache = r.keep visit value p.cache)
    (hended : .ended visit.node.identity value ∈ log q.effects) : r.Continues log p q := by
  refine ⟨hlonger, ?_, hordered⟩
  intro i found hfilled
  have hold (hfilled : p.cache.gate i = .filled found) : .ended i found ∈ log q.effects :=
    hlonger.subset (hconsistent.recalled i found hfilled)
  rw [hcache, Resolver.keep] at hfilled
  split at hfilled
  · by_cases hsame : i = visit.node.identity
    · subst hsame
      rw [Cache.gate_set_self] at hfilled
      cases hfilled
      exact hended
    · rw [Cache.gate_set_of_ne _ hsame] at hfilled
      exact hold hfilled
  · exact hold hfilled

theorem delivers_of_runBody (hlogs : r.Logs log) {edge : Edge} {visit : Visit n}
    (hnode : r.graph.nodes[edge.node]? = some visit.node) {provided : Provisions} {polls : Nat}
    {p after : Progress n σ} {b : Branch n} (hconsistent : r.Consistent log p)
    (hpolls : polls = 0 ∧ r.graph.Supplies (log p.effects) visit.node.edges provided ∨
      0 < polls ∧ polls ≤ r.pausesOf visit)
    (hrun : r.runBody visit provided polls p = (.ok b, after)) :
    r.Continues log p after ∧ r.Delivers (log after.effects) b edge := by
  obtain ⟨begun, hfirst, hlater, hends⟩ := hlogs.runBody hrun
  have hordered : r.graph.Ordered (log p.effects ++ begun) := by
    rcases hpolls with ⟨hzero, hsupplies⟩ | ⟨hpositive, hpauses⟩
    · rw [hfirst hzero]
      exact hconsistent.ordered.began (List.mem_of_getElem? hnode) hsupplies
    · rw [hlater hpositive hpauses, List.append_nil]
      exact hconsistent.ordered
  rcases hends with ⟨rfl, hless, hcache, hlog⟩ | ⟨value, rfl, hcache, hlog⟩
  · have hlonger : log p.effects <+: log after.effects := hlog ▸ List.prefix_append _ _
    have hcontinues : r.Continues log p after :=
      .unfilled hconsistent hlonger (hlog ▸ hordered) fun _ _ hfilled => hcache ▸ hfilled
    exact ⟨hcontinues, hnode, Nat.succ_pos _, hless⟩
  · have hlonger : log p.effects <+: log after.effects := hlog ▸ List.prefix_append _ _
    have hended : .ended visit.node.identity value ∈ log after.effects := by simp [hlog]
    have hafter : r.graph.Ordered (log after.effects) := by
      rw [hlog, ← List.append_assoc]
      exact hordered.ended _ _
    exact ⟨.kept hconsistent hlonger hafter hcache hended, visit.node, hnode, hended⟩

theorem delivers_of_gathered (hlogs : r.Logs log) {edge : Edge} {visit : Visit n}
    (hnode : r.graph.nodes[edge.node]? = some visit.node) {below : List (Branch n)}
    {p after : Progress n σ} {b : Branch n} (hconsistent : r.Consistent log p)
    (hbelow : r.DeliversAll (log p.effects) below visit.node.edges)
    (hrun : r.gathered visit below p = (.ok b, after)) :
    r.Continues log p after ∧ r.Delivers (log after.effects) b edge := by
  rcases gathered_ok hrun with ⟨values, hvalues, hbody⟩ | ⟨_, rfl, rfl⟩
  · exact delivers_of_runBody hlogs hnode hconsistent
      (Or.inl ⟨rfl, values, rfl, produces_of_values hbelow hvalues⟩) hbody
  · exact ⟨.refl hconsistent, hnode, hbelow⟩

theorem delivers_of_pollEach {poll : Edge → Step n σ (Branch n)}
    (hpoll : ∀ edge p b after, r.Consistent log p → poll edge p = (.ok b, after) →
      r.Continues log p after ∧ r.Delivers (log after.effects) b edge)
    (edges : List Edge) (p after : Progress n σ) (branches : List (Branch n))
    (hconsistent : r.Consistent log p) (hrun : pollEach poll edges p = (.ok branches, after)) :
    r.Continues log p after ∧ r.DeliversAll (log after.effects) branches edges := by
  induction edges generalizing p branches with
  | nil =>
      obtain ⟨rfl, rfl⟩ := pollEach_nil_ok hrun
      exact ⟨.refl hconsistent, trivial⟩
  | cons edge rest ih =>
      obtain ⟨b, next, more, hfirst, hmore, rfl⟩ := pollEach_cons_ok hrun
      obtain ⟨hcontinues, hb⟩ := hpoll _ _ _ _ hconsistent hfirst
      obtain ⟨hcontinues', hrest⟩ := ih next more hcontinues.consistent hmore
      exact ⟨hcontinues.trans hcontinues', hb.mono hcontinues'.longer, hrest⟩

theorem delivers_of_arrive (hlogs : r.Logs log) (level : Nat)
    {start : Scopes → Edge → Step n σ (Branch n)}
    (hstart : ∀ inherited edge p b after, r.Consistent log p →
      start inherited edge p = (.ok b, after) →
        r.Continues log p after ∧ r.Delivers (log after.effects) b edge)
    {edge : Edge} {visit : Visit n} (hnode : r.graph.nodes[edge.node]? = some visit.node)
    {p after : Progress n σ} {b : Branch n} (hconsistent : r.Consistent log p)
    (hrun : r.arrive level start visit p = (.ok b, after)) :
    r.Continues log p after ∧ r.Delivers (log after.effects) b edge := by
  have hevaluate (q : Progress n σ) (hconsistent : r.Consistent log q)
      (hrun : r.evaluate start visit q = (.ok b, after)) :
      r.Continues log q after ∧ r.Delivers (log after.effects) b edge := by
    obtain ⟨below, next, hbegun, hgathered⟩ := evaluate_ok hrun
    obtain ⟨hcontinues, hbelow⟩ :=
      delivers_of_pollEach (hstart visit.scopes) _ _ _ _ hconsistent hbegun
    obtain ⟨hcontinues', hb⟩ :=
      delivers_of_gathered hlogs hnode hcontinues.consistent hbelow hgathered
    exact ⟨hcontinues.trans hcontinues', hb⟩
  cases arrive_ok hrun with
  | uncached _ hrun => exact hevaluate p hconsistent hrun
  | first _ _ hrun =>
      have htaken : r.Continues log p
          { p with cache := p.cache.set visit.node.identity .taken } := by
        refine Continues.unfilled hconsistent ?_ hconsistent.ordered ?_
        · exact List.prefix_rfl
        · intro i found hfilled
          by_cases hsame : i = visit.node.identity
          · subst hsame
            rw [Cache.gate_set_self] at hfilled
            cases hfilled
          · rwa [Cache.gate_set_of_ne _ hsame] at hfilled
      obtain ⟨hcontinues, hb⟩ := hevaluate _ htaken.consistent hrun
      exact ⟨htaken.trans hcontinues, hb⟩
  | waits _ _ => exact ⟨.refl hconsistent, hnode⟩
  | recalls value _ hfilled _ =>
      exact ⟨.refl hconsistent, visit.node, hnode, hconsistent.recalled _ value hfilled⟩

theorem delivers_of_start (hlogs : r.Logs log) (level : Nat) (inherited : Scopes) (edge : Edge)
    (p : Progress n σ) (b : Branch n) (after : Progress n σ) (hconsistent : r.Consistent log p)
    (hrun : r.start level inherited edge p = (.ok b, after)) :
    r.Continues log p after ∧ r.Delivers (log after.effects) b edge := by
  induction level generalizing inherited edge p b after with
  | zero => cases hrun
  | succ level ih =>
      obtain ⟨node, credentials, hnode, _, harrive⟩ := start_ok hrun
      exact delivers_of_arrive hlogs level ih hnode hconsistent harrive

mutual

/-- A branch that is polled keeps to its edge. -/
theorem delivers_of_poll (hlogs : r.Logs log) (b : Branch n) (edge : Edge) (p : Progress n σ)
    (hconsistent : r.Consistent log p) (hdelivers : r.Delivers (log p.effects) b edge)
    (next : Branch n) (after : Progress n σ) (hrun : r.poll b p = (.ok next, after)) :
    r.Continues log p after ∧ r.Delivers (log after.effects) next edge := by
  cases b with
  | resolved value =>
      simp only [poll] at hrun
      cases hrun
      exact ⟨.refl hconsistent, hdelivers⟩
  | waiting visit =>
      simp only [poll] at hrun
      exact delivers_of_arrive hlogs _ (delivers_of_start hlogs _) hdelivers hconsistent hrun
  | gathering visit below =>
      obtain ⟨more, last, hbelow, hgathered⟩ := poll_gathering_ok hrun
      obtain ⟨hcontinues, hmore⟩ :=
        delivers_of_pollAll hlogs below _ p hconsistent hdelivers.2 more last hbelow
      obtain ⟨hcontinues', hnext⟩ :=
        delivers_of_gathered hlogs hdelivers.1 hcontinues.consistent hmore hgathered
      exact ⟨hcontinues.trans hcontinues', hnext⟩
  | running visit provided polls =>
      simp only [poll] at hrun
      exact delivers_of_runBody hlogs hdelivers.1 hconsistent (Or.inr hdelivers.2) hrun

theorem delivers_of_pollAll (hlogs : r.Logs log) (branches : List (Branch n))
    (edges : List Edge) (p : Progress n σ) (hconsistent : r.Consistent log p)
    (hdelivers : r.DeliversAll (log p.effects) branches edges) (next : List (Branch n))
    (after : Progress n σ) (hrun : r.pollAll branches p = (.ok next, after)) :
    r.Continues log p after ∧ r.DeliversAll (log after.effects) next edges := by
  cases branches with
  | nil =>
      simp only [pollAll] at hrun
      cases hrun
      exact ⟨.refl hconsistent, hdelivers⟩
  | cons b rest =>
      cases edges with
      | nil => cases hdelivers
      | cons edge edges =>
          obtain ⟨first, middle, others, hfirst, hrest, rfl⟩ := pollAll_cons_ok hrun
          obtain ⟨hcontinues, hb⟩ :=
            delivers_of_poll hlogs b edge p hconsistent hdelivers.1 first middle hfirst
          have hlater : r.DeliversAll (log middle.effects) rest edges :=
            DeliversAll.mono hcontinues.longer rest edges hdelivers.2
          obtain ⟨hcontinues', hothers⟩ :=
            delivers_of_pollAll hlogs rest edges middle hcontinues.consistent hlater others
              after hrest
          exact ⟨hcontinues.trans hcontinues',
            Delivers.mono hcontinues'.longer first edge hb, hothers⟩

end

theorem produces_of_finish (hlogs : r.Logs log) (rounds : Nat) (branches : List (Branch n))
    (edges : List Edge) (p after : Progress n σ) (hconsistent : r.Consistent log p)
    (hdelivers : r.DeliversAll (log p.effects) branches edges) (values : List Provided)
    (hrun : r.finish rounds branches p = (.ok values, after)) :
    r.Consistent log after ∧ List.Forall₂ (r.graph.Produces (log after.effects)) edges values := by
  induction rounds generalizing branches p with
  | zero =>
      rcases finish_ok hrun with ⟨hvalues, rfl⟩ | ⟨_, _, _, hrounds, _⟩
      · exact ⟨hconsistent, produces_of_values hdelivers hvalues⟩
      · cases hrounds
  | succ rounds ih =>
      rcases finish_ok hrun with ⟨hvalues, rfl⟩ | ⟨left, next, middle, hrounds, hround, hrest⟩
      · exact ⟨hconsistent, produces_of_values hdelivers hvalues⟩
      · cases hrounds
        obtain ⟨hcontinues, hnext⟩ :=
          delivers_of_pollAll hlogs branches edges p hconsistent hdelivers next middle hround
        exact ih next middle hcontinues.consistent hnext hrest

/-- A resolution that succeeds returns values that were produced, and all code was given such
values. -/
theorem supplies_of_resolve (hlogs : r.Logs log) {plan : Plan} {p after : Progress n σ}
    {provisions : Provisions} (hconsistent : r.Consistent log p)
    (hrun : r.resolve plan p = (.ok provisions, after)) :
    r.Consistent log after ∧ r.graph.Supplies (log after.effects) plan.roots provisions := by
  obtain ⟨branches, next, values, hbegun, hfinish⟩ := resolve_ok hrun
  obtain ⟨hcontinues, hbranches⟩ :=
    delivers_of_pollEach (delivers_of_start hlogs r.top []) _ _ _ _ hconsistent hbegun
  obtain ⟨hafter, hvalues⟩ :=
    produces_of_finish hlogs _ branches plan.roots next after hcontinues.consistent hbranches
      values hfinish
  have hprovisions : provisions = (plan.roots.map (·.name)).zip values := by
    simp only [resolve, followAll, hbegun, hfinish] at hrun
    cases hrun
    rfl
  exact ⟨hafter, values, hprovisions, hvalues⟩

end Resolver

end RequestDispatch
