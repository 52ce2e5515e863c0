import Mathlib.Data.Fintype.Card
import Mathlib.Data.List.Chain
import RequestDispatch.Proofs.Dependency.Declared
import RequestDispatch.Proofs.Dependency.Plans
import RequestDispatch.Proofs.Parameter.Declaration

/-!
Cycles of references. Only replacements can make dependencies require themselves. A builder that
follows references remembers the dependencies on the path to where it is; it comes to an end
because none of them is entered twice, and a reference back to one of them closes a cycle. So a
list of references is compiled only if no cycle can be reached from it, and a reported cycle is one.
-/

namespace RequestDispatch

variable {n : Nat} {σ : Type}

namespace Catalog

variable (catalog : Catalog n σ)

/-- The one dependency refers to the other, replacements considered. -/
def Leads (upper lower : Fin n) : Prop :=
  ∃ reference ∈ (catalog.dependency upper).references,
    catalog.effective reference.target = lower

/-- Some references lead to a dependency that requires itself. -/
def Cyclic (references : List (Reference n)) : Prop :=
  ∃ way loop last, catalog.Requires references way last ∧
    catalog.Requires (catalog.dependency last).references loop last

/-- The names of dependencies along a cycle that some references lead to. It begins and ends with
the same dependency, and each of the others is referred to by the one before it. -/
def NamesCycle (references : List (Reference n)) (names : List String) : Prop :=
  ∃ first middle, names = (first :: middle ++ [first]).map (fun i => (catalog.dependency i).name) ∧
    (first :: middle ++ [first]).IsChain catalog.Leads ∧
    ∃ way, catalog.Requires references way first

variable {catalog}

theorem Requires.append {references way more : List (Reference n)} {middle last : Fin n}
    (hway : catalog.Requires references way middle)
    (hmore : catalog.Requires (catalog.dependency middle).references more last) :
    catalog.Requires references (way ++ more) last := by
  induction hway with
  | here hreference => exact .further hreference hmore
  | further hreference _ ih => exact .further hreference (ih hmore)

/-- On a chain of dependencies, the first one requires all the others. -/
theorem requires_of_chain {first : Fin n} {rest : List (Fin n)}
    (hchain : (first :: rest).IsChain catalog.Leads) :
    ∀ last ∈ rest, ∃ way, catalog.Requires (catalog.dependency first).references way last := by
  induction rest generalizing first with
  | nil => simp
  | cons second rest ih =>
      rw [List.isChain_cons_cons] at hchain
      obtain ⟨⟨reference, hreference, hsecond⟩, hrest⟩ := hchain
      have hstep : catalog.Requires (catalog.dependency first).references [reference] second :=
        hsecond ▸ .here hreference
      intro last hlast
      rcases List.mem_cons.mp hlast with rfl | hlater
      · exact ⟨_, hstep⟩
      · obtain ⟨way, hway⟩ := ih hrest last hlater
        exact ⟨_, hstep.append hway⟩

theorem NamesCycle.cyclic {references : List (Reference n)} {names : List String}
    (hnames : catalog.NamesCycle references names) : catalog.Cyclic references := by
  obtain ⟨first, middle, _, hchain, way, hway⟩ := hnames
  obtain ⟨loop, hloop⟩ := requires_of_chain hchain first (by simp)
  exact ⟨way, loop, first, hway, hloop⟩

end Catalog

/-! ### Where there is a graph, there is no cycle -/

namespace Arena

variable {catalog : Catalog n σ} {graph : Graph n σ}

/-- A way down from edges that lead below some place ends below it. -/
theorem place_of_way (harena : Arena catalog graph.nodes) {edges way : List Edge} {last : Node n}
    (hway : graph.Way edges way last) {place : Nat} (hedges : ∀ edge ∈ edges, edge.node < place) :
    ∃ i < place, graph.nodes[i]? = some last := by
  induction hway generalizing place with
  | here hedge hnode => exact ⟨_, hedges _ hedge, hnode⟩
  | further hedge hnode _ ih =>
      have hplace := hedges _ hedge
      obtain ⟨i, hi, hlast⟩ := ih fun edge hbelow => (harena.edge_below hnode hbelow).1
      exact ⟨i, Nat.lt_trans hi hplace, hlast⟩

/-- References that edges of a graph follow lead to no cycle. -/
theorem not_cyclic (harena : Arena catalog graph.nodes) (hcatalog : graph.catalog = catalog)
    {edges : List Edge} {references : List (Reference n)}
    (hfollows : List.Forall₂ (Edge.Follows catalog graph.nodes) edges references) :
    ¬catalog.Cyclic references := by
  rintro ⟨line, loop, last, hline, hloop⟩
  obtain ⟨way, node, hway, rfl, _⟩ := harena.way_of_requires hcatalog hline hfollows
  have hplaces : ∀ edge ∈ edges, edge.node < graph.nodes.length := by
    intro edge hedge
    obtain ⟨reference, _, hfollow⟩ := exists_of_forall₂ hfollows hedge
    exact hfollow.lt_length
  obtain ⟨i, _, hnode⟩ := harena.place_of_way hway hplaces
  obtain ⟨back, again, hback, hsame, _⟩ :=
    harena.way_of_requires hcatalog hloop (harena.follows_all hnode)
  obtain ⟨j, hless, hagain⟩ :=
    harena.place_of_way hback fun edge hedge => (harena.edge_below hnode hedge).1
  have hplace := harena.index_unique hagain hnode hsame
  omega

end Arena

/-! ### What can go wrong while references are followed -/

/-- Nothing is wrong with the declaration of a dependency by itself: scopes are granted by a
provider, no parameter is declared twice, and every pattern and schema can be read. -/
structure Dependency.WellDeclared (dependency : Dependency n σ) : Prop where
  guarded : dependency.scopes = [] ∨ dependency.provider.isSome
  distinct : (dependency.parameters.map Parameter.site).Nodup
  readable : ∀ p ∈ dependency.parameters, p.Readable

namespace GraphBuilder

variable {catalog : Catalog n σ}

theorem compileDeclared_ok_iff (dependency : Dependency n σ) :
    (∃ parameters, compileDeclared dependency = .ok parameters) ↔ dependency.WellDeclared := by
  have hparameters :=
    Parameter.compileAll_ok_iff dependency.name dependency.parameters []
  unfold compileDeclared
  by_cases hguarded : dependency.scopes = [] ∨ dependency.provider.isSome
  · have hpermitted : (!dependency.scopes.isEmpty && dependency.provider.isNone) = false := by
      rcases hguarded with hscopes | hprovider
      · simp [hscopes]
      · simp [Option.isNone_eq_false_iff, hprovider]
    rw [hpermitted, if_neg (by simp), hparameters]
    constructor
    · rintro ⟨_, hdistinct, hreadable⟩
      exact ⟨hguarded, hdistinct, hreadable⟩
    · rintro ⟨_, hdistinct, hreadable⟩
      exact ⟨by simp, hdistinct, hreadable⟩
  · have hrefused : (!dependency.scopes.isEmpty && dependency.provider.isNone) = true := by
      simp only [not_or] at hguarded
      simpa using hguarded
    rw [hrefused, if_pos rfl]
    constructor
    · rintro ⟨_, ⟨⟩⟩
    · intro hdeclared
      exact absurd hdeclared.guarded hguarded

theorem compileDeclared_ne_cycle (dependency : Dependency n σ) (names : List String) :
    compileDeclared dependency ≠ .error (.dependencyCycle names) := by
  unfold compileDeclared
  split
  · rintro ⟨⟩
  · intro herror
    obtain ⟨p, _, hfault⟩ := Parameter.compileAll_error herror
    cases hfault

/-- The path that a builder has followed from some references: it begins with one of them, and
goes on to the dependency that comes next. -/
structure Trail (catalog : Catalog n σ) (references : List (Reference n)) (visiting : List (Fin n))
    (next : Fin n) : Prop where
  starts : ∃ reference ∈ references,
    (visiting ++ [next]).head? = some (catalog.effective reference.target)
  goesOn : (visiting ++ [next]).IsChain catalog.Leads

namespace Trail

variable {references : List (Reference n)} {visiting : List (Fin n)} {next : Fin n}

/-- A trail goes on along every reference of the dependency that it has come to. -/
theorem enter (htrail : Trail catalog references visiting next) {reference : Reference n}
    (hreference : reference ∈ (catalog.dependency next).references) :
    Trail catalog references (visiting ++ [next]) (catalog.effective reference.target) := by
  obtain ⟨first, hfirst, hhead⟩ := htrail.starts
  constructor
  · refine ⟨first, hfirst, ?_⟩
    rw [List.head?_append, hhead]
    rfl
  · rw [List.append_assoc, List.singleton_append, List.isChain_append_cons_cons]
    exact ⟨htrail.goesOn, ⟨reference, hreference, rfl⟩, List.isChain_singleton _⟩

/-- Every dependency on a trail is required where it begins. -/
theorem requires (htrail : Trail catalog references visiting next) :
    ∀ last ∈ visiting ++ [next], ∃ way, catalog.Requires references way last := by
  obtain ⟨reference, hreference, hhead⟩ := htrail.starts
  have hchain := htrail.goesOn
  cases htrack : visiting ++ [next] with
  | nil => simp at htrack
  | cons first rest =>
      rw [htrack] at hhead hchain
      have hfirst : catalog.Requires references [reference] first :=
        Option.some.inj hhead ▸ .here hreference
      intro last hlast
      rcases List.mem_cons.mp hlast with rfl | hlater
      · exact ⟨_, hfirst⟩
      · obtain ⟨way, hway⟩ := Catalog.requires_of_chain hchain last hlater
        exact ⟨_, hfirst.append hway⟩

/-- A trail that comes back to a dependency on it has closed a cycle. -/
theorem namesCycle (htrail : Trail catalog references visiting next) {b : GraphBuilder n}
    (hvisiting : b.visiting = visiting) {names : List String}
    (hnames : b.cycle? catalog next = some names) : catalog.NamesCycle references names := by
  rw [cycle?, Option.map_eq_some_iff] at hnames
  obtain ⟨start, hstart, rfl⟩ := hnames
  rw [List.idxOf?, List.findIdx?_eq_some_iff_getElem, hvisiting] at hstart
  obtain ⟨hless, hsame, _⟩ := hstart
  have hhere : visiting[start] = next := by simpa using hsame
  have hdrop : visiting.drop start = next :: visiting.drop (start + 1) := by
    rw [List.drop_eq_getElem_cons hless, hhere]
  refine ⟨next, visiting.drop (start + 1), ?_, ?_, htrail.requires next (by simp)⟩
  · rw [hvisiting, hdrop]
  · rw [← hdrop, ← List.drop_append_of_le_length (Nat.le_of_lt hless)]
    exact htrail.goesOn.drop start

end Trail

/-- What can be wrong where a list of references is compiled: they lead to a cycle, which is
named, or to a dependency that is not well declared. -/
inductive Fault (catalog : Catalog n σ) (references : List (Reference n)) :
    RegistrationError → Prop where
  | cycle {names : List String} (hnames : catalog.NamesCycle references names) :
      Fault catalog references (.dependencyCycle names)
  | declaration {way : List (Reference n)} {last : Fin n} {fault : RegistrationError}
      (hway : catalog.Requires references way last)
      (hfault : compileDeclared (catalog.dependency last) = .error fault) :
      Fault catalog references fault

/-- What goes wrong while references are followed one after another goes wrong at one of them,
when the builder has kept what it had. -/
theorem edges_error
    {follow : Fin n → GraphBuilder n → Except RegistrationError Nat × GraphBuilder n}
    (hfollow : ∀ declared b, b.Sound catalog → Finds catalog declared b (follow declared b))
    {references : List (Reference n)} {b : GraphBuilder n} (hsound : b.Sound catalog)
    {fault : RegistrationError} (herror : (edges follow references b).1 = .error fault) :
    ∃ reference ∈ references, ∃ before, Keeps catalog b before ∧
      (follow reference.target before).1 = .error fault := by
  induction references generalizing b with
  | nil => cases herror
  | cons reference rest ih =>
      have hkeeps := (hfollow reference.target b hsound).1
      simp only [edges] at herror
      split at herror
      · rename_i found next hfirst
        cases herror
        exact ⟨reference, List.mem_cons_self, b, Keeps.refl hsound, by rw [hfirst]⟩
      · rename_i i next hfirst
        rw [hfirst] at hkeeps
        split at herror
        · rename_i found last hrest
          cases herror
          obtain ⟨other, hother, before, hbefore, hfault⟩ := ih hkeeps.sound (by rw [hrest])
          exact ⟨other, List.mem_cons_of_mem _ hother, before, hkeeps.trans hbefore, hfault⟩
        · cases herror

/-- Two ways of following references that do the same with every builder that keeps what this one
has give the same edges. -/
theorem edges_congr
    {follow other : Fin n → GraphBuilder n → Except RegistrationError Nat × GraphBuilder n}
    (hfollow : ∀ declared b, b.Sound catalog → Finds catalog declared b (follow declared b))
    {references : List (Reference n)} {b : GraphBuilder n} (hsound : b.Sound catalog)
    (hsame : ∀ reference ∈ references, ∀ before, Keeps catalog b before →
      other reference.target before = follow reference.target before) :
    edges other references b = edges follow references b := by
  induction references generalizing b with
  | nil => rfl
  | cons reference rest ih =>
      have hkeeps := (hfollow reference.target b hsound).1
      have hfirst := hsame reference List.mem_cons_self b (Keeps.refl hsound)
      simp only [edges, hfirst]
      cases hresult : follow reference.target b with
      | mk result next =>
          rw [hresult] at hkeeps
          have hrest : edges other rest next = edges follow rest next :=
            ih hkeeps.sound fun later hlater before hbefore =>
              hsame later (List.mem_cons_of_mem _ hlater) before (hkeeps.trans hbefore)
          cases result with
          | error fault => rfl
          | ok i => simp only [hrest]

/-- A builder with steps left for every dependency that it does not follow yet. -/
structure Ready (catalog : Catalog n σ) (b : GraphBuilder n) (steps : Nat) : Prop where
  sound : b.Sound catalog
  distinct : b.visiting.Nodup
  enough : n < b.visiting.length + steps

namespace Ready

variable {b : GraphBuilder n} {steps : Nat}

/-- A step is left, because there are no more dependencies to be followed than there are. -/
theorem pos (hready : b.Ready catalog steps) : 0 < steps := by
  have hlength := hready.distinct.length_le_card
  have henough := hready.enough
  rw [Fintype.card_fin] at hlength
  omega

theorem keeps (hready : b.Ready catalog steps) {after : GraphBuilder n}
    (hkeeps : Keeps catalog b after) : after.Ready catalog steps :=
  ⟨hkeeps.sound, hkeeps.visiting ▸ hready.distinct, hkeeps.visiting ▸ hready.enough⟩

/-- Entering a dependency that has no node and is not being followed takes one step. -/
theorem enter (hready : b.Ready catalog (steps + 1)) {identity : Fin n}
    (hnode : b.index identity = none) (hcycle : b.cycle? catalog identity = none) :
    Ready catalog { b with visiting := b.visiting ++ [identity] } steps := by
  refine ⟨hready.sound.enter (hready.sound.indexed.not_mem hnode), ?_, ?_⟩
  · rw [List.nodup_append]
    refine ⟨hready.distinct, List.nodup_singleton _, ?_⟩
    intro first hfirst second hsecond hsame
    rw [List.mem_singleton.mp hsecond] at hsame
    exact not_mem_of_cycle?_none hcycle (hsame ▸ hfirst)
  · have henough := hready.enough
    rw [List.length_append, List.length_singleton]
    omega

end Ready

/-- The steps that are allowed are never used up: any greater number gives the same. -/
theorem intern_more (steps more : Nat) (declared : Fin n) (b : GraphBuilder n)
    (hready : b.Ready catalog steps) :
    intern catalog (steps + more) declared b = intern catalog steps declared b := by
  induction steps generalizing declared b with
  | zero => exact absurd hready.pos (Nat.lt_irrefl 0)
  | succ steps ih =>
      rw [Nat.add_right_comm]
      simp only [intern]
      cases hnode : b.index (catalog.effective declared) with
      | some i => rfl
      | none =>
          dsimp only
          cases hcycle : b.cycle? catalog (catalog.effective declared) with
          | some names => rfl
          | none =>
              dsimp only
              cases compileDeclared (catalog.dependency (catalog.effective declared)) with
              | error fault => rfl
              | ok parameters =>
                  have hbelow := hready.enter hnode hcycle
                  rw [edges_congr (intern_finds catalog steps) hbelow.sound]
                  intro reference _ before hbefore
                  exact ih reference.target before (hbelow.keeps hbefore)

/-- What goes wrong while a builder follows a trail is a cycle that the trail closes, or a
dependency that it leads to. -/
theorem intern_error {references : List (Reference n)} (steps : Nat) (declared : Fin n)
    (b : GraphBuilder n) (hready : b.Ready catalog steps)
    (htrail : Trail catalog references b.visiting (catalog.effective declared))
    {fault : RegistrationError} (herror : (intern catalog steps declared b).1 = .error fault) :
    Fault catalog references fault := by
  induction steps generalizing declared b with
  -- Steps do not run out, because no dependency is on the path twice.
  | zero => exact absurd hready.pos (Nat.lt_irrefl 0)
  | succ steps ih =>
      simp only [intern] at herror
      cases hnode : b.index (catalog.effective declared) with
      | some i => simp [hnode] at herror
      | none =>
          simp only [hnode] at herror
          cases hcycle : b.cycle? catalog (catalog.effective declared) with
          | some names =>
              simp only [hcycle] at herror
              cases herror
              exact .cycle (htrail.namesCycle rfl hcycle)
          | none =>
              simp only [hcycle] at herror
              have hbelow := hready.enter hnode hcycle
              obtain ⟨way, hway⟩ := htrail.requires (catalog.effective declared) (by simp)
              split at herror
              · rename_i found hdeclared
                cases herror
                exact .declaration hway hdeclared
              · split at herror
                · rename_i found hfollowed
                  cases herror
                  obtain ⟨reference, hreference, before, hbefore, hfault⟩ :=
                    edges_error (intern_finds catalog steps) hbelow.sound hfollowed
                  refine ih reference.target before (hbelow.keeps hbefore) ?_ hfault
                  rw [hbefore.visiting]
                  exact htrail.enter hreference
                · cases herror

/-- Between two routes a builder has all its steps. -/
theorem ready_planEach (catalog : Catalog n σ) (groups : List (List (Reference n))) :
    (planEach catalog groups .empty).2.Ready catalog (n + 1) := by
  have hkeeps := planEach_keeps catalog groups _ (sound_empty catalog)
  refine ⟨hkeeps.sound, ?_, ?_⟩
  · rw [hkeeps.visiting]
    exact List.nodup_nil
  · omega

/-- What is wrong where a route is not compiled. -/
theorem plan_error {groups : List (List (Reference n))} {references : List (Reference n)}
    {fault : RegistrationError}
    (herror : ((planEach catalog groups .empty).2.plan catalog references).1 = .error fault) :
    Fault catalog references fault := by
  have hready := ready_planEach catalog groups
  have hvisiting := (planEach_keeps catalog groups _ (sound_empty catalog)).visiting
  have hedges : (edges (intern catalog (n + 1)) references
      (planEach catalog groups .empty).2).1 = .error fault := by
    simp only [plan] at herror
    split at herror
    · rename_i found after hedges
      cases herror
      rw [hedges]
    · cases herror
  obtain ⟨reference, hreference, before, hbefore, hfault⟩ :=
    edges_error (intern_finds catalog (n + 1)) hready.sound hedges
  refine intern_error (n + 1) reference.target before (hready.keeps hbefore) ?_ hfault
  rw [hbefore.visiting, hvisiting]
  exact ⟨⟨reference, hreference, rfl⟩, List.isChain_singleton _⟩

/-- Cycles are found exactly. Compiling a list of references comes to an end, whatever routes were
compiled before: neither following the references nor walking the nodes uses up the steps that it
is allowed. When a plan comes out, no cycle can be reached. When one can be reached, an error
comes out, and that is a cycle if every dependency that can be reached is well declared. And the
names that are reported as a cycle are those along a cycle of references. -/
theorem plan_detects_cycles (catalog : Catalog n σ) (before : List (List (Reference n)))
    (references : List (Reference n)) :
    let b : GraphBuilder n := (planEach catalog before .empty).2
    (∀ more, edges (intern catalog (n + 1 + more)) references b =
      edges (intern catalog (n + 1)) references b) ∧
    (∀ plan, (b.plan catalog references).1 = .ok plan →
      Walks (b.plan catalog references).2.nodes (plan.roots.map (·.node)) [] plan.reachable ∧
        ¬catalog.Cyclic references) ∧
    (catalog.Cyclic references → ∃ fault, (b.plan catalog references).1 = .error fault ∧
      ((∀ way last, catalog.Requires references way last →
        (catalog.dependency last).WellDeclared) → ∃ names, fault = .dependencyCycle names)) ∧
    ∀ names, (b.plan catalog references).1 = .error (.dependencyCycle names) →
      catalog.NamesCycle references names := by
  intro b
  have hready : b.Ready catalog (n + 1) := ready_planEach catalog before
  have hacyclic : ∀ plan, (b.plan catalog references).1 = .ok plan →
      ¬catalog.Cyclic references := by
    intro plan hplan
    obtain ⟨hkeeps, hfollows⟩ := plan_follows catalog references b hready.sound
    let graph : Graph n σ := ⟨catalog, (b.plan catalog references).2.nodes⟩
    have harena : Arena catalog graph.nodes := hkeeps.sound.arena
    exact harena.not_cyclic rfl (hfollows plan hplan)
  refine ⟨?_, ?_, ?_, ?_⟩
  · intro more
    apply edges_congr (intern_finds catalog (n + 1)) hready.sound
    intro reference _ before hbefore
    exact intern_more (n + 1) more reference.target before (hready.keeps hbefore)
  · intro plan hplan
    exact ⟨walks_of_plan hplan, hacyclic plan hplan⟩
  · intro hcyclic
    cases hresult : (b.plan catalog references).1 with
    | ok plan => exact absurd hcyclic (hacyclic plan hresult)
    | error fault =>
        refine ⟨fault, rfl, ?_⟩
        intro hdeclared
        cases plan_error hresult with
        | cycle _ => exact ⟨_, rfl⟩
        | declaration hway hfault =>
            obtain ⟨parameters, hok⟩ := (compileDeclared_ok_iff _).mpr (hdeclared _ _ hway)
            rw [hok] at hfault
            cases hfault
  · intro names herror
    cases plan_error herror with
    | cycle hnames => exact hnames
    | declaration _ hfault => exact absurd hfault (compileDeclared_ne_cycle _ names)

/-- An audit requires a session, and a profile requires the audit. -/
def auditCatalog (overrides : List (Fin 3 × Fin 3)) : Catalog 3 Unit where
  dependency
    | 0 => plainDependency "session" [] []
    | 1 => plainDependency "audit" [⟨"session", 0, []⟩] []
    | 2 => plainDependency "profile" [⟨"audit", 1, ["read"]⟩] []
  overrides := overrides

/-- There is a cycle as soon as the profile stands in for the session, and it is found from the
audit. -/
theorem plan_detects_cycles_sample :
    ¬(auditCatalog []).Cyclic [⟨"audit", 1, []⟩] ∧
      (auditCatalog [(0, 2)]).Cyclic [⟨"audit", 1, []⟩] ∧
      ∃ names, (plan (auditCatalog [(0, 2)]) [⟨"audit", 1, []⟩] .empty).1 =
        .error (.dependencyCycle names) := by
  obtain ⟨_, hwithout, _, _⟩ :=
    plan_detects_cycles (auditCatalog []) [] [⟨"audit", 1, []⟩]
  obtain ⟨_, _, hfound, hnamed⟩ :=
    plan_detects_cycles (auditCatalog [(0, 2)]) [] [⟨"audit", 1, []⟩]
  have hcyclic : (auditCatalog [(0, 2)]).Cyclic [⟨"audit", 1, []⟩] :=
    (hnamed ["audit", "profile", "audit"] rfl).cyclic
  have hdeclared (i : Fin 3) : ((auditCatalog [(0, 2)]).dependency i).WellDeclared := by
    match i with
    | 0 | 1 | 2 => exact ⟨Or.inl rfl, List.nodup_nil, by rintro p ⟨⟩⟩
  obtain ⟨fault, herror, hcycle⟩ := hfound hcyclic
  obtain ⟨names, rfl⟩ := hcycle fun _ last _ => hdeclared last
  exact ⟨(hwithout _ rfl).2, hcyclic, names, herror⟩

end GraphBuilder

end RequestDispatch
