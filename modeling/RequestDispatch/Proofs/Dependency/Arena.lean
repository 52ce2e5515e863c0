import Mathlib.Data.List.Basic
import Mathlib.Data.List.Forall2
import Mathlib.Data.List.Nodup
import RequestDispatch.Dependency.Graph

/-!
The nodes that a builder collects. They form an arena: no dependency has two nodes, and the
edges of a node follow the references of its dependency one by one, each to a node further to
the front. Every operation of a builder keeps that, whether it succeeds or fails, because all
routes share the nodes that are there when something goes wrong.
-/

namespace RequestDispatch

variable {n : Nat} {σ : Type}

/-- An edge follows a reference: it has its name and scopes and leads to the node of the
dependency that stands in for its target. -/
structure Edge.Follows (catalog : Catalog n σ) (nodes : List (Node n)) (edge : Edge)
    (reference : Reference n) : Prop where
  name : edge.name = reference.name
  scopes : edge.scopes = reference.scopes
  target : ∃ node, nodes[edge.node]? = some node ∧
    node.identity = catalog.effective reference.target

/-- Of two lists that are related one by one, each member of the first has its partner. -/
theorem exists_of_forall₂ {α β : Type} {related : α → β → Prop} {items : List α}
    {others : List β} (hrelated : List.Forall₂ related items others) {a : α} (ha : a ∈ items) :
    ∃ b ∈ others, related a b := by
  induction hrelated with
  | nil => cases ha
  | cons hfirst _ ih =>
      rcases List.mem_cons.mp ha with rfl | hrest
      · exact ⟨_, by simp, hfirst⟩
      · obtain ⟨b, hb, hlater⟩ := ih hrest
        exact ⟨b, by simp [hb], hlater⟩

private theorem getOfPrefix {α : Type} {items more : List α} (hmore : items <+: more) {i : Nat}
    {a : α} (ha : items[i]? = some a) : more[i]? = some a := by
  obtain ⟨rest, rfl⟩ := hmore
  rw [List.getElem?_append_left (List.getElem?_eq_some_iff.mp ha).1]
  exact ha

theorem Edge.Follows.mono {catalog : Catalog n σ} {nodes more : List (Node n)} {edge : Edge}
    {reference : Reference n} (hfollows : edge.Follows catalog nodes reference)
    (hmore : nodes <+: more) : edge.Follows catalog more reference := by
  obtain ⟨node, hnode, hidentity⟩ := hfollows.target
  exact ⟨hfollows.name, hfollows.scopes, node, getOfPrefix hmore hnode, hidentity⟩

/-- Nodes in an order in which all edges lead to the front. -/
structure Arena (catalog : Catalog n σ) (nodes : List (Node n)) : Prop where
  distinct : (nodes.map (·.identity)).Nodup
  follows : ∀ i node, nodes[i]? = some node →
    List.Forall₂ (Edge.Follows catalog (nodes.take i)) node.edges
      (catalog.dependency node.identity).references

namespace Arena

variable {catalog : Catalog n σ} {nodes : List (Node n)}

theorem empty : Arena catalog ([] : List (Node n)) :=
  ⟨List.nodup_nil, by simp⟩

/-- Every edge of a node leads to a node before it. -/
theorem edge_below (harena : Arena catalog nodes) {i : Nat} {node : Node n}
    (hnode : nodes[i]? = some node) {edge : Edge} (hedge : edge ∈ node.edges) :
    edge.node < i ∧ ∃ target, nodes[edge.node]? = some target := by
  obtain ⟨reference, _, hfollow⟩ := exists_of_forall₂ (harena.follows i node hnode) hedge
  obtain ⟨target, htarget, _⟩ := hfollow.target
  rw [List.getElem?_take] at htarget
  split at htarget
  · rename_i hless
    exact ⟨hless, target, htarget⟩
  · cases htarget

/-- A dependency has at most one node. -/
theorem index_unique (harena : Arena catalog nodes) {i j : Nat} {first second : Node n}
    (hfirst : nodes[i]? = some first) (hsecond : nodes[j]? = some second)
    (hsame : first.identity = second.identity) : i = j := by
  obtain ⟨hi, rfl⟩ := List.getElem?_eq_some_iff.mp hfirst
  obtain ⟨hj, rfl⟩ := List.getElem?_eq_some_iff.mp hsecond
  have hsameIndex := (harena.distinct.get_inj_iff (i := ⟨i, by simpa using hi⟩)
    (j := ⟨j, by simpa using hj⟩)).mp (by simpa using hsame)
  simpa using hsameIndex

theorem node_unique (harena : Arena catalog nodes) {first second : Node n} (hfirst : first ∈ nodes)
    (hsecond : second ∈ nodes) (hsame : first.identity = second.identity) : first = second := by
  obtain ⟨i, hi⟩ := List.getElem?_of_mem hfirst
  obtain ⟨j, hj⟩ := List.getElem?_of_mem hsecond
  have hplace : i = j := harena.index_unique hi hj hsame
  rw [hplace] at hi
  exact Option.some.inj (hi.symm.trans hj)

/-- A node is added behind the others when its dependency is new and its edges lead to them. -/
theorem push (harena : Arena catalog nodes) (node : Node n)
    (hnew : node.identity ∉ nodes.map (·.identity))
    (hedges : List.Forall₂ (Edge.Follows catalog nodes) node.edges
      (catalog.dependency node.identity).references) : Arena catalog (nodes ++ [node]) := by
  constructor
  · rw [List.map_append, List.nodup_append]
    refine ⟨harena.distinct, by simp, ?_⟩
    intro first hfirst second hsecond hsame
    simp only [List.map_cons, List.map_nil, List.mem_singleton] at hsecond
    exact hnew (hsecond ▸ hsame ▸ hfirst)
  · intro i found hfound
    by_cases hi : i < nodes.length
    · rw [List.getElem?_append_left hi] at hfound
      rw [List.take_append_of_le_length (Nat.le_of_lt hi)]
      exact harena.follows i found hfound
    · have hlast : i = nodes.length := by
        have hlength := (List.getElem?_eq_some_iff.mp hfound).1
        simp only [List.length_append, List.length_singleton] at hlength
        omega
      subst hlast
      rw [List.getElem?_concat_length, Option.some.injEq] at hfound
      subst hfound
      rw [List.take_left]
      exact hedges

end Arena

namespace GraphBuilder

/-- The index of a builder finds every node, and nothing else. -/
def Indexed (b : GraphBuilder n) : Prop :=
  ∀ identity i, b.index identity = some i ↔
    ∃ node, b.nodes[i]? = some node ∧ node.identity = identity

theorem Indexed.not_mem {b : GraphBuilder n} (hindexed : b.Indexed) {identity : Fin n}
    (hnone : b.index identity = none) : identity ∉ b.nodes.map (·.identity) := by
  intro hmember
  obtain ⟨node, hnode, hidentity⟩ := List.mem_map.mp hmember
  obtain ⟨i, hi⟩ := List.getElem?_of_mem hnode
  rw [(hindexed identity i).mpr ⟨node, hi, hidentity⟩] at hnone
  cases hnone

/-- The index stays right when a node is added for a dependency that had none. -/
theorem Indexed.add {b : GraphBuilder n} (hindexed : b.Indexed) (node : Node n)
    (hnew : node.identity ∉ b.nodes.map (·.identity)) : (b.add node).Indexed := by
  have hother (i : Nat) (found : Node n) (hfound : b.nodes[i]? = some found) :
      found.identity ≠ node.identity :=
    fun hsame => hnew (hsame ▸ List.mem_map_of_mem (List.mem_of_getElem? hfound))
  intro identity i
  simp only [GraphBuilder.add]
  -- Places before the new one belong to other dependencies, and there are none behind it.
  rcases Nat.lt_trichotomy i b.nodes.length with hi | hi | hi
  · rw [List.getElem?_append_left hi, ← hindexed identity i]
    split
    · rename_i hsame
      have hnone : ¬b.index identity = some i := by
        rw [hindexed, hsame]
        rintro ⟨found, hfound, hidentity⟩
        exact hother i found hfound hidentity
      simp only [Option.some.injEq, hnone, iff_false]
      omega
    · rfl
  · subst hi
    simp only [List.getElem?_concat_length, Option.some.injEq, exists_eq_left']
    split
    · rename_i hsame
      simp [hsame]
    · rename_i hdifferent
      rw [hindexed]
      simp [Ne.symm hdifferent]
  · rw [List.getElem?_eq_none (by simp; omega)]
    split
    · simp only [Option.some.injEq, reduceCtorEq, false_and, exists_false, iff_false]
      omega
    · rw [hindexed, List.getElem?_eq_none (by omega)]

/-- A builder holds an arena with a right index, without the dependencies that it is still
following. -/
structure Sound (catalog : Catalog n σ) (b : GraphBuilder n) : Prop where
  arena : Arena catalog b.nodes
  indexed : b.Indexed
  pending : ∀ identity ∈ b.visiting, identity ∉ b.nodes.map (·.identity)

theorem sound_empty (catalog : Catalog n σ) : (empty : GraphBuilder n).Sound catalog :=
  ⟨Arena.empty, by simp [Indexed, empty], by simp [empty]⟩

/-- What an operation makes of a builder: still sound, following what it followed before, and
with all its nodes kept. -/
structure Keeps (catalog : Catalog n σ) (before after : GraphBuilder n) : Prop where
  sound : after.Sound catalog
  visiting : after.visiting = before.visiting
  nodes : before.nodes <+: after.nodes

theorem Keeps.refl {catalog : Catalog n σ} {b : GraphBuilder n} (hsound : b.Sound catalog) :
    Keeps catalog b b :=
  ⟨hsound, rfl, List.prefix_rfl⟩

theorem Keeps.trans {catalog : Catalog n σ} {a b c : GraphBuilder n} (hab : Keeps catalog a b)
    (hbc : Keeps catalog b c) : Keeps catalog a c :=
  ⟨hbc.sound, hbc.visiting.trans hab.visiting, hab.nodes.trans hbc.nodes⟩

/-- Following a declared dependency keeps the builder and finds the node of the dependency that
stands in for it. -/
def Finds (catalog : Catalog n σ) (declared : Fin n) (b : GraphBuilder n)
    (result : Except RegistrationError Nat × GraphBuilder n) : Prop :=
  Keeps catalog b result.2 ∧ ∀ i, result.1 = .ok i →
    ∃ node, result.2.nodes[i]? = some node ∧ node.identity = catalog.effective declared

/-- Following references one after another keeps the builder, and the edges that come out
follow the references in order. -/
theorem edges_follow (catalog : Catalog n σ)
    (follow : Fin n → GraphBuilder n → Except RegistrationError Nat × GraphBuilder n)
    (hfollow : ∀ declared b, b.Sound catalog → Finds catalog declared b (follow declared b))
    (references : List (Reference n)) (b : GraphBuilder n) (hsound : b.Sound catalog) :
    Keeps catalog b (edges follow references b).2 ∧
      ∀ found, (edges follow references b).1 = .ok found →
        List.Forall₂ (Edge.Follows catalog (edges follow references b).2.nodes)
          found references := by
  induction references generalizing b with
  | nil =>
      refine ⟨Keeps.refl hsound, ?_⟩
      rintro found ⟨⟩
      exact List.Forall₂.nil
  | cons reference rest ih =>
      obtain ⟨hkeeps, hfinds⟩ := hfollow reference.target b hsound
      simp only [edges]
      cases hresult : follow reference.target b with
      | mk result next =>
          rw [hresult] at hkeeps hfinds
          cases result with
          | error fault => exact ⟨hkeeps, by rintro found ⟨⟩⟩
          | ok i =>
              obtain ⟨hrest, hedges⟩ := ih next hkeeps.sound
              dsimp only
              cases hmore : edges follow rest next with
              | mk more last =>
                  rw [hmore] at hrest hedges
                  cases more with
                  | error fault => exact ⟨hkeeps.trans hrest, by rintro found ⟨⟩⟩
                  | ok found =>
                      refine ⟨hkeeps.trans hrest, ?_⟩
                      rintro all ⟨⟩
                      obtain ⟨node, hnode, hidentity⟩ := hfinds i rfl
                      -- The later references only add nodes behind that of the first one.
                      refine List.Forall₂.cons ?_ (hedges found rfl)
                      exact Edge.Follows.mono ⟨rfl, rfl, node, hnode, hidentity⟩ hrest.nodes

theorem not_mem_of_cycle?_none {b : GraphBuilder n} {catalog : Catalog n σ} {identity : Fin n}
    (hnone : b.cycle? catalog identity = none) : identity ∉ b.visiting := by
  rw [cycle?, Option.map_eq_none_iff, List.idxOf?_eq_none_iff] at hnone
  exact hnone

theorem finds_of_index {catalog : Catalog n σ} {declared : Fin n} {b : GraphBuilder n} {i : Nat}
    (hsound : b.Sound catalog) (hnode : b.index (catalog.effective declared) = some i) :
    Finds catalog declared b (.ok i, b) := by
  refine ⟨Keeps.refl hsound, ?_⟩
  rintro j ⟨⟩
  exact (hsound.indexed _ _).mp hnode

theorem finds_of_error {catalog : Catalog n σ} {b after : GraphBuilder n} (declared : Fin n)
    (hkeeps : Keeps catalog b after) (fault : RegistrationError) :
    Finds catalog declared b (.error fault, after) :=
  ⟨hkeeps, by rintro i ⟨⟩⟩

/-- A dependency without a node may be followed. -/
theorem Sound.enter {catalog : Catalog n σ} {b : GraphBuilder n} (hsound : b.Sound catalog)
    {identity : Fin n} (hnew : identity ∉ b.nodes.map (·.identity)) :
    Sound catalog { b with visiting := b.visiting ++ [identity] } := by
  refine ⟨hsound.arena, hsound.indexed, ?_⟩
  intro other hmember
  rcases List.mem_append.mp hmember with hold | hlast
  · exact hsound.pending other hold
  · rw [List.mem_singleton.mp hlast]
    exact hnew

/-- What happens while a dependency is followed keeps the builder as it was before. -/
theorem Keeps.leave {catalog : Catalog n σ} {b below : GraphBuilder n} {identity : Fin n}
    (hkeeps : Keeps catalog { b with visiting := b.visiting ++ [identity] } below) :
    Keeps catalog b { below with visiting := below.visiting.dropLast } := by
  refine ⟨⟨hkeeps.sound.arena, hkeeps.sound.indexed, ?_⟩, ?_, hkeeps.nodes⟩
  · intro other hmember
    exact hkeeps.sound.pending other ((List.dropLast_sublist _).subset hmember)
  · rw [hkeeps.visiting, List.dropLast_concat]

/-- A dependency that was followed gets a node behind all the others. -/
theorem finds_of_added {catalog : Catalog n σ} {declared : Fin n} {b below : GraphBuilder n}
    (hkeeps : Keeps catalog
      { b with visiting := b.visiting ++ [catalog.effective declared] } below)
    (hunvisited : catalog.effective declared ∉ b.visiting)
    (parameters : List CompiledParameter) (edges : List Edge)
    (hedges : List.Forall₂ (Edge.Follows catalog below.nodes) edges
      (catalog.dependency (catalog.effective declared)).references) :
    Finds catalog declared b (.ok below.nodes.length,
      { below with visiting := below.visiting.dropLast }.add
        ⟨catalog.effective declared, parameters, edges⟩) := by
  have hback := hkeeps.leave
  have hfresh : catalog.effective declared ∉ below.nodes.map (·.identity) :=
    hkeeps.sound.pending _ (by rw [hkeeps.visiting]; simp)
  refine ⟨⟨⟨?_, ?_, ?_⟩, hback.visiting, ?_⟩, ?_⟩
  · exact hback.sound.arena.push _ hfresh hedges
  · exact hback.sound.indexed.add _ hfresh
  · intro other hmember hnodes
    simp only [GraphBuilder.add, List.map_append, List.mem_append] at hnodes
    rcases hnodes with hold | hlast
    · exact hback.sound.pending other hmember hold
    · simp only [List.map_cons, List.map_nil, List.mem_singleton] at hlast
      have hbefore : other ∈ b.visiting := by
        rw [← hback.visiting]
        exact hmember
      exact hunvisited (hlast ▸ hbefore)
  · exact hkeeps.nodes.trans (List.prefix_append _ _)
  · rintro i ⟨⟩
    exact ⟨_, List.getElem?_concat_length, rfl⟩

/-- Finding or adding a node keeps the builder. What is added below stays when something fails
there, and so does the list of the dependencies that are being followed. -/
theorem intern_finds (catalog : Catalog n σ) (steps : Nat) (declared : Fin n)
    (b : GraphBuilder n) (hsound : b.Sound catalog) :
    Finds catalog declared b (intern catalog steps declared b) := by
  induction steps generalizing declared b with
  | zero => exact finds_of_error declared (Keeps.refl hsound) _
  | succ steps ih =>
      simp only [intern]
      cases hnode : b.index (catalog.effective declared) with
      | some i => exact finds_of_index hsound hnode
      | none =>
          dsimp only
          cases hcycle : b.cycle? catalog (catalog.effective declared) with
          | some names => exact finds_of_error declared (Keeps.refl hsound) _
          | none =>
              dsimp only
              cases compileDeclared (catalog.dependency (catalog.effective declared)) with
              | error fault => exact finds_of_error declared (Keeps.refl hsound) _
              | ok parameters =>
                  -- From here to `leave`, the dependency is one of those being followed.
                  have hdown := hsound.enter (hsound.indexed.not_mem hnode)
                  obtain ⟨hkeeps, hedges⟩ := edges_follow catalog (intern catalog steps) ih
                    (catalog.dependency (catalog.effective declared)).references _ hdown
                  dsimp only
                  cases hrun : edges (intern catalog steps)
                      (catalog.dependency (catalog.effective declared)).references
                      { b with visiting := b.visiting ++ [catalog.effective declared] } with
                  | mk followed below =>
                      rw [hrun] at hkeeps hedges
                      cases followed with
                      | error fault => exact finds_of_error declared hkeeps.leave fault
                      | ok edges =>
                          exact finds_of_added hkeeps (not_mem_of_cycle?_none hcycle)
                            parameters edges (hedges edges rfl)

/-- Compiling the references of a route keeps the builder, whether it succeeds or fails, and the
roots of a plan follow the references. -/
theorem plan_follows (catalog : Catalog n σ) (references : List (Reference n))
    (b : GraphBuilder n) (hsound : b.Sound catalog) :
    Keeps catalog b (b.plan catalog references).2 ∧
      ∀ plan, (b.plan catalog references).1 = .ok plan →
        List.Forall₂ (Edge.Follows catalog (b.plan catalog references).2.nodes)
          plan.roots references := by
  obtain ⟨hkeeps, hedges⟩ := edges_follow catalog (intern catalog (n + 1))
    (intern_finds catalog (n + 1)) references b hsound
  simp only [plan]
  cases hrun : edges (intern catalog (n + 1)) references b with
  | mk followed after =>
      rw [hrun] at hkeeps hedges
      cases followed with
      | error fault => exact ⟨hkeeps, by rintro plan ⟨⟩⟩
      | ok roots =>
          refine ⟨hkeeps, ?_⟩
          rintro plan ⟨⟩
          exact hedges roots rfl

theorem planEach_keeps (catalog : Catalog n σ) (groups : List (List (Reference n)))
    (b : GraphBuilder n) (hsound : b.Sound catalog) :
    Keeps catalog b (planEach catalog groups b).2 := by
  induction groups generalizing b with
  | nil => exact Keeps.refl hsound
  | cons references rest ih =>
      have hplan := (plan_follows catalog references b hsound).1
      exact hplan.trans (ih _ hplan.sound)

theorem planEach_append (catalog : Catalog n σ) (groups more : List (List (Reference n)))
    (b : GraphBuilder n) :
    (planEach catalog (groups ++ more) b).2 =
      (planEach catalog more (planEach catalog groups b).2).2 := by
  induction groups generalizing b with
  | nil => rfl
  | cons references rest ih => exact ih _

end GraphBuilder

open GraphBuilder in
/-- A graph and a plan as a builder makes them: the references of other routes are compiled
before and after those of the plan, whatever becomes of each. -/
inductive Compiled (catalog : Catalog n σ) (references : List (Reference n)) :
    Graph n σ → Plan → Prop where
  | intro (before after : List (List (Reference n))) (plan : Plan)
      (hplan : ((planEach catalog before .empty).2.plan catalog references).1 = .ok plan) :
      Compiled catalog references
        ⟨catalog,
          (planEach catalog after
            ((planEach catalog before .empty).2.plan catalog references).2).2.nodes⟩
        plan

namespace Compiled

variable {catalog : Catalog n σ} {references : List (Reference n)} {graph : Graph n σ}
  {plan : Plan}

theorem catalog_eq (hcompiled : Compiled catalog references graph plan) :
    graph.catalog = catalog := by
  cases hcompiled
  rfl

private theorem keepsAll (catalog : Catalog n σ) (references : List (Reference n))
    (before after : List (List (Reference n))) :
    GraphBuilder.Keeps catalog
      ((GraphBuilder.planEach catalog before .empty).2.plan catalog references).2
      (GraphBuilder.planEach catalog after
        ((GraphBuilder.planEach catalog before .empty).2.plan catalog references).2).2 := by
  have hbefore := GraphBuilder.planEach_keeps catalog before _ (GraphBuilder.sound_empty catalog)
  have hplan := (GraphBuilder.plan_follows catalog references _ hbefore.sound).1
  exact GraphBuilder.planEach_keeps catalog after _ hplan.sound

/-- The nodes of a compiled graph are an arena. -/
theorem arena (hcompiled : Compiled catalog references graph plan) :
    Arena catalog graph.nodes := by
  cases hcompiled with
  | intro before after _ hplan => exact (keepsAll catalog references before after).sound.arena

/-- The roots of a compiled plan follow the references of the route, also in the graph that is
finished later. -/
theorem roots (hcompiled : Compiled catalog references graph plan) :
    List.Forall₂ (Edge.Follows catalog graph.nodes) plan.roots references := by
  cases hcompiled with
  | intro before after _ hplan =>
      have hbefore :=
        GraphBuilder.planEach_keeps catalog before _ (GraphBuilder.sound_empty catalog)
      have hroots := (GraphBuilder.plan_follows catalog references _ hbefore.sound).2 plan hplan
      have hnodes := (keepsAll catalog references before after).nodes
      exact hroots.imp fun _ _ hfollows => hfollows.mono hnodes

end Compiled

end RequestDispatch
