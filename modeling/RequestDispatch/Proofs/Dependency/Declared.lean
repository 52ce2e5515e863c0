import RequestDispatch.Proofs.Dependency.Authorization

/-!
Ways in declarations. A way down a graph follows references of the declared dependencies, and
whether it is authorized is fixed by these references alone. The order in which a route or a
dependency declares its references plays no part in that.
-/

namespace RequestDispatch

variable {n : Nat} {σ : Type}

namespace Catalog

variable (catalog : Catalog n σ)

/-- A sequence of references down to a dependency: one of the given ones, and then each time
one of those of the dependency that it leads to. -/
inductive Requires : List (Reference n) → List (Reference n) → Fin n → Prop where
  | here {references : List (Reference n)} {reference : Reference n}
      (hreference : reference ∈ references) :
      Requires references [reference] (catalog.effective reference.target)
  | further {references way : List (Reference n)} {reference : Reference n} {last : Fin n}
      (hreference : reference ∈ references)
      (hway : Requires
        (catalog.dependency (catalog.effective reference.target)).references way last) :
      Requires references (reference :: way) last

/-- The scopes of a reference and of the dependency it leads to. -/
def scopesAt (reference : Reference n) : List String :=
  reference.scopes ++ (catalog.dependency (catalog.effective reference.target)).scopes

/-- Every sequence of references down from the given ones is authorized. -/
def Authorized (request : Request) (references : List (Reference n)) : Prop :=
  ∀ way last, catalog.Requires references way last →
    (catalog.dependency last).Authorizes request (way.flatMap catalog.scopesAt)

/-- The same declarations, each with its references in some order. -/
structure Reorders (other : Catalog n σ) : Prop where
  overrides : other.overrides = catalog.overrides
  references : ∀ i, (other.dependency i).references.Perm (catalog.dependency i).references
  rest : ∀ i, { other.dependency i with references := (catalog.dependency i).references } =
    catalog.dependency i

variable {catalog}

namespace Reorders

variable {other : Catalog n σ}

theorem refl (catalog : Catalog n σ) : catalog.Reorders catalog :=
  ⟨rfl, fun _ => List.Perm.refl _, fun _ => rfl⟩

theorem effective_eq (hreorders : catalog.Reorders other) (declared : Fin n) :
    other.effective declared = catalog.effective declared := by
  simp only [effective, hreorders.overrides]

theorem scopes_eq (hreorders : catalog.Reorders other) (i : Fin n) :
    (other.dependency i).scopes = (catalog.dependency i).scopes := by
  rw [← hreorders.rest i]

theorem provider_eq (hreorders : catalog.Reorders other) (i : Fin n) :
    (other.dependency i).provider = (catalog.dependency i).provider := by
  rw [← hreorders.rest i]

/-- Every sequence of references is there in any order of them. -/
theorem requires (hreorders : catalog.Reorders other) {references others : List (Reference n)}
    (hsubset : references ⊆ others) {way : List (Reference n)} {last : Fin n}
    (hway : catalog.Requires references way last) : other.Requires others way last := by
  induction hway generalizing others with
  | here hreference =>
      rw [← hreorders.effective_eq]
      exact .here (hsubset hreference)
  | @further references way reference last hreference _ ih =>
      refine .further (hsubset hreference) (ih ?_)
      rw [hreorders.effective_eq]
      exact (hreorders.references _).symm.subset

/-- What is authorized in one order of the references is authorized in any other. -/
theorem authorized (hreorders : catalog.Reorders other) {references others : List (Reference n)}
    (hperm : others.Perm references) (request : Request)
    (hauthorized : other.Authorized request others) : catalog.Authorized request references := by
  intro way last hway
  have hother := hauthorized way last (hreorders.requires hperm.symm.subset hway)
  have hscopes : other.scopesAt = catalog.scopesAt := by
    funext reference
    simp only [scopesAt, hreorders.effective_eq, hreorders.scopes_eq]
  rw [hscopes] at hother
  unfold Dependency.Authorizes at hother ⊢
  rw [hreorders.provider_eq] at hother
  exact hother

end Reorders

end Catalog

namespace Edge.Follows

variable {catalog : Catalog n σ} {graph : Graph n σ} {edge : Edge} {reference : Reference n}

theorem identity_eq (hfollows : edge.Follows catalog graph.nodes reference) {node : Node n}
    (hnode : graph.nodes[edge.node]? = some node) :
    node.identity = catalog.effective reference.target := by
  obtain ⟨target, htarget, hidentity⟩ := hfollows.target
  rw [hnode, Option.some.injEq] at htarget
  rw [htarget, hidentity]

theorem scopesAt_eq (hfollows : edge.Follows catalog graph.nodes reference)
    (hcatalog : graph.catalog = catalog) : graph.scopesAt edge = catalog.scopesAt reference := by
  obtain ⟨target, htarget, hidentity⟩ := hfollows.target
  rw [Graph.scopesAt, htarget, Catalog.scopesAt, hfollows.scopes, ← hidentity, ← hcatalog]
  rfl

end Edge.Follows

namespace Arena

variable {catalog : Catalog n σ} {graph : Graph n σ}

/-- The edges of a node follow the references of its dependency in the whole graph. -/
theorem follows_all (harena : Arena catalog graph.nodes) {i : Nat} {node : Node n}
    (hnode : graph.nodes[i]? = some node) :
    List.Forall₂ (Edge.Follows catalog graph.nodes) node.edges
      (catalog.dependency node.identity).references :=
  (harena.follows i node hnode).imp fun _ _ hfollows => hfollows.mono (List.take_prefix i _)

/-- Every way down a graph follows a sequence of references with the same scopes. -/
theorem requires_of_way (harena : Arena catalog graph.nodes) (hcatalog : graph.catalog = catalog)
    {edges way : List Edge} {last : Node n} (hway : graph.Way edges way last)
    {references : List (Reference n)}
    (hfollows : List.Forall₂ (Edge.Follows catalog graph.nodes) edges references) :
    ∃ line, catalog.Requires references line last.identity ∧
      graph.scopesAlong way = line.flatMap catalog.scopesAt := by
  induction hway generalizing references with
  | @here edges edge node hedge hnode =>
      obtain ⟨reference, hreference, hfollow⟩ := exists_of_forall₂ hfollows hedge
      refine ⟨[reference], ?_, ?_⟩
      · rw [hfollow.identity_eq hnode]
        exact .here hreference
      · simp [Graph.scopesAlong, hfollow.scopesAt_eq hcatalog]
  | @further edges way edge node last hedge hnode _ ih =>
      obtain ⟨reference, hreference, hfollow⟩ := exists_of_forall₂ hfollows hedge
      obtain ⟨line, hline, hscopes⟩ := ih (harena.follows_all hnode)
      rw [hfollow.identity_eq hnode] at hline
      refine ⟨reference :: line, .further hreference hline, ?_⟩
      rw [List.flatMap_cons, ← hscopes, ← hfollow.scopesAt_eq hcatalog]
      rfl

/-- Every sequence of references is followed by a way down the graph with the same scopes. -/
theorem way_of_requires (harena : Arena catalog graph.nodes) (hcatalog : graph.catalog = catalog)
    {references line : List (Reference n)} {last : Fin n}
    (hline : catalog.Requires references line last) {edges : List Edge}
    (hfollows : List.Forall₂ (Edge.Follows catalog graph.nodes) edges references) :
    ∃ way node, graph.Way edges way node ∧ node.identity = last ∧
      graph.scopesAlong way = line.flatMap catalog.scopesAt := by
  induction hline generalizing edges with
  | @here references reference hreference =>
      obtain ⟨edge, hedge, hfollow⟩ := exists_of_forall₂ hfollows.flip hreference
      obtain ⟨node, hnode, hidentity⟩ := hfollow.target
      refine ⟨[edge], node, .here hedge hnode, hidentity, ?_⟩
      simp [Graph.scopesAlong, hfollow.scopesAt_eq hcatalog]
  | @further references line reference last hreference _ ih =>
      obtain ⟨edge, hedge, hfollow⟩ := exists_of_forall₂ hfollows.flip hreference
      obtain ⟨node, hnode, hidentity⟩ := hfollow.target
      have hbelow := harena.follows_all hnode
      rw [hidentity] at hbelow
      obtain ⟨way, found, hway, hlast, hscopes⟩ := ih hbelow
      refine ⟨edge :: way, found, .further hedge hnode hway, hlast, ?_⟩
      rw [List.flatMap_cons, ← hscopes, ← hfollow.scopesAt_eq hcatalog]
      rfl

/-- The ways down a graph are authorized exactly when the declared references are. -/
theorem authorized_iff_declared (harena : Arena catalog graph.nodes)
    (hcatalog : graph.catalog = catalog) {edges : List Edge} {references : List (Reference n)}
    (hfollows : List.Forall₂ (Edge.Follows catalog graph.nodes) edges references)
    (request : Request) :
    (∀ way last, graph.Way edges way last →
      (graph.dependency last).Authorizes request (graph.scopesAlong way)) ↔
        catalog.Authorized request references := by
  constructor
  · intro hways line last hline
    obtain ⟨way, node, hway, rfl, hscopes⟩ :=
      harena.way_of_requires hcatalog hline hfollows
    rw [← hscopes, ← hcatalog]
    exact hways way node hway
  · intro hdeclared way last hway
    obtain ⟨line, hline, hscopes⟩ := harena.requires_of_way hcatalog hway hfollows
    rw [hscopes, Graph.dependency, hcatalog]
    exact hdeclared line last.identity hline

end Arena

end RequestDispatch
