import RequestDispatch.Dependency.Resolver
import RequestDispatch.Proofs.Dependency.Arena

/-!
Which requests may go which way down a graph. A way is a sequence of edges that begins at
given edges and goes on along those of the nodes it comes to. It is authorized when the
provider at its end, if there is one, grants every scope that was mentioned on it. All ways
from some edges are authorized exactly when each edge is and all ways below it are, which is
how a resolver checks them.
-/

namespace RequestDispatch

variable {n : Nat} {σ : Type}

/-! ### Scopes that are collected -/

namespace Scopes

theorem mem_add_iff (scopes : Scopes) (scope other : String) :
    other ∈ scopes.add scope ↔ other ∈ scopes ∨ other = scope := by
  unfold add
  split
  · rename_i hmember
    constructor
    · exact Or.inl
    · rintro (hother | rfl)
      · exact hother
      · exact hmember
  · simp

theorem mem_extend_iff (scopes : Scopes) (more : List String) (scope : String) :
    scope ∈ scopes.extend more ↔ scope ∈ scopes ∨ scope ∈ more := by
  induction more generalizing scopes with
  | nil => simp [extend]
  | cons first rest ih =>
      have hstep : scopes.extend (first :: rest) = (scopes.add first).extend rest := rfl
      rw [hstep, ih, mem_add_iff, List.mem_cons, or_assoc]

end Scopes

/-- Whether a request passes the provider of a dependency, if it has one: the provider grants
credentials with all the required scopes. -/
def Dependency.Authorizes (dependency : Dependency n σ) (request : Request)
    (required : List String) : Prop :=
  ∀ provider, dependency.provider = some provider →
    ∃ credentials, provider.authenticate request = .granted credentials ∧
      ∀ scope ∈ required, scope ∈ credentials.scopes

theorem Dependency.Authorizes.congr {dependency : Dependency n σ} {request : Request}
    {required others : List String} (hsame : ∀ scope, scope ∈ required ↔ scope ∈ others) :
    dependency.Authorizes request required ↔ dependency.Authorizes request others := by
  simp only [Authorizes, hsame]

namespace Graph

variable (graph : Graph n σ)

/-- A way down from some of the edges to a node. -/
inductive Way : List Edge → List Edge → Node n → Prop where
  | here {edges : List Edge} {edge : Edge} {node : Node n} (hedge : edge ∈ edges)
      (hnode : graph.nodes[edge.node]? = some node) : Way edges [edge] node
  | further {edges way : List Edge} {edge : Edge} {node last : Node n} (hedge : edge ∈ edges)
      (hnode : graph.nodes[edge.node]? = some node) (hway : Way node.edges way last) :
      Way edges (edge :: way) last

variable {graph} in
theorem Way.mono {edges more way : List Edge} {last : Node n} (hway : graph.Way edges way last)
    (hsubset : edges ⊆ more) : graph.Way more way last := by
  cases hway with
  | here hedge hnode => exact .here (hsubset hedge) hnode
  | further hedge hnode hrest => exact .further (hsubset hedge) hnode hrest

variable {graph} in
theorem Way.snoc {edges way : List Edge} {last : Node n} (hway : graph.Way edges way last)
    {edge : Edge} (hedge : edge ∈ last.edges) {node : Node n}
    (hnode : graph.nodes[edge.node]? = some node) : graph.Way edges (way ++ [edge]) node := by
  induction hway with
  | here hfirst hlast => exact .further hfirst hlast (.here hedge hnode)
  | further hfirst hnext _ ih => exact .further hfirst hnext (ih hedge)

variable {graph} in
/-- A way leads to one node only. -/
theorem Way.unique {edges others way : List Edge} {first second : Node n}
    (hfirst : graph.Way edges way first) (hsecond : graph.Way others way second) :
    first = second := by
  induction hfirst generalizing others with
  | here _ hnode =>
      cases hsecond with
      | here _ hagain => exact Option.some.inj (hnode.symm.trans hagain)
      | further _ _ hrest => cases hrest
  | further _ _ hway ih =>
      cases hsecond with
      | here _ _ => cases hway
      | further _ _ hrest => exact ih hrest

/-- The scopes of a site and of the dependency it requires. -/
def scopesAt (edge : Edge) : List String :=
  edge.scopes ++ ((graph.nodes[edge.node]?).map fun node => (graph.dependency node).scopes).getD []

/-- All scopes that are mentioned on a way. -/
def scopesAlong (way : List Edge) : List String :=
  way.flatMap graph.scopesAt

/-- Every way down from the edges is authorized, with scopes inherited from above. -/
def Authorized (request : Request) (inherited : List String) (edges : List Edge) : Prop :=
  ∀ way last, graph.Way edges way last →
    (graph.dependency last).Authorizes request (inherited ++ graph.scopesAlong way)

variable {graph}

theorem mem_accumulate_iff {edge : Edge} {node : Node n}
    (hnode : graph.nodes[edge.node]? = some node) (inherited : Scopes) (scope : String) :
    scope ∈ Resolver.accumulate inherited edge (graph.dependency node) ↔
      scope ∈ inherited ++ graph.scopesAt edge := by
  rw [Resolver.accumulate, Scopes.mem_extend_iff, Scopes.mem_extend_iff, scopesAt, hnode]
  simp only [Option.map_some, Option.getD_some, List.mem_append]
  exact or_assoc

/-- All ways are authorized when the first step of each is and all that go on from there. -/
theorem authorized_iff (request : Request) (inherited : Scopes) (edges : List Edge) :
    graph.Authorized request inherited edges ↔
      ∀ edge ∈ edges, ∀ node, graph.nodes[edge.node]? = some node →
        (graph.dependency node).Authorizes request
            (Resolver.accumulate inherited edge (graph.dependency node)) ∧
          graph.Authorized request
            (Resolver.accumulate inherited edge (graph.dependency node)) node.edges := by
  constructor
  · intro hall edge hedge node hnode
    have hmember := mem_accumulate_iff hnode inherited
    constructor
    · rw [Dependency.Authorizes.congr hmember]
      simpa [scopesAlong] using hall [edge] node (.here hedge hnode)
    · intro way last hway
      have hlast := hall (edge :: way) last (.further hedge hnode hway)
      refine (Dependency.Authorizes.congr ?_).mpr hlast
      intro scope
      rw [List.mem_append, hmember, scopesAlong, scopesAlong, List.flatMap_cons,
        ← List.append_assoc, ← List.mem_append]
  · intro hsteps way last hway
    cases hway with
    | here hedge hnode =>
        have hfirst := (hsteps _ hedge _ hnode).1
        rw [Dependency.Authorizes.congr (mem_accumulate_iff hnode inherited)] at hfirst
        simpa [scopesAlong] using hfirst
    | further hedge hnode hrest =>
        have hlast := (hsteps _ hedge _ hnode).2 _ _ hrest
        refine (Dependency.Authorizes.congr ?_).mp hlast
        intro scope
        rw [List.mem_append, mem_accumulate_iff hnode inherited, scopesAlong, scopesAlong,
          List.flatMap_cons, ← List.append_assoc, ← List.mem_append]

theorem authorized_nil (request : Request) (inherited : Scopes) :
    graph.Authorized request inherited [] := by
  rw [authorized_iff]
  simp

theorem authorized_each (request : Request) (inherited : Scopes) (edges : List Edge) :
    graph.Authorized request inherited edges ↔
      ∀ edge ∈ edges, graph.Authorized request inherited [edge] := by
  simp only [authorized_iff request inherited, List.mem_singleton, forall_eq]

end Graph

namespace Resolver

/-- Asking a provider succeeds exactly when the request passes it. -/
theorem authorize_ok_iff (request : Request) (dependency : Dependency n σ) (scopes : Scopes) :
    (∃ credentials, authorize request dependency scopes = .ok credentials) ↔
      dependency.Authorizes request scopes := by
  unfold authorize Dependency.Authorizes
  cases dependency.provider with
  | none => simp
  | some provider =>
      dsimp only
      cases hauthentication : provider.authenticate request with
      | missing => simp [hauthentication]
      | invalid reason => simp [hauthentication]
      | granted credentials =>
          dsimp only
          have hmissing : scopes.missing credentials.scopes = [] ↔
              ∀ scope ∈ scopes, scope ∈ credentials.scopes := by
            simp [Scopes.missing, List.filter_eq_nil_iff]
          cases hrest : scopes.missing credentials.scopes with
          | nil => simpa [hauthentication] using hmissing.mp hrest
          | cons scope rest =>
              simp only [reduceCtorEq, exists_false, false_iff]
              intro hgranted
              obtain ⟨granted, hsame, hscopes⟩ := hgranted provider rfl
              rw [hauthentication, Authentication.granted.injEq] at hsame
              rw [hmissing.mpr (hsame ▸ hscopes)] at hrest
              cases hrest

variable (r : Resolver n σ)

/-- The edges lead to nodes below a level. -/
def Reaches (level : Nat) (edges : List Edge) : Prop :=
  ∀ edge ∈ edges, edge.node < level ∧ ∃ node, r.graph.nodes[edge.node]? = some node

theorem reaches_below {catalog : Catalog n σ} (harena : Arena catalog r.graph.nodes) {i : Nat}
    {node : Node n} (hnode : r.graph.nodes[i]? = some node) : r.Reaches i node.edges :=
  fun _ hedge => harena.edge_below hnode hedge

theorem Reaches.mono {r : Resolver n σ} {low high : Nat} {edges : List Edge}
    (hreaches : r.Reaches low edges) (hle : low ≤ high) : r.Reaches high edges := by
  intro edge hedge
  obtain ⟨hless, hnode⟩ := hreaches edge hedge
  exact ⟨Nat.lt_of_lt_of_le hless hle, hnode⟩

theorem Reaches.of_mem {r : Resolver n σ} {level : Nat} {edges : List Edge}
    (hreaches : r.Reaches level edges) {edge : Edge} (hedge : edge ∈ edges) :
    r.Reaches level [edge] := by
  intro other hother
  rw [List.mem_singleton] at hother
  exact hreaches other (hother ▸ hedge)

/-- Checks one edge and all ways below it. -/
def authorizeSite (level : Nat) (inherited : Scopes) (edge : Edge) :
    Except DispatchError Unit :=
  match r.graph.nodes[edge.node]? with
  | none => .error strayEdge
  | some node =>
      let scopes := accumulate inherited edge (r.graph.dependency node)
      match authorize r.request (r.graph.dependency node) scopes with
      | .error e => .error e
      | .ok _ => r.authorizeBelow level scopes node.edges

/-- Checking edges is checking the first one with all below it, and then the others. -/
theorem authorizeBelow_cons (level : Nat) (inherited : Scopes) (edge : Edge)
    (rest : List Edge) :
    r.authorizeBelow (level + 1) inherited (edge :: rest) =
      match r.authorizeSite level inherited edge with
      | .error e => .error e
      | .ok () => r.authorizeBelow (level + 1) inherited rest := by
  have hforM (edges : List Edge) :
      r.authorizeBelow (level + 1) inherited edges =
        edges.forM (r.authorizeSite level inherited) := by
    cases edges <;> rfl
  simp only [hforM, List.forM_eq_forM, List.forM_cons]
  cases r.authorizeSite level inherited edge <;> rfl

/-- When the ways below some edges are checked without an error, all of them are authorized. -/
theorem authorized_of_authorizeBelow (level : Nat) (inherited : Scopes) (edges : List Edge)
    (hchecked : r.authorizeBelow level inherited edges = .ok ()) :
    r.graph.Authorized r.request inherited edges := by
  induction level generalizing inherited edges with
  | zero =>
      cases edges with
      | nil => exact Graph.authorized_nil _ _
      | cons edge rest => cases hchecked
  | succ level ih =>
      induction edges with
      | nil => exact Graph.authorized_nil _ _
      | cons edge rest ihRest =>
          rw [authorizeBelow_cons] at hchecked
          cases hsite : r.authorizeSite level inherited edge with
          | error e => simp [hsite] at hchecked
          | ok _ =>
              rw [hsite] at hchecked
              rw [Graph.authorized_iff]
              intro other hother node hnode
              rcases List.mem_cons.mp hother with rfl | hrest
              · simp only [authorizeSite, hnode] at hsite
                split at hsite
                · cases hsite
                · rename_i credentials hcredentials
                  exact ⟨(authorize_ok_iff _ _ _).mp ⟨credentials, hcredentials⟩,
                    ih _ _ hsite⟩
              · exact (Graph.authorized_iff _ _ _).mp (ihRest hchecked) other hrest node hnode

/-- When all ways below some edges are authorized, checking them gives no error. -/
theorem authorizeBelow_of_authorized {catalog : Catalog n σ}
    (harena : Arena catalog r.graph.nodes) (level : Nat) (inherited : Scopes)
    (edges : List Edge) (hreaches : r.Reaches level edges)
    (hauthorized : r.graph.Authorized r.request inherited edges) :
    r.authorizeBelow level inherited edges = .ok () := by
  induction level generalizing inherited edges with
  | zero =>
      cases edges with
      | nil => rfl
      | cons edge rest =>
          have hless := (hreaches edge (by simp)).1
          omega
  | succ level ih =>
      induction edges with
      | nil => rfl
      | cons edge rest ihRest =>
          rw [Graph.authorized_iff] at hauthorized
          obtain ⟨hless, node, hnode⟩ := hreaches edge (by simp)
          obtain ⟨hfirst, hbelow⟩ := hauthorized edge (by simp) node hnode
          obtain ⟨credentials, hcredentials⟩ := (authorize_ok_iff _ _ _).mpr hfirst
          have hdown := (r.reaches_below harena hnode).mono (Nat.le_of_lt_succ hless)
          have hsite : r.authorizeSite level inherited edge = .ok () := by
            simp only [authorizeSite, hnode, hcredentials]
            exact ih _ _ hdown hbelow
          rw [authorizeBelow_cons, hsite]
          refine ihRest (fun other hother => hreaches other (by simp [hother])) ?_
          rw [Graph.authorized_iff]
          exact fun other hother => hauthorized other (by simp [hother])

end Resolver

/-- The roots of a compiled plan lead to nodes of the graph. -/
theorem Compiled.reaches_roots {catalog : Catalog n σ} {references : List (Reference n)}
    {r : Resolver n σ} {plan : Plan} (hcompiled : Compiled catalog references r.graph plan) :
    r.Reaches r.top plan.roots := by
  intro edge hedge
  obtain ⟨reference, _, hfollow⟩ := exists_of_forall₂ hcompiled.roots hedge
  obtain ⟨node, hnode, _⟩ := hfollow.target
  exact ⟨(List.getElem?_eq_some_iff.mp hnode).1, node, hnode⟩

end RequestDispatch
