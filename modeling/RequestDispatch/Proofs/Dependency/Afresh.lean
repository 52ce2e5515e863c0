import RequestDispatch.Proofs.Dependency.Branches

/-!
Resolution without a cache. What a dependency gives is computed afresh at every reference to
it, with everything below it. When the code of the dependencies computes its end from its
input alone, and from nothing in it that depends on the way, a second computation under other
scopes differs from the first one only by the authorization on the ways below.
-/

namespace RequestDispatch

variable {n : Nat} {σ : Type}

/-- What the code of a dependency sees apart from the scopes of the way to it. -/
def DependencyInput.unscoped (input : DependencyInput) : DependencyInput :=
  { input with scopes := [] }

/-- Code that ends at once, with what it computes from its input without the scopes. It may
act upon the state of the application, but that has no bearing on how it ends. -/
def Routine.Computes (routine : Routine σ DependencyInput Provided)
    (body : DependencyInput → Outcome Provided) : Prop :=
  ∃ run, routine = .inline run ∧ ∀ input effects, (run input effects).1 = body input.unscoped

theorem mapM_cons_eq {ε α β : Type} (f : α → Except ε β) (a : α) (rest : List α) :
    (a :: rest).mapM f =
      match f a with
      | .error e => .error e
      | .ok b =>
          match rest.mapM f with
          | .error e => .error e
          | .ok bs => .ok (b :: bs) := by
  rw [List.mapM_cons]
  cases f a with
  | error e => rfl
  | ok b => cases rest.mapM f <;> rfl

namespace Resolver

variable (r : Resolver n σ) (body : Fin n → DependencyInput → Outcome Provided)

/-- What a dependency gives when its code ends. -/
def ending (node : Node n) : Outcome Provided → Except DispatchError Provided
  | .value value => .ok value
  | .failed e => .error e
  | .panicked panic => .error (panicked (r.graph.dependency node) panic)

/-- Computes a dependency from what lies below it. -/
def evaluateAfresh (below : Scopes → Edge → Except DispatchError Provided) (visit : Visit n) :
    Except DispatchError Provided :=
  match visit.node.edges.mapM (below visit.scopes) with
  | .error e => .error e
  | .ok values =>
      r.ending visit.node (body visit.node.identity
        (r.inputOf visit ((visit.node.edges.map (·.name)).zip values)).unscoped)

/-- Authorizes and computes what an edge leads to, with everything below it, in the order of
declaration. The edge leads to a node below `level`. -/
def afresh : (level : Nat) → Scopes → Edge → Except DispatchError Provided
  | 0, _, _ => .error strayEdge
  | level + 1, inherited, edge =>
      match r.graph.nodes[edge.node]? with
      | none => .error strayEdge
      | some node =>
          let scopes := accumulate inherited edge (r.graph.dependency node)
          match authorize r.request (r.graph.dependency node) scopes with
          | .error e => .error e
          | .ok credentials =>
              r.evaluateAfresh body (afresh level) ⟨edge.node, node, scopes, credentials⟩

/-- Resolves the roots of a plan afresh. -/
def resolveAfresh (plan : Plan) : Except DispatchError Provisions :=
  match plan.roots.mapM (r.afresh body r.top []) with
  | .error e => .error e
  | .ok values => .ok ((plan.roots.map (·.name)).zip values)

variable {r body}

theorem afresh_of_refused {level : Nat} {inherited : Scopes} {edge : Edge} {node : Node n}
    {e : DispatchError} (hnode : r.graph.nodes[edge.node]? = some node)
    (hrefused : authorize r.request (r.graph.dependency node)
      (accumulate inherited edge (r.graph.dependency node)) = .error e) :
    r.afresh body (level + 1) inherited edge = .error e := by
  simp only [afresh, hnode, hrefused]

theorem afresh_of_granted {level : Nat} {inherited : Scopes} {edge : Edge} {node : Node n}
    {credentials : Option Credentials} (hnode : r.graph.nodes[edge.node]? = some node)
    (hgranted : authorize r.request (r.graph.dependency node)
      (accumulate inherited edge (r.graph.dependency node)) = .ok credentials) :
    r.afresh body (level + 1) inherited edge =
      r.evaluateAfresh body (r.afresh body level) ⟨edge.node, node,
        accumulate inherited edge (r.graph.dependency node), credentials⟩ := by
  simp only [afresh, hnode, hgranted]

/-- A provider grants the same credentials whatever scopes are required. -/
theorem credentials_unique {dependency : Dependency n σ} {scopes others : Scopes}
    {credentials granted : Option Credentials}
    (hcredentials : authorize r.request dependency scopes = .ok credentials)
    (hgranted : authorize r.request dependency others = .ok granted) :
    credentials = granted := by
  unfold authorize at hcredentials hgranted
  cases hprovider : dependency.provider with
  | none =>
      rw [hprovider] at hcredentials hgranted
      cases hcredentials
      cases hgranted
      rfl
  | some provider =>
      simp only [hprovider] at hcredentials hgranted
      cases hauthentication : provider.authenticate r.request with
      | missing => simp [hauthentication] at hcredentials
      | invalid reason => simp [hauthentication] at hcredentials
      | granted found =>
          simp only [hauthentication] at hcredentials hgranted
          split at hcredentials
          · split at hgranted
            · cases hcredentials
              cases hgranted
              rfl
            · cases hgranted
          · cases hcredentials

/-- What is computed again at another edge to the same node, under other scopes: the ways to
and below the node are authorized again, and then the value is the same, if that is so for
what lies below the node. -/
theorem afresh_site {level lower : Nat} {inherited others : Scopes} {edge other : Edge}
    {value : Provided} (hnode : edge.node = other.node)
    (hfirst : r.afresh body lower inherited edge = .ok value)
    (hbelow : ∀ node, r.graph.nodes[other.node]? = some node →
      ∀ lower scopes values, node.edges.mapM (r.afresh body lower scopes) = .ok values →
        ∀ others, node.edges.mapM (r.afresh body level others) =
          (r.authorizeBelow level others node.edges).map fun _ => values) :
    r.afresh body (level + 1) others other =
      (r.authorizeSite level others other).map fun _ => value := by
  cases lower with
  | zero => cases hfirst
  | succ lower =>
      rw [afresh, hnode] at hfirst
      cases hfound : r.graph.nodes[other.node]? with
      | none =>
          rw [hfound] at hfirst
          cases hfirst
      | some node =>
          simp only [hfound] at hfirst
          split at hfirst
          · cases hfirst
          · rename_i credentials hcredentials
            simp only [evaluateAfresh] at hfirst
            split at hfirst
            · cases hfirst
            · rename_i values hvalues
              simp only [afresh, authorizeSite, hfound]
              cases hgranted : authorize r.request (r.graph.dependency node)
                  (accumulate others other (r.graph.dependency node)) with
              | error e => rfl
              | ok granted =>
                  have hsame := credentials_unique hcredentials hgranted
                  simp only [evaluateAfresh, hbelow node hfound _ _ _ hvalues]
                  cases r.authorizeBelow level
                      (accumulate others other (r.graph.dependency node)) node.edges with
                  | error e => rfl
                  | ok _ =>
                      simp only [Except.map]
                      rw [← hfirst, hsame]
                      rfl

/-- What lies below a node is computed again under other scopes with the same values, once
the ways to it are authorized. -/
theorem afresh_again {catalog : Catalog n σ} (harena : Arena catalog r.graph.nodes)
    (level : Nat) (edges : List Edge) (hreaches : r.Reaches level edges) (lower : Nat)
    (scopes : Scopes) (values : List Provided)
    (hfirst : edges.mapM (r.afresh body lower scopes) = .ok values) (others : Scopes) :
    edges.mapM (r.afresh body level others) =
      (r.authorizeBelow level others edges).map fun _ => values := by
  induction level generalizing edges lower scopes values others with
  | zero =>
      cases edges with
      | nil =>
          cases hfirst
          rfl
      | cons edge rest =>
          have hless := (hreaches edge (by simp)).1
          omega
  | succ level ih =>
      induction edges generalizing values with
      | nil =>
          cases hfirst
          rfl
      | cons edge rest ihRest =>
          rw [mapM_cons_eq] at hfirst
          split at hfirst
          · cases hfirst
          · rename_i value hvalue
            split at hfirst
            · cases hfirst
            · rename_i more hmore
              cases hfirst
              have hless := (hreaches edge (by simp)).1
              have hsite : r.afresh body (level + 1) others edge =
                  (r.authorizeSite level others edge).map fun _ => value := by
                refine afresh_site rfl hvalue ?_
                intro node hnode
                exact ih node.edges
                  ((r.reaches_below harena hnode).mono (Nat.le_of_lt_succ hless))
              have hrest := ihRest (fun other hother => hreaches other (by simp [hother])) more
                hmore
              rw [mapM_cons_eq, hsite, authorizeBelow_cons]
              cases r.authorizeSite level others edge with
              | error e => rfl
              | ok _ =>
                  simp only [Except.map]
                  rw [hrest]
                  cases r.authorizeBelow (level + 1) others rest <;> rfl

end Resolver

end RequestDispatch
