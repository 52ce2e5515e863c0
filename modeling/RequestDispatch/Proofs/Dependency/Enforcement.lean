import RequestDispatch.Proofs.Dependency.Caching
import RequestDispatch.Proofs.Dependency.Declared
import RequestDispatch.Proofs.Dependency.Endings

/-!
Scopes are enforced on every way, whatever the cache holds. A resolution gives values only to
requests that pass every provider with all the scopes mentioned on each way to it, and it
gives them to all of these unless code that it runs fails.
-/

namespace RequestDispatch

variable {n : Nat} {σ : Type}

namespace Compiled

variable {catalog : Catalog n σ} {references : List (Reference n)} {r : Resolver n σ} {plan : Plan}

/-- The ways down from the roots of a plan are authorized exactly when the references that it
was compiled from are. -/
theorem authorized_iff_declared (hcompiled : Compiled catalog references r.graph plan) :
    (∀ way last, r.graph.Way plan.roots way last →
      (r.graph.dependency last).Authorizes r.request (r.graph.scopesAlong way)) ↔
        catalog.Authorized r.request references :=
  hcompiled.arena.authorized_iff_declared hcompiled.catalog_eq hcompiled.roots r.request

end Compiled

namespace Resolver

/-- A resolution of a compiled plan succeeds only if every way down from the roots is
authorized, whatever the cache holds. If all ways are, it succeeds exactly when all code that it
runs to an end, on the inputs that it hands out, ends with a value, with any cache that no other
resolution is at work on; which code that is and how it ends is logged by a resolver that does
the same otherwise. If some way is not authorized, no resolution of the same declarations with
their references in another order succeeds either. -/
theorem scopes_enforced (r : Resolver n σ) (catalog : Catalog n σ)
    (references : List (Reference n)) (plan : Plan)
    (hcompiled : Compiled catalog references r.graph plan) :
    (∀ p provisions after, r.resolve plan p = (.ok provisions, after) →
      ∀ way last, r.graph.Way plan.roots way last →
        (r.graph.dependency last).Authorizes r.request (r.graph.scopesAlong way)) ∧
    ((∀ way last, r.graph.Way plan.roots way last →
        (r.graph.dependency last).Authorizes r.request (r.graph.scopesAlong way)) →
      ∀ p, p.cache.Settled →
        let run := r.attested.resolve plan p.logging
        (run.1, run.2.plain) = r.resolve plan p ∧
        ((∃ provisions after, r.resolve plan p = (.ok provisions, after)) ↔
          ∀ ending ∈ run.2.log, ∃ value, ending.outcome = .value value)) ∧
    (∀ way last, r.graph.Way plan.roots way last →
      ¬(r.graph.dependency last).Authorizes r.request (r.graph.scopesAlong way) →
        ∀ (other : Catalog n σ) (others : List (Reference n)) (reordered : Resolver n σ)
          (replanned : Plan), catalog.Reorders other → others.Perm references →
          Compiled other others reordered.graph replanned → reordered.request = r.request →
            ∀ p provisions after, reordered.resolve replanned p ≠ (.ok provisions, after)) := by
  have hsound (s : Resolver n σ) (plan : Plan) (p after : Progress n σ) (provisions : Provisions)
      (hrun : s.resolve plan p = (.ok provisions, after)) :
      ∀ way last, s.graph.Way plan.roots way last →
        (s.graph.dependency last).Authorizes s.request (s.graph.scopesAlong way) := by
    intro way last hway
    simpa using authorized_of_resolve plan p after provisions hrun way last hway
  refine ⟨?_, ?_, ?_⟩
  · intro p provisions after hrun
    exact hsound r plan p after provisions hrun
  · intro hways p hsettled
    have hauthorized : r.graph.Authorized r.request [] plan.roots := by
      intro way last hway
      simpa using hways way last hway
    exact ⟨r.resolve_attested plan p,
      resolve_ok_iff hcompiled.arena plan hcompiled.reaches_roots hauthorized p hsettled⟩
  · intro way last hway hrefused other others reordered replanned hreorders hperm hrecompiled
      hrequest p provisions after hrun
    have hdeclared : other.Authorized r.request others := by
      rw [← hrequest]
      exact hrecompiled.authorized_iff_declared.mp
        (hsound reordered replanned p after provisions hrun)
    have hauthorized : catalog.Authorized r.request references :=
      hreorders.authorized hperm _ hdeclared
    exact hrefused (hcompiled.authorized_iff_declared.mpr hauthorized way last hway)

def session : Fin 2 := ⟨0, Nat.two_pos⟩

def profile : Fin 2 := ⟨1, Nat.one_lt_two⟩

/-- A profile that requires a session with the scope "read", which is the only one that the
provider of the session grants. -/
def sampleCatalog : Catalog 2 Unit where
  dependency i :=
    if i = session then
      { name := "session"
        parameters := []
        references := []
        scopes := []
        provider := some ⟨"session", fun _ => .granted ⟨none, ["read"], .null⟩⟩
        cached := true
        routine := .inline fun _ effects => (.value (.text "session"), effects) }
    else
      { name := "profile"
        parameters := []
        references := [⟨"session", session, ["read"]⟩]
        scopes := []
        provider := none
        cached := true
        routine := .inline fun _ effects => (.value (.text "profile"), effects) }
  overrides := []

def sampleResolver : Resolver 2 Unit where
  graph := ⟨sampleCatalog, [⟨session, [], []⟩, ⟨profile, [], [⟨"session", 0, ["read"]⟩]⟩]⟩
  params _ := []
  request := default
  requestId := default

/-- A plan of a route that requires the session and the profile, the latter with scopes. -/
def samplePlan (scopes : List String) : Plan :=
  ⟨[⟨"session", 0, []⟩, ⟨"profile", 1, scopes⟩], [0, 1]⟩

/-- The user, whose code fails without a token, is served with a token of the right scope. A
profile that is required with the scope "write" is not served, also if it stands first. -/
theorem scopes_enforced_sample :
    (∃ provisions after, tokenResolver.resolve (tokenPlan ["read"]) ⟨.empty, ⟨0, []⟩, []⟩ =
      (.ok provisions, after)) ∧
    ∀ (p : Progress 2 Unit) provisions after,
      sampleResolver.resolve ⟨[⟨"profile", 1, ["write"]⟩, ⟨"session", 0, []⟩], [1, 0]⟩ p ≠
        (.ok provisions, after) := by
  constructor
  · obtain ⟨_, hserved, _⟩ := scopes_enforced tokenResolver tokenCatalog
      [⟨"user", 1, []⟩, ⟨"again", 1, ["read"]⟩] (tokenPlan ["read"])
      (Compiled.intro [] [] (tokenPlan ["read"]) rfl)
    have hauthorized :=
      tokenResolver.authorized_of_authorizeBelow 2 [] (tokenPlan ["read"]).roots rfl
    have hways : ∀ way last, tokenResolver.graph.Way (tokenPlan ["read"]).roots way last →
        (tokenResolver.graph.dependency last).Authorizes tokenResolver.request
          (tokenResolver.graph.scopesAlong way) := by
      intro way last hway
      simpa using hauthorized way last hway
    obtain ⟨_, hends⟩ := hserved hways ⟨.empty, ⟨0, []⟩, []⟩ Cache.settled_empty
    -- The token ends first, and the code of the user finds it under the name "second".
    have hlogged : (tokenResolver.attested.resolve (tokenPlan ["read"])
        (Progress.logging ⟨.empty, ⟨0, []⟩, []⟩)).2.log.map (·.outcome) =
          [.value (.text "token"), .value (.text "token of the user")] := rfl
    apply hends.mpr
    intro ending hending
    have houtcome := List.mem_map_of_mem (f := (·.outcome)) hending
    rw [hlogged] at houtcome
    simp only [List.mem_cons, List.not_mem_nil, or_false] at houtcome
    obtain htoken | huser := houtcome
    · exact ⟨_, htoken⟩
    · exact ⟨_, huser⟩
  · have hsample := scopes_enforced sampleResolver sampleCatalog
      [⟨"session", session, []⟩, ⟨"profile", profile, ["write"]⟩] (samplePlan ["write"])
      (Compiled.intro [] [] (samplePlan ["write"]) rfl)
    refine hsample.2.2 [⟨"profile", 1, ["write"]⟩, ⟨"session", 0, ["read"]⟩] ⟨session, [], []⟩
      ?_ ?_ sampleCatalog
      [⟨"profile", profile, ["write"]⟩, ⟨"session", session, []⟩] sampleResolver _
      ?_ ?_ ?_ rfl
    · exact .further (by simp [samplePlan]) rfl (.here (by simp) rfl)
    · intro hauthorized
      obtain ⟨credentials, hgranted, hscopes⟩ := hauthorized _ rfl
      cases hgranted
      have hwrite := hscopes "write" (by simp [Graph.scopesAlong, Graph.scopesAt])
      simp at hwrite
    · exact Catalog.Reorders.refl sampleCatalog
    · exact List.Perm.swap _ _ _
    · exact Compiled.intro [] [] _ rfl

end Resolver

end RequestDispatch
