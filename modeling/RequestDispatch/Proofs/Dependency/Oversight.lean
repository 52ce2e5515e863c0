import RequestDispatch.Proofs.Dependency.Cycles
import RequestDispatch.Proofs.Dependency.Enforcement
import RequestDispatch.Proofs.Dependency.Nodes

/-!
Which scopes are checked at all. A scope is checked where there is a provider. A dependency that
has scopes of its own must have a provider; of one that is only required with scopes nothing is
demanded, so these are checked exactly when there is a provider at the dependency or beneath it.
-/

namespace RequestDispatch

variable {n : Nat} {σ : Type}

namespace Catalog

variable (catalog : Catalog n σ)

/-- A dependency itself, or one that it requires in some number of steps. -/
inductive AtOrBeneath (upper : Fin n) : Fin n → Prop where
  | itself : AtOrBeneath upper upper
  | beneath {way : List (Reference n)} {lower : Fin n}
      (hway : catalog.Requires (catalog.dependency upper).references way lower) :
      AtOrBeneath upper lower

/-- There is a provider at a dependency or beneath it. -/
def Overseen (upper : Fin n) : Prop :=
  ∃ lower, catalog.AtOrBeneath upper lower ∧ (catalog.dependency lower).provider.isSome

/-- A provider at a dependency or beneath it grants a scope to a request. -/
def Grants (request : Request) (upper : Fin n) (scope : String) : Prop :=
  ∃ lower provider credentials, catalog.AtOrBeneath upper lower ∧
    (catalog.dependency lower).provider = some provider ∧
    provider.authenticate request = .granted credentials ∧ scope ∈ credentials.scopes

/-- A reference that is one of the given ones or belongs to a dependency that these require. -/
def Mentions (references : List (Reference n)) (reference : Reference n) : Prop :=
  reference ∈ references ∨ ∃ way last, catalog.Requires references way last ∧
    reference ∈ (catalog.dependency last).references

variable {catalog} {references : List (Reference n)}

theorem Grants.overseen {request : Request} {upper : Fin n} {scope : String}
    (hgrants : catalog.Grants request upper scope) : catalog.Overseen upper := by
  obtain ⟨lower, provider, _, hbeneath, hprovider, _⟩ := hgrants
  exact ⟨lower, hbeneath, by rw [hprovider, Option.isSome_some]⟩

/-- The scopes of a dependency are mentioned on every way to it. -/
theorem Requires.mentions_own {way : List (Reference n)} {last : Fin n}
    (hway : catalog.Requires references way last) :
    (catalog.dependency last).scopes ⊆ way.flatMap catalog.scopesAt := by
  induction hway with
  | here hreference =>
      intro scope hscope
      simp only [List.flatMap_cons, List.flatMap_nil, List.append_nil, scopesAt]
      exact List.mem_append_right _ hscope
  | further _ _ ih =>
      intro scope hscope
      rw [List.flatMap_cons]
      exact List.mem_append_right _ (ih hscope)

/-- Some way goes over a mentioned reference, and so do its continuations. -/
theorem Mentions.way {reference : Reference n} (hmentions : catalog.Mentions references reference)
    {lower : Fin n}
    (hbeneath : catalog.AtOrBeneath (catalog.effective reference.target) lower) :
    ∃ way, catalog.Requires references way lower ∧ reference ∈ way := by
  -- From where the reference stands: the reference, and then down to the lower dependency.
  have hdown {others : List (Reference n)} (hreference : reference ∈ others) :
      ∃ way, catalog.Requires others way lower ∧ reference ∈ way := by
    cases hbeneath with
    | itself => exact ⟨[reference], .here hreference, List.mem_cons_self⟩
    | @beneath way _ hway => exact ⟨reference :: way, .further hreference hway, List.mem_cons_self⟩
  obtain hroot | ⟨above, last, habove, hreference⟩ := hmentions
  · exact hdown hroot
  · obtain ⟨way, hway, hmember⟩ := hdown hreference
    exact ⟨above ++ way, habove.append hway, List.mem_append_right _ hmember⟩

/-- Where every way is authorized, a mentioned scope is granted if it is overseen. -/
theorem Authorized.grants {request : Request} (hauthorized : catalog.Authorized request references)
    {reference : Reference n} (hmentions : catalog.Mentions references reference)
    {scope : String} (hscope : scope ∈ reference.scopes)
    (hoverseen : catalog.Overseen (catalog.effective reference.target)) :
    catalog.Grants request (catalog.effective reference.target) scope := by
  obtain ⟨lower, hbeneath, hprovider⟩ := hoverseen
  obtain ⟨provider, hprovider⟩ := Option.isSome_iff_exists.mp hprovider
  obtain ⟨way, hway, hmember⟩ := hmentions.way hbeneath
  obtain ⟨credentials, hgranted, hscopes⟩ := hauthorized way lower hway provider hprovider
  have hrequired : scope ∈ way.flatMap catalog.scopesAt :=
    List.mem_flatMap.mpr ⟨reference, hmember, List.mem_append_left _ hscope⟩
  exact ⟨lower, provider, credentials, hbeneath, hprovider, hgranted, hscopes scope hrequired⟩

end Catalog

/-- Every dependency that a plan requires is well declared. -/
theorem Compiled.wellDeclared {catalog : Catalog n σ} {references : List (Reference n)}
    {graph : Graph n σ} {plan : Plan} (hcompiled : Compiled catalog references graph plan)
    {way : List (Reference n)} {last : Fin n} (hway : catalog.Requires references way last) :
    (catalog.dependency last).WellDeclared := by
  obtain ⟨_, node, hnode, rfl, _⟩ :=
    hcompiled.arena.way_of_requires hcompiled.catalog_eq hway hcompiled.roots
  obtain ⟨i, _, hi⟩ := hcompiled.listed_of_way hnode
  have hparameters := hcompiled.declared node (List.mem_of_getElem? hi)
  exact (GraphBuilder.compileDeclared_ok_iff _).mp ⟨_, hparameters⟩

namespace Resolver

/-- When a resolution succeeds, the scopes of every required dependency have been granted by a
provider at the dependency or beneath it, and the scopes of every reference that is followed have
been granted by one at the dependency that it leads to or beneath it, if there is any provider. -/
theorem scopes_checked_iff (r : Resolver n σ) (catalog : Catalog n σ)
    (references : List (Reference n)) (plan : Plan)
    (hcompiled : Compiled catalog references r.graph plan) (p after : Progress n σ)
    (provisions : Provisions) (hrun : r.resolve plan p = (.ok provisions, after)) :
    (∀ way last, catalog.Requires references way last →
      ∀ scope ∈ (catalog.dependency last).scopes, catalog.Grants r.request last scope) ∧
    ∀ reference, catalog.Mentions references reference → ∀ scope ∈ reference.scopes,
      (catalog.Grants r.request (catalog.effective reference.target) scope ↔
        catalog.Overseen (catalog.effective reference.target)) := by
  have hauthorized : catalog.Authorized r.request references := by
    apply hcompiled.authorized_iff_declared.mp
    intro way last hway
    simpa using authorized_of_resolve plan p after provisions hrun way last hway
  constructor
  · intro way last hway scope hscope
    have hprovided : (catalog.dependency last).provider.isSome := by
      obtain hnone | hsome := (hcompiled.wellDeclared hway).guarded
      · rw [hnone] at hscope
        cases hscope
      · exact hsome
    obtain ⟨provider, hprovider⟩ := Option.isSome_iff_exists.mp hprovided
    obtain ⟨credentials, hgranted, hscopes⟩ := hauthorized way last hway provider hprovider
    exact ⟨last, provider, credentials, .itself, hprovider, hgranted,
      hscopes scope (hway.mentions_own hscope)⟩
  · intro reference hmentions scope hscope
    constructor
    · exact Catalog.Grants.overseen
    · exact hauthorized.grants hmentions hscope

/-- The scope that the profile requires of the session is granted by the provider of the session
whenever the profile is resolved. -/
theorem scopes_checked_iff_sample :
    (∃ provisions after, sampleResolver.resolve (samplePlan []) ⟨.empty, ⟨(), []⟩, []⟩ =
      (.ok provisions, after)) ∧
    sampleCatalog.Overseen session ∧ sampleCatalog.Grants default session "read" := by
  have hcompiled : Compiled sampleCatalog
      [⟨"session", session, []⟩, ⟨"profile", profile, []⟩] sampleResolver.graph (samplePlan []) :=
    .intro [] [] (samplePlan []) rfl
  obtain ⟨_, hsites⟩ := scopes_checked_iff sampleResolver sampleCatalog _ (samplePlan [])
    hcompiled ⟨.empty, ⟨(), []⟩, []⟩ _ _ rfl
  have hmentions : sampleCatalog.Mentions
      [⟨"session", session, []⟩, ⟨"profile", profile, []⟩] ⟨"session", session, ["read"]⟩ :=
    .inr ⟨[⟨"profile", profile, []⟩], profile,
      .here (List.mem_cons_of_mem _ List.mem_cons_self), List.mem_cons_self⟩
  have hoverseen : sampleCatalog.Overseen session := ⟨session, .itself, rfl⟩
  exact ⟨⟨_, _, rfl⟩, hoverseen,
    (hsites _ hmentions "read" List.mem_cons_self).mpr hoverseen⟩

/-- A single dependency without a provider, and a resolver for it. -/
def dataCatalog : Catalog 1 Unit where
  dependency _ := GraphBuilder.plainDependency "data" [] []
  overrides := []

def dataResolver : Resolver 1 Unit where
  graph := ⟨dataCatalog, [⟨0, [], []⟩]⟩
  params _ := []
  request := default
  requestId := default

/-- A route that requires data with the scope "admin" is accepted, and the data is handed out to a
request to which nobody has granted that scope. -/
theorem unchecked_scope :
    Compiled dataCatalog [⟨"data", 0, ["admin"]⟩] dataResolver.graph
      ⟨[⟨"data", 0, ["admin"]⟩], [0]⟩ ∧
    (∃ after, dataResolver.resolve ⟨[⟨"data", 0, ["admin"]⟩], [0]⟩ ⟨.empty, ⟨(), []⟩, []⟩ =
      (.ok [("data", .text "data")], after)) ∧
    ¬dataCatalog.Grants dataResolver.request 0 "admin" := by
  refine ⟨.intro [] [] _ rfl, ⟨_, rfl⟩, ?_⟩
  intro hgrants
  obtain ⟨lower, _, hprovider⟩ := hgrants.overseen
  cases hprovider

end Resolver

end RequestDispatch
