import RequestDispatch.Proofs.Dependency.Declared
import RequestDispatch.Proofs.Dependency.Evaluations
import RequestDispatch.Proofs.Dependency.Plans

/-!
What is received for references. Dependencies are told apart by identity, and their values are
handed on by name. So under a name stands a value of the dependency that the last reference of that
name leads to, and a reference is answered by its own dependency unless a later one of the same name
leads to another.
-/

namespace RequestDispatch

variable {n : Nat} {σ : Type}

namespace Provisions

/-- Values under the names of the references that they are received for. -/
def under (references : List (Reference n)) (values : List Provided) : Provisions :=
  (references.map (·.name)).zip values

theorem find?_under_cons (reference : Reference n) (rest : List (Reference n)) (value : Provided)
    (values : List Provided) (name : String) :
    (under (reference :: rest) (value :: values)).find? name =
      ((under rest values).find? name).or
        (if name = reference.name then some value else none) := by
  unfold find? under
  rw [List.map_cons, List.zip_cons_cons, List.reverse_cons, List.lookup_append, List.lookup_cons,
    List.lookup_nil]
  by_cases hsame : name = reference.name
  · rw [if_pos hsame, beq_iff_eq.mpr hsame]
  · rw [if_neg hsame, beq_eq_false_iff_ne.mpr hsame]

end Provisions

namespace Catalog

/-- Code of the dependency that a reference leads to has ended with a value. -/
def Yields (catalog : Catalog n σ) (log : List (Event n)) (reference : Reference n)
    (value : Provided) : Prop :=
  .ended (catalog.effective reference.target) value ∈ log

/-- What is received for references. -/
structure Answers (catalog : Catalog n σ) (log : List (Event n)) (references : List (Reference n))
    (provided : Provisions) : Prop where
  /-- There are values under the names of the references, and under no other names. -/
  names : ∀ name, provided.find? name = none ↔ ∀ reference ∈ references, reference.name ≠ name
  /-- Under a name stands a value of the last reference of that name. -/
  last : ∀ name value, provided.find? name = some value →
    ∃ earlier reference later, references = earlier ++ reference :: later ∧
      reference.name = name ∧ (∀ other ∈ later, other.name ≠ name) ∧
      catalog.Yields log reference value
  /-- A reference is answered by its own dependency, unless a later one of the same name leads to
  another dependency. -/
  own : ∀ earlier reference later, references = earlier ++ reference :: later →
    (∀ other ∈ later, other.name = reference.name →
      catalog.effective other.target = catalog.effective reference.target) →
    ∃ value, provided.find? reference.name = some value ∧ catalog.Yields log reference value

variable {catalog : Catalog n σ} {log : List (Event n)} {references : List (Reference n)}
  {values : List Provided}

/-- A name has no value exactly when no reference has it. -/
theorem find?_under_eq_none (hyields : List.Forall₂ (catalog.Yields log) references values)
    (name : String) :
    (Provisions.under references values).find? name = none ↔
      ∀ reference ∈ references, reference.name ≠ name := by
  induction hyields with
  | nil => simp [Provisions.under, Provisions.find?]
  | cons _ _ ih =>
      rw [Provisions.find?_under_cons, Option.or_eq_none_iff, ih, List.forall_mem_cons, and_comm]
      simp [eq_comm]

theorem last_of_find?_under (hyields : List.Forall₂ (catalog.Yields log) references values)
    {name : String} {value : Provided}
    (hfound : (Provisions.under references values).find? name = some value) :
    ∃ earlier reference later, references = earlier ++ reference :: later ∧
      reference.name = name ∧ (∀ other ∈ later, other.name ≠ name) ∧
      catalog.Yields log reference value := by
  induction hyields with
  | nil => cases hfound
  | @cons first own rest more hown hrest ih =>
      rw [Provisions.find?_under_cons, Option.or_eq_some_iff] at hfound
      obtain hlater | ⟨hnone, hhere⟩ := hfound
      · obtain ⟨earlier, reference, later, rfl, hreference⟩ := ih hlater
        exact ⟨first :: earlier, reference, later, rfl, hreference⟩
      · split at hhere
        · rename_i hname
          cases hhere
          exact ⟨[], first, rest, rfl, hname.symm, (find?_under_eq_none hrest name).mp hnone, hown⟩
        · cases hhere

theorem own_of_yields {earlier later : List (Reference n)} {reference : Reference n}
    (hyields : List.Forall₂ (catalog.Yields log) (earlier ++ reference :: later) values)
    (hsame : ∀ other ∈ later, other.name = reference.name →
      catalog.effective other.target = catalog.effective reference.target) :
    ∃ value, (Provisions.under (earlier ++ reference :: later) values).find? reference.name =
        some value ∧ catalog.Yields log reference value := by
  induction earlier generalizing values with
  | nil =>
      obtain _ | @⟨_, own, _, more, hown, hlater⟩ := hyields
      rw [List.nil_append, Provisions.find?_under_cons, if_pos rfl]
      cases hfound : (Provisions.under later more).find? reference.name with
      | none => exact ⟨own, rfl, hown⟩
      | some value =>
          -- A later value counts, and its reference leads to the same dependency.
          obtain ⟨_, other, _, rfl, hname, _, hother⟩ := last_of_find?_under hlater hfound
          unfold Yields at hother
          rw [hsame other (by simp) hname] at hother
          exact ⟨value, rfl, hother⟩
  | cons first rest ih =>
      obtain _ | @⟨_, own, _, more, _, hrest⟩ := hyields
      obtain ⟨value, hfound, hvalue⟩ := ih hrest
      refine ⟨value, ?_, hvalue⟩
      rw [List.cons_append, Provisions.find?_under_cons, hfound]
      rfl

/-- Values under the names of the references that yield them answer these. -/
theorem answers_of_yields (hyields : List.Forall₂ (catalog.Yields log) references values) :
    catalog.Answers log references (.under references values) := by
  refine ⟨find?_under_eq_none hyields, fun _ _ => last_of_find?_under hyields, ?_⟩
  rintro earlier reference later rfl
  exact own_of_yields hyields

end Catalog

namespace Graph

variable {graph : Graph n σ} {catalog : Catalog n σ} {log : List (Event n)} {edges : List Edge}
  {references : List (Reference n)} {provided : Provisions}

/-- What is produced along an edge is a value of the reference that the edge follows. -/
theorem Produces.yields {edge : Edge} {reference : Reference n} {value : Provided}
    (hproduces : graph.Produces log edge value)
    (hfollows : edge.Follows catalog graph.nodes reference) :
    catalog.Yields log reference value := by
  obtain ⟨node, hnode, hended⟩ := hproduces
  rw [hfollows.identity_eq hnode] at hended
  exact hended

theorem yields_of_produces {values : List Provided}
    (hfollows : List.Forall₂ (Edge.Follows catalog graph.nodes) edges references)
    (hproduces : List.Forall₂ (graph.Produces log) edges values) :
    List.Forall₂ (catalog.Yields log) references values := by
  induction hfollows generalizing values with
  | nil =>
      cases hproduces
      exact .nil
  | cons hfirst _ ih =>
      obtain _ | ⟨hvalue, hrest⟩ := hproduces
      exact .cons (hvalue.yields hfirst) (ih hrest)

theorem names_of_follows
    (hfollows : List.Forall₂ (Edge.Follows catalog graph.nodes) edges references) :
    edges.map (·.name) = references.map (·.name) := by
  induction hfollows with
  | nil => rfl
  | cons hfirst _ ih => rw [List.map_cons, List.map_cons, hfirst.name, ih]

/-- Provisions for edges answer the references that the edges follow. -/
theorem Supplies.answers
    (hfollows : List.Forall₂ (Edge.Follows catalog graph.nodes) edges references)
    (hsupplies : graph.Supplies log edges provided) :
    catalog.Answers log references provided := by
  obtain ⟨values, rfl, hproduces⟩ := hsupplies
  rw [names_of_follows hfollows]
  exact Catalog.answers_of_yields (yields_of_produces hfollows hproduces)

/-- Code begins with answers to the references of its dependency. -/
theorem Ordered.answers (hordered : graph.Ordered log) (harena : Arena catalog graph.nodes)
    {before after : List (Event n)} {i : Fin n} {input : DependencyInput}
    (hlog : log = before ++ .began i input :: after) :
    catalog.Answers before (catalog.dependency i).references input.provided := by
  obtain ⟨node, hmember, rfl, hsupplies⟩ := hordered _ _ _ _ hlog
  obtain ⟨_, hnode⟩ := List.getElem?_of_mem hmember
  exact hsupplies.answers (harena.follows_all hnode)

end Graph

namespace Resolver

/-- How the references of a plan and of dependencies are answered. When a resolution succeeds that
begins with an empty cache, it goes the same way on record. With regard to what happens to code
then, the provisions at the end answer the references of the plan, and whenever code begins, what it
is given answers the references of its dependency with values that were there before. -/
theorem resolve_answers (r : Resolver n σ) {catalog : Catalog n σ}
    {references : List (Reference n)} {plan : Plan}
    (hcompiled : Compiled catalog references r.graph plan) {p after : Progress n σ}
    (hempty : p.cache = .empty) {provisions : Provisions}
    (hrun : r.resolve plan p = (.ok provisions, after)) :
    (∃ last, r.recorded.resolve plan p.onRecord = (.ok provisions, last) ∧
      last.erase = after ∧ last.effects.state.log = r.history plan p) ∧
    catalog.Answers (r.history plan p) references provisions ∧
    ∀ before i input rest, r.history plan p = before ++ .began i input :: rest →
      catalog.Answers before (catalog.dependency i).references input.provided := by
  obtain ⟨hordered, hsupplied⟩ := supplies_of_history hempty hrun
  refine ⟨recorded_of_resolve hrun, hsupplied.answers hcompiled.roots, ?_⟩
  intro before i input rest hlog
  exact hordered.answers hcompiled.arena hlog

def elder : Fin 2 := ⟨0, Nat.two_pos⟩

def younger : Fin 2 := ⟨1, Nat.one_lt_two⟩

/-- Two dependencies of one name. -/
def twinCatalog : Catalog 2 Unit where
  dependency i :=
    { GraphBuilder.plainDependency "twin" [] [] with
      routine := .inline fun _ effects =>
        (.value (.text (if i = elder then "elder" else "younger")), effects) }
  overrides := []

def twinResolver : Resolver 2 Unit where
  graph := ⟨twinCatalog, [⟨elder, [], []⟩, ⟨younger, [], []⟩]⟩
  params _ := []
  request := default
  requestId := default

/-- Under two names, either twin is received. -/
theorem resolve_answers_sample :
    let plan : Plan := ⟨[⟨"left", 0, []⟩, ⟨"right", 1, []⟩], [0, 1]⟩
    let p : Progress 2 Unit := ⟨.empty, ⟨(), []⟩, []⟩
    ∃ provisions after, twinResolver.resolve plan p = (.ok provisions, after) ∧
      (∃ value, provisions.find? "left" = some value ∧
        .ended elder value ∈ twinResolver.history plan p) ∧
      ∃ value, provisions.find? "right" = some value ∧
        .ended younger value ∈ twinResolver.history plan p := by
  intro plan p
  have hcompiled : Compiled twinCatalog [⟨"left", elder, []⟩, ⟨"right", younger, []⟩]
      twinResolver.graph plan := .intro [] [] plan rfl
  obtain ⟨provisions, after, hrun⟩ :
      ∃ provisions after, twinResolver.resolve plan p = (.ok provisions, after) := ⟨_, _, rfl⟩
  obtain ⟨_, hanswers, _⟩ := resolve_answers twinResolver hcompiled rfl hrun
  refine ⟨provisions, after, hrun, ?_, ?_⟩
  · exact hanswers.own [] ⟨"left", elder, []⟩ [⟨"right", younger, []⟩] rfl (by simp)
  · exact hanswers.own [⟨"left", elder, []⟩] ⟨"right", younger, []⟩ [] rfl (by simp)

/-- When both twins are required by their own name, only the value of the second one is received,
and it is not one of the first. -/
theorem replaced_twin :
    let plan : Plan := ⟨[⟨"twin", 0, []⟩, ⟨"twin", 1, []⟩], [0, 1]⟩
    let p : Progress 2 Unit := ⟨.empty, ⟨(), []⟩, []⟩
    Compiled twinCatalog [twinCatalog.referenceTo elder, twinCatalog.referenceTo younger]
      twinResolver.graph plan ∧
    ∃ provisions after, twinResolver.resolve plan p = (.ok provisions, after) ∧
      ¬∃ value, provisions.find? "twin" = some value ∧
        .ended (twinCatalog.effective elder) value ∈ twinResolver.history plan p := by
  intro plan p
  refine ⟨.intro [] [] plan rfl,
    [("twin", .text "elder"), ("twin", .text "younger")], _, rfl, ?_⟩
  rintro ⟨value, hfound, hended⟩
  obtain rfl : .text "younger" = value := Option.some.inj hfound
  obtain ⟨first, second, hhistory⟩ : ∃ first second, twinResolver.history plan p =
      [.began elder first, .ended elder (.text "elder"),
        .began younger second, .ended younger (.text "younger")] := ⟨_, _, rfl⟩
  rw [hhistory] at hended
  simp [Catalog.effective, twinCatalog, elder, younger] at hended

end Resolver

end RequestDispatch
