import Mathlib.Data.List.Induction
import RequestDispatch.Proofs.Route.Bind
import RequestDispatch.Proofs.Route.Compile

/-!
One answer for everything that is wrong. A route is bound exactly when no parameter that it needs
reports an issue alone, and otherwise all their issues are the answer: those of its own parameters,
then those of the nodes that it reaches, without the issues that equal an earlier one.
-/

namespace RequestDispatch

variable {n : Nat} {σ : Type}

namespace Issue

variable {issue : Issue} {issues : List Issue}

/-- The issues that equal none of those before them, in order. -/
def firsts (issues : List Issue) : List Issue :=
  (issues.zipIdx.filter fun (issue, place) =>
    ∀ other ∈ issues.take place, ¬other.Equals issue).map (·.1)

theorem firsts_concat (issues : List Issue) (issue : Issue) :
    firsts (issues ++ [issue]) =
      if ∃ other ∈ issues, other.Equals issue then firsts issues else firsts issues ++ [issue] := by
  have hbefore : (issues.zipIdx.filter fun (later, place) =>
      ∀ other ∈ (issues ++ [issue]).take place, ¬other.Equals later) =
        issues.zipIdx.filter fun (later, place) =>
          ∀ other ∈ issues.take place, ¬other.Equals later := by
    apply List.filter_congr
    rintro ⟨later, place⟩ hlater
    have hplace : place ≤ issues.length := by
      have hless : place < issues.length := List.snd_lt_of_mem_zipIdx hlater
      exact hless.le
    simp only [List.take_append_of_le_length hplace]
  have hlast : ([(issue, issues.length)].filter fun (later, place) =>
      ∀ other ∈ (issues ++ [issue]).take place, ¬other.Equals later) =
        if ∃ other ∈ issues, other.Equals issue then [] else [(issue, issues.length)] := by
    by_cases hagain : ∃ other ∈ issues, other.Equals issue
    · rw [if_pos hagain, List.filter_cons_of_neg (by simpa using hagain), List.filter_nil]
    · rw [if_neg hagain, List.filter_cons_of_pos (by simpa using hagain), List.filter_nil]
  simp only [firsts, List.zipIdx_append, List.zipIdx_singleton, Nat.zero_add, List.filter_append,
    List.map_append, hbefore, hlast]
  split_ifs <;> simp

/-- Among the issues that are left, there is an equal one exactly when there was one. -/
theorem exists_distinct_iff :
    (∃ other ∈ distinct issues, other.Equals issue) ↔ ∃ other ∈ issues, other.Equals issue := by
  constructor
  · rintro ⟨other, hother, hequals⟩
    exact ⟨other, mem_of_mem_distinct hother, hequals⟩
  · rintro ⟨other, hother, hequals⟩
    obtain ⟨first, hfirst, hsame⟩ := exists_mem_distinct hother
    exact ⟨first, hfirst, hsame.trans hequals⟩

theorem distinct_eq_firsts (issues : List Issue) : distinct issues = firsts issues := by
  induction issues using List.reverseRecOn with
  | nil => rfl
  | append_singleton issues issue ih =>
      rw [distinct_concat, firsts_concat, ← ih]
      simp only [exists_distinct_iff]

theorem mem_of_mem_firsts (hissue : issue ∈ firsts issues) : issue ∈ issues := by
  rw [← distinct_eq_firsts] at hissue
  exact mem_of_mem_distinct hissue

theorem exists_mem_firsts (hissue : issue ∈ issues) :
    ∃ other ∈ firsts issues, other.Equals issue := by
  rw [← distinct_eq_firsts]
  exact exists_mem_distinct hissue

theorem firsts_eq_nil_iff : firsts issues = [] ↔ issues = [] := by
  rw [← distinct_eq_firsts, distinct_eq_nil_iff]

/-- No two of the issues that are left are equal. -/
theorem firsts_pairwise (issues : List Issue) :
    (firsts issues).Pairwise fun issue later => ¬issue.Equals later := by
  induction issues using List.reverseRecOn with
  | nil => exact List.Pairwise.nil
  | append_singleton issues issue ih =>
      rw [firsts_concat]
      split
      · exact ih
      · rename_i hnew
        refine List.pairwise_append.mpr ⟨ih, List.pairwise_singleton _ issue, ?_⟩
        intro other hother last hlast hequals
        rw [List.mem_singleton] at hlast
        exact hnew ⟨other, mem_of_mem_firsts hother, hlast ▸ hequals⟩

theorem firsts_nodup (issues : List Issue) : (firsts issues).Nodup := by
  refine (firsts_pairwise issues).imp ?_
  rintro issue _ hunequal rfl
  exact hunequal (.refl issue)

/-- A zero that was received with a sign is the zero that was received without. -/
example :
    let issueOf (zero : Json) : Issue := ⟨["query", "x", "0"], "greater_than_equal", "low", zero⟩
    firsts [issueOf (.number (.real (.zero false))), issueOf (.number (.real (.zero true)))] =
      [issueOf (.number (.real (.zero false)))] := by
  decide

/-- An issue that was there before can be left out. -/
theorem distinct_append_again {before : List Issue} (hbefore : issue ∈ before)
    (more : List Issue) : distinct (before ++ issue :: more) = distinct (before ++ more) := by
  have hagain : distinct (before ++ [issue]) = distinct before := by
    rw [distinct_concat, if_pos (exists_mem_distinct hbefore)]
  simp only [distinct, List.foldl_append, List.foldl_cons, List.foldl_nil] at hagain ⊢
  rw [hagain]

end Issue

namespace Binder

variable {b : Binder}

/-- That an unreadable body is reported only once makes no difference to what is left when
repeated issues are left out. -/
theorem distinct_reports (params : List CompiledParameter) (reported : Bool)
    (before : List Issue)
    (hbefore : reported = true → ∀ issue, b.unreadable? = some issue → issue ∈ before) :
    Issue.distinct (before ++ b.reports reported params) =
      Issue.distinct (before ++ params.flatMap fun p => (b.alone p).issues) := by
  induction params generalizing reported before with
  | nil => rfl
  | cons p rest ih =>
      rw [reports, List.flatMap_cons]
      cases hfails : b.fails p with
      | false =>
          simp only [Bool.and_false, Bool.or_false, Bool.false_eq_true, ↓reduceIte]
          rw [← List.append_assoc, ← List.append_assoc]
          refine ih reported _ ?_
          intro hreported issue hissue
          exact List.mem_append_left _ (hbefore hreported issue hissue)
      | true =>
          simp only [fails, Bool.and_eq_true, decide_eq_true_eq, Option.isSome_iff_exists] at hfails
          obtain ⟨hplace, issue, hunreadable⟩ := hfails
          rw [(alone_of_unreadable hplace hunreadable).1]
          cases reported with
          | false =>
              simp only [Bool.false_and, Bool.false_or, Bool.false_eq_true, ↓reduceIte]
              rw [← List.append_assoc, ← List.append_assoc]
              refine ih true _ ?_
              intro _ other hother
              rw [hunreadable, Option.some.injEq] at hother
              simp [hother]
          | true =>
              simp only [Bool.true_and, Bool.true_or, ↓reduceIte, List.nil_append]
              rw [List.singleton_append,
                Issue.distinct_append_again (hbefore rfl issue hunreadable)]
              exact ih true before hbefore

end Binder

namespace Route

variable {catalog : Catalog n σ} {route : Route n σ} {graph : Graph n σ} {request : Request}
  {captures : List (String × String)}

/-- What the parameters that a route needs report when each is bound alone: its own parameters,
then those of the nodes that it reaches. -/
def reported (route : Route n σ) (graph : Graph n σ) (b : Binder) : List Issue :=
  (route.allParameters graph).flatMap fun p => (b.alone p).issues

theorem reported_eq_nil_iff {b : Binder} :
    route.reported graph b = [] ↔ ∀ p ∈ route.allParameters graph, (b.alone p).issues = [] :=
  List.flatMap_eq_nil_iff

/-- What is left of the issues of a route is what is left of those that each parameter reports. -/
theorem firsts_reports (b : Binder) :
    Issue.firsts (b.reports false (route.allParameters graph)) =
      Issue.firsts (route.reported graph b) := by
  have hsame := Binder.distinct_reports (b := b) (route.allParameters graph) false [] (by simp)
  rwa [List.nil_append, List.nil_append, Issue.distinct_eq_firsts, Issue.distinct_eq_firsts]
    at hsame

/-- Binding a route ends in one of two ways, and what its parameters report alone decides which. -/
theorem bind_decides (route : Route n σ) (graph : Graph n σ) (request : Request)
    (captures : List (String × String)) :
    let reported := route.reported graph (route.binder request captures)
    (reported = [] ∧ ∃ bound, route.bind graph request captures = .ok bound) ∨
      reported ≠ [] ∧
        route.bind graph request captures = .error (.validation (Issue.firsts reported)) := by
  intro reported
  have hissues := congrArg Issue.distinct (issues_eq route graph (route.binder request captures))
  rw [Issue.distinct_eq_firsts (binder _ _ _ |>.reports _ _), firsts_reports] at hissues
  change Issue.distinct _ = Issue.firsts reported at hissues
  simp only [binder] at hissues
  simp only [bind]
  split
  · rename_i hnone
    exact .inl ⟨Issue.firsts_eq_nil_iff.mp (hissues.symm.trans hnone), _, rfl⟩
  · rename_i hsome
    refine .inr ⟨?_, ?_⟩
    · intro hnone
      rw [hnone] at hissues
      exact hsome hissues
    · rw [← hissues]
      rfl

/-- A route is bound exactly when none of its parameters reports anything. -/
theorem bind_eq_ok_iff : (∃ bound, route.bind graph request captures = .ok bound) ↔
    ∀ p ∈ route.allParameters graph, ((route.binder request captures).alone p).issues = [] := by
  rw [← reported_eq_nil_iff]
  obtain ⟨hnone, hbound⟩ | ⟨hsome, herror⟩ := bind_decides route graph request captures
  · exact iff_of_true hbound hnone
  · refine iff_of_false ?_ hsome
    rintro ⟨bound, hbound⟩
    rw [herror] at hbound
    cases hbound

/-- What a bound route holds: the values of its own parameters, and one entry for each node of the
graph. The entry of a node that the route reaches has what the parameters of the node come to alone,
and every other entry is empty. -/
structure Binds (route : Route n σ) (graph : Graph n σ) (b : Binder) (bound : BoundRequest) :
    Prop where
  own : bound.route = (b.bindFrom .fresh route.parameters).values
  size : bound.nodes.length = graph.nodes.length
  present : ∀ i, (∃ values, bound.nodes[i]? = some (some values)) ↔ i ∈ route.plan.reachable
  below : ∀ i node, i ∈ route.plan.reachable → graph.nodes[i]? = some node →
    bound.nodes[i]? = some (some (b.bindFrom .fresh node.parameters).values)

theorem binds_of_bind (hreachable : ∀ i ∈ route.plan.reachable, i < graph.nodes.length)
    {bound : BoundRequest} (hbind : route.bind graph request captures = .ok bound) :
    route.Binds graph (route.binder request captures) bound := by
  have hnodes := nodes_of_bind hbind
  refine ⟨(bind_ok hbind).2.1, by rw [hnodes, List.length_map, List.length_range], ?_, ?_⟩
  · intro i
    rw [hnodes, List.getElem?_map]
    by_cases hi : i ∈ route.plan.reachable
    · simp [hi, hreachable i hi]
    · refine iff_of_false ?_ hi
      rintro ⟨values, hvalues⟩
      obtain ⟨j, hj, hentry⟩ := Option.map_eq_some_iff.mp hvalues
      obtain ⟨_, rfl⟩ := List.getElem?_eq_some_iff.mp hj
      rw [List.getElem_range, if_neg hi] at hentry
      cases hentry
  · intro i node hi hnode
    rw [hnodes, List.getElem?_map, List.getElem?_range (hreachable i hi), Option.map_some,
      if_pos hi, Graph.parametersAt_eq hnode]

/-- Binding a route gives one answer for everything that is wrong. It succeeds exactly when no
parameter that the route needs reports an issue. Otherwise the error holds the issues of the route's
own parameters and then those of the nodes that it reaches, in the order of the plan, without those
that equal an earlier one: no two of them are equal, all of them were reported, and each issue that
was reported is there or equals one that is. On success the route and the nodes that it reaches, and
no others, have what their parameters come to alone. -/
theorem bind_aggregates {declared : List (RouteDeclaration n σ)} {routes : List (Route n σ)}
    (hcompile : Route.compileAll catalog declared = .ok (routes, graph)) (hroute : route ∈ routes)
    (request : Request) (captures : List (String × String)) :
    let b := route.binder request captures
    let reported := route.reported graph b
    ((∃ bound, route.bind graph request captures = .ok bound) ↔
      ∀ p ∈ route.allParameters graph, (b.alone p).issues = []) ∧
    (∀ e, route.bind graph request captures = .error e →
      e = .validation (Issue.firsts reported)) ∧
    (Issue.firsts reported).Pairwise (fun issue later => ¬issue.Equals later) ∧
    (∀ issue ∈ Issue.firsts reported,
      ∃ p ∈ route.allParameters graph, issue ∈ (b.alone p).issues) ∧
    (∀ p ∈ route.allParameters graph, ∀ issue ∈ (b.alone p).issues,
      ∃ first ∈ Issue.firsts reported, first.Equals issue) ∧
    ∀ bound, route.bind graph request captures = .ok bound → route.Binds graph b bound := by
  intro b reported
  have hcompiled := Route.compiled_of_compileAll hcompile hroute
  have hreachable : ∀ i ∈ route.plan.reachable, i < graph.nodes.length := by
    intro i hi
    obtain ⟨node, hnode, _⟩ := hcompiled.reachable_closed.2 i hi
    exact (List.getElem?_eq_some_iff.mp hnode).1
  refine ⟨bind_eq_ok_iff, ?_, Issue.firsts_pairwise reported, ?_, ?_,
    fun bound => binds_of_bind hreachable⟩
  · intro e he
    obtain ⟨_, bound, hbound⟩ | ⟨_, herror⟩ := bind_decides route graph request captures
    · rw [hbound] at he
      cases he
    · rw [herror] at he
      cases he
      rfl
  · intro issue hissue
    exact List.mem_flatMap.mp (Issue.mem_of_mem_firsts hissue)
  · intro p hp issue hissue
    exact Issue.exists_mem_firsts (List.mem_flatMap.mpr ⟨p, hp, hissue⟩)

/-- Paging that reads a limit, as the route that requires it does. -/
def pagingCatalog : Catalog 1 Unit where
  dependency _ :=
    { GraphBuilder.plainDependency "paging" [] [] with
      parameters := [.ofType "limit" .query .int, .ofType "size" .query .int] }
  overrides := []

def listRoute : RouteDeclaration 1 Unit where
  method := "GET"
  pattern := "/items"
  handlerName := "list"
  handler := .inline fun _ effects => (.value .empty, effects)
  parameters := [.ofType "limit" .query .int, .ofType "page" .query .int]
  references := [⟨"paging", ⟨0, Nat.one_pos⟩, []⟩]
  response := .unspecified

/-- A request with a query. -/
def queried (query : String) : Request :=
  { (default : Request) with query }

/-- The limit is no number, for the route and for paging, which is reported once. -/
theorem bind_aggregates_sample :
    ∃ routes graph route, Route.compileAll pagingCatalog [listRoute] = .ok (routes, graph) ∧
      route ∈ routes ∧
      (∃ issues, route.bind graph (queried "limit=ten&size=big") [] =
          .error (.validation issues) ∧
        issues.map (·.loc) = [["query", "limit"], ["query", "page"], ["query", "size"]]) ∧
      ∃ bound, route.bind graph (queried "limit=5&page=2&size=9") [] = .ok bound ∧
        bound.nodes.length = 1 := by
  obtain ⟨routes, graph, route, hcompile, hroute, hsize, hbroken, hfine⟩ :
      ∃ routes graph route, Route.compileAll pagingCatalog [listRoute] = .ok (routes, graph) ∧
        route ∈ routes ∧ graph.nodes.length = 1 ∧
        (Issue.firsts (route.reported graph
          (route.binder (queried "limit=ten&size=big") []))).map (·.loc) =
            [["query", "limit"], ["query", "page"], ["query", "size"]] ∧
        route.reported graph (route.binder (queried "limit=5&page=2&size=9") []) = [] :=
    ⟨_, _, _, rfl, List.mem_singleton_self _, rfl, by decide +kernel, by decide⟩
  refine ⟨routes, graph, route, hcompile, hroute, ?_, ?_⟩
  · obtain ⟨hok, herror, _⟩ := bind_aggregates hcompile hroute (queried "limit=ten&size=big") []
    cases hbind : route.bind graph (queried "limit=ten&size=big") [] with
    | ok bound =>
        have hnone := reported_eq_nil_iff.mpr (hok.mp ⟨bound, hbind⟩)
        rw [hnone] at hbroken
        cases hbroken
    | error e =>
        obtain rfl := herror e hbind
        exact ⟨_, rfl, hbroken⟩
  · obtain ⟨hok, _, _, _, _, hbinds⟩ :=
      bind_aggregates hcompile hroute (queried "limit=5&page=2&size=9") []
    obtain ⟨bound, hbind⟩ := hok.mpr (reported_eq_nil_iff.mp hfine)
    exact ⟨bound, hbind, (hbinds bound hbind).size.trans hsize⟩

end Route

end RequestDispatch
