import RequestDispatch.Proofs.Dependency.Completion
import RequestDispatch.Proofs.Dependency.Strands

/-!
The resolver polls branches in rounds, siblings in the order of their declaration. That is one of
the orders in which branches may advance: whatever a resolution comes to, strands can come to as
well.
-/

namespace RequestDispatch

variable {n : Nat} {σ : Type}

/-- A branch of the resolver and the strand that has come as far. -/
inductive Branch.Shows : Branch n → Strand n → Prop
  | resolved (visit : Visit n) (value : Provided) :
      Shows (.resolved value) (.resolved visit value)
  | waiting (visit : Visit n) : Shows (.waiting visit) (.waiting visit)
  | gathering (visit : Visit n) {below : List (Branch n)} {strands : List (Strand n)}
      (hbelow : List.Forall₂ Shows below strands) :
      Shows (.gathering visit below) (.gathering visit strands)
  | running (visit : Visit n) (provided : Provisions) (polls : Nat) :
      Shows (.running visit provided polls) (.running visit provided polls)

/-- The same was changed, once all evaluations that are going on are given up. -/
structure Progress.Matches (p q : Progress n σ) : Prop where
  cache : p.cache.release = q.cache.release
  effects : p.effects = q.effects
  journal : p.journal = q.journal

theorem Progress.matches_refl (p : Progress n σ) : p.Matches p :=
  ⟨rfl, rfl, rfl⟩

theorem Branch.Shows.values_eq {branches : List (Branch n)} {strands : List (Strand n)}
    (hshows : List.Forall₂ Branch.Shows branches strands) :
    strands.mapM Strand.value? = branches.mapM Branch.value? := by
  induction hshows with
  | nil => rfl
  | cons hfirst _ ih =>
      rw [List.mapM_cons, List.mapM_cons, ih]
      cases hfirst <;> rfl

namespace Resolver

variable {r : Resolver n σ}

/-- A strand advances any number of times. -/
abbrev Goes (r : Resolver n σ) : Strand n × Progress n σ → Strand n × Progress n σ → Prop :=
  Relation.ReflTransGen fun one two => r.Advances one.1 one.2 two.1 two.2

/-- What a step comes to for a branch, its strand can come to. -/
inductive Realizes (r : Resolver n σ) (s : Strand n) (p : Progress n σ) :
    Except DispatchError (Branch n) × Progress n σ → Prop
  | ok {b : Branch n} {t : Strand n} {q : Progress n σ} (hshows : b.Shows t)
      (hgoes : r.Goes (s, p) (t, q)) : Realizes r s p (.ok b, q)
  | error {e : DispatchError} {q last : Progress n σ} (hgoes : r.Goes (s, p) (.failed e, last))
      (hmatches : last.Matches q) : Realizes r s p (.error e, q)

/-- What a step of branches side by side comes to, in the sense of `shows`, their strands can come
to. One of the strands fails when the step does. -/
inductive RealizesAll {α : Type} (r : Resolver n σ) (shows : α → List (Strand n) → Prop)
    (strands : List (Strand n)) (p : Progress n σ) : Except DispatchError α × Progress n σ → Prop
  | ok {a : α} {next : List (Strand n)} {q : Progress n σ} (hshows : shows a next)
      (hruns : r.Interleaves (strands, p) (next, q)) : RealizesAll r shows strands p (.ok a, q)
  | error {e : DispatchError} {next : List (Strand n)} {q last : Progress n σ}
      (hfailed : .failed e ∈ next) (hruns : r.Interleaves (strands, p) (next, last))
      (hmatches : last.Matches q) : RealizesAll r shows strands p (.error e, q)

/-- Strands that all have come to these values. -/
def Finishes (values : List Provided) (strands : List (Strand n)) : Prop :=
  strands.mapM Strand.value? = some values

/-- What a resolution of a plan comes to, strands that advance in some order come to: to the values
that it hands over, with the same cache, effects and incidents; or to the error that it ends with,
and to the same cache once all that is going on is given up. -/
def Attains (r : Resolver n σ) (plan : Plan) (p : Progress n σ) :
    Except DispatchError Provisions × Progress n σ → Prop
  | (.ok provisions, q) => ∃ strands values, r.Interleaves (plan.begun, p) (strands, q) ∧
      Finishes values strands ∧ provisions = (plan.roots.map (·.name)).zip values
  | (.error e, q) => ∃ strands last, r.Interleaves (plan.begun, p) (strands, last) ∧
      .failed e ∈ strands ∧ last.Matches q

/-! ### Strands among others -/

theorem Goes.head {one two : Strand n × Progress n σ} (hgoes : r.Goes one two)
    (rest : List (Strand n)) :
    r.Interleaves (one.1 :: rest, one.2) (two.1 :: rest, two.2) := by
  induction hgoes with
  | refl => exact .refl
  | tail _ hadvances ih => exact ih.tail (.intro [] rest hadvances)

theorem Interleaves.cons {one two : List (Strand n) × Progress n σ}
    (hruns : r.Interleaves one two) (s : Strand n) :
    r.Interleaves (s :: one.1, one.2) (s :: two.1, two.2) := by
  induction hruns with
  | refl => exact .refl
  | tail _ hturn ih =>
      obtain ⟨before, after, hadvances⟩ := hturn
      exact ih.tail (.intro (s :: before) after hadvances)

/-- Strands that are gathered advance as parts of the evaluation. -/
theorem Interleaves.within {one two : List (Strand n) × Progress n σ}
    (hruns : r.Interleaves one two) (visit : Visit n) :
    r.Goes (.gathering visit one.1, one.2) (.gathering visit two.1, two.2) := by
  induction hruns with
  | refl => exact .refl
  | tail _ hturn ih =>
      obtain ⟨before, after, hadvances⟩ := hturn
      exact ih.tail (.within hadvances)

theorem Realizes.after {s t : Strand n} {p q : Progress n σ}
    {result : Except DispatchError (Branch n) × Progress n σ} (hgoes : r.Goes (s, p) (t, q))
    (hrealizes : r.Realizes t q result) : r.Realizes s p result := by
  cases hrealizes with
  | ok hshows hthen => exact .ok hshows (hgoes.trans hthen)
  | error hthen hmatches => exact .error (hgoes.trans hthen) hmatches

/-- Gates that are freed early make no difference when all gates are freed in the end. -/
theorem release_abandon (s : Strand n) (cache : Cache n) :
    (r.abandon s cache).release = cache.release := by
  unfold Cache.release abandon
  congr 1
  funext i
  dsimp only
  by_cases hboth : s.all.any (r.evaluates i) = true ∧ cache.gate i = .taken
  · rw [if_pos hboth, hboth.2]
  · rw [if_neg hboth]

theorem RealizesAll.after {α : Type} {shows : α → List (Strand n) → Prop}
    {strands next : List (Strand n)} {p q : Progress n σ}
    {result : Except DispatchError α × Progress n σ} (hruns : r.Interleaves (strands, p) (next, q))
    (hrealizes : r.RealizesAll shows next q result) : r.RealizesAll shows strands p result := by
  cases hrealizes with
  | ok hshows hthen => exact .ok hshows (hruns.trans hthen)
  | error hfailed hthen hmatches => exact .error hfailed (hruns.trans hthen) hmatches

theorem realizesAll_nil (p : Progress n σ) :
    r.RealizesAll (List.Forall₂ Branch.Shows) [] p (.ok [], p) :=
  .ok .nil .refl

/-! ### Steps of the resolver -/

/-- A branch is polled, and then others. -/
def beside (first : Step n σ (Branch n)) (others : Step n σ (List (Branch n))) :
    Step n σ (List (Branch n)) := fun p =>
  match first p with
  | (.error e, q) => (.error e, q)
  | (.ok b, q) =>
      match others q with
      | (.error e, q) => (.error e, q)
      | (.ok bs, q) => (.ok (b :: bs), q)

theorem pollEach_cons {α : Type} (poll : α → Step n σ (Branch n)) (a : α) (rest : List α) :
    pollEach poll (a :: rest) = beside (poll a) (pollEach poll rest) := by
  funext p
  rw [pollEach, beside]
  obtain ⟨_ | _, q⟩ := poll a p
  · rfl
  · dsimp only
    obtain ⟨_ | _, _⟩ := pollEach poll rest q <;> rfl

theorem pollAll_cons (b : Branch n) (rest : List (Branch n)) :
    r.pollAll (b :: rest) = beside (r.poll b) (r.pollAll rest) := by
  funext p
  simp only [pollAll]
  rfl

theorem realizes_runBody (visit : Visit n) (provided : Provisions) (polls : Nat)
    (p : Progress n σ) :
    r.Realizes (.running visit provided polls) p (r.runBody visit provided polls p) := by
  cases hrun : r.runBody visit provided polls p with
  | mk result q =>
      cases result with
      | error e =>
          exact .error (.single (.fails hrun)) ⟨release_abandon _ q.cache, rfl, rfl⟩
      | ok b =>
          obtain ⟨rfl, _⟩ | ⟨value, rfl, _⟩ := runBody_ok hrun
          · exact .ok (.running visit provided (polls + 1)) (.single (.pauses hrun))
          · exact .ok (.resolved visit value) (.single (.ends hrun))

theorem realizes_gathered (visit : Visit n) {below : List (Branch n)} {strands : List (Strand n)}
    (hshows : List.Forall₂ Branch.Shows below strands) (p : Progress n σ) :
    r.Realizes (.gathering visit strands) p (r.gathered visit below p) := by
  have hsame := Branch.Shows.values_eq hshows
  simp only [gathered]
  cases hvalues : below.mapM Branch.value? with
  | none => exact .ok (.gathering visit hshows) .refl
  | some values =>
      rw [hvalues] at hsame
      exact (realizes_runBody visit _ 0 p).after (.single (.gathers hsame))

/-- An evaluation goes on with what it gathers, or fails with it. -/
theorem RealizesAll.gathers {strands : List (Strand n)} {p : Progress n σ}
    {step : Step n σ (List (Branch n))}
    (hrealizes : r.RealizesAll (List.Forall₂ Branch.Shows) strands p (step p)) (visit : Visit n) :
    r.Realizes (.gathering visit strands) p
      (match step p with
        | (.error e, q) => (.error e, q)
        | (.ok below, q) => r.gathered visit below q) := by
  generalize step p = result at hrealizes ⊢
  cases hrealizes with
  | ok hshows hruns => exact (realizes_gathered visit hshows _).after (hruns.within visit)
  | @error e next q last hfailed hruns hmatches =>
      refine .error ((hruns.within visit).tail (.givesUp hfailed)) ?_
      exact ⟨(release_abandon _ last.cache).trans hmatches.cache, hmatches.effects,
        hmatches.journal⟩

/-- Branches side by side are realized when each of them is. -/
theorem realizesAll_beside {s : Strand n} {rest : List (Strand n)} {p : Progress n σ}
    {first : Step n σ (Branch n)} {others : Step n σ (List (Branch n))}
    (hfirst : r.Realizes s p (first p))
    (hrest : ∀ q, r.RealizesAll (List.Forall₂ Branch.Shows) rest q (others q)) :
    r.RealizesAll (List.Forall₂ Branch.Shows) (s :: rest) p (beside first others p) := by
  rw [beside]
  generalize first p = result at hfirst ⊢
  cases hfirst with
  | error hgoes hmatches => exact .error List.mem_cons_self (hgoes.head rest) hmatches
  | @ok b t q hshows hgoes =>
      have hmore := hrest q
      dsimp only
      generalize others q = result at hmore ⊢
      cases hmore with
      | ok hothers hruns =>
          exact .ok (.cons hshows hothers) ((hgoes.head rest).trans (hruns.cons t))
      | error hfailed hruns hmatches =>
          exact .error (List.mem_cons_of_mem _ hfailed) ((hgoes.head rest).trans (hruns.cons t))
            hmatches

theorem realizesAll_pollEach {α : Type} {poll : α → Step n σ (Branch n)} {strand : α → Strand n}
    (items : List α) (hpoll : ∀ a ∈ items, ∀ p, r.Realizes (strand a) p (poll a p))
    (p : Progress n σ) :
    r.RealizesAll (List.Forall₂ Branch.Shows) (items.map strand) p (pollEach poll items p) := by
  induction items generalizing p with
  | nil => exact realizesAll_nil p
  | cons a rest ih =>
      have hrest := ih fun other hother => hpoll other (List.mem_cons_of_mem _ hother)
      rw [List.map_cons, pollEach_cons]
      exact realizesAll_beside (hpoll a List.mem_cons_self p) hrest

/-- At a gate that is taken there is nothing to do but to wait. -/
theorem Approaches.of_taken {visit : Visit n} {p q : Progress n σ} {s : Strand n}
    (happroach : r.Approaches visit p s q)
    (hcached : (r.graph.dependency visit.node).cached = true)
    (htaken : p.cache.gate visit.node.identity = .taken) : s = .waiting visit ∧ q = p := by
  cases happroach with
  | waits => exact ⟨rfl, rfl⟩
  | uncached hnot =>
      rw [hcached] at hnot
      cases hnot
  | first _ hfree =>
      rw [htaken] at hfree
      obtain hfree | hfree := hfree <;> cases hfree
  | recalls _ _ _ hfilled =>
      rw [htaken] at hfilled
      cases hfilled
  | refused _ _ _ _ hfilled =>
      rw [htaken] at hfilled
      cases hfilled

/-- An authorized strand comes to what its branch comes to, when it enters where the branch does and
the strands below it come to what their branches do. -/
theorem realizes_arrive {visit : Visit n} {level : Nat} (hlevel : visit.index ≤ level)
    {start : Scopes → Edge → Step n σ (Branch n)}
    (hstart : ∀ edge ∈ visit.node.edges, ∀ p,
      r.Realizes (.pending visit.scopes edge) p (start visit.scopes edge p))
    {s : Strand n} {p : Progress n σ}
    (henter : ∀ t q, r.Approaches visit p t q → r.Goes (s, p) (t, q)) :
    r.Realizes s p (r.arrive level start visit p) := by
  have hevaluate (q : Progress n σ) :
      r.Realizes (.gathering visit visit.begun) q (r.evaluate start visit q) :=
    RealizesAll.gathers (realizesAll_pollEach visit.node.edges hstart q) visit
  simp only [arrive]
  cases hcached : (r.graph.dependency visit.node).cached with
  | false => exact (hevaluate p).after (henter _ _ (.uncached hcached))
  | true =>
      simp only [Bool.not_true, Bool.false_eq_true, ↓reduceIte]
      cases hgate : p.cache.gate visit.node.identity with
      | untouched => exact (hevaluate _).after (henter _ _ (.first hcached (.inl hgate)))
      | free => exact (hevaluate _).after (henter _ _ (.first hcached (.inr hgate)))
      | taken => exact .ok (.waiting visit) (henter _ _ (.waits hcached hgate))
      | filled value =>
          dsimp only
          cases hchecked : r.authorizeBelow level visit.scopes visit.node.edges with
          | error e =>
              exact .error (henter _ _ (.refused value level e hcached hgate hlevel hchecked))
                (Progress.matches_refl p)
          | ok _ =>
              exact .ok (.resolved visit value)
                (henter _ _ (.recalls value level hcached hgate hlevel hchecked))

theorem realizes_start {catalog : Catalog n σ} (harena : Arena catalog r.graph.nodes)
    (level : Nat) (inherited : Scopes) (edge : Edge)
    (hreaches : r.Reaches level [edge]) (p : Progress n σ) :
    r.Realizes (.pending inherited edge) p (r.start level inherited edge p) := by
  induction level generalizing inherited edge p with
  | zero =>
      have hless := (hreaches edge List.mem_cons_self).1
      omega
  | succ level ih =>
      obtain ⟨hless, node, hnode⟩ := hreaches edge List.mem_cons_self
      simp only [start, hnode]
      cases hcredentials : authorize r.request (r.graph.dependency node)
          (accumulate inherited edge (r.graph.dependency node)) with
      | error e =>
          exact .error (.single (.refused hnode hcredentials)) (Progress.matches_refl p)
      | ok credentials =>
          have hvisit : r.Visits inherited edge ⟨edge.node, node, _, credentials⟩ :=
            ⟨rfl, hnode, rfl, hcredentials⟩
          have hdown : r.Reaches level node.edges :=
            (r.reaches_below harena hnode).mono (Nat.le_of_lt_succ hless)
          apply realizes_arrive (Nat.le_of_lt_succ hless)
          · intro other hother q
            exact ih _ other (hdown.of_mem hother) q
          · intro t q happroach
            exact .single (.arrives hvisit happroach)

mutual

/-- A strand that has come as far as a branch comes as far as a poll of the branch. Who waits does
so at a gate. -/
theorem realizes_poll {catalog : Catalog n σ} (harena : Arena catalog r.graph.nodes)
    (b : Branch n) (inherited : Scopes) (edge : Edge) (hcovers : r.Covers b inherited edge)
    (hwaits : ∀ visit ∈ awaited b, (r.graph.dependency visit.node).cached = true) (s : Strand n)
    (hshows : b.Shows s) (p : Progress n σ) : r.Realizes s p (r.poll b p) := by
  cases b with
  | resolved value =>
      simp only [poll]
      exact .ok hshows .refl
  | waiting visit =>
      cases hshows
      have hcached := hwaits visit (List.mem_singleton_self visit)
      have hless := (List.getElem?_eq_some_iff.mp hcovers.stands).1
      have hdown : r.Reaches r.top visit.node.edges :=
        (r.reaches_below harena hcovers.stands).mono (Nat.le_of_lt hless)
      simp only [poll]
      apply realizes_arrive (Nat.le_of_lt hless)
      · intro other hother q
        exact realizes_start harena r.top _ other (hdown.of_mem hother) q
      · intro t q happroach
        by_cases htaken : p.cache.gate visit.node.identity = .taken
        · obtain ⟨rfl, rfl⟩ := happroach.of_taken hcached htaken
          exact .refl
        · exact .single (.returns htaken happroach)
  | gathering visit below =>
      cases hshows with
      | gathering _ hbelow =>
          simp only [poll]
          exact (realizes_pollAll harena below _ _ hcovers.2 hwaits _ hbelow p).gathers visit
  | running visit provided polls =>
      cases hshows
      simp only [poll]
      exact realizes_runBody visit provided polls p

theorem realizes_pollAll {catalog : Catalog n σ} (harena : Arena catalog r.graph.nodes)
    (branches : List (Branch n)) (inherited : Scopes) (edges : List Edge)
    (hcovers : r.CoversAll branches inherited edges)
    (hwaits : ∀ visit ∈ awaitedAll branches, (r.graph.dependency visit.node).cached = true)
    (strands : List (Strand n)) (hshows : List.Forall₂ Branch.Shows branches strands)
    (p : Progress n σ) :
    r.RealizesAll (List.Forall₂ Branch.Shows) strands p (r.pollAll branches p) := by
  cases branches with
  | nil =>
      cases hshows
      simp only [pollAll]
      exact realizesAll_nil p
  | cons b rest =>
      cases edges with
      | nil => cases hcovers
      | cons edge edges =>
          cases hshows with
          | @cons _ s _ others hfirst hothers =>
              have hhead := fun visit hvisit => hwaits visit (List.mem_append_left _ hvisit)
              have htail := fun visit hvisit => hwaits visit (List.mem_append_right _ hvisit)
              rw [pollAll_cons]
              have hbranch := realizes_poll harena b _ _ hcovers.1 hhead s hfirst p
              exact realizesAll_beside hbranch fun q =>
                realizes_pollAll harena rest _ _ hcovers.2 htail others hothers q

end

/-- Strands that have come as far as attended branches come to the values that these finish
with. -/
theorem realizesAll_finish {catalog : Catalog n σ} (harena : Arena catalog r.graph.nodes)
    (inherited : Scopes) (edges : List Edge) (rounds : Nat) (branches : List (Branch n))
    (hcovers : r.CoversAll branches inherited edges)
    (hcost : r.costAll branches ≤ rounds) (strands : List (Strand n))
    (hshows : List.Forall₂ Branch.Shows branches strands) (p : Progress n σ)
    (hattended : r.Attended p.cache branches) :
    r.RealizesAll Finishes strands p (r.finish rounds branches p) := by
  induction rounds generalizing branches strands p with
  | zero =>
      cases hvalues : branches.mapM Branch.value? with
      | some values =>
          rw [finish_of_values hvalues]
          exact .ok ((Branch.Shows.values_eq hshows).trans hvalues) .refl
      | none =>
          have hpos := costAll_pos harena branches _ _ hcovers hvalues
          omega
  | succ rounds ih =>
      cases hvalues : branches.mapM Branch.value? with
      | some values =>
          rw [finish_of_values hvalues]
          exact .ok ((Branch.Shows.values_eq hshows).trans hvalues) .refl
      | none =>
          have hwaits := fun visit hvisit => (hattended.waits visit hvisit).1
          have hround := realizes_pollAll harena branches _ _ hcovers hwaits strands hshows p
          cases hrun : r.pollAll branches p with
          | mk result q =>
              rw [hrun] at hround
              cases hround with
              | error hfailed hruns hmatches =>
                  rw [finish_of_error hvalues hrun]
                  exact .error hfailed hruns hmatches
              | @ok next more _ hmore hruns =>
                  have hless :=
                    cost_of_round harena branches _ _ hcovers _ _ _ hattended hvalues hrun
                  have hnext := coversAll_of_pollAll branches _ _ hcovers _ _ _ hrun
                  have hstill := (moves_of_pollAll branches _ _ _ hrun).attended hattended.holders
                  rw [finish_of_round hvalues hrun]
                  exact (ih next hnext (by omega) more hmore q hstill).after hruns

theorem realizesAll_followAll {catalog : Catalog n σ} (harena : Arena catalog r.graph.nodes)
    (edges : List Edge) (hreaches : r.Reaches r.top edges) (p : Progress n σ)
    (hsettled : p.cache.Settled) :
    r.RealizesAll Finishes (edges.map (.pending [])) p (r.followAll edges p) := by
  have hbegins := realizesAll_pollEach edges
    (fun edge hedge q => realizes_start harena r.top [] edge (hreaches.of_mem hedge) q) p
  simp only [followAll]
  cases hbegun : pollEach (r.start r.top []) edges p with
  | mk result q =>
      rw [hbegun] at hbegins
      cases hbegins with
      | error hfailed hruns hmatches => exact .error hfailed hruns hmatches
      | @ok branches strands _ hshows hruns =>
          have hcovers : r.CoversAll branches [] edges := covers_of_begun hbegun
          have hattended : r.Attended q.cache branches :=
            (moves_of_pollEach (moves_of_start r.top []) _ _ _ _ hbegun).attended
              (fun i htaken => absurd htaken (hsettled i))
          have hcost : r.costAll branches ≤ r.allowance edges :=
            cost_of_pollEach _ (cost_of_start harena r.top []) _ _ _ hbegun
          exact (realizesAll_finish harena [] edges _ branches hcovers hcost strands hshows q
            hattended).after hruns

/-- The order of the resolver is one of the orders in which strands may advance. -/
theorem attains_resolve {catalog : Catalog n σ} (harena : Arena catalog r.graph.nodes) (plan : Plan)
    (hreaches : r.Reaches r.top plan.roots) (p : Progress n σ) (hsettled : p.cache.Settled) :
    r.Attains plan p (r.resolve plan p) := by
  have hfollows := realizesAll_followAll harena plan.roots hreaches p hsettled
  simp only [resolve]
  cases hrun : r.followAll plan.roots p with
  | mk result after =>
      rw [hrun] at hfollows
      cases hfollows with
      | @ok values strands _ hvalues hruns => exact ⟨strands, values, hruns, hvalues, rfl⟩
      | @error e strands _ last hfailed hruns hmatches =>
          have hreleased := Cache.release_of_settled (Cache.settled_release after.cache)
          exact ⟨strands, last, hruns, hfailed, hmatches.cache.trans hreleased.symm,
            hmatches.effects, hmatches.journal⟩

end Resolver

end RequestDispatch
