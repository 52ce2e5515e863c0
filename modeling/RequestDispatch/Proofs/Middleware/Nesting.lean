import RequestDispatch.Middleware.Standard
import RequestDispatch.Proofs.Logged

/-!
How a chain of middlewares is nested. A chain can be split anywhere: its inner part around the
endpoint is an endpoint of its outer part. In a run, whatever is inside of a stage happens
between the stage's code before it and the stage's code after it, and of an error inside the
stage sees the response.
-/

namespace RequestDispatch

/-- What happens at a stage of a chain. Stages are counted from the outermost middleware
inwards, and the last one is the endpoint. -/
inductive StageEvent where
  | entered (stage : Nat)
  /-- The rest of the chain has run, and the stage has its response. -/
  | resumed (stage : Nat) (received : Response)
  | left (stage : Nat) (result : Except DispatchError Response)

def StageEvent.stage : StageEvent → Nat
  | .entered stage => stage
  | .resumed stage _ => stage
  | .left stage _ => stage

/-- The response to what a stage ends with. -/
def ExceptionMapper.answer (mapper : ExceptionMapper) :
    Except DispatchError Response → Response
  | .ok r => r
  | .error e => mapper.respond e

namespace Middleware

variable {n : Nat} {σ ε : Type}

/-- A middleware for which it makes no difference how much of the chain is left: it runs the rest
or does not. -/
def Oblivious (m : Middleware n σ) : Prop :=
  ∀ k l ctx, m.handle k ctx = m.handle l ctx

/-- The endpoint that runs a chain around another endpoint. -/
def around (mapper : ExceptionMapper) (inner : List (Middleware n σ)) (endpoint : Endpoint n σ) :
    Endpoint n σ := fun ctx =>
  let (r, ctx) := runChain mapper endpoint inner ctx
  (.ok r, ctx)

/-- A middleware that logs what happens at its stage. -/
def traced (stage : Nat) (m : Middleware n σ) : Middleware n (Logged StageEvent σ) where
  name := m.name
  handle := fun remaining ctx =>
    match m.handle remaining ctx.plain with
    | .stop result next => .stop result (ctx.advance [.entered stage, .left stage result] next)
    | .proceed next after =>
        .proceed (ctx.advance [.entered stage] next) fun r ctx =>
          let (result, next) := after r ctx.plain
          (result, ctx.advance [.resumed stage r, .left stage result] next)

/-- An endpoint that logs what happens at its stage. -/
def tracedEndpoint (stage : Nat) (endpoint : Endpoint n σ) : Endpoint n (Logged StageEvent σ) :=
  fun ctx =>
    let (result, next) := endpoint ctx.plain
    (result, ctx.advance [.entered stage, .left stage result] next)

/-- Middlewares that log what happens at their stages; this is the stage of the first. -/
def tracedFrom : (stage : Nat) → List (Middleware n σ) → List (Middleware n (Logged StageEvent σ))
  | _, [] => []
  | stage, m :: inner => m.traced stage :: tracedFrom (stage + 1) inner

/-- Runs a chain and logs what happens at its stages. -/
def trace (mapper : ExceptionMapper) (endpoint : Endpoint n σ) (chain : List (Middleware n σ))
    (ctx : Context n σ) : Response × Context n (Logged StageEvent σ) :=
  runChain mapper (tracedEndpoint chain.length endpoint) (tracedFrom 0 chain) ctx.logging

variable {mapper : ExceptionMapper}

@[simp] theorem length_tracedFrom (stage : Nat) (chain : List (Middleware n σ)) :
    (tracedFrom stage chain).length = chain.length := by
  induction chain generalizing stage with
  | nil => rfl
  | cons m inner ih => simp only [tracedFrom, List.length_cons, ih]

theorem tracedFrom_append (stage : Nat) (outer inner : List (Middleware n σ)) :
    tracedFrom stage (outer ++ inner) =
      tracedFrom stage outer ++ tracedFrom (stage + outer.length) inner := by
  induction outer generalizing stage with
  | nil => rfl
  | cons m rest ih =>
      simp only [List.cons_append, tracedFrom, ih, List.length_cons]
      rw [Nat.add_assoc stage 1, Nat.add_comm 1]

theorem Oblivious.traced {m : Middleware n σ} (hm : m.Oblivious) (stage : Nat) :
    (m.traced stage).Oblivious := by
  intro k l ctx
  simp only [Middleware.traced, hm k l ctx.plain]

theorem oblivious_tracedFrom {chain : List (Middleware n σ)} (hchain : ∀ m ∈ chain, m.Oblivious)
    (stage : Nat) : ∀ m ∈ tracedFrom stage chain, m.Oblivious := by
  induction chain generalizing stage with
  | nil =>
      intro m hm
      cases hm
  | cons first inner ih =>
      intro m hm
      simp only [tracedFrom, List.mem_cons] at hm
      obtain rfl | hm := hm
      · exact (hchain first List.mem_cons_self).traced stage
      · exact ih (fun m hm => hchain m (List.mem_cons_of_mem _ hm)) (stage + 1) m hm

@[simp] theorem boundary_fst (result : Except DispatchError Response) (ctx : Context n σ) :
    (boundary mapper (result, ctx)).1 = mapper.answer result := by
  cases result <;> rfl

@[simp] theorem boundary_log (result : Except DispatchError Response)
    (ctx : Context n (Logged ε σ)) : (boundary mapper (result, ctx)).2.log = ctx.log := by
  cases result <;> rfl

theorem boundary_plain (result : Except DispatchError Response)
    (ctx : Context n (Logged ε σ)) :
    (boundary mapper (result, ctx)).2.plain = (boundary mapper (result, ctx.plain)).2 := by
  cases result <;> rfl

/-- A response passes a boundary as it is, so that regrouping a chain answers no error twice. -/
@[simp] theorem boundary_ok (r : Response) (ctx : Context n σ) :
    boundary mapper (.ok r, ctx) = (r, ctx) := rfl

/-- A chain can be split where the middlewares before do not look at how much is left. -/
theorem runChain_append (endpoint : Endpoint n σ) {outer : List (Middleware n σ)}
    (houter : ∀ m ∈ outer, m.Oblivious) (inner : List (Middleware n σ)) (ctx : Context n σ) :
    runChain mapper endpoint (outer ++ inner) ctx =
      runChain mapper (around mapper inner endpoint) outer ctx := by
  induction outer generalizing ctx with
  | nil => rfl
  | cons m rest ih =>
      have hrest : ∀ m ∈ rest, m.Oblivious := fun m hm => houter m (List.mem_cons_of_mem _ hm)
      have hhandle : m.handle (rest ++ inner).length ctx = m.handle rest.length ctx :=
        houter m List.mem_cons_self _ _ ctx
      simp only [List.cons_append, runChain, hhandle]
      cases m.handle rest.length ctx with
      | stop result next => rfl
      | proceed next after => simp only [ih hrest next]

/-- Without its log, a traced run is the run itself. -/
theorem runChain_traced (endpoint : Endpoint n σ) (chain : List (Middleware n σ)) (last : Nat)
    (stage : Nat) (ctx : Context n (Logged StageEvent σ)) :
    let traced := runChain mapper (tracedEndpoint last endpoint) (tracedFrom stage chain) ctx
    (traced.1, traced.2.plain) = runChain mapper endpoint chain ctx.plain := by
  induction chain generalizing stage ctx with
  | nil =>
      simp only [tracedFrom, runChain, tracedEndpoint, boundary_fst, boundary_plain,
        Context.plain_advance]
      rw [← boundary_fst (endpoint ctx.plain).1 (endpoint ctx.plain).2]
  | cons m inner ih =>
      simp only [tracedFrom, runChain, Middleware.traced, length_tracedFrom]
      cases m.handle inner.length ctx.plain with
      | stop result next =>
          simp only [boundary_fst, boundary_plain, Context.plain_advance]
          rw [← boundary_fst result next]
      | proceed next after =>
          have hinner := ih (stage + 1) (ctx.advance [.entered stage] next)
          simp only [Context.plain_advance] at hinner
          simp only [← hinner, boundary_fst, boundary_plain, Context.plain_advance]
          rw [← boundary_fst (after _ _).1 (after _ _).2]

/-- The log of a run from a stage on. Either the stage ends the run by itself, or it is around
the run of the next stage, and then it has the response to what that stage ended with. -/
inductive Course (mapper : ExceptionMapper) (last : Nat) :
    (stage : Nat) → List StageEvent → Except DispatchError Response → Prop
  | ends {stage : Nat} (hstage : stage ≤ last) (result : Except DispatchError Response) :
      Course mapper last stage [.entered stage, .left stage result] result
  | proceeds {stage : Nat} {inside : List StageEvent} {below : Except DispatchError Response}
      (hinside : Course mapper last (stage + 1) inside below)
      (result : Except DispatchError Response) :
      Course mapper last stage
        (.entered stage :: inside ++ [.resumed stage (mapper.answer below), .left stage result])
        result

/-- A traced run appends a course to its log, and gives the response to what it ended with. -/
theorem course_runChain (mapper : ExceptionMapper) (endpoint : Endpoint n σ)
    (chain : List (Middleware n σ)) (stage : Nat) (ctx : Context n (Logged StageEvent σ)) :
    ∃ events result, Course mapper (stage + chain.length) stage events result ∧
      let traced := runChain mapper (tracedEndpoint (stage + chain.length) endpoint)
        (tracedFrom stage chain) ctx
      traced.1 = mapper.answer result ∧ traced.2.log = ctx.log ++ events := by
  induction chain generalizing stage ctx with
  | nil =>
      refine ⟨_, (endpoint ctx.plain).1, .ends (Nat.le_refl stage) _, ?_⟩
      simp only [tracedFrom, runChain, tracedEndpoint, List.length_nil, Nat.add_zero,
        boundary_fst, boundary_log, Context.log_advance, and_self]
  | cons m inner ih =>
      have hlength : stage + (m :: inner).length = stage + 1 + inner.length := by
        simp only [List.length_cons]
        omega
      rw [hlength]
      simp only [tracedFrom, runChain, Middleware.traced, length_tracedFrom]
      cases m.handle inner.length ctx.plain with
      | stop result next =>
          refine ⟨_, result, .ends (by omega) _, ?_⟩
          simp only [boundary_fst, boundary_log, Context.log_advance, and_self]
      | proceed next after =>
          obtain ⟨inside, below, hcourse, hresponse, hlog⟩ :=
            ih (stage + 1) (ctx.advance [.entered stage] next)
          cases hinner : runChain mapper (tracedEndpoint (stage + 1 + inner.length) endpoint)
              (tracedFrom (stage + 1) inner) (ctx.advance [.entered stage] next) with
          | mk received back =>
              rw [hinner] at hresponse hlog
              have hreceived : received = mapper.answer below := hresponse
              subst hreceived
              cases hafter : after (mapper.answer below) back.plain with
              | mk result final =>
                  refine ⟨_, result, .proceeds hcourse result, ?_⟩
                  simp only [hinner, hafter, boundary_fst, boundary_log, Context.log_advance,
                    hlog, true_and]
                  simp only [List.append_assoc, List.cons_append, List.nil_append]

variable {last stage : Nat} {events : List StageEvent} {result : Except DispatchError Response}

theorem Course.stage_bounds (hcourse : Course mapper last stage events result) :
    stage ≤ last ∧ ∀ e ∈ events, stage ≤ e.stage ∧ e.stage ≤ last := by
  induction hcourse with
  | ends hstage result =>
      refine ⟨hstage, ?_⟩
      intro e he
      simp only [List.mem_cons, List.not_mem_nil, or_false] at he
      obtain rfl | rfl := he <;> exact ⟨Nat.le_refl _, hstage⟩
  | proceeds _ result ih =>
      obtain ⟨hnext, hinside⟩ := ih
      refine ⟨by omega, ?_⟩
      intro e he
      simp only [List.cons_append, List.mem_cons, List.mem_append, List.not_mem_nil,
        or_false] at he
      obtain rfl | he | rfl | rfl := he
      · simp only [StageEvent.stage]
        omega
      · have := hinside e he
        omega
      all_goals
        simp only [StageEvent.stage]
        omega

/-- The last thing in a course is that its stage is left. -/
theorem Course.ends_left (hcourse : Course mapper last stage events result) :
    ∃ before, events = before ++ [.left stage result] := by
  cases hcourse with
  | ends _ result => exact ⟨[_], rfl⟩
  | @proceeds _ inside below _ result =>
      refine ⟨.entered stage :: inside ++ [.resumed stage (mapper.answer below)], ?_⟩
      simp only [List.append_assoc, List.cons_append, List.nil_append]

/-- How one stage sits in the log of a run. What is outside of it happens before it is entered or
after it is left, and what is inside of it in between. -/
inductive Sits (mapper : ExceptionMapper) (log : List StageEvent) (stage : Nat) : Prop
  /-- The stage is not entered, nor is any stage inside of it. -/
  | unreached (houtside : ∀ e ∈ log, e.stage < stage)
  /-- The stage is entered once and left without anything happening inside of it. -/
  | ends (before after : List StageEvent) (result : Except DispatchError Response)
      (houtside : ∀ e ∈ before ++ after, e.stage < stage)
      (hlog : log = before ++ [.entered stage, .left stage result] ++ after)
  /-- The stage is entered once, and goes on once, with the response to what the next stage was
  left with. -/
  | proceeds (before inside after : List StageEvent)
      (below result : Except DispatchError Response)
      (houtside : ∀ e ∈ before ++ after, e.stage < stage)
      (hinside : ∀ e ∈ inside, stage < e.stage)
      (hlog : log = before ++
        (.entered stage :: inside ++
          [.left (stage + 1) below, .resumed stage (mapper.answer below), .left stage result]) ++
        after)

/-- A stage sits in a log as it did before more happened outside of it. -/
theorem Sits.within (hsits : Sits mapper events stage) (first rest : List StageEvent)
    (houter : ∀ e ∈ first ++ rest, e.stage < stage) :
    Sits mapper (first ++ events ++ rest) stage := by
  simp only [List.mem_append] at houter
  cases hsits with
  | unreached houtside =>
      refine .unreached ?_
      intro e he
      simp only [List.mem_append] at he
      obtain (he | he) | he := he
      · exact houter e (.inl he)
      · exact houtside e he
      · exact houter e (.inr he)
  | ends before after result houtside hlog =>
      refine .ends (first ++ before) (after ++ rest) result ?_ ?_
      · simp only [List.mem_append] at houtside ⊢
        grind
      · simp only [hlog, List.append_assoc]
  | proceeds before inside after below result houtside hinside hlog =>
      refine .proceeds (first ++ before) inside (after ++ rest) below result ?_ hinside ?_
      · simp only [List.mem_append] at houtside ⊢
        grind
      · simp only [hlog, List.append_assoc]

/-- In a course every stage inside of it sits as it should. -/
theorem Course.sits (hcourse : Course mapper last stage events result) {inner : Nat}
    (hinner : stage ≤ inner) : Sits mapper events inner := by
  induction hcourse with
  | @ends stage _ result =>
      obtain rfl | hless := Nat.eq_or_lt_of_le hinner
      · exact .ends [] [] result (by simp) rfl
      · refine .unreached ?_
        intro e he
        simp only [List.mem_cons, List.not_mem_nil, or_false] at he
        obtain rfl | rfl := he <;> exact hless
  | @proceeds stage inside below hinside result ih =>
      obtain rfl | hless := Nat.eq_or_lt_of_le hinner
      · -- The stage itself: whatever is inside of it ends with the next stage being left.
        obtain ⟨before, rfl⟩ := hinside.ends_left
        refine .proceeds [] before [] below result (by simp) ?_ ?_
        · intro e he
          have := hinside.stage_bounds.2 e (List.mem_append_left _ he)
          omega
        · simp only [List.nil_append, List.append_nil, List.append_assoc, List.cons_append]
      · refine (ih hless).within [.entered stage] _ ?_
        intro e he
        simp only [List.cons_append, List.nil_append, List.mem_cons, List.not_mem_nil,
          or_false] at he
        obtain rfl | rfl | rfl := he <;> exact hless

/-- A chain may be split anywhere into an outer and an inner part, and the inner part around the
endpoint taken for an endpoint: response, context and the order of what happens are the same.
What happens is nested. Every stage is entered at most once; what happens inside of it happens
after its own code before it and before its own code after it; it prevents everything inside of
it by ending the request itself; and otherwise it sees the response to what the next stage was
left with, be that an error or not. -/
theorem runChain_nests (mapper : ExceptionMapper) (endpoint : Endpoint n σ)
    (outer inner : List (Middleware n σ)) (houter : ∀ m ∈ outer, m.Oblivious)
    (ctx : Context n σ) :
    let chain := outer ++ inner
    let run := trace mapper endpoint chain ctx
    runChain mapper endpoint chain ctx = runChain mapper (around mapper inner endpoint) outer ctx ∧
    run = runChain mapper
      (around mapper (tracedFrom outer.length inner) (tracedEndpoint chain.length endpoint))
      (tracedFrom 0 outer) ctx.logging ∧
    (run.1, run.2.plain) = runChain mapper endpoint chain ctx ∧
    (∃ before result, run.2.log = before ++ [.left 0 result] ∧ run.1 = mapper.answer result) ∧
    (∀ e ∈ run.2.log, e.stage ≤ chain.length) ∧
    ∀ stage, Sits mapper run.2.log stage := by
  intro chain run
  have htraced := oblivious_tracedFrom houter 0
  obtain ⟨events, result, hcourse, hresponse, hlog⟩ :=
    course_runChain mapper endpoint chain 0 ctx.logging
  rw [Nat.zero_add] at hcourse hresponse hlog
  have hrun : run.2.log = events := hlog
  obtain ⟨before, hends⟩ := hcourse.ends_left
  refine ⟨runChain_append endpoint houter inner ctx, ?_, runChain_traced endpoint chain _ 0 _,
    ⟨before, result, hrun.trans hends, hresponse⟩, ?_, ?_⟩
  · simp only [run, trace, chain, tracedFrom_append, Nat.zero_add]
    exact runChain_append _ htraced _ _
  · intro e he
    rw [hrun] at he
    exact (hcourse.stage_bounds.2 e he).2
  · intro stage
    rw [hrun]
    exact hcourse.sits (Nat.zero_le stage)

/-- Requests are counted around an endpoint that nothing can be found at. -/
def sampleMiddlewares : List (Middleware 0 Metrics) :=
  [metrics (fun change counts => change counts)]

def sampleEndpoint : Endpoint 0 Metrics := fun ctx => (.error (.notFound "GET" "/"), ctx)

def sampleContext : Context 0 Metrics :=
  .arrive ⟨"GET", "/", "", [], []⟩ ⟨0⟩ .zero

theorem oblivious_sampleMiddlewares : ∀ m ∈ sampleMiddlewares, m.Oblivious := by
  intro m hm k l ctx
  rw [List.mem_singleton.mp hm]
  rfl

theorem runChain_nests_sample :
    (∀ m ∈ sampleMiddlewares, m.Oblivious) ∧
    let mapper : ExceptionMapper := ⟨[], true⟩
    let run := trace mapper sampleEndpoint (sampleMiddlewares ++ [requestId]) sampleContext
    run.2.log.map StageEvent.stage = [0, 1, 2, 2, 1, 1, 0, 0] ∧
    runChain mapper sampleEndpoint (sampleMiddlewares ++ [requestId]) sampleContext =
      runChain mapper (around mapper [requestId] sampleEndpoint) sampleMiddlewares
        sampleContext ∧
    Sits mapper run.2.log 1 := by
  obtain ⟨hsplit, _, _, _, _, hsits⟩ := runChain_nests ⟨[], true⟩ sampleEndpoint
    sampleMiddlewares [requestId] oblivious_sampleMiddlewares sampleContext
  exact ⟨oblivious_sampleMiddlewares, rfl, hsplit, hsits 1⟩

end Middleware

end RequestDispatch
