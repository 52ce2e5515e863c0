import RequestDispatch.Proofs.Middleware.Nesting

/-!
The phases of a run of a chain. Middlewares leave the phase to the stages inside of them, so the
phases that a run adds are those of its endpoint, and after them one mapping for every error that
comes to the boundary of a stage.
-/

namespace RequestDispatch

/-- An error comes out of a stage and is answered at its boundary. -/
def StageEvent.isFault : StageEvent → Bool
  | .left _ (.error _) => true
  | _ => false

@[simp] theorem StageEvent.faults_entered (stage : Nat) (rest : List StageEvent) :
    (StageEvent.entered stage :: rest).countP isFault = rest.countP isFault :=
  List.countP_cons_of_neg Bool.false_ne_true

@[simp] theorem StageEvent.faults_resumed (stage : Nat) (r : Response) (rest : List StageEvent) :
    (StageEvent.resumed stage r :: rest).countP isFault = rest.countP isFault :=
  List.countP_cons_of_neg Bool.false_ne_true

namespace Middleware

variable {n : Nat} {σ : Type} {mapper : ExceptionMapper}

/-- Every context that a middleware goes on with is related to the one that it was given, before
the rest of the chain as well as after it. -/
def Relates (relation : Context n σ → Context n σ → Prop) (m : Middleware n σ) : Prop :=
  ∀ remaining ctx,
    match m.handle remaining ctx with
    | .stop _ next => relation ctx next
    | .proceed next after => relation ctx next ∧ ∀ r back, relation back (after r back).2

/-- A middleware that changes the phase by running the rest of the chain only. -/
def KeepsPhases (m : Middleware n σ) : Prop :=
  m.Relates fun before after => after.phases = before.phases

/-- One mapping for every fault. -/
def mappings (events : List StageEvent) : List Phase :=
  List.replicate (events.countP StageEvent.isFault) .mapping

theorem mappings_append (first rest : List StageEvent) :
    mappings (first ++ rest) = mappings first ++ mappings rest := by
  simp only [mappings, List.countP_append, List.replicate_append_replicate]

/-- At the boundary of a stage an error is mapped. -/
theorem phases_boundary (stage : Nat) (result : Except DispatchError Response)
    (ctx : Context n σ) :
    (boundary mapper (result, ctx)).2.phases = ctx.phases ++ mappings [.left stage result] := by
  cases result with
  | ok r => exact (List.append_nil ctx.phases).symm
  | error e => rfl

/-- How far a run came. Either the endpoint was not reached, and the phases are those from before,
or it was entered with these and left with the ones that it went through. -/
inductive Passes (endpoint : Endpoint n σ) (last : Nat) (events : List StageEvent)
    (before : List Phase) : List Phase → Prop
  | unreached (hevents : ∀ e ∈ events, e.stage < last) : Passes endpoint last events before before
  | reached (entry : Context n σ) (hentry : entry.phases = before)
      (hleft : ∀ result, .left last result ∈ events ↔ result = (endpoint entry).1) :
      Passes endpoint last events before (endpoint entry).2.phases

/-- What happens at a stage further out changes nothing about how far a run came. -/
theorem Passes.within {endpoint : Endpoint n σ} {last stage : Nat} {events : List StageEvent}
    {before after : List Phase} (hpasses : Passes endpoint last events before after)
    (hstage : stage < last) (received : Response) (result : Except DispatchError Response) :
    Passes endpoint last
      (.entered stage :: events ++ [.resumed stage received, .left stage result]) before after := by
  cases hpasses with
  | unreached hevents =>
      refine .unreached ?_
      intro e he
      simp only [List.cons_append, List.mem_cons, List.mem_append, List.not_mem_nil,
        or_false] at he
      obtain rfl | he | rfl | rfl := he
      · exact hstage
      · exact hevents e he
      · exact hstage
      · exact hstage
  | reached entry hentry hleft =>
      refine .reached entry hentry ?_
      intro other
      have hother : StageEvent.left last other ≠ .left stage result := by
        rintro ⟨⟩
        exact Nat.lt_irrefl _ hstage
      simp only [List.cons_append, List.mem_cons, List.mem_append, List.not_mem_nil, hother,
        reduceCtorEq, or_false, false_or, hleft]

/-- A run adds the phases of its endpoint, if it comes there, and then a mapping for every fault. -/
theorem phases_runChain (mapper : ExceptionMapper) (endpoint : Endpoint n σ)
    (chain : List (Middleware n σ)) (hkeeps : ∀ m ∈ chain, m.KeepsPhases) (stage : Nat)
    (ctx : Context n (Logged StageEvent σ)) :
    let last := stage + chain.length
    let run := runChain mapper (tracedEndpoint last endpoint) (tracedFrom stage chain) ctx
    ∃ events passed, run.2.log = ctx.log ++ events ∧
      Passes endpoint last events ctx.phases passed ∧ run.2.phases = passed ++ mappings events := by
  induction chain generalizing stage ctx with
  | nil =>
      refine ⟨[.entered stage, .left stage (endpoint ctx.plain).1], _, ?_,
        .reached ctx.plain rfl (by simp [Eq.comm]), ?_⟩
      · simp only [tracedFrom, runChain, tracedEndpoint, List.length_nil, Nat.add_zero,
          boundary_log, Context.log_advance]
      · exact phases_boundary stage _ _
  | cons m inner ih =>
      have hlength : stage + (m :: inner).length = stage + 1 + inner.length := by
        simp only [List.length_cons]
        omega
      have hm := hkeeps m List.mem_cons_self inner.length ctx.plain
      rw [hlength]
      simp only [tracedFrom, runChain, Middleware.traced, length_tracedFrom]
      cases hhandle : m.handle inner.length ctx.plain with
      | stop result next =>
          rw [hhandle] at hm
          refine ⟨[.entered stage, .left stage result], ctx.phases, ?_, .unreached ?_, ?_⟩
          · simp only [boundary_log, Context.log_advance]
          · intro e he
            simp only [List.mem_cons, List.not_mem_nil, or_false] at he
            obtain rfl | rfl := he <;> simp only [StageEvent.stage] <;> omega
          · rw [phases_boundary stage]
            exact congrArg (· ++ _) hm
      | proceed next after =>
          rw [hhandle] at hm
          obtain ⟨hbefore, hafter⟩ := hm
          obtain ⟨inside, passed, hlog, hpasses, hphases⟩ :=
            ih (fun m hm => hkeeps m (List.mem_cons_of_mem _ hm)) (stage + 1)
              (ctx.advance [.entered stage] next)
          dsimp only
          cases hinner : runChain mapper (tracedEndpoint (stage + 1 + inner.length) endpoint)
              (tracedFrom (stage + 1) inner) (ctx.advance [.entered stage] next) with
          | mk received back =>
              rw [hinner] at hlog hphases
              have hkept := hafter received back.plain
              dsimp only
              cases hresult : after received back.plain with
              | mk result final =>
                  rw [hresult] at hkept
                  have hentry : (ctx.advance [.entered stage] next).phases = ctx.phases := hbefore
                  rw [hentry] at hpasses
                  refine ⟨.entered stage :: inside ++ [.resumed stage received, .left stage result],
                    passed, ?_, hpasses.within (by omega) received result, ?_⟩
                  · simp only [boundary_log, Context.log_advance, hlog, List.append_assoc,
                      List.cons_append, List.nil_append]
                  · have hmappings : mappings (.entered stage :: inside ++
                        [.resumed stage received, .left stage result]) =
                        mappings inside ++ mappings [.left stage result] := by
                      rw [mappings_append]
                      simp only [mappings, StageEvent.faults_entered, StageEvent.faults_resumed]
                    rw [phases_boundary stage, hmappings, ← List.append_assoc, ← hphases]
                    exact congrArg (· ++ _) hkept

/-- There is at most one fault for every stage. -/
theorem Course.faults_le {last stage : Nat} {events : List StageEvent}
    {result : Except DispatchError Response} (hcourse : Course mapper last stage events result) :
    events.countP StageEvent.isFault + stage ≤ last + 1 := by
  have hleft (stage : Nat) (result : Except DispatchError Response) :
      [StageEvent.left stage result].countP StageEvent.isFault ≤ 1 :=
    List.countP_le_length
  induction hcourse with
  | @ends stage hstage result =>
      have hone := hleft stage result
      rw [StageEvent.faults_entered]
      omega
  | @proceeds stage inside below hinside result ih =>
      have hone := hleft stage result
      rw [List.cons_append, StageEvent.faults_entered, List.countP_append,
        StageEvent.faults_resumed]
      omega

end Middleware

end RequestDispatch
