import RequestDispatch.Proofs.Http.Headers
import RequestDispatch.Proofs.Middleware.Nesting
import RequestDispatch.Proofs.RequestId

/-!
Identifiers of requests, there and back. A request that bears the text of an identifier gets that
identifier, and a chain with the middleware for it outside sends the same text back, whether what
is inside ends with a response or with an error, unless the response to it has such a header.
-/

namespace RequestDispatch

/-- A request bears the text of an identifier in a header line. The name of the line is spelled in
any case, blanks around the text do not count, and no line before it has that name. -/
inductive Request.Bears (r : Request) (id : RequestId) : Prop where
  | intro {before after : Headers} {name : String} {left right : List Char}
      (hfirst : ∀ line ∈ before, Text.sameIgnoringCase line.1 RequestId.header = false)
      (hname : Text.sameIgnoringCase name RequestId.header = true)
      (hleft : Text.Blank left) (hright : Text.Blank right)
      (hheaders : r.headers =
        before ++ (name, String.ofList (left ++ id.text.toList ++ right)) :: after)

/-- A request that bears an identifier arrives with it. -/
theorem Request.Bears.requestId_arrive {n : Nat} {σ : Type} {r : Request} {id : RequestId}
    (hbears : r.Bears id) (fresh : RequestId) (state : σ) :
    (Context.arrive r fresh state : Context n σ).requestId = id := by
  obtain ⟨hfirst, hname, hleft, hright, hheaders⟩ := hbears
  simp only [Context.arrive, hheaders, Headers.first?_of_first hfirst hname,
    id.ofHeader?_padded hleft hright, Option.getD_some]

/-- How an identifier is sent along with a response: in a header line behind the others, and the
only one of its name, unless the response has such a line, and then it is left as it is. -/
structure RequestId.SentWith (id : RequestId) (r sent : Response) : Prop where
  added : r.headers.first? RequestId.header = none →
    sent = { r with headers := r.headers ++ [(RequestId.header, id.text)] } ∧
      sent.headers.valuesOf RequestId.header = [id.text]
  kept : r.headers.first? RequestId.header ≠ none → sent = r

namespace Middleware

variable {n : Nat} {σ : Type}

theorem sentWith_addRequestId (id : RequestId) (r : Response) :
    id.SentWith r (addRequestId id r) := by
  constructor
  · intro habsent
    have hset : addRequestId id r = r.setHeader RequestId.header id.text := by
      rw [addRequestId, habsent]
      rfl
    rw [hset]
    refine ⟨by rw [Response.setHeader, r.headers.set_of_absent habsent], ?_⟩
    exact (Headers.valuesOf_set r.headers _ _ _).trans (if_pos (by decide))
  · intro hpresent
    rw [addRequestId, if_pos (Option.isSome_iff_ne_none.mpr hpresent)]

/-- What the outermost stage of a chain ends with before it comes to its boundary. -/
def ending (mapper : ExceptionMapper) (endpoint : Endpoint n σ) :
    List (Middleware n σ) → Endpoint n σ
  | [], ctx => endpoint ctx
  | m :: inner, ctx =>
      match m.handle inner.length ctx with
      | .stop result ctx => (result, ctx)
      | .proceed ctx after =>
          let (r, ctx) := runChain mapper endpoint inner ctx
          after r ctx

theorem runChain_eq_boundary (mapper : ExceptionMapper) (endpoint : Endpoint n σ)
    (chain : List (Middleware n σ)) (ctx : Context n σ) :
    runChain mapper endpoint chain ctx = boundary mapper (ending mapper endpoint chain ctx) := by
  cases chain with
  | nil => rfl
  | cons m inner =>
      simp only [runChain, ending]
      cases m.handle inner.length ctx <;> rfl

/-- A chain answers what its outermost stage ends with. -/
theorem runChain_answers (mapper : ExceptionMapper) (endpoint : Endpoint n σ)
    (chain : List (Middleware n σ)) (ctx : Context n σ) :
    (runChain mapper endpoint chain ctx).1 =
      mapper.answer (ending mapper endpoint chain ctx).1 := by
  rw [runChain_eq_boundary]
  exact boundary_fst _ _

/-- The middleware adds the identifier that the request had when it came, whatever is inside. -/
theorem runChain_requestId (mapper : ExceptionMapper) (endpoint : Endpoint n σ)
    (inner : List (Middleware n σ)) (ctx : Context n σ) :
    (runChain mapper endpoint (requestId :: inner) ctx).1 =
      addRequestId ctx.requestId (runChain mapper endpoint inner ctx).1 :=
  rfl

/-- Identifiers of requests go round. The text of an identifier is its numeral of 26 digits in
base 32. A request that bears it arrives with the identifier, and a chain whose outermost
middleware is the one for identifiers sends it along with the response that the rest of the chain
gives, be it that of a success or the one that an error is mapped to. -/
theorem requestId_round_trip (id : RequestId) {request : Request} (hbears : request.Bears id)
    (fresh : RequestId) (state : σ) (mapper : ExceptionMapper) (endpoint : Endpoint n σ)
    (inner : List (Middleware n σ)) :
    let ctx : Context n σ := .arrive request fresh state
    let inside := (ending mapper endpoint inner ctx).1
    let answer := (runChain mapper endpoint inner ctx).1
    let sent := (runChain mapper endpoint (requestId :: inner) ctx).1
    id.text.length = 26 ∧ RequestId.Numeral id.text.toList id.bits.toNat ∧ ctx.requestId = id ∧
      id.SentWith answer sent ∧
      (∀ r, inside = .ok r → answer = r) ∧ ∀ e, inside = .error e → answer = mapper.respond e := by
  intro ctx inside answer sent
  have harrived : ctx.requestId = id := hbears.requestId_arrive fresh state
  have hanswer : answer = mapper.answer inside := runChain_answers mapper endpoint inner ctx
  have hsent : sent = addRequestId id answer := by
    rw [← harrived]
    exact runChain_requestId mapper endpoint inner ctx
  refine ⟨?_, ?_, harrived, ?_, ?_, ?_⟩
  · rw [RequestId.text, String.length_ofList, id.length_digits]
  · rw [RequestId.text, String.toList_ofList]
    exact id.numeral_digits
  · rw [hsent]
    exact sentWith_addRequestId id answer
  · intro r hr
    rw [hanswer, hr]
    rfl
  · intro e he
    rw [hanswer, he]
    rfl

/-- The identifier whose highest and lowest bit are set, in a header with a name in capitals and a
tab before it, comes back with the response to an error. -/
theorem requestId_round_trip_sample :
    let id : RequestId := ⟨0x80000000000000000000000000000001⟩
    let request : Request := { (default : Request) with
      headers := [("accept", "*/*"), ("X-REQUEST-ID", "\t40000000000000000000000001 ")] }
    let ctx : Context 0 Metrics := .arrive request default .zero
    let mapper : ExceptionMapper := ⟨[], true⟩
    request.Bears id ∧ ctx.requestId = id ∧
      (ending mapper sampleEndpoint [] ctx).1 = .error (.notFound "GET" "/") ∧
      (runChain mapper sampleEndpoint [requestId] ctx).1.headers =
        [("content-type", "application/json"), ("x-request-id", "40000000000000000000000001")] := by
  intro id request ctx mapper
  have htext : id.text = "40000000000000000000000001" := by decide
  have htab : Text.Blank ['\t'] := by simp [Text.Blank, Text.isBlank]
  have hspace : Text.Blank [' '] := by simp [Text.Blank, Text.isBlank]
  have hbears : request.Bears id :=
    @Request.Bears.intro _ _ [("accept", "*/*")] [] "X-REQUEST-ID" ['\t'] [' ']
      (by decide) (by decide) htab hspace (by rw [htext]; decide)
  have hinside : (ending mapper sampleEndpoint [] ctx).1 = .error (.notFound "GET" "/") := rfl
  obtain ⟨_, _, harrived, hsent, _, hfault⟩ :=
    requestId_round_trip id hbears default .zero mapper sampleEndpoint []
  refine ⟨hbears, harrived, hinside, ?_⟩
  rw [(hsent.added rfl).1, hfault _ hinside, htext]
  rfl

end Middleware

end RequestDispatch
