import RequestDispatch.Http.Wire
import RequestDispatch.Proofs.Http.Headers
import RequestDispatch.Proofs.Text.Integer
import RequestDispatch.Proofs.Text.Utf8

/-!
Responses as they are written. Whether a body is empty is told by its structure, and its length is
that of its octets; both agree, because the text of a JSON value is never empty and only the empty
text has no octets. So the length of a body is declared exactly when something is written.
-/

namespace RequestDispatch

/-! ### Texts of JSON values -/

theorem Decimal.digitChars_ne_nil (d : Decimal) : d.digitChars ≠ [] :=
  Nat.toDigits_ne_nil

theorem Decimal.positional_ne_nil (d : Decimal) : d.positional ≠ [] := by
  unfold positional
  split
  · split
    · exact List.cons_ne_nil _ _
    · exact List.append_ne_nil_of_left_ne_nil d.digitChars_ne_nil _
  · dsimp only
    split
    · exact List.append_ne_nil_of_right_ne_nil _ (List.cons_ne_nil _ _)
    · exact List.cons_ne_nil _ _

theorem Decimal.scientific_ne_nil (d : Decimal) : d.scientific ≠ [] :=
  List.append_ne_nil_of_right_ne_nil _ (List.cons_ne_nil _ _)

theorem Double.signed_ne_empty (d : Double) {magnitude : List Char} (hsome : magnitude ≠ []) :
    d.signed magnitude ≠ "" := by
  rw [signed, ne_eq, ← String.toList_inj, String.toList_ofList]
  split
  · exact List.cons_ne_nil _ _
  · exact hsome

theorem Double.json_ne_empty (d : Double) : d.json ≠ "" := by
  unfold json
  dsimp only
  split
  · apply d.signed_ne_empty
    split
    · exact d.shortest.positional_ne_nil
    · exact List.append_ne_nil_of_left_ne_nil d.shortest.positional_ne_nil _
  · exact d.signed_ne_empty d.shortest.scientific_ne_nil

theorem Number.text_ne_empty (number : Number) : number.text ≠ "" := by
  cases number with
  | int n =>
      intro hempty
      exact (Text.denotes_toString n).ne_nil (String.toList_eq_nil_iff.mpr hempty)
  | real d => exact d.json_ne_empty

/-- The text of a JSON value is never empty. -/
theorem Json.text_ne_empty (value : Json) : value.text ≠ "" := by
  cases value with
  | null => decide
  | bool b => cases b <;> decide
  | number n =>
      rw [text]
      exact n.text_ne_empty
  | string s => simp [text, quote]
  | array items => simp [text]
  | object members => simp [text]

/-! ### Bodies -/

namespace Body

/-- The octets that a body is written as. Texts are written in UTF-8, and JSON values as their
compact texts. -/
inductive Writes : Body → ByteArray → Prop where
  | empty : Writes .empty .empty
  | json (value : Json) : Writes (.json value) value.text.toUTF8
  | text (s : String) : Writes (.text s) s.toUTF8
  | bytes (octets : List UInt8) : Writes (.bytes octets) octets.toByteArray

theorem writes_toBytes (body : Body) : body.Writes body.toBytes.toByteArray := by
  cases body with
  | empty => exact .empty
  | json value =>
      rw [toBytes, Text.Utf8.toByteArray_encode]
      exact .json value
  | text s =>
      rw [toBytes, Text.Utf8.toByteArray_encode]
      exact .text s
  | bytes octets => exact .bytes octets

theorem isEmpty_iff (body : Body) :
    body.isEmpty = true ↔ body = .empty ∨ body = .text "" ∨ body = .bytes [] := by
  cases body <;> simp [isEmpty]

/-- The body is empty by its structure when it is written as no octets. -/
theorem toBytes_eq_nil_iff (body : Body) : body.toBytes = [] ↔ body.isEmpty = true := by
  have hencode (s : String) : Text.Utf8.encode s = [] ↔ s = "" :=
    Text.Utf8.encode_injective.eq_iff (b := "")
  cases body with
  | empty => simp [toBytes, isEmpty]
  | json value => simp [toBytes, isEmpty, hencode, value.text_ne_empty]
  | text s => simp [toBytes, isEmpty, hencode]
  | bytes octets => simp [toBytes, isEmpty]

end Body

/-! ### Responses -/

namespace Response

/-- The length is declared behind all other lines, when something is written and its length is not
declared yet. -/
theorem headers_toWire (r : Response) :
    r.toWire.headers = r.headers ++
      if r.body.toBytes ≠ [] ∧ r.headers.first? "content-length" = none then
        [("content-length", toString r.body.toBytes.length)]
      else [] := by
  have hsomething : (!r.body.isEmpty) = true ↔ r.body.toBytes ≠ [] := by
    rw [ne_eq, Body.toBytes_eq_nil_iff, Bool.not_eq_true, Bool.not_eq_true']
  have hundeclared : (!r.headers.any (Headers.named "content-length")) = true ↔
      r.headers.first? "content-length" = none := by
    simp [Headers.first?_eq_none_iff, Headers.named]
  simp only [toWire, parts, Bool.and_eq_true, hsomething, hundeclared]
  split
  · rfl
  · exact (List.append_nil _).symm

/-- The wire form of a response keeps its status and its header lines in their order, and its body
is what the body of the response is written as, which is nothing for the empty body, the empty text
and no octets, and something for every JSON value. The number of its octets is declared in one more
line exactly when there are any and no line declares a length already. So a response that declares
no length gets one exactly when something is written. -/
theorem toWire_declares_length (r : Response) :
    let wire := r.toWire
    wire.status = r.status ∧ wire.body = r.body.toBytes ∧
    r.body.Writes wire.body.toByteArray ∧
    (wire.body = [] ↔ r.body = .empty ∨ r.body = .text "" ∨ r.body = .bytes []) ∧
    (wire.headers = r.headers ++
      if wire.body ≠ [] ∧ r.headers.first? "content-length" = none then
        [("content-length", toString wire.body.length)]
      else []) ∧
    (r.headers.first? "content-length" = none →
      wire.headers.valuesOf "content-length" =
        if wire.body = [] then [] else [toString wire.body.length]) := by
  intro wire
  have hheaders := headers_toWire r
  refine ⟨rfl, rfl, r.body.writes_toBytes, ?_, hheaders, ?_⟩
  · exact r.body.toBytes_eq_nil_iff.trans r.body.isEmpty_iff
  · intro hundeclared
    have hbefore : r.headers.valuesOf "content-length" = [] := by
      rwa [Headers.first?_eq_head?, List.head?_eq_none_iff] at hundeclared
    by_cases hnothing : wire.body = []
    · rw [hheaders, if_neg fun h => h.1 hnothing, if_pos hnothing, List.append_nil, hbefore]
    · rw [hheaders, if_pos ⟨hnothing, hundeclared⟩, if_neg hnothing]
      refine (Headers.valuesOf_append r.headers _ _ _).trans ?_
      rw [hbefore]
      rfl

/-- The length is that of the octets, of which the second letter has two, and in another response
the one that was declared stays the only one. -/
theorem toWire_declares_length_sample :
    let wire := (text 200 "né").toWire
    wire.body.toByteArray = "né".toUTF8 ∧
      wire.headers =
        [("content-type", "text/plain; charset=utf-8"), ("content-length", "3")] ∧
      ((text 200 "né").setHeader "Content-Length" "7").toWire.headers =
        [("content-type", "text/plain; charset=utf-8"), ("Content-Length", "7")] := by
  intro wire
  obtain ⟨_, hbody, hwrites, _, hheaders, _⟩ := toWire_declares_length (text 200 "né")
  obtain ⟨_, _, _, _, hdeclared, _⟩ :=
    toWire_declares_length ((text 200 "né").setHeader "Content-Length" "7")
  refine ⟨?_, ?_, ?_⟩
  · cases hwrites
    rfl
  · rw [hheaders, hbody]
    decide
  · rw [hdeclared]
    decide

end Response

end RequestDispatch
