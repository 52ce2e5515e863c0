import Mathlib
import RequestDispatch.Proofs.Security.Base64
import RequestDispatch.Proofs.Text.Split
import RequestDispatch.Security.Bearer

/-!
The tokens that are granted. A token has three parts between dots: a header that nobody reads, a
payload that is JSON in base 64, and the signature. Such tokens are granted, and so is every text
that goes on behind one with a further dot; nothing else is.
-/

namespace RequestDispatch.Bearer

/-- A text that is divided by its first two dots. -/
def ofParts (header payload tail : String) : String :=
  header ++ "." ++ payload ++ "." ++ tail

theorem toList_ofParts (header payload tail : String) :
    (ofParts header payload tail).toList =
      header.toList ++ '.' :: (payload.toList ++ '.' :: tail.toList) := by
  simp [ofParts]

theorem decodePayload_eq_ok_iff {payload : String} {bytes : List UInt8} :
    decodePayload payload = .ok bytes ↔ Base64.Encodes bytes payload := by
  rw [decodePayload, Base64.Encodes, ← Base64.decodeUrl_eq_ok_iff,
    ← Base64.decodeStandard_eq_ok_iff]
  cases hurl : Base64.decodeUrl (Text.Utf8.encode payload) with
  | error fault => simp
  | ok found =>
      simp only [Except.ok.injEq]
      constructor
      · exact .inl
      · rintro (rfl | hstandard)
        · rfl
        · have hforms := (Base64.decodeUrl_eq_ok_iff.mp hurl).symm.trans
            (Base64.decodeStandard_eq_ok_iff.mp hstandard)
          exact Base64.eq_of_encodeUrl_eq hforms

namespace Verifier

variable {v : Verifier}

/-- A token of three parts: a header, a payload that is JSON in base 64, and the signature. -/
inductive WellFormed (v : Verifier) : String → Json → Prop where
  | intro {header payload : String} {bytes : List UInt8} {claims : Json}
      (hheader : '.' ∉ header.toList) (hpayload : Base64.Encodes bytes payload)
      (hclaims : Json.parse bytes = .ok claims) (hsignature : '.' ∉ v.signature.toList) :
      WellFormed v (ofParts header payload v.signature) claims

/-- What follows the payload of a granted token: the signature, and perhaps more behind a dot. -/
def Signs (v : Verifier) (tail : String) : Prop :=
  '.' ∉ v.signature.toList ∧ (tail = v.signature ∨ ∃ more, tail = v.signature ++ "." ++ more)

theorem signs_iff {tail : String} :
    v.Signs tail ↔ ∃ more, Text.pieces '.' tail.toList = v.signature.toList :: more := by
  rw [Text.exists_pieces_eq_cons_iff, Signs, String.toList_inj]
  have hmore : (∃ more, tail = v.signature ++ "." ++ more) ↔
      ∃ rest, tail.toList = v.signature.toList ++ '.' :: rest := by
    constructor
    · rintro ⟨more, rfl⟩
      exact ⟨more.toList, by simp⟩
    · rintro ⟨rest, hrest⟩
      refine ⟨String.ofList rest, ?_⟩
      rw [← String.toList_inj, hrest]
      simp
  rw [hmore]

/-- A text with two dots or more is judged by what follows the second one, and by the payload. -/
theorem check_ofParts {header payload : String} (hheader : '.' ∉ header.toList)
    (hpayload : '.' ∉ payload.toList) {tail : String} {credentials : Credentials} :
    v.check (ofParts header payload tail) = .ok credentials ↔
      v.Signs tail ∧ ∃ bytes claims, Base64.Encodes bytes payload ∧
        Json.parse bytes = .ok claims ∧ credentials = credentialsOf claims := by
  obtain ⟨signature, more, htail⟩ := List.exists_cons_of_ne_nil (Text.pieces_ne_nil '.' tail.toList)
  rw [signs_iff, check, toList_ofParts, Text.pieces_append_cons hheader,
    Text.pieces_append_cons hpayload, htail]
  simp only [List.map_cons, String.ofList_toList]
  by_cases hsignature : String.ofList signature = v.signature
  · have hsigns : ∃ more', signature :: more = v.signature.toList :: more' := by
      rw [← hsignature, String.toList_ofList]
      exact ⟨more, rfl⟩
    simp only [hsignature, ne_eq, not_true_eq_false, ↓reduceIte, hsigns, true_and,
      ← decodePayload_eq_ok_iff]
    cases hdecode : decodePayload payload with
    | error fault => simp
    | ok bytes => cases hparse : Json.parse bytes <;> simp [hparse, eq_comm]
  · rw [if_pos hsignature]
    constructor
    · nofun
    · rintro ⟨⟨_, hsigns⟩, _⟩
      obtain ⟨rfl, _⟩ := List.cons.inj hsigns
      exact absurd (String.ofList_toList) hsignature

/-- Other texts are not granted. -/
theorem exists_parts_of_check {token : String} {credentials : Credentials}
    (h : v.check token = .ok credentials) :
    ∃ header payload tail, token = ofParts header payload tail ∧ '.' ∉ header.toList ∧
      '.' ∉ payload.toList := by
  rw [check] at h
  cases hpieces : Text.pieces '.' token.toList with
  | nil => exact absurd hpieces (Text.pieces_ne_nil '.' _)
  | cons header others =>
      rw [hpieces] at h
      match others, hpieces, h with
      | [], _, h => cases h
      | [_], _, h => cases h
      | payload :: signature :: more, hpieces, _ =>
          obtain ⟨hheader, rest, htoken, hrest⟩ := Text.pieces_eq_cons_cons_iff.mp hpieces
          obtain ⟨hpayload, tail, rfl, _⟩ := Text.pieces_eq_cons_cons_iff.mp hrest
          refine ⟨.ofList header, .ofList payload, .ofList tail, ?_, ?_, ?_⟩
          · rw [← String.toList_inj, toList_ofParts, htoken]
            simp only [String.toList_ofList]
          · rwa [String.toList_ofList]
          · rwa [String.toList_ofList]

/-- A text is granted if and only if it is a well-formed token, or goes on behind one. -/
theorem check_eq_ok_iff {token : String} {credentials : Credentials} :
    v.check token = .ok credentials ↔
      ∃ form claims, v.WellFormed form claims ∧ credentials = credentialsOf claims ∧
        (token = form ∨ ∃ more, token = form ++ "." ++ more) := by
  constructor
  · intro h
    obtain ⟨header, payload, tail, rfl, hheader, hpayload⟩ := exists_parts_of_check h
    obtain ⟨⟨hsignature, htail⟩, bytes, claims, hbytes, hclaims, rfl⟩ :=
      (check_ofParts hheader hpayload).mp h
    refine ⟨_, claims, .intro hheader hbytes hclaims hsignature, rfl, ?_⟩
    obtain rfl | ⟨more, rfl⟩ := htail
    · exact .inl rfl
    · exact .inr ⟨more, by simp only [ofParts, String.append_assoc]⟩
  · rintro ⟨_, claims, ⟨hheader, hbytes, hclaims, hsignature⟩, rfl, htoken⟩
    have hsigned {tail : String} (hsigns : v.Signs tail) :=
      (check_ofParts hheader hbytes.dot_not_mem).mpr ⟨hsigns, _, _, hbytes, hclaims, rfl⟩
    obtain rfl | ⟨more, rfl⟩ := htoken
    · exact hsigned ⟨hsignature, .inl rfl⟩
    · have hmore := hsigned ⟨hsignature, .inr ⟨more, rfl⟩⟩
      simpa only [ofParts, String.append_assoc] using hmore

theorem WellFormed.two_dots {token : String} {claims : Json} (h : v.WellFormed token claims) :
    token.toList.count '.' = 2 := by
  obtain ⟨hheader, hbytes, _, hsignature⟩ := h
  rw [toList_ofParts]
  simp [List.count_eq_zero_of_not_mem hheader, List.count_eq_zero_of_not_mem hbytes.dot_not_mem,
    List.count_eq_zero_of_not_mem hsignature]

/-- Only well-formed tokens are granted, but for what stands behind a third dot. A text is granted
if and only if it is a well-formed token or goes on behind one with a further dot. So a text with
at most two dots is granted if and only if it is well-formed. And when what follows the payload of
a granted token is exchanged, the result is granted if and only if the signature is there again, up
to the end or to a dot; nothing else changes then. -/
theorem check_exact (v : Verifier) (token : String) (credentials : Credentials) :
    (v.check token = .ok credentials ↔
      ∃ form claims, v.WellFormed form claims ∧ credentials = credentialsOf claims ∧
        (token = form ∨ ∃ more, token = form ++ "." ++ more)) ∧
    (token.toList.count '.' ≤ 2 →
      (v.check token = .ok credentials ↔
        ∃ claims, v.WellFormed token claims ∧ credentials = credentialsOf claims)) ∧
    ∀ header payload tail, token = ofParts header payload tail → '.' ∉ header.toList →
      '.' ∉ payload.toList → v.check token = .ok credentials →
      ∀ other result, v.check (ofParts header payload other) = .ok result ↔
        v.Signs other ∧ result = credentials := by
  refine ⟨check_eq_ok_iff, ?_, ?_⟩
  · intro hdots
    rw [check_eq_ok_iff]
    constructor
    · rintro ⟨form, claims, hform, rfl, rfl | ⟨more, rfl⟩⟩
      · exact ⟨claims, hform, rfl⟩
      · have htwo := hform.two_dots
        have hdot : ".".toList.count '.' = 1 := by decide
        rw [String.toList_append, String.toList_append, List.count_append, List.count_append,
          htwo, hdot] at hdots
        omega
    · rintro ⟨claims, hform, rfl⟩
      exact ⟨token, claims, hform, rfl, .inl rfl⟩
  · rintro header payload tail rfl hheader hpayload hgranted other result
    obtain ⟨_, bytes, claims, hbytes, hclaims, rfl⟩ := (check_ofParts hheader hpayload).mp hgranted
    rw [check_ofParts hheader hpayload]
    constructor
    · rintro ⟨hsigns, others, found, hothers, hfound, rfl⟩
      rw [← decodePayload_eq_ok_iff] at hbytes hothers
      obtain rfl : bytes = others := Except.ok.inj (hbytes.symm.trans hothers)
      obtain rfl : claims = found := Except.ok.inj (hclaims.symm.trans hfound)
      exact ⟨hsigns, rfl⟩
    · rintro ⟨hsigns, rfl⟩
      exact ⟨hsigns, bytes, claims, hbytes, hclaims, rfl⟩

def sharedVerifier : Verifier :=
  ⟨"sig", none⟩

theorem check_exact_sample :
    ∃ credentials, sharedVerifier.check "e30.e30.sig" = .ok credentials ∧
      (∃ claims, sharedVerifier.WellFormed "e30.e30.sig" claims ∧
        credentials = credentialsOf claims) ∧
      ∀ result, sharedVerifier.check "e30.e30.sign" ≠ .ok result := by
  have hgranted : sharedVerifier.check "e30.e30.sig" = .ok (credentialsOf (.object [])) := by
    cbv
  obtain ⟨_, htwo, hexchange⟩ := check_exact sharedVerifier "e30.e30.sig" _
  refine ⟨_, hgranted, (htwo (by decide)).mp hgranted, fun result hresult => ?_⟩
  have hother := hexchange "e30" "e30" "sig" rfl (by decide) (by decide) hgranted "sign" result
  obtain ⟨⟨_, hsame | ⟨more, hmore⟩⟩, _⟩ := hother.mp hresult
  · exact absurd hsame (by decide)
  · have hchars := congrArg String.toList hmore
    simp [sharedVerifier] at hchars

/-- A fourth part is not looked at: when it is put behind a granted token, the result is granted as
well, and is not well-formed any more. -/
theorem fourth_part_granted :
    ∃ credentials, sharedVerifier.check "e30.e30.sig" = .ok credentials ∧
      sharedVerifier.check "e30.e30.sig.forged" = .ok credentials ∧
      ∀ claims, ¬sharedVerifier.WellFormed "e30.e30.sig.forged" claims := by
  refine ⟨credentialsOf (.object []), by cbv, by cbv, fun claims hform => ?_⟩
  have hdots := hform.two_dots
  have hthree : "e30.e30.sig.forged".toList.count '.' = 3 := by decide
  omega

end Verifier

end RequestDispatch.Bearer
