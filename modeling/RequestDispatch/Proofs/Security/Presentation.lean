import RequestDispatch.Proofs.Http.Cookie
import RequestDispatch.Proofs.Http.Headers
import RequestDispatch.Proofs.Security.Bearer

/-!
Tokens that are presented. A token that is made of claims and of the right signature, and sent in the
header or cookie that the verifier looks at, gives its sender what the claims say.
-/

namespace RequestDispatch.Bearer

/-! ### What claims say -/

/-- The words of the text `scope`, if there is such a text. -/
inductive WordsOf (claims : Json) : List String → Prop where
  | text {text : String} {words : List String}
      (hscope : claims.member? "scope" = some (.string text))
      (hwords : Text.Words text.toList (words.map String.toList)) : WordsOf claims words
  | none (hscope : ∀ text, claims.member? "scope" ≠ some (.string text)) : WordsOf claims []

/-- The texts in the array `scopes`, if there is such an array. -/
inductive ItemsOf (claims : Json) : List String → Prop where
  | array {items : List Json} (hscopes : claims.member? "scopes" = some (.array items)) :
      ItemsOf claims (items.filterMap Json.toString?)
  | none (hscopes : ∀ items, claims.member? "scopes" ≠ some (.array items)) : ItemsOf claims []

/-- The credentials that claims give: the subject is the text `sub`, and the scopes are the words
of the text `scope` and then the texts in the array `scopes`. -/
structure Describes (claims : Json) (credentials : Credentials) : Prop where
  claims_eq : credentials.claims = claims
  subject : ∀ name, credentials.subject = some name ↔
    claims.member? "sub" = some (.string name)
  scopes : ∃ words items, credentials.scopes = words ++ items ∧ WordsOf claims words ∧
    ItemsOf claims items

theorem bind_toString?_eq_some_iff {found : Option Json} {text : String} :
    found.bind Json.toString? = some text ↔ found = some (.string text) := by
  cases found with
  | none => simp
  | some value => cases value <;> simp [Json.toString?]

theorem bind_toItems?_eq_some_iff {found : Option Json} {items : List Json} :
    found.bind Json.toItems? = some items ↔ found = some (.array items) := by
  cases found with
  | none => simp
  | some value => cases value <;> simp [Json.toItems?]

theorem wordsOf (claims : Json) :
    WordsOf claims (((claims.member? "scope").bind Json.toString?).elim [] Text.words) := by
  cases hfound : (claims.member? "scope").bind Json.toString? with
  | none =>
      refine .none fun text htext => ?_
      rw [bind_toString?_eq_some_iff.mpr htext] at hfound
      cases hfound
  | some text =>
      refine .text (bind_toString?_eq_some_iff.mp hfound) ?_
      rw [← Text.wordsOfChars_eq_iff]
      simp [Text.words]

theorem itemsOf (claims : Json) :
    ItemsOf claims (((claims.member? "scopes").bind Json.toItems?).elim []
      (List.filterMap Json.toString?)) := by
  cases hfound : (claims.member? "scopes").bind Json.toItems? with
  | none =>
      refine .none fun items hitems => ?_
      rw [bind_toItems?_eq_some_iff.mpr hitems] at hfound
      cases hfound
  | some items => exact .array (bind_toItems?_eq_some_iff.mp hfound)

theorem describes_credentialsOf (claims : Json) : Describes claims (credentialsOf claims) where
  claims_eq := rfl
  subject _ := bind_toString?_eq_some_iff
  scopes := ⟨_, _, rfl, wordsOf claims, itemsOf claims⟩

/-! ### Where tokens stand -/

namespace Verifier

variable {v : Verifier}

/-- The requests that present a token to a verifier. -/
inductive Presents (v : Verifier) (token : String) (r : Request) : Prop where
  /-- The token stands behind the scheme in the first `Authorization` header, and the cookie that
  the verifier prefers is not sent. -/
  | header {before after : Headers} {name scheme : String} {left right : List Char}
      (habsent : ∀ cookie, v.cookie = some cookie → r.cookie? cookie = none)
      (hheaders : r.headers = before ++
        (name, scheme ++ " " ++ String.ofList (left ++ token.toList ++ right)) :: after)
      (hfirst : ∀ line ∈ before, Text.sameIgnoringCase line.1 "authorization" = false)
      (hname : Text.sameIgnoringCase name "authorization" = true)
      (hscheme : Text.sameIgnoringCase scheme "bearer" = true) (hleft : Text.Blank left)
      (hright : Text.Blank right) : Presents v token r
  /-- The token is the value of the first cookie that has the name the verifier looks for. -/
  | cookie {before after : Headers} {line name : String} {piece : List Char}
      {fore aft : List (List Char)} (hcookie : v.cookie = some name)
      (hheaders : r.headers = before ++
        (line, String.ofList ([';'].intercalate (fore ++ piece :: aft))) :: after)
      (hline : Text.sameIgnoringCase line "cookie" = true)
      (hpiece : Cookie.Spells (name, token) piece)
      (hpieces : ∀ other ∈ fore ++ piece :: aft, ';' ∉ other)
      (hbefore : ∀ other ∈ before, Text.sameIgnoringCase other.1 "cookie" = true →
        ∀ c ∈ Cookie.parse other.2, c.1 ≠ name)
      (hfore : ∀ other ∈ fore, ∀ c ∈ Cookie.ofPiece other, c.1 ≠ name) : Presents v token r

/-- The token behind a scheme. -/
theorem tokenOfHeader?_bearer {scheme rest : String}
    (hscheme : Text.sameIgnoringCase scheme "bearer" = true) (hsome : Text.trim rest ≠ "") :
    tokenOfHeader? (scheme ++ " " ++ rest) = some (Text.trim rest) := by
  have hspace : ' ' ∉ scheme.toList := by
    intro hmember
    have hlower := List.mem_map_of_mem (f := Char.toLower) hmember
    rw [eq_of_beq hscheme] at hlower
    exact absurd hlower (by decide)
  have hcut : Text.cut ' ' (scheme ++ " " ++ rest).toList = some (scheme.toList, rest.toList) :=
    Text.cut_eq_some_iff.mpr ⟨hspace, by simp⟩
  have hfilled : ¬(Text.trim rest).isEmpty = true := by simpa using hsome
  simp only [tokenOfHeader?, hcut, String.ofList_toList, hscheme, Bool.not_true,
    Bool.false_eq_true, ↓reduceIte, hfilled]

/-- A token that is presented is found, without the blanks around it. -/
theorem Presents.presented?_eq {token : String} {r : Request} (h : v.Presents token r)
    (hsome : Text.trim token ≠ "") : v.presented? r = some (Text.trim token) := by
  cases h with
  | @header before after name scheme left right habsent hheaders hfirst hname hscheme hleft
      hright =>
      have hcookie : v.cookie.bind r.cookie? = none := by
        cases hname : v.cookie with
        | none => rfl
        | some cookie => exact habsent cookie hname
      have htrim : Text.trim (String.ofList (left ++ token.toList ++ right)) = Text.trim token := by
        rw [Text.trim, String.toList_ofList, Text.trimChars_padded hleft hright, Text.trim]
      rw [presented?, hcookie, hheaders, Headers.first?_of_first hfirst hname, Option.bind_some,
        tokenOfHeader?_bearer hscheme (by rwa [htrim]), htrim]
  | @cookie before after line name piece fore aft hcookie hheaders hline hpiece hpieces hbefore
      hfore =>
      have hfound := Request.cookie?_of_first hheaders hline hpiece hpieces hbefore hfore
      have htrim : Text.trim token = token := by
        rw [Text.trim, hpiece.value_trimmed, String.ofList_toList]
      rw [presented?, hcookie, Option.bind_some, hfound, htrim]

/-- Blanks can only be taken off the header of a token whose signature has none around it. -/
theorem trim_ofParts (header payload : String) {signature : String}
    (htrimmed : Text.Trimmed signature.toList) :
    Text.trim (ofParts header payload signature) =
      ofParts (String.ofList (header.toList.dropWhile Text.isBlank)) payload signature := by
  have hdot : Text.isBlank '.' = false := by decide
  have hassoc : (ofParts header payload signature).toList =
      (header.toList ++ '.' :: payload.toList) ++ '.' :: signature.toList := by
    rw [toList_ofParts]
    simp
  rw [← String.toList_inj, Text.trim, String.toList_ofList, hassoc,
    Text.trimChars_append_cons hdot, Text.dropWhile_append_cons hdot, htrimmed.rdropWhile,
    toList_ofParts, String.toList_ofList]
  simp

/-- A token is a round trip of its claims. When it is made of a header without dots, of a payload
that is claims in either form of base 64, and of the signature, and is presented to the verifier,
then the sender is granted what the claims say. -/
theorem authenticate_presented (v : Verifier) {header payload : String} {bytes : List UInt8}
    {claims : Json} {r : Request} (hsignature : '.' ∉ v.signature.toList)
    (htrimmed : Text.Trimmed v.signature.toList) (hheader : '.' ∉ header.toList)
    (hpayload : Base64.Encodes bytes payload) (hclaims : Json.parse bytes = .ok claims)
    (hpresents : v.Presents (ofParts header payload v.signature) r) :
    ∃ credentials, v.authenticate r = .granted credentials ∧ Describes claims credentials := by
  have htrim := trim_ofParts header payload htrimmed
  have hsome : Text.trim (ofParts header payload v.signature) ≠ "" := by
    rw [htrim, ne_eq, ← String.toList_inj, toList_ofParts]
    simp
  have hfree : '.' ∉ (String.ofList (header.toList.dropWhile Text.isBlank)).toList := by
    rw [String.toList_ofList]
    exact fun hmember => hheader ((List.dropWhile_sublist Text.isBlank).subset hmember)
  have hcheck := (check_ofParts hfree hpayload.dot_not_mem).mpr
    ⟨⟨hsignature, .inl rfl⟩, bytes, claims, hpayload, hclaims, rfl⟩
  refine ⟨credentialsOf claims, ?_, describes_credentialsOf claims⟩
  rw [authenticate, hpresents.presented?_eq hsome, htrim]
  simp only [hcheck]

/-- A request with a token in its second cookie, whose payload is padded. -/
def sessionRequest : Request :=
  (Request.ofTarget "GET" "/").withHeader "COOKIE"
    "lang=en; session = h.eyJzY29wZSI6ImFiIGMifQ==.sig"

theorem authenticate_presented_sample :
    ∃ credentials, authenticate ⟨"sig", some "session"⟩ sessionRequest = .granted credentials ∧
      Describes (.object [("scope", .string "ab c")]) credentials := by
  have hpayload : Base64.Encodes (Text.Utf8.encode "\x7b\"scope\":\"ab c\"\x7d")
      "eyJzY29wZSI6ImFiIGMifQ==" := .inr (by decide)
  have hclaims : Json.parse (Text.Utf8.encode "\x7b\"scope\":\"ab c\"\x7d") =
      .ok (.object [("scope", .string "ab c")]) := by cbv
  have hpiece : Cookie.Spells ("session", ofParts "h" "eyJzY29wZSI6ImFiIGMifQ==" "sig")
      " session = h.eyJzY29wZSI6ImFiIGMifQ==.sig".toList := by
    have hblank : Text.Blank [' '] := by simp [Text.Blank, Text.isBlank]
    exact @Cookie.Spells.intro "session" "h.eyJzY29wZSI6ImFiIGMifQ==.sig" [' '] [' '] [' '] []
      (by decide) (by decide) (by decide) (by decide) hblank hblank hblank
      (List.forall_mem_nil _)
  have hpresents : Presents ⟨"sig", some "session"⟩
      (ofParts "h" "eyJzY29wZSI6ImFiIGMifQ==" "sig") sessionRequest := by
    refine @Presents.cookie _ _ _ [] [] "COOKIE" "session" _ ["lang=en".toList] [] rfl ?_ ?_ hpiece
      ?_ ?_ ?_
    · rfl
    · decide
    · decide
    · exact List.forall_mem_nil _
    · decide
  exact authenticate_presented ⟨"sig", some "session"⟩ (by decide) (by decide) (by decide)
    hpayload hclaims hpresents

end Verifier

end RequestDispatch.Bearer
