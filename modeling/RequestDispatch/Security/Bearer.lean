import RequestDispatch.Json.Parser
import RequestDispatch.Security.Base64
import RequestDispatch.Security.Provider

/-!
Bearer tokens `header.payload.signature`. The signature is a shared text that is compared as
it stands; the payload is JSON in base 64. A token comes from a cookie, when one is named and
present, or else from the first `Authorization` header.
-/

namespace RequestDispatch.Bearer

/-- What tokens are checked against, and the cookie they may come from. -/
structure Verifier where
  signature : String
  cookie : Option String
deriving DecidableEq, Repr

inductive Refusal where
  | malformed
  | wrongSignature
  | badEncoding (fault : Base64.Fault)
  | badPayload (error : Json.ParseError)

def Refusal.message : Refusal → String
  | .malformed => "malformed token"
  | .wrongSignature => "invalid signature"
  | .badEncoding fault => "invalid base64 payload: " ++ fault.message
  | .badPayload error => "invalid JSON payload: " ++ error.message

/-- The token in an `Authorization` header: what follows the first space behind the scheme,
which may be written in any case. -/
def tokenOfHeader? (header : String) : Option String :=
  match Text.cut ' ' header.toList with
  | none => none
  | some (scheme, rest) =>
      if !Text.sameIgnoringCase (String.ofList scheme) "bearer" then none
      else
        let token := Text.trim (String.ofList rest)
        if token.isEmpty then none else some token

/-- The octets of a payload in either form of base 64; a fault is that of the padded form. -/
def decodePayload (payload : String) : Except Base64.Fault (List UInt8) :=
  let octets := Text.Utf8.encode payload
  match Base64.decodeUrl octets with
  | .ok bytes => .ok bytes
  | .error _ => Base64.decodeStandard octets

/-- The scopes in the claims of a token: the words of the text `scope`, then the texts in the
array `scopes`. -/
def scopesOf (claims : Json) : List String :=
  let words := ((claims.member? "scope").bind Json.toString?).elim [] Text.words
  let listed := ((claims.member? "scopes").bind Json.toItems?).elim []
    (List.filterMap Json.toString?)
  words ++ listed

def credentialsOf (claims : Json) : Credentials :=
  { subject := (claims.member? "sub").bind Json.toString?
    scopes := scopesOf claims
    claims := claims }

namespace Verifier

def presented? (v : Verifier) (r : Request) : Option String :=
  match v.cookie.bind r.cookie? with
  | some token => some token
  | none => (r.headers.first? "authorization").bind tokenOfHeader?

def check (v : Verifier) (token : String) : Except Refusal Credentials :=
  match (Text.pieces '.' token.toList).map String.ofList with
  | _ :: payload :: signature :: _ =>
      if signature ≠ v.signature then .error .wrongSignature
      else
        match decodePayload payload with
        | .error fault => .error (.badEncoding fault)
        | .ok bytes =>
            match Json.parse bytes with
            | .error error => .error (.badPayload error)
            | .ok claims => .ok (credentialsOf claims)
  | _ => .error .malformed

def authenticate (v : Verifier) (r : Request) : Authentication :=
  match v.presented? r with
  | none => .missing
  | some token =>
      match v.check token with
      | .ok credentials => .granted credentials
      | .error refusal => .invalid refusal.message

def provider (v : Verifier) : SecurityProvider :=
  ⟨"bearer_jwt", v.authenticate⟩

end Verifier

end RequestDispatch.Bearer
