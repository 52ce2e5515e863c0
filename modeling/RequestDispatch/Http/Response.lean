import RequestDispatch.Http.Headers
import RequestDispatch.Json.Printer
import RequestDispatch.Text.Utf8

/-!
Responses of the application. The body stays structured until it is written; headers keep
the order in which they were added.
-/

namespace RequestDispatch

inductive Body where
  | empty
  | json (value : Json)
  | text (s : String)
  | bytes (octets : List UInt8)
deriving DecidableEq, Inhabited

namespace Body

def toBytes : Body → List UInt8
  | .empty => []
  | .json value => Text.Utf8.encode value.text
  | .text s => Text.Utf8.encode s
  | .bytes octets => octets

/-- Whether nothing is written for a body. A JSON value is never empty. -/
def isEmpty : Body → Bool
  | .empty => true
  | .json _ => false
  | .text s => s.isEmpty
  | .bytes octets => octets.isEmpty

end Body

structure Response where
  status : Nat
  headers : Headers
  body : Body
deriving DecidableEq, Inhabited

namespace Response

/-- A response whose only header declares the content type. -/
def typed (status : Nat) (contentType : String) (body : Body) : Response :=
  ⟨status, [("content-type", contentType)], body⟩

def json (status : Nat) (value : Json) : Response :=
  typed status "application/json" (.json value)

def html (status : Nat) (s : String) : Response :=
  typed status "text/html; charset=utf-8" (.text s)

def text (status : Nat) (s : String) : Response :=
  typed status "text/plain; charset=utf-8" (.text s)

def bytes (status : Nat) (contentType : String) (octets : List UInt8) : Response :=
  typed status contentType (.bytes octets)

def defaultRedirectStatus : Nat := 307

def redirect (status : Nat) (location : String) : Response :=
  ⟨status, [("location", location)], .empty⟩

def empty (status : Nat) : Response :=
  ⟨status, [], .empty⟩

/-- A JSON response with one member that says what went wrong. -/
def detail (status : Nat) (value : Json) : Response :=
  json status (.object [("detail", value)])

/-- Replaces every header line with this name. -/
def setHeader (r : Response) (name value : String) : Response :=
  { r with headers := r.headers.set name value }

def appendHeader (r : Response) (name value : String) : Response :=
  { r with headers := r.headers.append name value }

def removeHeader (r : Response) (name : String) : Response :=
  { r with headers := r.headers.remove name }

def jsonBody? (r : Response) : Option Json :=
  match r.body with
  | .json value => some value
  | _ => none

def isSuccess (r : Response) : Bool :=
  200 ≤ r.status && r.status < 300

/-- What a transport is handed: the status, the header lines, and the octets of the body. -/
def parts (r : Response) : Nat × Headers × List UInt8 :=
  (r.status, r.headers, r.body.toBytes)

end Response

end RequestDispatch
