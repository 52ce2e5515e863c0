import RequestDispatch.Http.Cookie
import RequestDispatch.Http.Headers
import RequestDispatch.Json.Printer
import RequestDispatch.Text.Percent

/-!
Requests as the dispatcher receives them, independent of any transport. The path is kept as
received; cookies and query fields are read from the headers and the query text on demand.
-/

namespace RequestDispatch

/-- A request method, compared letter by letter. -/
abbrev Method := String

/-- A request. The query has no leading question mark, and headers may repeat. -/
structure Request where
  method : Method
  path : String
  query : String
  headers : Headers
  body : List UInt8
deriving DecidableEq, Inhabited

namespace Request

/-- A request without headers and body for a target such as `/items/42?limit=10`. The target
is divided at its first question mark, and an empty path is the root. -/
def ofTarget (method : Method) (target : String) : Request :=
  let (path, query) := (Text.cut '?' target.toList).getD (target.toList, [])
  { method := method
    path := if path.isEmpty then "/" else String.ofList path
    query := String.ofList query
    headers := []
    body := [] }

def withHeader (r : Request) (name value : String) : Request :=
  { r with headers := r.headers.append name value }

/-- Takes the text of a JSON value as body and declares it. -/
def withJson (r : Request) (value : Json) : Request :=
  { r.withHeader "content-type" "application/json" with body := Text.Utf8.encode value.text }

def cookies (r : Request) : List (String × String) :=
  (r.headers.valuesOf "cookie").flatMap Cookie.parse

/-- The first cookie with this name. Names of cookies are case-sensitive. -/
def cookie? (r : Request) (name : String) : Option String :=
  (r.cookies.find? (·.1 == name)).map (·.2)

def queryFields (r : Request) : List (String × String) :=
  Text.Form.fields r.query

def queryValues (r : Request) (name : String) : List String :=
  (r.queryFields.filter (·.1 == name)).map (·.2)

def queryValue? (r : Request) (name : String) : Option String :=
  (r.queryValues name).getLast?

end Request

end RequestDispatch
