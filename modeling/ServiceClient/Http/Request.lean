import ServiceClient.Http.Body
import ServiceClient.Http.Endpoint
import ServiceClient.Text.Percent

/-!
Outgoing requests. All their parts stay open to change until they are sent; the address is put
together from the endpoint and the query items.
-/

namespace ServiceClient.Http

/-- An item without a value is written as its name alone. -/
structure QueryItem where
  name : String
  value : Option String
  deriving DecidableEq, Repr

def QueryItem.text (q : QueryItem) : String :=
  match q.value with
  | some v => Text.Percent.escape q.name ++ "=" ++ Text.Percent.escape v
  | none => Text.Percent.escape q.name

structure Request where
  method : String
  endpoint : Endpoint
  headers : Headers
  trailers : Headers
  query : List QueryItem
  body : Body
  deriving DecidableEq, Repr

namespace Request

def empty : Request where
  method := "GET"
  endpoint := .ofHost "" .https
  headers := .empty
  trailers := .empty
  query := []
  body := .none

def addHeader (r : Request) (name : String) (value : Text.Octets) : Request :=
  { r with headers := r.headers.add name value }

def setHeader (r : Request) (name : String) (value : Text.Octets) : Request :=
  { r with headers := r.headers.set name value }

def removeHeader (r : Request) (name : String) : Request :=
  { r with headers := r.headers.remove name }

def addHeaders (r : Request) (more : Headers) : Request :=
  { r with headers := r.headers.addAll more }

def dropTrailingSlashes (s : String) : String :=
  String.ofList (s.toList.reverse.dropWhile (· == '/')).reverse

/-- Points the request at an endpoint, whose path goes in front of the request's own. -/
def atEndpoint (r : Request) (e : Endpoint) : Request :=
  { r with endpoint := { e with path := dropTrailingSlashes e.path ++ r.endpoint.path } }

/-- None without items, which is not the same as one empty item. -/
def queryString (r : Request) : Option String :=
  if r.query.isEmpty then none else some ("&".intercalate (r.query.map QueryItem.text))

def url (r : Request) : String :=
  match r.queryString with
  | some q => r.endpoint.url ++ "?" ++ q
  | none => r.endpoint.url

def uri (r : Request) : Except ClientError Uri :=
  match Uri.parse r.url with
  | .ok uri => .ok uri
  | .error fault => .error (.serializationFailed s!"invalid request uri '{r.url}': {fault.message}")

end Request

end ServiceClient.Http
