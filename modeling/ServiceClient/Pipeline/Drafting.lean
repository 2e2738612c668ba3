import ServiceClient.Pipeline.Stack
import ServiceClient.Wire.Error

/-!
Middleware for the second step: body, header fields and query items that an input gives a request.
-/

namespace ServiceClient.Pipeline

open Call (Calling)

/-- The whole input as the body. A content type that the request has already stays. -/
def body {ι ω : Type} (write : ι → Except WireError Text.Octets) (contentType : String) :
    Middleware Calling (Draft ι) ω where
  id := "Body"
  handle draft next := do
    match write draft.input with
    | .error e => Calling.fail (.serializationFailed e.message)
    | .ok octets =>
      let r := { draft.request with body := .data octets }
      let typed :=
        if r.headers.contains "content-type" then r
        else r.setHeader "content-type" (Text.encode contentType)
      next.run { draft with request := typed }

/-- The input's own fields take the place of those with the same names. -/
def headers {ι ω : Type} (fields : ι → Except ClientError Http.Headers) :
    Middleware Calling (Draft ι) ω where
  id := "Header"
  handle draft next := do
    let fields ← Calling.ofClient (fields draft.input)
    let r := draft.request
    next.run { draft with request := { r with headers := r.headers.replaceAll fields } }

def queryItems {ι ω : Type} (items : ι → List Http.QueryItem) :
    Middleware Calling (Draft ι) ω where
  id := "QueryItem"
  handle draft next :=
    let r := draft.request
    next.run { draft with request := { r with query := r.query ++ items draft.input } }

end ServiceClient.Pipeline
