import ServiceClient.Digest.Md5
import ServiceClient.Pipeline.Stack
import ServiceClient.Text.Base64

/-!
Middleware for the third step: where the request goes, and a digest of its body.
-/

namespace ServiceClient.Pipeline

open Call (Calling)
open Http (Request)

def prefixedHost (c : Call.Context) (e : Http.Endpoint) : Http.Endpoint :=
  { e with host := c.hostPrefix.getD "" ++ e.host }

def endpointResolver {ω : Type} (resolver : Endpoint.Resolver) : Middleware Calling Request ω where
  id := "EndpointResolver"
  handle request next := do
    let c ← Calling.context
    match resolver.resolve c.endpointParams with
    | .error e => Calling.fail e.toClientError
    | .ok resolved =>
      Calling.modifyContext (·.withEndpoint resolved)
      next.run (request.atEndpoint (prefixedHost c resolved.endpoint))

def digestHeader : String := "content-md5"

/-- Only for bodies that are at hand, and only where there is no such field. -/
def addDigest (r : Request) : Request :=
  match r.body.octets? with
  | some octets =>
    if r.headers.contains digestHeader then r
    else r.setHeader digestHeader (Text.encode (Text.Base64.encode (Digest.Md5.digest octets)))
  | none => r

def contentDigest {ω : Type} : Middleware Calling Request ω where
  id := "ContentMd5"
  handle request next := next.run (addDigest request)

end ServiceClient.Pipeline
