import ServiceClient.Pipeline.Retrying

/-!
Middleware for the fourth step, which every attempt goes through: the framing of the body and the
signature.
-/

namespace ServiceClient.Pipeline

open Call (Calling AuthScheme SigningParams)
open Http (Request)

/-- The length where it is known, else chunks. A transfer encoding that the request came with stays
beside a known length. -/
def addFraming (r : Request) : Request :=
  match r.body.length? with
  | some n => r.setHeader "content-length" (Text.encode (Nat.repr n))
  | none =>
    (r.removeHeader "content-length").setHeader "transfer-encoding" (Text.encode "chunked")

def contentLength {ω : Type} : Middleware Calling Request ω where
  id := "ContentLength"
  handle request next := next.run (addFraming request)

def signedByHeader : String := "x-signed-by"

/-- Every signature but that of the anonymous scheme is recorded, with the attempt that it is for. -/
def signRequest (scheme : AuthScheme) (params : SigningParams) (r : Request) : Calling Request := do
  let record := Calling.record (.signed scheme.id params (r.headers.get? attemptHeader))
  match scheme.signer with
  | .anonymous => pure r
  | .naming =>
    record
    pure (r.setHeader signedByHeader (Text.encode scheme.id))
  | .refusing =>
    record
    Calling.fail (.auth s!"signer {scheme.id} refused")

def signer {ω : Type} : Middleware Calling Request ω where
  id := "Signer"
  handle request next := do
    let c ← Calling.context
    let params ← Calling.ofClient (c.signingParams c.authScheme)
    next.run (← signRequest c.authScheme params request)

end ServiceClient.Pipeline
