import ServiceClient.Endpoint.Resolver
import ServiceClient.Http.MessageJson

/-!
Resolvers and what they find, in JSON.
-/

namespace ServiceClient.Endpoint

/-- Nothing is known where no metadata is given. A value is always well-formed, so that only its shape
can be wrong. -/
def Metadata.ofGiven : Json → Except JsonFault Metadata
  | .null => .ok .empty
  | j => (Metadata.parse (Json.writeDocument j)).mapError fun _ => .data

def Resolver.ofJson (j : Json) : Except JsonFault Resolver := do
  let call ← Metadata.ofGiven (j.member "call")
  let defaults ← Metadata.ofGiven (j.member "defaults")
  pure ⟨call, defaults, (j.member "dns_suffix").string?.getD defaultSuffix⟩

def Params.ofJson? (j : Json) : Option Params := do
  pure ⟨(j.member "service").string?.getD "", (j.member "region").string?,
    (j.member "endpoint_url").string?⟩

def Resolved.toJson (r : Resolved) : Json :=
  .ofMembers [("endpoint", r.endpoint.toJson), ("signing_name", .ofOption .string r.signingName),
    ("signing_region", .ofOption .string r.signingRegion),
    ("signature_version", .string r.signatureVersion)]

end ServiceClient.Endpoint
