import ServiceClient.Endpoint.Template
import ServiceClient.Http.Endpoint
import ServiceClient.Json.Document

/-!
What is known of a service's endpoint, from the call and from the service's defaults. What the call
says goes first where it says anything.
-/

namespace ServiceClient.Endpoint

structure CredentialScope where
  region : Option String
  serviceId : Option String
  deriving DecidableEq, Repr

def CredentialScope.empty : CredentialScope := ⟨none, none⟩

structure Metadata where
  hostName : Option String
  protocols : List String
  credentialScope : Option CredentialScope
  signatureVersions : List String
  deriving DecidableEq, Repr

structure Resolved where
  endpoint : Http.Endpoint
  signingName : Option String
  signingRegion : Option String
  signatureVersion : String
  deriving DecidableEq, Repr

namespace Metadata

def empty : Metadata := ⟨none, [], none, []⟩

def protocolPreference : List String := ["https", "http"]

def signaturePreference : List String := ["v4"]

/-- The first of the preferred names that is among the supported ones in any letter case, else the
most preferred one. -/
def select (supported preferred : List String) (fallback : String) : String :=
  (preferred.find? fun p => supported.any fun s => Text.lowerAscii s == p).getD fallback

def pickNonEmpty (own others : List String) : List String :=
  if own.isEmpty then others else own

def scope (m : Metadata) : CredentialScope := m.credentialScope.getD .empty

def merge (own others : Metadata) : Metadata where
  hostName := own.hostName <|> others.hostName
  protocols := pickNonEmpty own.protocols others.protocols
  credentialScope := some
    ⟨own.scope.region <|> others.scope.region, own.scope.serviceId <|> others.scope.serviceId⟩
  signatureVersions := pickNonEmpty own.signatureVersions others.signatureVersions

def signatureVersion (m : Metadata) : String :=
  select m.signatureVersions signaturePreference "v4"

def protocol (m : Metadata) : Http.Protocol :=
  if select m.protocols protocolPreference "https" = "http" then .http else .https

def resolvedAt (m : Metadata) (e : Http.Endpoint) : Resolved :=
  ⟨e, m.scope.serviceId, m.scope.region, m.signatureVersion⟩

def resolve (own others : Metadata) : Except EndpointError Resolved :=
  let m := own.merge others
  match m.hostName with
  | none => .error .hostnameMissing
  | some host => .ok (m.resolvedAt (.ofHost host m.protocol))

def scopeShape : Json.Shape :=
  .record false true [("region", false, .nullable .string), ("serviceId", false, .nullable .string)]

def shape : Json.Shape :=
  .record false true
    [("hostName", false, .nullable .string), ("protocols", false, .list .string),
      ("credentialScope", false, .nullable scopeShape),
      ("signatureVersions", false, .list .string)]

def scopeOfJson : Json → Option CredentialScope
  | .null => none
  | j => some ⟨(j.member "region").string?, (j.member "serviceId").string?⟩

def ofJson (j : Json) : Metadata :=
  ⟨(j.member "hostName").string?, (j.member "protocols").items.filterMap Json.string?,
    scopeOfJson (j.member "credentialScope"),
    (j.member "signatureVersions").items.filterMap Json.string?⟩

def parse (s : Text.Octets) : Except JsonFault Metadata :=
  (shape.parse s).map ofJson

def readDocument (body : Text.Octets) : Except JsonFault Metadata :=
  (shape.readDocument body).map ofJson

def optionalMember (key : String) : Option Json → List (String × Json)
  | some j => [(key, j)]
  | none => []

def scopeJson (s : CredentialScope) : Json :=
  .ofMembers (optionalMember "region" (s.region.map .string) ++
    optionalMember "serviceId" (s.serviceId.map .string))

def toJson (m : Metadata) : Json :=
  .ofMembers (optionalMember "hostName" (m.hostName.map .string) ++
    [("protocols", .array (m.protocols.map .string))] ++
    optionalMember "credentialScope" (m.credentialScope.map scopeJson) ++
    [("signatureVersions", .array (m.signatureVersions.map .string))])

end Metadata

end ServiceClient.Endpoint
