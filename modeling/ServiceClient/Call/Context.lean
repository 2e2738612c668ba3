import ServiceClient.Config
import ServiceClient.Endpoint.Resolver

/-!
What is known about one call of an operation while it goes through its steps. What an earlier step
finds out, later steps see.
-/

namespace ServiceClient.Call

open Time (Duration)

inductive Flow where
  | normal
  | presignRequest
  | presignUrl
  deriving DecidableEq, Repr

namespace Flow

def all : List Flow := [.normal, .presignRequest, .presignUrl]

def name : Flow → String
  | .normal => "Normal"
  | .presignRequest => "PresignRequest"
  | .presignUrl => "PresignUrl"

end Flow

inductive Signer where
  | anonymous
  | naming
  | refusing
  deriving DecidableEq, Repr

structure AuthScheme where
  id : String
  signer : Signer
  deriving DecidableEq, Repr

def AuthScheme.anonymous : AuthScheme := ⟨"noAuth", .anonymous⟩

structure SigningParams where
  name : String
  region : String
  version : String
  unsigned : Bool
  flow : Flow
  expiration : Option Duration
  deriving DecidableEq, Repr

def SigningParams.defaultVersion : String := "v4"

def SigningParams.of (name region : String) : SigningParams :=
  ⟨name, region, defaultVersion, false, .normal, none⟩

inductive TokenSource where
  | fixed (token : String)
  | random
  deriving DecidableEq, Repr

/-- `partition`, `signingName` and `signingRegion` are none where they follow from the rest. -/
structure Context where
  operation : String
  service : String
  method : String
  path : String
  hostPrefix : Option String
  region : Option String
  partition : Option String
  signingName : Option String
  signingRegion : Option String
  endpointUrl : Option String
  endpoint : Option Endpoint.Resolved
  authSchemes : List AuthScheme
  selectedScheme : Option String
  tokens : TokenSource
  unsigned : Bool
  flow : Flow
  expiration : Option Duration
  logMode : LogMode
  attempt : Nat
  extension : Option String
  deriving DecidableEq, Repr

namespace Context

def ofConfig (c : Config) (service operation : String) : Context where
  operation := operation
  service := service
  method := "GET"
  path := "/"
  hostPrefix := none
  region := c.region
  partition := c.partitionId
  signingName := none
  signingRegion := none
  endpointUrl := c.endpoint
  endpoint := none
  authSchemes := []
  selectedScheme := none
  tokens := .random
  unsigned := false
  flow := .normal
  expiration := none
  logMode := c.logMode
  attempt := 0
  extension := none

/-- The partition whose retry capacity the call uses: the given one, else the resolved host, else
the service. -/
def partitionId (c : Context) : String :=
  (c.partition <|> c.endpoint.map (·.endpoint.host)).getD c.service

def signerName (c : Context) : String := c.signingName.getD c.service

def signerRegion (c : Context) : Option String := c.signingRegion <|> c.region

def authScheme (c : Context) : AuthScheme :=
  ((c.selectedScheme.bind fun id => c.authSchemes.find? (·.id == id)) <|> c.authSchemes.head?).getD
    .anonymous

def endpointParams (c : Context) : Endpoint.Params := ⟨c.service, c.region, c.endpointUrl⟩

def withEndpoint (c : Context) (r : Endpoint.Resolved) : Context :=
  { c with
    endpoint := some r
    signingName := r.signingName <|> c.signingName
    signingRegion := r.signingRegion <|> c.signingRegion }

def signingParams (c : Context) (scheme : AuthScheme) : Except ClientError SigningParams :=
  let version := (c.endpoint.map (·.signatureVersion)).getD SigningParams.defaultVersion
  let params (region : String) : SigningParams :=
    ⟨c.signerName, region, version, c.unsigned, c.flow, c.expiration⟩
  match c.signerRegion with
  | some region => .ok (params region)
  | none =>
    if scheme.id = AuthScheme.anonymous.id then .ok (params "")
    else .error (.auth
      s!"no signing region for scheme '{scheme.id}' in operation '{c.operation}'")

end Context

end ServiceClient.Call
