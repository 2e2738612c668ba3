import ServiceClient.Endpoint.Metadata

/-!
From metadata to a destination: an address given for the call wins over all metadata; else the host
is the template of the metadata with service, region and domain suffix filled in.
-/

namespace ServiceClient.Endpoint

structure Params where
  service : String
  region : Option String
  url : Option String
  deriving DecidableEq, Repr

structure Resolver where
  call : Metadata
  defaults : Metadata
  dnsSuffix : String
  deriving DecidableEq, Repr

namespace Resolver

def defaultSuffix : String := "amazonaws.com"

def ofDefaults (defaults : Metadata) : Resolver := ⟨.empty, defaults, defaultSuffix⟩

def lookup? (r : Resolver) (p : Params) (name : String) : Option String :=
  if name = "service" then some p.service
  else if name = "region" then p.region
  else if name = "dnsSuffix" then some r.dnsSuffix
  else none

def resolve (r : Resolver) (p : Params) : Except EndpointError Resolved :=
  match p.url with
  | some url =>
    match Http.Endpoint.ofUrl url with
    | .error e => .error (.invalidUrl e.message)
    | .ok endpoint => .ok ((r.call.merge r.defaults).resolvedAt endpoint)
  | none => do
    let resolved ← r.call.resolve r.defaults
    let host ← renderTemplate (r.lookup? p) resolved.endpoint.host
    pure { resolved with endpoint := { resolved.endpoint with host := host } }

end Resolver

end ServiceClient.Endpoint
