import ServiceClient.Error
import ServiceClient.Http.Uri

/-!
Where a request goes: protocol, host, port and the path that all its paths start with.
-/

namespace ServiceClient.Http

inductive Protocol where
  | http
  | https
  deriving DecidableEq, Repr, Inhabited

namespace Protocol

def name : Protocol → String
  | .http => "http"
  | .https => "https"

def defaultPort : Protocol → Nat
  | .http => 80
  | .https => 443

def parse (s : String) : Except ClientError Protocol :=
  let lower := Text.lowerAscii s
  if lower = "http" then .ok .http
  else if lower = "https" then .ok .https
  else .error (.endpointResolution s!"unsupported protocol '{lower}'")

end Protocol

/-- Without a port, the protocol's own one is meant. -/
structure Endpoint where
  host : String
  path : String
  port : Option Nat
  protocol : Protocol
  deriving DecidableEq, Repr

namespace Endpoint

def ofHost (host : String) (protocol : Protocol) : Endpoint := ⟨host, "/", none, protocol⟩

def effectivePort (e : Endpoint) : Nat := e.port.getD e.protocol.defaultPort

def authority (e : Endpoint) : String :=
  match e.port with
  | some port => if port = e.protocol.defaultPort then e.host else e.host ++ ":" ++ Nat.repr port
  | none => e.host

def url (e : Endpoint) : String :=
  e.protocol.name ++ "://" ++ e.authority ++ e.path

/-- An absolute address; user, query and fragment are dropped. -/
def ofUrl (url : String) : Except ClientError Endpoint :=
  match Uri.parse url with
  | .error fault => .error (.endpointResolution s!"invalid endpoint url '{url}': {fault.message}")
  | .ok uri =>
    match uri.scheme with
    | none => .error (.endpointResolution s!"endpoint url '{url}' has no scheme")
    | some scheme => do
      let protocol ← Protocol.parse scheme
      match uri.host? with
      | none | some "" => .error (.endpointResolution s!"endpoint url '{url}' has no host")
      | some host => pure ⟨host, if uri.path.isEmpty then "/" else uri.path, uri.port?, protocol⟩

end Endpoint

end ServiceClient.Http
