import ServiceClient.Http.Request
import ServiceClient.Json.Plain

/-!
Parts of requests and responses in JSON: header fields as pairs in the order of their names, a body
as its octets or as an object, an endpoint as an object that also holds what follows from its parts.
-/

namespace ServiceClient.Http

def Protocol.ofName? (name : String) : Option Protocol :=
  [Protocol.http, .https].find? (·.name == name)

namespace Headers

def fieldOfJson? : Json → Option (String × Text.Octets)
  | .array [.string name, value] => value.octets?.map fun value => (name, value)
  | _ => none

def ofJson? (j : Json) : Option Headers :=
  (j.items.mapM fieldOfJson?).map .ofList

def toJson (h : Headers) : Json :=
  .array (h.sorted.map fun f => .array [.string f.name, .ofOctets f.value])

end Headers

def Chunk.ofJson? (j : Json) : Option Chunk :=
  match j.member "error" with
  | .string reason => some (.failure reason)
  | _ => j.octets?.map .octets

def Content.ofJson? (j : Json) : Option Content :=
  match j, j.member "chunks" with
  | .null, _ => some .none
  | _, .array pieces => do
    pure (.chunks (← pieces.mapM Chunk.ofJson?) (j.member "length").nat?)
  | _, _ => j.octets?.map .data

namespace Body

def ofJson? (sources : Sources) (j : Json) : Option (Body × Sources) :=
  (Content.ofJson? j).map (·.toBody sources)

def kind : Body → String
  | .none => "none"
  | .data _ => "data"
  | .stream _ _ => "stream"

def toJson (b : Body) : Json :=
  .ofMembers [("kind", .string b.kind), ("length", .ofOption .ofNat b.length?),
    ("data", .ofOption .ofOctets b.octets?)]

end Body

namespace Endpoint

def ofJson? (j : Json) : Option Endpoint := do
  let protocol ← match j.member "protocol" with
    | .null => some Protocol.https
    | name => name.string?.bind Protocol.ofName?
  let e := ofHost (← (j.member "host").string?) protocol
  pure { e with path := (j.member "path").string?.getD e.path, port := (j.member "port").nat? }

def toJson (e : Endpoint) : Json :=
  .ofMembers [("host", .string e.host), ("path", .string e.path),
    ("port", .ofOption .ofNat e.port), ("protocol", .string e.protocol.name),
    ("effective_port", .ofNat e.effectivePort), ("authority", .string e.authority),
    ("url", .string e.url)]

end Endpoint

namespace QueryItem

def ofJson? : Json → Option QueryItem
  | .array (.string name :: rest) => some ⟨name, (rest.headD .null).string?⟩
  | _ => none

def toJson (q : QueryItem) : Json :=
  .array [.string q.name, .ofOption .string q.value]

end QueryItem

namespace Request

def members (r : Request) : List (String × Json) :=
  [("method", .string r.method), ("host", .string r.endpoint.host), ("path", .string r.endpoint.path),
    ("headers", r.headers.toJson), ("query", .array (r.query.map (·.toJson))),
    ("body", r.body.toJson)]

def finishedMembers (r : Request) (uri : Json) : List (String × Json) :=
  r.members ++ [("endpoint", r.endpoint.toJson), ("trailers", r.trailers.toJson),
    ("query_string", .ofOption .string r.queryString), ("uri", uri)]

def sentMembers (r : Request) (uri : Uri) : List (String × Json) :=
  r.members ++ [("uri", .string uri.text), ("host", .ofOption .string uri.host?),
    ("port", .ofOption .ofNat uri.port?), ("path", .string uri.path),
    ("query", .ofOption .string uri.query)]

end Request

end ServiceClient.Http
