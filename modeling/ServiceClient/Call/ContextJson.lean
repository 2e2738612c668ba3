import ServiceClient.Call.Session
import ServiceClient.ErrorJson
import ServiceClient.Endpoint.ResolverJson

/-!
Contexts, replies and what a session shows, in JSON. Changes to a context are arrays with the name of
what changes in front.
-/

namespace ServiceClient.Call

def Flow.ofName? (name : String) : Option Flow := Flow.all.find? (·.name == name)

def AuthScheme.ofJson? (j : Json) : Option AuthScheme := do
  match (j.member "kind").string?.getD "sign" with
  | "noauth" => some .anonymous
  | "sign" => do pure ⟨← (j.member "id").string?, .naming⟩
  | "fail" => do pure ⟨← (j.member "id").string?, .refusing⟩
  | _ => none

def SigningParams.members (p : SigningParams) : List (String × Json) :=
  [("name", .string p.name), ("region", .string p.region), ("version", .string p.version),
    ("unsigned", .bool p.unsigned), ("flow", .string p.flow.name),
    ("expiration", .ofOption .ofDurationPair p.expiration)]

namespace Context

def withResolvedHost (c : Context) (host version : String) : Context :=
  { c with endpoint := some ⟨.ofHost host .https, none, none, version⟩ }

def changeOfJson? : Json → Option (Context → Context)
  | .array (.string "endpoint" :: .string host :: version) =>
    some (·.withResolvedHost host
      ((version.headD .null).string?.getD SigningParams.defaultVersion))
  | .array [.string name, .string s] =>
    match name with
    | "method" => some fun c => { c with method := s }
    | "path" => some fun c => { c with path := s }
    | "host_prefix" => some fun c => { c with hostPrefix := some s }
    | "region" => some fun c => { c with region := some s }
    | "partition_id" => some fun c => { c with partition := some s }
    | "signing_name" => some fun c => { c with signingName := some s }
    | "signing_region" => some fun c => { c with signingRegion := some s }
    | "auth_scheme" => some fun c => { c with selectedScheme := some s }
    | "extension" => some fun c => { c with extension := some s }
    | "log_mode" => (LogMode.parse s).toOption.map fun mode c => { c with logMode := mode }
    | _ => none
  | _ => none

def changesOfJson? (j : Json) : Option (Context → Context) := do
  let changes ← j.items.mapM changeOfJson?
  pure fun c => changes.foldl (fun c change => change c) c

def builtWith? (c : Context) (j : Json) : Option Context :=
  if !(j.member "builder").isTrue then some c
  else do
    let flow ← match j.member "flow" with
      | .null => some Flow.normal
      | name => name.string?.bind Flow.ofName?
    pure { c with
      authSchemes := ← (j.member "auth_schemes").items.mapM AuthScheme.ofJson?
      tokens := .fixed ((j.member "token").string?.getD "")
      unsigned := (j.member "unsigned").isTrue
      flow := flow
      expiration := (j.member "expiration").durationPair? }

def ofJson? (config : Config) (j : Json) : Option Context := do
  let settings := j.member "ctx"
  let operation := (j.member "operation").string?.getD ""
  let c ← (ofConfig config ((j.member "service").string?.getD "") operation).builtWith? settings
  pure ((← changesOfJson? (settings.member "set")) c)

def toJson (c : Context) : Json :=
  .ofMembers [("operation", .string c.operation), ("service", .string c.service),
    ("method", .string c.method), ("path", .string c.path),
    ("host_prefix", .ofOption .string c.hostPrefix), ("region", .ofOption .string c.region),
    ("partition_id", .string c.partitionId), ("signing_name", .string c.signerName),
    ("signing_region", .ofOption .string c.signerRegion),
    ("endpoint_url", .ofOption .string c.endpointUrl),
    ("endpoint", .ofOption Endpoint.Resolved.toJson c.endpoint),
    ("auth_schemes", .array (c.authSchemes.map fun s => .string s.id)),
    ("auth_scheme", .string c.authScheme.id), ("unsigned", .bool c.unsigned),
    ("flow", .string c.flow.name), ("expiration", .ofOption .ofDurationPair c.expiration),
    ("log_mode", .string c.logMode.name), ("attempt", .ofNat c.attempt),
    ("extension", .ofOption .string c.extension)]

end Context

/-- A response that settles shows the status 100 first. A status after the final one changes
nothing. -/
def Reply.ofJson? (sources : Http.Sources) (j : Json) : Option (Reply × Http.Sources) := do
  let stall := (j.member "stall_ms").nat?.getD 0
  match j.member "client" with
  | .null =>
    let (body, sources) ← Http.Body.ofJson? sources (j.member "body")
    let parts ← ResponseParts.ofJson? j
    match (j.member "settle_ms").nat? with
    | some delay =>
      pure (⟨stall, .later delay ⟨100, parts.headers, body⟩ [parts.status, 418]⟩, sources)
    | none => pure (⟨stall, .response ⟨parts.status, parts.headers, body⟩⟩, sources)
  | e => pure (⟨stall, .failure (← ClientError.ofJson? e)⟩, sources)

def repliesOfJson? (sources : Http.Sources) : List Json → Option (List Reply × Http.Sources)
  | [] => some ([], sources)
  | j :: rest => do
    let (reply, sources) ← Reply.ofJson? sources j
    let (replies, sources) ← repliesOfJson? sources rest
    pure (reply :: replies, sources)

end ServiceClient.Call
