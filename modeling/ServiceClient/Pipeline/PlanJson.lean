import ServiceClient.Call.ContextJson
import ServiceClient.Pipeline.Addressing
import ServiceClient.Pipeline.Drafting
import ServiceClient.Pipeline.ErrorReport
import ServiceClient.Pipeline.Finishing
import ServiceClient.Pipeline.Plan
import ServiceClient.Pipeline.Preparation
import ServiceClient.Pipeline.Probe
import ServiceClient.Pipeline.Reading
import ServiceClient.Xml.ValueJson

/-!
Stacks put together as a JSON object says: for each step a list of middleware, each with the place
where it goes. The input of such a stack is any JSON value, with a token beside it.
-/

namespace ServiceClient.Pipeline

open Call (Calling Event)
open Http (Request)
open Text (Octets)

structure Input where
  data : Json
  token : Option String

def Input.toJson (i : Input) : Json :=
  .ofMembers [("data", i.data), ("token", .ofOption .string i.token)]

def Place.ofJson? : Json → Option Place
  | .null => some .last
  | .string "after" => some .last
  | .string "before" => some .first
  | .array [.string "before_of", .string anchor] => some (.before anchor)
  | .array [.string "after_of", .string anchor] => some (.after anchor)
  | _ => none

def editOfJson? (j : Json) : Option Edit := do
  let body ← if j.has "body" then (Http.Content.ofJson? (j.member "body")).map some else some none
  pure ⟨← Http.Headers.ofJson? (j.member "headers"), (j.member "host").string?, body⟩

def nameOr (default : String) (j : Json) : String := (j.member "id").string?.getD default

def anywhere? {ι ω : Type} (name : String) (j : Json) : Option (Middleware Calling ι ω) :=
  match name with
  | "Trace" => do pure (trace (← (j.member "id").string?))
  | "Fail" => do pure (failing (← ClientError.ofJson? (j.member "error")))
  | "Set" => do pure (adjusting (← Call.Context.changesOfJson? (j.member "ops")))
  | _ => none

def preparing? {ω : Type} (name : String) (j : Json) : Option (Middleware Calling Input ω) :=
  match name with
  | "UrlPath" =>
    let start := (j.member "prefix").string?.getD ""
    let field := (j.member "field").string?.getD ""
    some (urlPath start fun i => (i.data.member field).string?)
  | "IdempotencyToken" => some (idempotencyToken Input.token fun i t => { i with token := some t })
  | _ => anywhere? name j

def inputHeaders (i : Input) : Except ClientError Http.Headers :=
  match i.data.member "headers" with
  | .string reason => .error (.serializationFailed reason)
  | fields => .ok ((Http.Headers.ofJson? fields).getD .empty)

def inputQuery (i : Input) : List Http.QueryItem :=
  (i.data.member "query").items.filterMap Http.QueryItem.ofJson?

def rootName (j : Json) : String :=
  ((Xml.NodeInfo.ofJson? j).map (·.name)).getD ""

def bodyWriter? (j : Json) : Option (Input → Except WireError Octets) :=
  match (j.member "format").string?.getD "json" with
  | "json" => some fun i => .ok (Json.writeDocument i.toJson)
  | "xml" => do
    let root ← Xml.NodeInfo.ofJson? (j.member "root")
    let schema ← Xml.Schema.describedBy? (j.member "schema")
    pure fun i => Xml.writeDocument root schema (schema.ofJson i.data)
  | "fail" => some fun _ => .error (.write "boom")
  | _ => none

def draftingWith? {ω : Type} (name : String) (j : Json) :
    Option (Middleware Calling (Draft Input) ω) :=
  match name with
  | "Body" => do
    let write ← bodyWriter? j
    pure (body write ((j.member "content_type").string?.getD "application/json"))
  | "Header" => some (headers inputHeaders)
  | "QueryItem" => some (queryItems inputQuery)
  | "Edit" => do pure (editingDraft (nameOr "Edit" j) (← editOfJson? j))
  | _ => anywhere? name j

def advisorOfJson? : Json → Option Advisor
  | .null => some .standard
  | .string "standard" => some .standard
  | .string "never" => some .never
  | .string "always" => some .always
  | _ => none

def requesting? {ω : Type} (resolver : Endpoint.Resolver) (name : String) (j : Json) :
    Option (Middleware Calling Request ω) :=
  match name with
  | "EndpointResolver" => some (endpointResolver resolver)
  | "ContentMd5" => some contentDigest
  | "Retry" => do pure (retry (← advisorOfJson? (j.member "provider")))
  | "ContentLength" => some contentLength
  | "Signer" => some signer
  | "Edit" => do pure (editing (nameOr "Edit" j) (← editOfJson? j))
  | _ => anywhere? name j

def errorModels (j : Json) (kind : String) : Option ErrorModel :=
  if j.has kind then some (.ofJson (j.member kind)) else none

def errorBindingOfJson? (j : Json) : Option ErrorBinding :=
  let models := errorModels (j.member "models")
  match (j.member "source").string?.getD "json" with
  | "unmodeled" => some .unmodeled
  | "json" => some (.ofReports (fun s => (ErrorReport.ofJsonBody s).mapError .json) models)
  | "xml" => some (.ofReports ErrorReport.ofXmlBody models)
  | "header" => some (.ofReports (fun _ => .ok ⟨none, none⟩) models)
  | _ => none

def responseBindingOfJson? (j : Json) : Option (ResponseBinding Json) :=
  match (j.member "format").string?.getD "json" with
  | "json" => some fun _ s => (Json.readDocument s).mapError .json
  | "xml" => do
    let schema ← Xml.Schema.describedBy? (j.member "schema")
    pure fun _ s => (Xml.readDocument (rootName (j.member "root")) schema s).map (·.toJson)
  | "text" => some fun _ s => .ok (.ofOctets s)
  | "missing" => some fun _ _ => .error (.missingValue "Output")
  | _ => none

def readingWith? (name : String) (j : Json) :
    Option (Middleware Calling Request (Output Json)) :=
  match name with
  | "Logger" => some logger
  | "Deserialize" => do
    let response ← responseBindingOfJson? (j.member "response")
    let error ← errorBindingOfJson? (j.member "errors")
    pure (deserialize response error)
  | "Output" => some (presetting (j.member "value"))
  | _ => anywhere? name j

def entryOfJson? {ι ω : Type} (read : String → Json → Option (Middleware Calling ι ω)) (j : Json) :
    Option (Entry ι ω) := do
  match ← (j.member "m").string? with
  | "Remove" => do pure (.remove (← (j.member "id").string?))
  | name => do
    let place ← Place.ofJson? (j.member "at")
    pure (.add (← read name j) place)

def Stack.ofJson? (resolver : Endpoint.Resolver) (j : Json) :
    Option (Except StepError (Stack Input Json × List Event)) := do
  let preparation ← (j.member "initialize").items.mapM (entryOfJson? preparing?)
  let drafting ← (j.member "serialize").items.mapM (entryOfJson? draftingWith?)
  let addressing ← (j.member "build").items.mapM (entryOfJson? (requesting? resolver))
  let finishing ← (j.member "finalize").items.mapM (entryOfJson? (requesting? resolver))
  let reading ← (j.member "deserialize").items.mapM (entryOfJson? readingWith?)
  let s : Stack Input Json := .empty ((j.member "operation").string?.getD "")
  pure do
    let (preparation, e₁) ← s.preparation.assemble preparation
    let (drafting, e₂) ← s.drafting.assemble drafting
    let (addressing, e₃) ← s.addressing.assemble addressing
    let (finishing, e₄) ← s.finishing.assemble finishing
    let (reading, e₅) ← s.reading.assemble reading
    pure (⟨s.id, preparation, drafting, addressing, finishing, reading⟩, e₁ ++ e₂ ++ e₃ ++ e₄ ++ e₅)

end ServiceClient.Pipeline
