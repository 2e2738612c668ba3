import ServiceClient.Json.Shape
import ServiceClient.Text.Blank

/-!
The settings of a client, with what stands where nothing is set. They come from named variables,
where a value that cannot be read counts as not set, or from a JSON text, where it is an error.
-/

namespace ServiceClient

structure UnknownName where
  kind : String
  value : String
  deriving DecidableEq, Repr

def UnknownName.message (e : UnknownName) : String :=
  s!"invalid {e.kind} value: '{e.value}'"

inductive JitterMode where
  | off
  | full
  | decorrelated
  deriving DecidableEq, Repr, Inhabited

namespace JitterMode

def all : List JitterMode := [.off, .full, .decorrelated]

def name : JitterMode → String
  | .off => "none"
  | .full => "full"
  | .decorrelated => "decorrelated"

def parse (s : String) : Except UnknownName JitterMode :=
  match all.find? (·.name == Text.lowerAscii s) with
  | some m => .ok m
  | none => .error ⟨"jitter mode", s⟩

end JitterMode

inductive LogMode where
  | off
  | request
  | requestWithBody
  | response
  | responseWithBody
  | requestAndResponse
  | requestAndResponseWithBody
  deriving DecidableEq, Repr, Inhabited

namespace LogMode

def all : List LogMode :=
  [.off, .request, .requestWithBody, .response, .responseWithBody, .requestAndResponse,
    .requestAndResponseWithBody]

def name : LogMode → String
  | .off => "none"
  | .request => "request"
  | .requestWithBody => "requestWithBody"
  | .response => "response"
  | .responseWithBody => "responseWithBody"
  | .requestAndResponse => "requestAndResponse"
  | .requestAndResponseWithBody => "requestAndResponseWithBody"

/-- Case, hyphens and underscores do not count. -/
def parse (s : String) : Except UnknownName LogMode :=
  let word := Text.lowerAscii (String.ofList (s.toList.filter fun c => c != '_' && c != '-'))
  match all.find? (fun m => Text.lowerAscii m.name == word) with
  | some m => .ok m
  | none => .error ⟨"client log mode", s⟩

def logsRequest : LogMode → Bool
  | .request | .requestWithBody | .requestAndResponse | .requestAndResponseWithBody => true
  | _ => false

def logsRequestBody : LogMode → Bool
  | .requestWithBody | .requestAndResponseWithBody => true
  | _ => false

def logsResponse : LogMode → Bool
  | .response | .responseWithBody | .requestAndResponse | .requestAndResponseWithBody => true
  | _ => false

def logsResponseBody : LogMode → Bool
  | .responseWithBody | .requestAndResponseWithBody => true
  | _ => false

end LogMode

structure Config where
  region : Option String
  endpoint : Option String
  partitionId : Option String
  maxRetries : Nat
  bucketCapacity : Nat
  backoffScale : Time.Duration
  maxBackoff : Time.Duration
  jitter : JitterMode
  socketTimeout : Option Time.Duration
  logMode : LogMode
  deriving DecidableEq, Repr

namespace Config

def default : Config where
  region := none
  endpoint := none
  partitionId := none
  maxRetries := 3
  bucketCapacity := 500
  backoffScale := .ofMillis 25
  maxBackoff := .ofSeconds 20
  jitter := .full
  socketTimeout := none
  logMode := .off

def countLimit : Nat := Nat.pow 2 32 - 1

def ofVariables (lookup : String → Option String) : Config :=
  let count (key : String) : Option Nat := (lookup key).bind (Number.natural? countLimit)
  let time (key : String) : Option Time.Duration :=
    ((lookup key).bind (Number.natural? (Nat.pow 2 64 - 1))).map .ofMillis
  { region := lookup "REGION"
    endpoint := lookup "ENDPOINT_URL"
    partitionId := lookup "PARTITION_ID"
    maxRetries := (count "MAX_RETRIES").getD default.maxRetries
    bucketCapacity := (count "RETRY_INITIAL_BUCKET_CAPACITY").getD default.bucketCapacity
    backoffScale := (time "RETRY_BACKOFF_SCALE_MS").getD default.backoffScale
    maxBackoff := (time "RETRY_MAX_BACKOFF_MS").getD default.maxBackoff
    jitter := ((lookup "RETRY_JITTER_MODE").bind fun s => (JitterMode.parse s).toOption).getD
      default.jitter
    socketTimeout := time "SOCKET_TIMEOUT_MS"
    logMode := ((lookup "CLIENT_LOG_MODE").bind fun s => (LogMode.parse s).toOption).getD
      default.logMode }

def shape : Json.Shape :=
  .record false false
    [("region", false, .nullable .string), ("endpoint", false, .nullable .string),
      ("partitionId", false, .nullable .string), ("maxRetries", true, .natural countLimit),
      ("initialBucketCapacity", true, .natural countLimit),
      ("backoffScaleFactor", true, .duration), ("maxBackoff", true, .duration),
      ("jitterMode", true, .choice (JitterMode.all.map (·.name))),
      ("socketTimeout", false, .nullable .duration),
      ("logMode", true, .choice (LogMode.all.map (·.name)))]

def ofJson (j : Json) : Config :=
  { region := (j.member "region").string?
    endpoint := (j.member "endpoint").string?
    partitionId := (j.member "partitionId").string?
    maxRetries := (j.member "maxRetries").nat?.getD 0
    bucketCapacity := (j.member "initialBucketCapacity").nat?.getD 0
    backoffScale := Json.durationOf (j.member "backoffScaleFactor")
    maxBackoff := Json.durationOf (j.member "maxBackoff")
    jitter := (JitterMode.all.find? fun m => (j.member "jitterMode").string? == some m.name).getD
      .full
    socketTimeout := match j.member "socketTimeout" with
      | .null => none
      | j => some (Json.durationOf j)
    logMode := (LogMode.all.find? fun m => (j.member "logMode").string? == some m.name).getD
      .off }

def parse (s : Text.Octets) : Except JsonFault Config :=
  (shape.parse s).map ofJson

def toJson (c : Config) : Json :=
  .ofMembers [("region", .ofOption .string c.region), ("endpoint", .ofOption .string c.endpoint),
    ("partitionId", .ofOption .string c.partitionId), ("maxRetries", .ofNat c.maxRetries),
    ("initialBucketCapacity", .ofNat c.bucketCapacity),
    ("backoffScaleFactor", Json.ofDuration c.backoffScale),
    ("maxBackoff", Json.ofDuration c.maxBackoff), ("jitterMode", .string c.jitter.name),
    ("socketTimeout", .ofOption Json.ofDuration c.socketTimeout),
    ("logMode", .string c.logMode.name)]

end Config

end ServiceClient
