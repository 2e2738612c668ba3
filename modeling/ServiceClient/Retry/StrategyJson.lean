import ServiceClient.Json.Plain
import ServiceClient.Retry.Strategy

/-!
Retry options, advice and tokens in JSON.
-/

namespace ServiceClient.Retry

def Category.all : List Category := [.transient, .throttling, .serverError, .clientError]

def Category.name : Category → String
  | .transient => "Transient"
  | .throttling => "Throttling"
  | .serverError => "ServerError"
  | .clientError => "ClientError"

namespace Advice

def ofJson? (j : Json) : Option Advice := do
  let name ← (j.member "type").string?
  pure ⟨← Category.all.find? (·.name == name), (j.member "hint").durationPair?,
    (j.member "is_timeout").isTrue⟩

def toJson (a : Advice) : Json :=
  .ofMembers [("type", .string a.category.name), ("hint", .ofOption .ofDurationPair a.hint),
    ("is_timeout", .bool a.isTimeout)]

end Advice

def Token.toJson (t : Token) : Json :=
  .ofMembers [("partition", .string t.partition), ("retries", .ofNat t.retries),
    ("delay", .ofDurationPair t.lastDelay)]

def jitterOfJson? : Json → Option JitterMode
  | .null => some Backoff.default.jitter
  | j => j.string?.bind fun s => (JitterMode.parse s).toOption

def Backoff.ofJson? (j : Json) : Option Backoff :=
  if (j.member "default").isTrue then some .default
  else do
    let scale ← (j.member "scale").durationPair?
    pure ⟨scale, ← (j.member "max").durationPair?, ← jitterOfJson? (j.member "jitter")⟩

namespace Options

def ofJson? (j : Json) : Option Options := do
  let d := Options.default
  let jitter ← jitterOfJson? (j.member "jitter")
  pure ⟨(j.member "max_retries").nat?.getD d.maxRetries, (j.member "capacity").nat?.getD d.capacity,
    ((j.member "scale").durationPair?).getD d.scale,
    ((j.member "max_backoff").durationPair?).getD d.maxBackoff, jitter⟩

def members (o : Options) : List (String × Json) :=
  [("max_retries", .ofNat o.maxRetries), ("capacity", .ofNat o.capacity),
    ("scale", .ofDurationPair o.scale), ("max_backoff", .ofDurationPair o.maxBackoff),
    ("jitter", .string o.jitter.name)]

end Options

/-- The part of one that a number in decimal or scientific notation gives; a half without one. -/
def fractionOfJson? : Json → Option Rat
  | .null => some (1 / 2)
  | j => do pure (unitFraction (← Number.Binary.read? .double (← j.string?)))

end ServiceClient.Retry
