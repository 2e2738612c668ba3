import ServiceClient.Error
import ServiceClient.Http.MessageJson

/-!
Errors read from JSON.
-/

namespace ServiceClient

def ClientError.ofJson? (j : Json) : Option ClientError := do
  let message := (j.member "message").string?.getD ""
  match ← (j.member "variant").string? with
  | "SerializationFailed" => some (.serializationFailed message)
  | "DeserializationFailed" => some (.deserializationFailed message)
  | "Network" => some (.network message)
  | "Timeout" => some (.timeout ((j.member "duration").durationPair?.getD .zero))
  | "EndpointResolution" => some (.endpointResolution message)
  | "Auth" => some (.auth message)
  | "DataNotFound" => some (.dataNotFound message)
  | "StreamConsumed" => some .streamConsumed
  | "Unknown" => some (.unknown message)
  | _ => none

def RetryError.ofJson? (j : Json) : Option RetryError := do
  match ← (j.member "variant").string? with
  | "NoCapacity" => some (.noCapacity ((j.member "partition_id").string?.getD ""))
  | "MaxRetriesExceeded" => some (.maxRetriesExceeded ((j.member "attempts").nat?.getD 0))
  | _ => none

/-- The service is to blame unless the client is named. -/
def ErrorModel.ofJson (j : Json) : ErrorModel :=
  ⟨if (j.member "fault").string? = some Fault.client.name then .client else .server,
    (j.member "retryable").isTrue, (j.member "throttling").isTrue⟩

def ResponseParts.ofJson? (j : Json) : Option ResponseParts := do
  pure ⟨(j.member "status").nat?.getD 200, ← Http.Headers.ofJson? (j.member "headers")⟩

def CallError.ofJson? (j : Json) : Option CallError := do
  let typeName := (j.member "type_name").string?
  let message := (j.member "message").string?
  let unknown : UnknownError := ⟨typeName, message⟩
  match ← (j.member "kind").string? with
  | "client" => (ClientError.ofJson? j).map .client
  | "retry" => (RetryError.ofJson? j).map .retry
  | "unknown" => (ResponseParts.ofJson? j).map (.unknownService unknown)
  | "service" => (ResponseParts.ofJson? j).map (.service ((ErrorModel.ofJson j).error typeName message))
  | "unknown_as_service" => (ResponseParts.ofJson? j).map (.service unknown.toServiceError)
  | _ => none

end ServiceClient
