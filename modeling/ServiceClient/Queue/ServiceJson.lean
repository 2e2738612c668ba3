import ServiceClient.Call.ContextJson
import ServiceClient.Queue.Service

/-!
Replies of a queue service in JSON.
-/

namespace ServiceClient.Queue

open Call (Reply)

/-- A response has a body even if it is empty, and one that is JSON has the status 200; what comes
after a stall has none. -/
def replyOfJson? (j : Json) : Option Reply := do
  match j.member "network", j.member "stall_ms", j.member "json" with
  | .string reason, _, _ => pure ⟨0, .failure (.network reason)⟩
  | .null, .null, .null => do
    let body ← match j.member "body" with
      | .null => some []
      | body => body.octets?
    let parts ← ResponseParts.ofJson? j
    match (j.member "settle_ms").nat? with
    | some delay => pure ⟨0, .later delay ⟨100, parts.headers, .data body⟩ [parts.status]⟩
    | none => pure ⟨0, .response ⟨parts.status, parts.headers, .data body⟩⟩
  | .null, .null, document => pure (.empty (.data (Json.writeDocument document)))
  | .null, stall, _ => do pure { Reply.empty .none with stall := ← stall.nat? }
  | _, _, _ => none

end ServiceClient.Queue
