import ServiceClient.Pipeline.Binding
import ServiceClient.Pipeline.Stack

/-!
Middleware for the last step: a log of what is sent and received, and the reading of responses.
-/

namespace ServiceClient.Pipeline

open Call (Calling)
open Http (Request Response)

def bodyText? (b : Http.Body) : Option String :=
  b.octets?.map Text.decodeLossy

def logRequest (mode : LogMode) (r : Request) : Calling Unit := do
  if mode.logsRequest then
    let c ← Calling.context
    Calling.record (.requestLogged c.attempt r.method r.endpoint.host r.endpoint.path)
  if mode.logsRequestBody then
    match bodyText? r.body with
    | some text => Calling.record (.requestBodyLogged text)
    | none => pure ()

def logResponse (mode : LogMode) (r : Response) : Calling Unit := do
  if mode.logsResponse then
    Calling.record (.responseLogged r.status)
  if mode.logsResponseBody then
    match bodyText? r.body with
    | some text => Calling.record (.responseBodyLogged text)
    | none => pure ()

def logger {ο : Type} : Middleware Calling Request (Output ο) where
  id := "Logger"
  handle request next := do
    let mode := (← Calling.context).logMode
    logRequest mode request
    let output ← next.run request
    logResponse mode output.response
    pure output

def isSuccess (status : Nat) : Bool := 200 ≤ status && status < 300

/-- A response that is no success becomes an error; the value of one that is comes from its body
unless it is there already. -/
def deserialize {ο : Type} (response : ResponseBinding ο) (error : ErrorBinding) :
    Middleware Calling Request (Output ο) where
  id := "Deserialize"
  handle request next := do
    let output ← next.run request
    if isSuccess output.response.status then
      match output.value with
      | some _ => pure output
      | none => do pure { output with value := some (← bindResponse response output.response) }
    else bindError error output.response

end ServiceClient.Pipeline
