import ServiceClient.Pipeline.Addressing
import ServiceClient.Pipeline.Drafting
import ServiceClient.Pipeline.ErrorReport
import ServiceClient.Pipeline.Finishing
import ServiceClient.Pipeline.Reading
import ServiceClient.Queue.Message

/-!
A client of a queue service: its errors, the stack of its one operation, and how a message is sent
with it.
-/

namespace ServiceClient.Queue

open Call (Calling Context)
open Pipeline (ErrorBinding ErrorReport Output Stack)

def serviceName : String := "queue"

def operationName : String := "SendMessage"

def metadata : Endpoint.Metadata :=
  { Endpoint.Metadata.empty with hostName := some "svc.\x7bregion\x7d.example.com" }

inductive QueueError where
  | queueDoesNotExist (message : String)
  | overLimit
  deriving DecidableEq, Repr

namespace QueueError

def toServiceError : QueueError → ServiceError
  | .queueDoesNotExist message =>
    ⟨some "QueueDoesNotExist", some message, .client, false, false,
      s!"queue does not exist: {message}"⟩
  | .overLimit => ⟨some "OverLimit", none, .client, true, true, "request rate exceeded"⟩

def ofReport? (kind message : Option String) : Option QueueError :=
  if kind = some "QueueDoesNotExist" then some (.queueDoesNotExist (message.getD ""))
  else if kind = some "OverLimit" then some .overLimit
  else none

end QueueError

def errors : ErrorBinding := fun parts body => do
  let report ← (ErrorReport.ofJsonBody body).mapError .json
  let kind := report.kind? parts
  pure (match QueueError.ofReport? kind report.message with
    | some e => .modeled e.toServiceError
    | none => .unknown ⟨kind, report.message⟩)

def readReceipt : Pipeline.ResponseBinding Receipt := fun _ body =>
  (Receipt.read body).mapError .json

def stack (resolver : Endpoint.Resolver) : Stack Message Receipt where
  id := operationName
  preparation := (Stack.empty operationName).preparation
  drafting := ⟨"Serialize", [Pipeline.body (fun m => .ok m.write) "application/json"]⟩
  addressing := ⟨"Build", [Pipeline.endpointResolver resolver, Pipeline.contentDigest]⟩
  finishing := ⟨"Finalize",
    [Pipeline.retry .standard, Pipeline.contentLength, Pipeline.signer]⟩
  reading := ⟨"Deserialize", [Pipeline.logger, Pipeline.deserialize readReceipt errors]⟩

def context (c : Config) : Context :=
  { Context.ofConfig c serviceName operationName with method := "POST" }

def sendMessage (c : Config) (resolver : Endpoint.Resolver) (m : Message) : Calling Receipt := do
  Calling.modifyContext fun _ => context c
  (stack resolver).execute Pipeline.transport m

end ServiceClient.Queue
