import ServiceClient.Call.Session
import ServiceClient.Pipeline.Step

/-!
The five steps of an operation. Each one ends where the next one begins: the input is prepared, a
request is drafted from it, addressed and finished, and the response is read. The whole is run
around a transport.
-/

namespace ServiceClient.Pipeline

open Call (Calling)
open Http (Request Response)

structure Output (ο : Type) where
  response : Response
  value : Option ο

structure Draft (ι : Type) where
  input : ι
  request : Request

structure Stack (ι ο : Type) where
  id : String
  preparation : Step Calling ι (Output ο)
  drafting : Step Calling (Draft ι) (Output ο)
  addressing : Step Calling Request (Output ο)
  finishing : Step Calling Request (Output ο)
  reading : Step Calling Request (Output ο)

namespace Stack

variable {ι ο : Type}

def empty (id : String) : Stack ι ο where
  id := id
  preparation := .empty "Initialize"
  drafting := .empty "Serialize"
  addressing := .empty "Build"
  finishing := .empty "Finalize"
  reading := .empty "Deserialize"

def blankRequest (c : Call.Context) : Request :=
  { Request.empty with
    method := c.method
    endpoint := { Request.empty.endpoint with path := c.path } }

def send (s : Stack ι ο) (transport : Request → Calling (Output ο)) (input : ι) :
    Calling (Output ο) :=
  let finish := s.finishing.run (s.reading.run transport)
  let draft := s.drafting.run fun d => s.addressing.run finish d.request
  s.preparation.run (fun input => do draft ⟨input, blankRequest (← Calling.context)⟩) input

def execute (s : Stack ι ο) (transport : Request → Calling (Output ο)) (input : ι) :
    Calling ο := do
  let output ← s.send transport input
  match output.value with
  | some value => pure value
  | none =>
    let c ← Calling.context
    Calling.fail (.dataNotFound s!"operation '{c.operation}' produced no output")

end Stack

def transport {ο : Type} (request : Request) : Calling (Output ο) := do
  pure ⟨← Calling.transmit request, none⟩

end ServiceClient.Pipeline
