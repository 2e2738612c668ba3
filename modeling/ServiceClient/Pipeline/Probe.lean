import ServiceClient.Pipeline.Stack

/-!
Middleware to look into a stack with: they record where a call comes through, end it, or change what
passes.
-/

namespace ServiceClient.Pipeline

open Call (Calling Context)
open Http (Request)

def trace {ι ω : Type} (id : String) : Middleware Calling ι ω where
  id := id
  handle input next := do
    Calling.record (.entered id (← Calling.context).attempt)
    let r ← Calling.outcome (next.run input)
    Calling.record (.left id (match r with | .ok _ => true | .error _ => false))
    Calling.ofOutcome r

def failing {ι ω : Type} (e : ClientError) : Middleware Calling ι ω where
  id := "Fail"
  handle _ _ := Calling.fail e

def adjusting {ι ω : Type} (change : Context → Context) : Middleware Calling ι ω where
  id := "Set"
  handle input next := do
    Calling.modifyContext change
    next.run input

structure Edit where
  headers : Http.Headers
  host : Option String
  body : Option Http.Content
  deriving DecidableEq, Repr

/-- Every request gets a body of its own, so that a stream can be read each time. -/
def Edit.apply (e : Edit) (r : Request) : Calling Request := do
  let body ← match e.body with
    | some content => Calling.makeBody content
    | none => pure r.body
  pure { r with
    endpoint := { r.endpoint with host := e.host.getD r.endpoint.host }
    headers := r.headers.addAll e.headers
    body := body }

def editing {ω : Type} (id : String) (e : Edit) : Middleware Calling Request ω where
  id := id
  handle request next := do
    next.run (← e.apply request)

def editingDraft {ι ω : Type} (id : String) (e : Edit) : Middleware Calling (Draft ι) ω where
  id := id
  handle draft next := do
    next.run { draft with request := ← e.apply draft.request }

def presetting {ο : Type} (value : ο) : Middleware Calling Request (Output ο) where
  id := "Output"
  handle request next := do
    let output ← next.run request
    pure { output with value := some value }

end ServiceClient.Pipeline
