import ServiceClient.Call.Session
import ServiceClient.Wire.Error

/-!
How a response is read: one binding makes the value of a success from it, another one the error of
a failure. A failure whose body cannot be read as what it should be is still an error of the service,
so that its status and headers keep their meaning.
-/

namespace ServiceClient.Pipeline

open Call (Calling)
open Http (Response)
open Text (Octets)

abbrev ResponseBinding (ο : Type) := ResponseParts → Octets → Except WireError ο

inductive ErrorMatch where
  | modeled (e : ServiceError)
  | unknown (e : UnknownError)
  deriving DecidableEq, Repr

abbrev ErrorBinding := ResponseParts → Octets → Except WireError ErrorMatch

def errorTypeHeader : String := "x-amzn-errortype"

def errorType? (h : Http.Headers) : Option String := do
  let value ← h.text? errorTypeHeader
  let name := Text.trim (String.ofList (value.toList.takeWhile (· != ':')))
  if name.isEmpty then none else some name

def ErrorBinding.unmodeled : ErrorBinding := fun parts _ =>
  .ok (.unknown ⟨errorType? parts.headers, none⟩)

def ErrorMatch.toCallError (parts : ResponseParts) : ErrorMatch → CallError
  | .modeled e => .service e parts
  | .unknown e => .unknownService e parts

def ErrorBinding.error (b : ErrorBinding) (parts : ResponseParts) (body : Octets) : CallError :=
  match b parts body with
  | .ok found => found.toCallError parts
  | .error e => .unknownService ⟨errorType? parts.headers, some e.message⟩ parts

def bindResponse {ο : Type} (b : ResponseBinding ο) (r : Response) : Calling ο := do
  let body ← Calling.bodyOctets r.body
  match b r.parts body with
  | .ok value => pure value
  | .error e => Calling.fail (.deserializationFailed e.message)

/-- Always fails, with an error of the client if the body cannot be had. -/
def bindError {α : Type} (b : ErrorBinding) (r : Response) : Calling α := do
  let body ← Calling.bodyOctets r.body
  throw (b.error r.parts body)

end ServiceClient.Pipeline
