import ServiceClient.Http.Headers
import ServiceClient.Time.Duration

/-!
How a call fails: on this side, with an error of the service that the client's model knows or does
not know, or because the retry budget is used up.
-/

namespace ServiceClient

inductive ClientError where
  | serializationFailed (reason : String)
  | deserializationFailed (reason : String)
  | network (reason : String)
  | timeout (window : Time.Duration)
  | endpointResolution (reason : String)
  | auth (reason : String)
  | dataNotFound (what : String)
  | streamConsumed
  | unknown (reason : String)
  deriving DecidableEq, Repr

namespace ClientError

def message : ClientError → String
  | .serializationFailed reason => s!"serialization failed: {reason}"
  | .deserializationFailed reason => s!"deserialization failed: {reason}"
  | .network reason => s!"network error: {reason}"
  | .timeout window => s!"request attempt timed out after {window.text}"
  | .endpointResolution reason => s!"endpoint resolution failed: {reason}"
  | .auth reason => s!"authentication failed: {reason}"
  | .dataNotFound what => s!"data not found: {what}"
  | .streamConsumed => "streaming body has already been consumed"
  | .unknown reason => reason

def isTransient : ClientError → Bool
  | .network _ => true
  | .timeout _ => true
  | _ => false

def isTimeout : ClientError → Bool
  | .timeout _ => true
  | _ => false

def cause? : ClientError → Option String
  | .network reason => some reason
  | _ => none

end ClientError

inductive Fault where
  | client
  | server
  deriving DecidableEq, Repr, Inhabited

def Fault.name : Fault → String
  | .client => "client"
  | .server => "server"

structure ServiceError where
  typeName : Option String
  message : Option String
  fault : Fault
  retryable : Bool
  throttling : Bool
  display : String
  deriving DecidableEq, Repr

structure ErrorModel where
  fault : Fault
  retryable : Bool
  throttling : Bool
  deriving DecidableEq, Repr

def ErrorModel.error (m : ErrorModel) (typeName message : Option String) : ServiceError :=
  ⟨typeName, message, m.fault, m.retryable, m.throttling, "modeled " ++ typeName.getD "error"⟩

structure UnknownError where
  typeName : Option String
  message : Option String
  deriving DecidableEq, Repr

def UnknownError.display : UnknownError → String
  | ⟨some t, some m⟩ => s!"{t}: {m}"
  | ⟨some t, none⟩ => t
  | ⟨none, some m⟩ => m
  | ⟨none, none⟩ => "unknown service error"

/-- An unknown error in the place of a modeled one: it blames the service and is not retried. -/
def UnknownError.toServiceError (e : UnknownError) : ServiceError :=
  ⟨e.typeName, e.message, .server, false, false, e.display⟩

structure ResponseParts where
  status : Nat
  headers : Http.Headers
  deriving DecidableEq, Repr

inductive RetryError where
  | noCapacity (partition : String)
  | maxRetriesExceeded (attempts : Nat)
  deriving DecidableEq, Repr

def RetryError.message : RetryError → String
  | .noCapacity partition => s!"no retry capacity left in partition '{partition}'"
  | .maxRetriesExceeded attempts => s!"maximum retries exceeded after {attempts} attempts"

inductive CallError where
  | client (error : ClientError)
  | service (error : ServiceError) (response : ResponseParts)
  | unknownService (error : UnknownError) (response : ResponseParts)
  | retry (error : RetryError)
  deriving DecidableEq, Repr

namespace CallError

def message : CallError → String
  | .client e => e.message
  | .service e _ => s!"service error: {e.display}"
  | .unknownService e _ => s!"unknown service error: {e.display}"
  | .retry e => e.message

def cause? : CallError → Option String
  | .client e => e.cause?
  | .service e _ => some e.display
  | .unknownService e _ => some e.display
  | .retry _ => none

def code? : CallError → Option String
  | .service e _ => e.typeName
  | .unknownService e _ => e.typeName
  | _ => none

def response? : CallError → Option ResponseParts
  | .service _ r => some r
  | .unknownService _ r => some r
  | _ => none

def serviceError? : CallError → Option ServiceError
  | .service e _ => some e
  | _ => none

def clientError? : CallError → Option ClientError
  | .client e => some e
  | _ => none

end CallError

end ServiceClient
