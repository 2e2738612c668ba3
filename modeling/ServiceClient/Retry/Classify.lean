import ServiceClient.Error
import ServiceClient.Number.Real

/-!
Whether an error is worth another attempt, and of which kind it is. A known error code decides
first; then what the model says of its error, or the status of an error without model; a header
that asks to come back later makes any error of the service retryable.
-/

namespace ServiceClient.Retry

def throttlingCodes : List String :=
  ["Throttling", "ThrottlingException", "ThrottledException", "RequestThrottledException",
    "TooManyRequestsException", "ProvisionedThroughputExceededException",
    "TransactionInProgressException", "RequestLimitExceeded", "BandwidthLimitExceeded",
    "LimitExceededException", "RequestThrottled", "SlowDown", "PriorRequestNotComplete",
    "EC2ThrottledException"]

def transientCodes : List String := ["RequestTimeout", "InternalError", "RequestTimeoutException"]

def transientStatuses : List Nat := [500, 502, 503, 504]

/-- Headers that hold a delay in seconds, in the order in which they count. -/
def delayHeaders : List String := ["x-retry-after", "x-amz-retry-after"]

inductive Category where
  | transient
  | throttling
  | serverError
  | clientError
  deriving DecidableEq, Repr

structure Advice where
  category : Category
  hint : Option Time.Duration
  isTimeout : Bool
  deriving DecidableEq, Repr

def categoryOfCode? (code : String) : Option Category :=
  if code ∈ throttlingCodes then some .throttling
  else if code ∈ transientCodes then some .transient
  else none

def categoryOfModel (e : ServiceError) : Category :=
  if e.throttling then .throttling
  else match e.fault with
    | .client => .clientError
    | .server => .serverError

def delayOf? (h : Http.Headers) (name : String) : Option Time.Duration := do
  let text ← h.text? name
  Time.Duration.ofBinary? (← Number.Binary.read? .double (Text.trim text))

def delayHint? (h : Http.Headers) : Option Time.Duration :=
  delayHeaders.findSome? (delayOf? h)

def hasDelayHeader (h : Http.Headers) : Bool :=
  delayHeaders.any h.contains

def categoryOfResponse? (code : Option String) (model : Option ServiceError)
    (r : ResponseParts) : Option Category :=
  match code.bind categoryOfCode? with
  | some c => some c
  | none =>
    match model with
    | some e =>
      if e.retryable then some (categoryOfModel e)
      else if hasDelayHeader r.headers then some .serverError
      else none
    | none =>
      if r.status ∈ transientStatuses ∨ hasDelayHeader r.headers then some .serverError else none

/-- None for an error that must not be retried. -/
def advise? : CallError → Option Advice
  | .client e => if e.isTransient then some ⟨.transient, none, e.isTimeout⟩ else none
  | .service e r =>
    (categoryOfResponse? e.typeName (some e) r).map fun c => ⟨c, delayHint? r.headers, false⟩
  | .unknownService e r =>
    (categoryOfResponse? e.typeName none r).map fun c => ⟨c, delayHint? r.headers, false⟩
  | .retry _ => none

end ServiceClient.Retry
