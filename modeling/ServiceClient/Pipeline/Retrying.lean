import ServiceClient.Pipeline.Stack

/-!
The rest of a stack, run again as long as the strategy grants retries. Every attempt gets a copy of
the request as it came in, with its number; when no retry is granted, the last error stands. A
request whose body is a stream is not repeated, since the first attempt uses the stream up.
-/

namespace ServiceClient.Pipeline

open Call (Calling)
open Http (Request)
open Retry (Strategy Token Advice)

def invocationHeader : String := "amz-sdk-invocation-id"

def attemptHeader : String := "amz-sdk-request"

def attemptText (attempt limit : Nat) : String :=
  s!"attempt={attempt}; max={limit}"

def numbered (r : Request) (attempt limit : Nat) : Request :=
  r.setHeader attemptHeader (Text.encode (attemptText attempt limit))

abbrev Advisor := CallError → Option Advice

namespace Advisor

def standard : Advisor := Retry.advise?

def never : Advisor := fun _ => none

def always : Advisor := fun _ => some ⟨.transient, none, false⟩

end Advisor

def acquire (partition : String) : Calling Token := do
  let (strategy, r) := (← get).strategy.acquire partition
  modify fun s => { s with strategy := strategy }
  match r with
  | .ok token => pure token
  | .error e => throw (.retry e)

/-- The token for the next attempt, after its delay; none if it is refused. -/
def schedule (token : Token) (advice : Advice) : Calling (Option Token) := do
  let s ← get
  let (strategy, r) := s.strategy.schedule token advice s.fraction
  modify fun s => { s with strategy := strategy }
  match r with
  | .ok token =>
    Calling.wait token.lastDelay.timerMillis
    pure (some token)
  | .error _ => pure none

def recordSuccess (token : Token) : Calling Unit :=
  modify fun s => { s with strategy := s.strategy.recordSuccess token }

/-- Attempts until one succeeds or its error stands. The strategy alone says how many there are:
`left` is for the recursion, and is not used up as long as the strategy keeps counts that stay
within 32 bits. -/
def attempts {ω : Type} (advisor : Advisor) (request : Request) (run : Request → Calling ω)
    (limit : Nat) : (left : Nat) → Token → Calling ω
  | left, token => do
    let attempt := Strategy.successor token.retries
    Calling.modifyContext fun c => { c with attempt := attempt }
    match ← Calling.outcome (run (numbered request attempt limit)) with
    | .ok output =>
      recordSuccess token
      pure output
    | .error e =>
      match advisor e with
      | none => throw e
      | some advice =>
        if request.body.isStream then throw e
        else
          match ← schedule token advice with
          | none => throw e
          | some token =>
            match left with
            | 0 => throw e
            | left + 1 => attempts advisor request run limit left token

def retry {ω : Type} (advisor : Advisor) : Middleware Calling Request ω where
  id := "Retry"
  handle request next := do
    let token ← acquire (← Calling.context).partitionId
    let limit := Strategy.successor (← get).strategy.options.maxRetries
    let id ← Calling.drawIdentifier
    let request := request.setHeader invocationHeader (Text.encode id)
    attempts advisor request next.run limit Config.countLimit token

end ServiceClient.Pipeline
