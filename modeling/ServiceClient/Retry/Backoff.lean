import ServiceClient.Config

/-!
The delay before a retry: a base doubled with every attempt up to a limit, then spread by a fraction
`r` of one. Spreading around the previous delay ignores the attempt.
-/

namespace ServiceClient.Retry

open Time (Duration)

structure Backoff where
  scale : Duration
  limit : Duration
  jitter : JitterMode
  deriving DecidableEq, Repr

namespace Backoff

def default : Backoff := ⟨.ofMillis 25, .ofSeconds 20, .full⟩

/-- Stops doubling at 32 bits. -/
def factor (attempt : Nat) : Nat :=
  if attempt < 32 then Nat.pow 2 attempt else Config.countLimit

def exponential (b : Backoff) (attempt : Nat) : Duration :=
  ((b.scale.checkedMul (factor attempt)).getD b.limit).min b.limit

/-- The longest delay that may follow `previous` before the limit is applied. -/
def spread (b : Backoff) (previous : Duration) : Duration :=
  let tripled := previous.saturatingMul 3
  if tripled ≤ b.scale then b.scale else tripled

def delay (b : Backoff) (attempt : Nat) (previous : Duration) (r : Rat) : Duration :=
  match b.jitter with
  | .off => b.exponential attempt
  | .full => (b.exponential attempt).scale r
  | .decorrelated =>
    let room : Duration := ⟨(b.spread previous).nanos - b.scale.nanos⟩
    Duration.min ⟨b.scale.nanos + (room.scale r).nanos⟩ b.limit

end Backoff

def unitFraction : Number.Binary → Rat
  | .nan => 0
  | .infinite negative => if negative then 0 else 1
  | .finite negative m e =>
    if negative then 0
    else
      let x := m * Number.pow2 e
      if 1 ≤ x then 1 else x

end ServiceClient.Retry
