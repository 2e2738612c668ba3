import ServiceClient.Retry.Backoff
import ServiceClient.Retry.Bucket
import ServiceClient.Retry.Classify

/-!
Retries by tokens. A call takes a token, trades it for the next one with every retry, which is
charged to its partition, and hands it back after a success, which refunds the last charge.
-/

namespace ServiceClient.Retry

open Time (Duration)

def timeoutCost : Nat := 10

def retryCost : Nat := 5

def successRefund : Nat := 1

def Advice.cost (a : Advice) : Nat :=
  if a.isTimeout ∨ a.category = .transient then timeoutCost else retryCost

/-- `lastDelay` is the wait before the attempt that the token is for. -/
structure Token where
  partition : String
  retries : Nat
  lastCost : Option Nat
  lastDelay : Duration
  deriving DecidableEq, Repr

structure Options where
  maxRetries : Nat
  capacity : Nat
  scale : Duration
  maxBackoff : Duration
  jitter : JitterMode
  deriving DecidableEq, Repr

def Options.ofConfig (c : Config) : Options :=
  ⟨c.maxRetries, c.bucketCapacity, c.backoffScale, c.maxBackoff, c.jitter⟩

def Options.default : Options := .ofConfig .default

def Options.backoff (o : Options) : Backoff := ⟨o.scale, o.maxBackoff, o.jitter⟩

structure Strategy where
  options : Options
  pool : BucketPool
  deriving DecidableEq, Repr

namespace Strategy

def new (o : Options) : Strategy := ⟨o, .empty o.capacity⟩

/-- Counts stay within 32 bits. -/
def successor (n : Nat) : Nat := min (n + 1) Config.countLimit

/-- A partition that cannot pay for the cheapest retry gives no token. -/
def acquire (s : Strategy) (partition : String) : Strategy × Except RetryError Token :=
  let s := { s with pool := s.pool.touch partition }
  if (s.pool.bucket partition).canAfford retryCost then (s, .ok ⟨partition, 0, none, .zero⟩)
  else (s, .error (.noCapacity partition))

/-- Charges a retry and gives the token for the next attempt, with the delay before it: the hint if
there is one. -/
def schedule (s : Strategy) (t : Token) (a : Advice) (r : Rat) :
    Strategy × Except RetryError Token :=
  if s.options.maxRetries ≤ t.retries then
    (s, .error (.maxRetriesExceeded (successor t.retries)))
  else match (s.pool.bucket t.partition).consume? a.cost with
    | none => (s, .error (.noCapacity t.partition))
    | some b =>
      let delay := a.hint.getD (s.options.backoff.delay t.retries t.lastDelay r)
      ({ s with pool := s.pool.put t.partition b },
        .ok ⟨t.partition, successor t.retries, some a.cost, delay⟩)

def recordSuccess (s : Strategy) (t : Token) : Strategy :=
  let b := (s.pool.bucket t.partition).refill (t.lastCost.getD successRefund)
  { s with pool := s.pool.put t.partition b }

end Strategy

end ServiceClient.Retry
