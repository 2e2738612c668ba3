/-!
Retry capacity. Each partition has a bucket that starts full, is charged for retries and refilled
by successes, never above its maximum; it is made when the partition is first used.
-/

namespace ServiceClient.Retry

structure Bucket where
  capacity : Nat
  maximum : Nat
  deriving DecidableEq, Repr

namespace Bucket

def full (maximum : Nat) : Bucket := ⟨maximum, maximum⟩

def ofInitial (maximum initial : Nat) : Bucket := ⟨min initial maximum, maximum⟩

def isEmpty (b : Bucket) : Bool := b.capacity == 0

def canAfford (b : Bucket) (cost : Nat) : Bool := cost ≤ b.capacity

/-- None, and nothing taken, if the capacity does not suffice. -/
def consume? (b : Bucket) (cost : Nat) : Option Bucket :=
  if b.canAfford cost then some ⟨b.capacity - cost, b.maximum⟩ else none

def refill (b : Bucket) (amount : Nat) : Bucket :=
  ⟨min (b.capacity + amount) b.maximum, b.maximum⟩

end Bucket

structure BucketPool where
  initial : Nat
  buckets : List (String × Bucket)
  deriving DecidableEq, Repr

namespace BucketPool

def empty (initial : Nat) : BucketPool := ⟨initial, []⟩

def bucket (p : BucketPool) (partition : String) : Bucket :=
  (p.buckets.lookup partition).getD (.full p.initial)

def capacity (p : BucketPool) (partition : String) : Nat :=
  (p.bucket partition).capacity

def size (p : BucketPool) : Nat := p.buckets.length

def isEmpty (p : BucketPool) : Bool := p.buckets.isEmpty

def put (p : BucketPool) (partition : String) (b : Bucket) : BucketPool :=
  { p with buckets := (partition, b) :: p.buckets.filter fun x => x.1 != partition }

def touch (p : BucketPool) (partition : String) : BucketPool :=
  p.put partition (p.bucket partition)

end BucketPool

end ServiceClient.Retry
