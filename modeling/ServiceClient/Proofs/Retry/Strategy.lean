import Mathlib.Data.List.Basic
import ServiceClient.Retry.Strategy

/-! What each operation of a strategy does to the buckets. A pool is `Sound` if every bucket has the
initial capacity as its maximum and holds no more than that; charges and successes keep it so. -/

namespace ServiceClient.Retry

namespace Bucket

theorem consume?_eq_some {b b' : Bucket} {cost : Nat} :
    b.consume? cost = some b' ↔ cost ≤ b.capacity ∧ b' = ⟨b.capacity - cost, b.maximum⟩ := by
  by_cases h : cost ≤ b.capacity <;> simp [consume?, canAfford, h, eq_comm]

theorem consume?_eq_none {b : Bucket} {cost : Nat} :
    b.consume? cost = none ↔ b.capacity < cost := by
  simp [consume?, canAfford]

end Bucket

namespace BucketPool

@[simp] theorem initial_put (p : BucketPool) (x : String) (b : Bucket) :
    (p.put x b).initial = p.initial := rfl

theorem lookup_filter_ne (l : List (String × Bucket)) {x y : String} (h : y ≠ x) :
    (l.filter fun e => e.1 != x).lookup y = l.lookup y := by
  induction l with
  | nil => rfl
  | cons e l ih =>
    obtain ⟨k, b⟩ := e
    by_cases hk : k = x
    · have hy : (y == k) = false := by simpa [hk] using h
      simp only [hk, bne_self_eq_false, Bool.false_eq_true, not_false_eq_true,
        List.filter_cons_of_neg, List.lookup_cons, ih]
      rw [← hk, hy]
    · have hb : (k != x) = true := by simpa using hk
      simp only [hb, List.filter_cons_of_pos, List.lookup_cons, ih]

theorem bucket_put (p : BucketPool) (x y : String) (b : Bucket) :
    (p.put x b).bucket y = if y = x then b else p.bucket y := by
  by_cases h : y = x
  · simp [put, bucket, h]
  · have hb : (y == x) = false := by simpa using h
    simp [put, bucket, List.lookup_cons, hb, h, lookup_filter_ne _ h]

@[simp] theorem bucket_touch (p : BucketPool) (x y : String) :
    (p.touch x).bucket y = p.bucket y := by
  by_cases h : y = x <;> simp [touch, bucket_put, h]

theorem capacity_put (p : BucketPool) (x y : String) (b : Bucket) :
    (p.put x b).capacity y = if y = x then b.capacity else p.capacity y := by
  by_cases h : y = x <;> simp [capacity, bucket_put, h]

structure Sound (p : BucketPool) : Prop where
  maximum : ∀ x, (p.bucket x).maximum = p.initial
  capacity_le : ∀ x, p.capacity x ≤ p.initial

theorem sound_empty (n : Nat) : (empty n).Sound :=
  ⟨fun _ => rfl, fun _ => Nat.le_refl n⟩

theorem Sound.put {p : BucketPool} (h : p.Sound) (x : String) {b : Bucket}
    (hm : b.maximum = p.initial) (hc : b.capacity ≤ p.initial) : (p.put x b).Sound := by
  constructor
  · intro y
    rw [bucket_put, initial_put]
    split
    · exact hm
    · exact h.maximum y
  · intro y
    rw [capacity_put, initial_put]
    split
    · exact hc
    · exact h.capacity_le y

end BucketPool

@[simp] theorem Advice.cost_mk (category : Category) (hint : Option Time.Duration)
    (isTimeout : Bool) : (⟨category, hint, isTimeout⟩ : Advice).cost =
      if isTimeout ∨ category = .transient then 10 else 5 := rfl

theorem retryCost_le_cost (a : Advice) : retryCost ≤ a.cost := by
  unfold Advice.cost
  split <;> decide

def Token.refund (t : Token) : Nat := t.lastCost.getD successRefund

namespace Strategy

variable {s s' : Strategy} {t t' : Token} {a : Advice} {r : Rat} {x : String}

def capacity (s : Strategy) (x : String) : Nat := s.pool.capacity x

theorem acquire_of_le (h : retryCost ≤ s.capacity x) :
    s.acquire x = ({ s with pool := s.pool.touch x }, .ok ⟨x, 0, none, .zero⟩) := by
  have hb : (s.pool.bucket x).canAfford retryCost = true := by
    simpa [Bucket.canAfford, capacity, BucketPool.capacity] using h
  simp [acquire, hb]

theorem acquire_of_lt (h : s.capacity x < retryCost) :
    s.acquire x = ({ s with pool := s.pool.touch x }, .error (.noCapacity x)) := by
  have hb : (s.pool.bucket x).canAfford retryCost = false := by
    simpa [Bucket.canAfford, capacity, BucketPool.capacity] using h
  simp [acquire, hb]

theorem schedule_of_exhausted (h : s.options.maxRetries ≤ t.retries) :
    s.schedule t a r = (s, .error (.maxRetriesExceeded (successor t.retries))) := by
  simp [schedule, h]

theorem schedule_of_lt (hm : t.retries < s.options.maxRetries)
    (hc : s.capacity t.partition < a.cost) :
    s.schedule t a r = (s, .error (.noCapacity t.partition)) := by
  have hb : (s.pool.bucket t.partition).consume? a.cost = none := Bucket.consume?_eq_none.2 hc
  simp [schedule, Nat.not_le.2 hm, hb]

def delay (s : Strategy) (t : Token) (a : Advice) (r : Rat) : Time.Duration :=
  a.hint.getD (s.options.backoff.delay t.retries t.lastDelay r)

def charge (s : Strategy) (x : String) (cost : Nat) : Strategy :=
  { s with pool := s.pool.put x ⟨(s.pool.bucket x).capacity - cost, (s.pool.bucket x).maximum⟩ }

def nextToken (s : Strategy) (t : Token) (a : Advice) (r : Rat) : Token :=
  ⟨t.partition, successor t.retries, some a.cost, s.delay t a r⟩

def gain (s : Strategy) (t : Token) : Nat :=
  (s.recordSuccess t).capacity t.partition - s.capacity t.partition

theorem schedule_of_le (hm : t.retries < s.options.maxRetries)
    (hc : a.cost ≤ s.capacity t.partition) :
    s.schedule t a r = (s.charge t.partition a.cost, .ok (s.nextToken t a r)) := by
  have hb := Bucket.consume?_eq_some.2 ⟨hc, rfl⟩
  simp [schedule, Nat.not_le.2 hm, hb, charge, nextToken, delay]

def restore (s : Strategy) (x : String) (amount : Nat) : Strategy :=
  { s with pool := s.pool.put x ((s.pool.bucket x).refill amount) }

theorem bucket_charge (n : Nat) : (s.charge x n).pool.bucket x =
    ⟨s.capacity x - n, (s.pool.bucket x).maximum⟩ := by
  rw [charge, BucketPool.bucket_put, if_pos rfl]
  rfl

theorem capacity_restore (n : Nat) :
    (s.restore x n).capacity x = min (s.capacity x + n) (s.pool.bucket x).maximum := by
  rw [capacity, restore, BucketPool.capacity_put, if_pos rfl]
  rfl

theorem capacity_charge (n : Nat) (y : String) :
    (s.charge x n).capacity y = if y = x then s.capacity x - n else s.capacity y := by
  rw [capacity, charge, BucketPool.capacity_put]
  rfl

theorem capacity_recordSuccess (h : s.pool.Sound) (y : String) :
    (s.recordSuccess t).capacity y =
      if y = t.partition then min (s.capacity t.partition + t.refund) s.pool.initial
      else s.capacity y := by
  rw [capacity, recordSuccess, BucketPool.capacity_put, Bucket.refill, h.maximum]
  rfl

theorem gain_eq (h : s.pool.Sound) :
    s.gain t = min t.refund (s.pool.initial - s.capacity t.partition) := by
  have hc : s.capacity t.partition ≤ s.pool.initial := h.capacity_le t.partition
  rw [gain, capacity_recordSuccess h, if_pos rfl]
  omega

theorem sound_charge (h : s.pool.Sound) (n : Nat) : (s.charge x n).pool.Sound :=
  h.put _ (h.maximum x) (Nat.le_trans (Nat.sub_le _ _) (h.capacity_le x))

theorem sound_recordSuccess (h : s.pool.Sound) : (s.recordSuccess t).pool.Sound := by
  refine h.put _ (h.maximum t.partition) ?_
  rw [Bucket.refill, h.maximum]
  exact Nat.min_le_right _ _

end Strategy

end ServiceClient.Retry
