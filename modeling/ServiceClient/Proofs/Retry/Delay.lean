import Mathlib.Algebra.Ring.Nat
import ServiceClient.Proofs.Retry.Strategy

/-! How long a retry waits. Without spreading the delay is the base doubled with every attempt as long
as the factor has 32 bits, and stands still from then on; whatever spreading does, no delay passes the
limit, and so no call waits longer than that before a retry that nobody gave a hint for. -/

namespace ServiceClient

namespace Time.Duration

theorem nanos_min (a b : Duration) : (a.min b).nanos = Min.min a.nanos b.nanos := by
  rw [Duration.min]
  split_ifs with h
  · exact (Nat.min_eq_left h).symm
  · exact (Nat.min_eq_right (Nat.le_of_not_le h)).symm

theorem nanos_saturatingMul (d : Duration) (n : Nat) :
    (d.saturatingMul n).nanos = Min.min (d.nanos * n) max.nanos := by
  rw [saturatingMul, checkedMul]
  split_ifs with h
  · exact (Nat.min_eq_left h).symm
  · exact (Nat.min_eq_right (Nat.le_of_not_le h)).symm

def checkedSub (a b : Duration) : Option Duration :=
  if b ≤ a then some ⟨a.nanos - b.nanos⟩ else none

def checkedAdd (a b : Duration) : Option Duration :=
  if a.nanos + b.nanos ≤ max.nanos then some ⟨a.nanos + b.nanos⟩ else none

end Time.Duration

namespace Retry

open Time (Duration)

namespace Backoff

variable {b : Backoff}

theorem factor_eq (n : Nat) : factor n = min (2 ^ n) (2 ^ 32 - 1) := by
  have hlimit : Config.countLimit = 2 ^ 32 - 1 := rfl
  unfold factor
  split_ifs with h
  · have hlt : 2 ^ n < 2 ^ 32 := Nat.pow_lt_pow_right (by decide) h
    exact (Nat.min_eq_left (Nat.le_sub_one_of_lt hlt)).symm
  · have hle : 2 ^ 32 ≤ 2 ^ n := Nat.pow_le_pow_right (by decide) (Nat.le_of_not_lt h)
    rw [hlimit, Nat.min_eq_right (Nat.le_trans (Nat.sub_le _ _) hle)]

theorem factor_mono {m n : Nat} (h : m ≤ n) : factor m ≤ factor n := by
  have hpow : 2 ^ m ≤ 2 ^ n := Nat.pow_le_pow_right (by decide) h
  rw [factor_eq, factor_eq]
  omega

theorem nanos_exponential (h : b.limit ≤ Duration.max) (n : Nat) :
    (b.exponential n).nanos = min (b.scale.nanos * factor n) b.limit.nanos := by
  rw [exponential, Duration.nanos_min, Duration.checkedMul]
  split_ifs with hmul
  · rfl
  · have hpast : b.limit.nanos ≤ b.scale.nanos * factor n :=
      Nat.le_trans h (Nat.le_of_not_le hmul)
    rw [Option.getD_none, Nat.min_self, Nat.min_eq_right hpast]

theorem exponential_le_limit (b : Backoff) (n : Nat) : b.exponential n ≤ b.limit := by
  change (b.exponential n).nanos ≤ b.limit.nanos
  rw [exponential, Duration.nanos_min]
  exact Nat.min_le_right _ _

theorem exponential_mono (b : Backoff) {m n : Nat} (h : m ≤ n) :
    b.exponential m ≤ b.exponential n := by
  change (b.exponential m).nanos ≤ (b.exponential n).nanos
  have hmul : b.scale.nanos * factor m ≤ b.scale.nanos * factor n :=
    Nat.mul_le_mul_left _ (factor_mono h)
  simp only [exponential, Duration.nanos_min, Duration.checkedMul]
  split_ifs with hm hn hn
  · simp only [Option.getD_some]
    omega
  · simp only [Option.getD_some, Option.getD_none]
    omega
  · exact absurd (Nat.le_trans hmul hn) hm
  · exact Nat.le_refl _

def doubled (b : Backoff) (attempt : Nat) : Duration :=
  ⟨min (b.scale.nanos * 2 ^ attempt) b.limit.nanos⟩

@[simp] theorem nanos_doubled (b : Backoff) (n : Nat) :
    (b.doubled n).nanos = min (b.scale.nanos * 2 ^ n) b.limit.nanos := rfl

theorem exponential_eq_doubled_iff (h : b.limit ≤ Duration.max) (n : Nat) :
    b.exponential n = b.doubled n ↔
      n < 32 ∨ b.scale.nanos = 0 ∨ b.limit.nanos ≤ b.scale.nanos * (2 ^ 32 - 1) := by
  have heq : b.exponential n = b.doubled n ↔
      (b.exponential n).nanos = (b.doubled n).nanos :=
    ⟨congrArg Duration.nanos, fun h => congrArg Duration.mk h⟩
  rw [heq, nanos_exponential h, nanos_doubled, factor_eq]
  by_cases hn : n < 32
  · have hlt : 2 ^ n < 2 ^ 32 := Nat.pow_lt_pow_right (by decide) hn
    rw [Nat.min_eq_left (Nat.le_sub_one_of_lt hlt)]
    simp only [hn, true_or]
  · have hle : 2 ^ 32 ≤ 2 ^ n := Nat.pow_le_pow_right (by decide) (Nat.le_of_not_lt hn)
    have hmul : b.scale.nanos * 2 ^ 32 ≤ b.scale.nanos * 2 ^ n := Nat.mul_le_mul_left _ hle
    rw [Nat.min_eq_right (Nat.le_trans (Nat.sub_le _ _) hle)]
    by_cases hzero : b.scale.nanos = 0
    · simp [hzero]
    · omega

/-- Without spreading the delay is the base, doubled with every attempt up to the limit, unless the
factor needs more than 32 bits and the limit is not reached by then. -/
theorem delay_eq_doubled_iff (b : Backoff) (attempt : Nat) (previous : Duration) (r : Rat)
    (hjitter : b.jitter = .off) (hlimit : b.limit ≤ Duration.max) :
    b.delay attempt previous r =
        ⟨min (b.scale.nanos * min (2 ^ attempt) (2 ^ 32 - 1)) b.limit.nanos⟩ ∧
      (b.delay attempt previous r = b.doubled attempt ↔
        attempt < 32 ∨ b.scale.nanos = 0 ∨ b.limit.nanos ≤ b.scale.nanos * (2 ^ 32 - 1)) := by
  have hdelay : b.delay attempt previous r = b.exponential attempt := by
    rw [delay, hjitter]
  rw [hdelay]
  refine ⟨?_, exponential_eq_doubled_iff hlimit attempt⟩
  rw [← factor_eq, ← nanos_exponential hlimit]

theorem delay_eq_doubled_usual :
    (⟨.ofMillis 25, .ofSeconds 20, .off⟩ : Backoff).limit ≤ Duration.max ∧
      (⟨.ofMillis 25, .ofSeconds 20, .off⟩ : Backoff).delay 64 .zero 0 =
        (⟨.ofMillis 25, .ofSeconds 20, .off⟩ : Backoff).doubled 64 := by
  have hlimit : (⟨.ofMillis 25, .ofSeconds 20, .off⟩ : Backoff).limit ≤ Duration.max := by decide
  exact ⟨hlimit, (delay_eq_doubled_iff _ 64 .zero 0 rfl hlimit).2.2 (by decide)⟩

/-- 64 doublings of a nanosecond pass 20 seconds, but the delay stays below 5. -/
theorem not_delay_eq_doubled :
    ¬ ∀ (b : Backoff) (attempt : Nat) (previous : Duration) (r : Rat), b.jitter = .off →
      b.scale ≤ Duration.max → b.limit ≤ Duration.max → attempt < 2 ^ 32 →
      b.delay attempt previous r = b.doubled attempt := by
  intro h
  exact absurd (h ⟨⟨1⟩, .ofSeconds 20, .off⟩ 64 .zero 0 rfl (by decide) (by decide) (by decide))
    (by decide)

theorem nanos_spread (b : Backoff) (previous : Duration) :
    (b.spread previous).nanos =
      max b.scale.nanos (min (previous.nanos * 3) Duration.max.nanos) := by
  rw [spread, ← Duration.nanos_saturatingMul]
  split_ifs with h
  · exact (Nat.max_eq_left h).symm
  · exact (Nat.max_eq_right (Nat.le_of_not_le h)).symm

variable {stretch : Duration → Duration} {attempt : Nat} {previous : Duration}

def delayBy (stretch : Duration → Duration) (b : Backoff) (attempt : Nat) (previous : Duration) :
    Duration :=
  match b.jitter with
  | .off => b.exponential attempt
  | .full => stretch (b.exponential attempt)
  | .decorrelated =>
    let room : Duration := ⟨(b.spread previous).nanos - b.scale.nanos⟩
    Duration.min ⟨b.scale.nanos + (stretch room).nanos⟩ b.limit

theorem delayBy_scale (b : Backoff) (attempt : Nat) (previous : Duration) (r : Rat) :
    b.delayBy (·.scale r) attempt previous = b.delay attempt previous r := rfl

/-- The same delay; none if a difference is negative or a sum passes the longest duration. -/
def delay? (stretch : Duration → Duration) (b : Backoff) (attempt : Nat) (previous : Duration) :
    Option Duration :=
  match b.jitter with
  | .off => some (b.exponential attempt)
  | .full => some (stretch (b.exponential attempt))
  | .decorrelated => do
    let room ← (b.spread previous).checkedSub b.scale
    let sum ← b.scale.checkedAdd (stretch room)
    some (sum.min b.limit)

structure Bounded (stretch : Duration → Duration) (b : Backoff) (attempt : Nat)
    (previous : Duration) : Prop where
  defined : b.delay? stretch attempt previous = some (b.delayBy stretch attempt previous)
  le_limit : b.delayBy stretch attempt previous ≤ b.limit
  grows : b.jitter = .off → ∀ earlier ≤ attempt, ∀ previous',
    b.delayBy stretch earlier previous' ≤ b.delayBy stretch attempt previous
  le_unspread : b.jitter = .full → b.delayBy stretch attempt previous ≤
    { b with jitter := .off }.delayBy stretch attempt previous
  between : b.jitter = .decorrelated →
    min b.scale.nanos b.limit.nanos ≤ (b.delayBy stretch attempt previous).nanos ∧
      (b.delayBy stretch attempt previous).nanos ≤
        min (max b.scale.nanos (3 * previous.nanos)) b.limit.nanos

theorem nanos_delayBy_decorrelated (h : b.jitter = .decorrelated) :
    (b.delayBy stretch attempt previous).nanos = min (b.scale.nanos +
      (stretch ⟨(b.spread previous).nanos - b.scale.nanos⟩).nanos) b.limit.nanos := by
  rw [delayBy, h]
  exact Duration.nanos_min _ _

def Shrinks (stretch : Duration → Duration) : Prop := ∀ d, stretch d ≤ d

theorem delay?_eq (hscale : b.scale ≤ Duration.max) (h : Shrinks stretch) :
    b.delay? stretch attempt previous = some (b.delayBy stretch attempt previous) := by
  rw [delay?, delayBy]
  cases b.jitter with
  | off => rfl
  | full => rfl
  | decorrelated =>
    have hspread := nanos_spread b previous
    have hmax : b.scale.nanos ≤ Duration.max.nanos := hscale
    have hlow : b.scale ≤ b.spread previous := by
      change b.scale.nanos ≤ (b.spread previous).nanos
      omega
    have hroom := h ⟨(b.spread previous).nanos - b.scale.nanos⟩
    change (stretch _).nanos ≤ (b.spread previous).nanos - b.scale.nanos at hroom
    have hsum : b.scale.nanos + (stretch ⟨(b.spread previous).nanos - b.scale.nanos⟩).nanos ≤
        Duration.max.nanos := by
      omega
    simp only [Duration.checkedSub, if_pos hlow, Option.bind_eq_bind, Option.bind_some,
      Duration.checkedAdd, if_pos hsum]

theorem delayBy_le_limit (h : Shrinks stretch) : b.delayBy stretch attempt previous ≤ b.limit := by
  rw [delayBy]
  cases b.jitter with
  | off => exact exponential_le_limit b attempt
  | full => exact Nat.le_trans (h (b.exponential attempt)) (exponential_le_limit b attempt)
  | decorrelated =>
    change (Duration.min _ _).nanos ≤ b.limit.nanos
    rw [Duration.nanos_min]
    exact Nat.min_le_right _ _

theorem bounded (hscale : b.scale ≤ Duration.max) (h : Shrinks stretch) :
    b.Bounded stretch attempt previous := by
  refine ⟨delay?_eq hscale h, delayBy_le_limit h, ?_, ?_, ?_⟩
  · intro hoff earlier hearlier previous'
    simp only [delayBy, hoff]
    exact exponential_mono b hearlier
  · intro hfull
    simp only [delayBy, hfull]
    exact h (b.exponential attempt)
  · intro hdecorrelated
    have hspread := nanos_spread b previous
    have hroom := h ⟨(b.spread previous).nanos - b.scale.nanos⟩
    change (stretch _).nanos ≤ (b.spread previous).nanos - b.scale.nanos at hroom
    rw [nanos_delayBy_decorrelated hdecorrelated]
    constructor <;> omega

end Backoff

namespace Strategy

/-- A retry whose wait comes from `stretch`: the delay is worked out before and given as the hint. -/
def scheduleBy (stretch : Duration → Duration) (s : Strategy) (t : Token) (a : Advice) :
    Strategy × Except RetryError Token :=
  let delay := a.hint.getD (s.options.backoff.delayBy stretch t.retries t.lastDelay)
  s.schedule t { a with hint := some delay } 0

theorem scheduleBy_scale (s : Strategy) (t : Token) (a : Advice) (r : Rat) :
    s.scheduleBy (·.scale r) t a = s.schedule t a r := by
  rw [scheduleBy, schedule, schedule, Backoff.delayBy_scale]
  rfl

theorem eq_nextToken_of_schedule {s s' : Strategy} {t u : Token} {a : Advice} {r : Rat}
    (h : s.schedule t a r = (s', .ok u)) : u = s.nextToken t a r := by
  by_cases hm : t.retries < s.options.maxRetries
  · by_cases hc : a.cost ≤ s.capacity t.partition
    · rw [schedule_of_le hm hc] at h
      exact (Except.ok.inj (Prod.mk.inj h).2).symm
    · rw [schedule_of_lt hm (Nat.lt_of_not_le hc)] at h
      cases h
  · rw [schedule_of_exhausted (Nat.le_of_not_lt hm)] at h
    cases h

end Strategy

/-- What a call has waited before its retries, the last wait first, where none came with a hint. What
other calls do to the buckets in between is open. -/
inductive Waits (o : Options) : Token → List Duration → Prop where
  | start (t : Token) : Waits o t []
  | retry {t u : Token} {waits : List Duration} {s s' : Strategy} {a : Advice}
      {stretch : Duration → Duration} (h : Waits o t waits) (ho : s.options = o)
      (ha : a.hint = none) (hstretch : Backoff.Shrinks stretch)
      (hschedule : s.scheduleBy stretch t a = (s', .ok u)) : Waits o u (u.lastDelay :: waits)

theorem Waits.le_maxBackoff {o : Options} {t : Token} {waits : List Duration} (h : Waits o t waits) :
    ∀ wait ∈ waits, wait ≤ o.maxBackoff := by
  induction h with
  | start => simp
  | @retry t u waits s s' a stretch h ho ha hstretch hschedule ih =>
    have hwait : u.lastDelay = o.backoff.delayBy stretch t.retries t.lastDelay := by
      rw [Strategy.eq_nextToken_of_schedule hschedule, ← ho]
      simp only [Strategy.nextToken, Strategy.delay, ha, Option.getD_none, Option.getD_some]
    refine List.forall_mem_cons.2 ⟨?_, ih⟩
    rw [hwait]
    exact Backoff.delayBy_le_limit hstretch

/-- Whatever a draw makes of a length of time, as long as it makes it no longer: no step of a delay
goes out of range, each delay is within the bounds of its mode, and no call waits longer than the
limit before any of its retries. Where the draw multiplies by `r`, these are the delays and the retries
of the strategy itself. -/
theorem delays_bounded (o : Options) (stretch : Duration → Duration) (attempt : Nat)
    (previous : Duration) (hscale : o.scale ≤ Duration.max) (hstretch : Backoff.Shrinks stretch) :
    o.backoff.Bounded stretch attempt previous ∧
      (∀ t waits, Waits o t waits → ∀ wait ∈ waits, wait ≤ o.maxBackoff) ∧
      ∀ r, (∀ d, stretch d = d.scale r) →
        o.backoff.delayBy stretch attempt previous = o.backoff.delay attempt previous r ∧
          ∀ s t a, Strategy.scheduleBy stretch s t a = s.schedule t a r := by
  refine ⟨Backoff.bounded hscale hstretch, fun _ _ h => h.le_maxBackoff, fun r hr => ?_⟩
  obtain rfl : stretch = (·.scale r) := funext hr
  exact ⟨Backoff.delayBy_scale _ _ _ _, fun s t a => Strategy.scheduleBy_scale s t a r⟩

def patient : Options := ⟨3, 500, .ofMillis 100, .ofSeconds 20, .decorrelated⟩

def halved (d : Duration) : Duration := ⟨d.nanos / 2⟩

theorem shrinks_halved : Backoff.Shrinks halved := fun d => Nat.div_le_self d.nanos 2

theorem exists_waits_patient : ∃ t, Waits patient t [.ofMillis 200, .ofMillis 100] :=
  ⟨_, .retry (s := .new patient) (a := ⟨.throttling, none, false⟩)
    (.retry (s := .new patient) (a := ⟨.transient, none, false⟩) (.start ⟨"queue", 0, none, .zero⟩)
      rfl rfl shrinks_halved rfl) rfl rfl shrinks_halved rfl⟩

theorem delays_bounded_patient : patient.scale ≤ Duration.max ∧ Backoff.Shrinks halved ∧
    halved (.ofMillis 800) = (Duration.ofMillis 800).scale (1 / 2) ∧
    patient.backoff.delayBy halved 1 (.ofMillis 300) = .ofMillis 500 ∧
    patient.backoff.Bounded halved 1 (.ofMillis 300) ∧
    (∃ t, Waits patient t [.ofMillis 200, .ofMillis 100]) ∧
    ∀ t waits, Waits patient t waits → ∀ wait ∈ waits, wait ≤ Duration.ofSeconds 20 := by
  have hscale : patient.scale ≤ Duration.max := by decide
  obtain ⟨hbounded, hwaits, -⟩ :=
    delays_bounded patient halved 1 (.ofMillis 300) hscale shrinks_halved
  exact ⟨hscale, shrinks_halved, by decide +kernel, by decide, hbounded, exists_waits_patient, hwaits⟩

end Retry

end ServiceClient
