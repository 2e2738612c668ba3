import Mathlib.Algebra.Ring.Nat
import Mathlib.Data.Nat.Find
import Mathlib.Order.Bounds.Defs
import ServiceClient.Pipeline.Retrying
import ServiceClient.Proofs.Retry.Strategy
import ServiceClient.Proofs.Run

/-! Retries as a sequence of trials. A trial runs the rest of the stack once, in the session that
the trial before it has left, after a charge and a wait; the first trial that no retry may follow
ends the sequence. The retrying middleware does what this sequence says. -/

namespace ServiceClient.Pipeline

open Call (Calling Session)
open Http (Request)
open Retry (Strategy Token Advice)
open Time (Duration)

section Steps

variable {α β : Type} {s s' : Session}

theorem modify_apply (f : Session → Session) : (modify f : Calling Unit) s = (.ok (), f s) := rfl

theorem outcome_of_eq {x : Calling α} {r : Except CallError α} (h : x s = (r, s')) :
    Calling.outcome x s = (.ok r, s') := by
  rw [Calling.outcome, h]

theorem schedule_apply (t : Token) (a : Advice) (s : Session) : schedule t a s =
    match s.strategy.schedule t a s.fraction with
    | (strategy, .ok t) =>
      (.ok (some t), { s with strategy := strategy, clock := s.clock + t.lastDelay.timerMillis })
    | (strategy, .error _) => (.ok none, { s with strategy := strategy }) := by
  rw [schedule]
  refine (bind_of_ok (rfl : (get : Calling Session) s = (.ok s, s))).trans ?_
  generalize s.strategy.schedule t a s.fraction = x
  obtain ⟨strategy, r⟩ := x
  cases r with
  | ok t => rfl
  | error e => rfl

end Steps

def enter (s : Session) (attempt : Nat) : Session :=
  { s with context := { s.context with attempt := attempt } }

def resume (s : Session) (partition : String) (cost : Nat) (wait : Duration) : Session :=
  { s with
    strategy := s.strategy.charge partition cost
    clock := s.clock + wait.timerMillis }

section Steps

variable {ω : Type}

/-- The token that the strategy gives out after an attempt that ended like this, and the session
after its wait. Nothing is asked for after a success, for an error without advice, or if the body
cannot be sent again. -/
def renewal? (advisor : Advisor) (request : Request) (token : Token) :
    Except CallError ω × Session → Option (Token × Session)
  | (.ok _, _) => none
  | (.error e, s) =>
    match advisor e with
    | none => none
    | some advice =>
      if request.body.isStream then none
      else
        match schedule token advice s with
        | (.ok (some token), s) => some (token, s)
        | _ => none

def startOf (request : Request) (limit : Nat) (token : Token) (s : Session) : Request × Session :=
  (numbered request (Strategy.successor token.retries) limit,
    enter s (Strategy.successor token.retries))

def attempt (run : Request → Calling ω) (start : Request × Session) : Except CallError ω × Session :=
  run start.1 start.2

def settled (token : Token) : Except CallError ω × Session → Except CallError ω × Session
  | (.ok output, s) => (.ok output, { s with strategy := s.strategy.recordSuccess token })
  | (.error e, s) => (.error e, s)

variable {advisor : Advisor} {run : Request → Calling ω} {request : Request} {limit : Nat}

theorem schedule_cases (token : Token) (advice : Advice) (s : Session) :
    (schedule token advice s = (.ok none, s) ∧
      (s.strategy.options.maxRetries ≤ token.retries ∨
        s.strategy.capacity token.partition < advice.cost)) ∨
      token.retries < s.strategy.options.maxRetries ∧
        advice.cost ≤ s.strategy.capacity token.partition ∧
        schedule token advice s =
          (.ok (some (s.strategy.nextToken token advice s.fraction)),
            resume s token.partition advice.cost (s.strategy.delay token advice s.fraction)) := by
  rw [schedule_apply]
  by_cases hm : s.strategy.options.maxRetries ≤ token.retries
  · rw [Strategy.schedule_of_exhausted hm]
    exact .inl ⟨rfl, .inl hm⟩
  · have hlt : token.retries < s.strategy.options.maxRetries := Nat.lt_of_not_le hm
    by_cases hc : advice.cost ≤ s.strategy.capacity token.partition
    · rw [Strategy.schedule_of_le hlt hc]
      exact .inr ⟨hlt, hc, rfl⟩
    · rw [Strategy.schedule_of_lt hlt (Nat.lt_of_not_le hc)]
      exact .inl ⟨rfl, .inr (Nat.lt_of_not_le hc)⟩

/-- One pass: the attempts go on with the token that the strategy gives out, and end without one. -/
theorem attempts_apply (left : Nat) (token : Token) (s : Session) :
    attempts advisor request run limit left token s =
      let r := attempt run (startOf request limit token s)
      match renewal? advisor request token r, left with
      | none, _ => settled token r
      | some (_, s), 0 => (r.1, s)
      | some (token, s), left + 1 => attempts advisor request run limit left token s := by
  dsimp only
  generalize hr : attempt run (startOf request limit token s) = r
  obtain ⟨o, s'⟩ := r
  rw [attempts.eq_def]
  refine (bind_of_ok (modify_apply _)).trans ((bind_of_ok (outcome_of_eq hr)).trans ?_)
  cases o with
  | ok output => rfl
  | error e =>
    dsimp only [renewal?]
    cases advisor e with
    | none => rfl
    | some advice =>
      cases request.body.isStream with
      | true => rfl
      | false =>
        obtain ⟨h, -⟩ | ⟨-, -, h⟩ := schedule_cases token advice s'
        · simp only [h, Bool.false_eq_true, if_false]
          exact (bind_of_ok h).trans rfl
        · simp only [h, Bool.false_eq_true, if_false]
          refine (bind_of_ok h).trans ?_
          cases left <;> rfl

end Steps

structure Trial where
  session : Session
  wait : Duration

structure Retrial (ω : Type) where
  advisor : Advisor
  run : Request → Calling ω
  request : Request
  partition : String
  retries : Nat
  first : Session

namespace Retrial

variable {ω : Type} (x : Retrial ω)

def attempt (i : Nat) : Nat := min (i + 1) Config.countLimit

def sent (i : Nat) : Request :=
  x.request.setHeader "amz-sdk-request"
    (Text.encode s!"attempt={attempt i}; max={attempt x.retries}")

def adviceOf? : Except CallError ω → Option Advice
  | .ok _ => none
  | .error e => x.advisor e

/-- Meaningful up to the first trial that ends the sequence. -/
def trial : Nat → Trial
  | 0 => ⟨enter x.first (attempt 0), .zero⟩
  | i + 1 =>
    let t := trial i
    let (o, s) := x.run (x.sent i) t.session
    match x.adviceOf? o with
    | none => t
    | some a =>
      let wait := a.hint.getD (s.strategy.options.backoff.delay i t.wait s.fraction)
      ⟨enter (resume s x.partition a.cost wait) (attempt (i + 1)), wait⟩

def outcome (i : Nat) : Except CallError ω := (x.run (x.sent i) (x.trial i).session).1

def after (i : Nat) : Session := (x.run (x.sent i) (x.trial i).session).2

def advice? (i : Nat) : Option Advice := x.adviceOf? (x.outcome i)

def cost (i : Nat) : Nat := ((x.advice? i).map Advice.cost).getD 0

def spent (i : Nat) : Nat := ((List.range i).map x.cost).sum

/-- Whether no retry follows, if the partition had the capacity `c` at first. -/
def Stops (c i : Nat) : Prop :=
  (∃ output, x.outcome i = .ok output) ∨ (∃ e, x.outcome i = .error e ∧ x.advisor e = none) ∨
    i = x.retries ∨ c < x.spent i + x.cost i

def refund : Nat → Nat
  | 0 => 1
  | i + 1 => x.cost i

def final (i : Nat) : Session :=
  match x.outcome i with
  | .ok _ =>
    { x.after i with strategy := (x.after i).strategy.restore x.partition (x.refund i) }
  | .error _ => x.after i

def token (i : Nat) : Token where
  partition := x.partition
  retries := i
  lastCost := match i with
    | 0 => none
    | i + 1 => some (x.cost i)
  lastDelay := (x.trial i).wait

theorem refund_token (i : Nat) : (x.token i).refund = x.refund i := by
  cases i <;> rfl

theorem run_trial (i : Nat) :
    x.run (x.sent i) (x.trial i).session = (x.outcome i, x.after i) := rfl

theorem spent_succ (i : Nat) : x.spent (i + 1) = x.spent i + x.cost i := by
  simp [spent, List.range_succ]

variable {x} {i c : Nat} {a : Advice}

theorem cost_of_advice (h : x.advice? i = some a) : x.cost i = a.cost := by
  rw [cost, h]
  rfl

def waitFor (x : Retrial ω) (i : Nat) (a : Advice) : Duration :=
  a.hint.getD ((x.after i).strategy.options.backoff.delay i (x.trial i).wait (x.after i).fraction)

theorem trial_succ (h : x.advice? i = some a) : x.trial (i + 1) =
    ⟨enter (resume (x.after i) x.partition a.cost (x.waitFor i a)) (attempt (i + 1)),
      x.waitFor i a⟩ := by
  rw [trial, run_trial]
  simp only [advice?] at h
  simp only [h]
  rfl

theorem continues (h : ¬ x.Stops c i) : ∃ e a, x.outcome i = .error e ∧ x.advisor e = some a ∧
    i ≠ x.retries ∧ x.spent i + a.cost ≤ c := by
  simp only [Stops, not_or, not_exists, not_and, Nat.not_lt] at h
  obtain ⟨hok, hnone, hm, hc⟩ := h
  cases ho : x.outcome i with
  | ok output => exact absurd ho (hok output)
  | error e =>
    cases ha : x.advisor e with
    | none => exact absurd ha (hnone e ho)
    | some a =>
      have hadvice : x.advice? i = some a := by simp [advice?, ho, adviceOf?, ha]
      rw [cost_of_advice hadvice] at hc
      exact ⟨e, a, rfl, ha, hm, hc⟩

def Undisturbed (partition : String) (run : Request → Calling ω) : Prop :=
  ∀ request s, (run request s).2.strategy.options = s.strategy.options ∧
    (run request s).2.strategy.pool.bucket partition = s.strategy.pool.bucket partition

/-- Nothing but the retries so far has been taken from the bucket that the sequence began with. -/
structure Charged (x : Retrial ω) (s : Strategy) (i : Nat) : Prop where
  options : s.options = x.first.strategy.options
  capacity : s.capacity x.partition = x.first.strategy.capacity x.partition - x.spent i
  maximum : (s.pool.bucket x.partition).maximum =
    (x.first.strategy.pool.bucket x.partition).maximum
  spent_le : x.spent i ≤ x.first.strategy.capacity x.partition

theorem Charged.after (hrun : Undisturbed x.partition x.run)
    (h : Charged x (x.trial i).session.strategy i) : Charged x (x.after i).strategy i := by
  obtain ⟨hoptions, hbucket⟩ := hrun (x.sent i) (x.trial i).session
  refine ⟨hoptions.trans h.options, ?_, ?_, h.spent_le⟩
  · rw [← h.capacity]
    exact congrArg Retry.Bucket.capacity hbucket
  · rw [← h.maximum]
    exact congrArg Retry.Bucket.maximum hbucket

theorem Charged.charge {s : Strategy} (h : Charged x s i) (ha : x.advice? i = some a)
    (hc : x.spent i + a.cost ≤ x.first.strategy.capacity x.partition) :
    Charged x (s.charge x.partition a.cost) (i + 1) := by
  refine ⟨h.options, ?_, ?_, ?_⟩
  · rw [Strategy.capacity, Retry.BucketPool.capacity, Strategy.bucket_charge, h.capacity,
      spent_succ, cost_of_advice ha]
    exact Nat.sub_sub _ _ _
  · rw [Strategy.bucket_charge]
    exact h.maximum
  · rwa [spent_succ, cost_of_advice ha]

theorem charged_trial (hrun : Undisturbed x.partition x.run)
    (h : ∀ j < i, ¬ x.Stops (x.first.strategy.capacity x.partition) j) :
    Charged x (x.trial i).session.strategy i := by
  induction i with
  | zero => exact ⟨rfl, rfl, rfl, Nat.zero_le _⟩
  | succ i ih =>
    have hi := ih fun j hj => h j (Nat.lt_succ_of_lt hj)
    obtain ⟨e, a, ho, ha, hm, hc⟩ := continues (h i (Nat.lt_succ_self i))
    have hadvice : x.advice? i = some a := by simp [advice?, ho, adviceOf?, ha]
    rw [trial_succ hadvice]
    exact (hi.after hrun).charge hadvice hc

variable {left : Nat} {s : Session}

theorem attempt_token (hs : enter s (attempt i) = (x.trial i).session) :
    Pipeline.attempt x.run (startOf x.request (attempt x.retries) (x.token i) s) =
      (x.outcome i, x.after i) := by
  rw [← run_trial, ← hs]
  rfl

theorem settled_token (i : Nat) :
    settled (x.token i) (x.outcome i, x.after i) = (x.outcome i, x.final i) := by
  rw [final, ← refund_token]
  cases x.outcome i <;> rfl

theorem renewal?_of_stops (hm : x.retries = x.first.strategy.options.maxRetries)
    (hcharged : Charged x (x.after i).strategy i)
    (hstop : x.Stops (x.first.strategy.capacity x.partition) i) :
    renewal? x.advisor x.request (x.token i) (x.outcome i, x.after i) = none := by
  cases ho : x.outcome i with
  | ok output => rfl
  | error e =>
    dsimp only [renewal?]
    cases ha : x.advisor e with
    | none => rfl
    | some a =>
      have hadvice : x.advice? i = some a := by simp [advice?, ho, adviceOf?, ha]
      have hpaid := hcharged.spent_le
      have hrefused : i = x.retries ∨
          x.first.strategy.capacity x.partition < x.spent i + a.cost := by
        rw [← cost_of_advice hadvice]
        simpa [Stops, ho, ha] using hstop
      obtain ⟨h, -⟩ | ⟨hlt, hc, -⟩ := schedule_cases (x.token i) a (x.after i)
      · simp [h]
      · have hlt' : i < x.retries := by
          rwa [hcharged.options, ← hm] at hlt
        have hc' : a.cost ≤ x.first.strategy.capacity x.partition - x.spent i := by
          rwa [← hcharged.capacity]
        omega

theorem attempts_of_stops (hm : x.retries = x.first.strategy.options.maxRetries)
    (hs : enter s (attempt i) = (x.trial i).session) (hcharged : Charged x (x.after i).strategy i)
    (hstop : x.Stops (x.first.strategy.capacity x.partition) i) :
    attempts x.advisor x.request x.run (attempt x.retries) left (x.token i) s =
      (x.outcome i, x.final i) := by
  rw [attempts_apply, attempt_token hs]
  dsimp only
  rw [renewal?_of_stops hm hcharged hstop]
  exact settled_token i

theorem renewal?_of_not_stops (hbody : x.request.body.isStream = false)
    (hm : x.retries = x.first.strategy.options.maxRetries) (hi : i < x.retries)
    (hlimit : x.retries ≤ Config.countLimit) (hcharged : Charged x (x.after i).strategy i)
    (hstop : ¬ x.Stops (x.first.strategy.capacity x.partition) i) :
    ∃ s', enter s' (attempt (i + 1)) = (x.trial (i + 1)).session ∧
      renewal? x.advisor x.request (x.token i) (x.outcome i, x.after i) =
        some (x.token (i + 1), s') := by
  obtain ⟨e, a, ho, ha, hne, hc⟩ := continues hstop
  have hadvice : x.advice? i = some a := by simp [advice?, ho, adviceOf?, ha]
  have hnext : (x.after i).strategy.nextToken (x.token i) a (x.after i).fraction =
      x.token (i + 1) := by
    have hretries : Strategy.successor (x.token i).retries = i + 1 :=
      Nat.min_eq_left (Nat.lt_of_lt_of_le hi hlimit)
    have htoken : x.token (i + 1) = ⟨x.partition, i + 1, some (x.cost i), (x.trial (i + 1)).wait⟩ :=
      rfl
    rw [Strategy.nextToken, hretries, htoken, trial_succ hadvice, cost_of_advice hadvice]
    rfl
  refine ⟨resume (x.after i) x.partition a.cost (x.waitFor i a), ?_, ?_⟩
  · rw [trial_succ hadvice]
  · obtain ⟨-, hrefused⟩ | ⟨-, -, hgranted⟩ := schedule_cases (x.token i) a (x.after i)
    · have hrefused' : x.retries ≤ i ∨ (x.after i).strategy.capacity x.partition < a.cost := by
        rwa [hcharged.options, ← hm] at hrefused
      rw [hcharged.capacity] at hrefused'
      omega
    · rw [hnext] at hgranted
      simp only [renewal?, ho, ha, hbody, hgranted, Bool.false_eq_true, if_false]
      rfl

theorem stops_retries (c : Nat) : x.Stops c x.retries := .inr (.inr (.inl rfl))

/-- From a trial on that all trials before have led to, the attempts end with the first one that
stops; as many passes as there are retries are enough to see it. -/
theorem attempts_eq_of_le {n : Nat} (hbody : x.request.body.isStream = false)
    (hm : x.retries = x.first.strategy.options.maxRetries) (hlimit : x.retries ≤ Config.countLimit)
    (hrun : Undisturbed x.partition x.run)
    (hn : IsLeast {i | x.Stops (x.first.strategy.capacity x.partition) i} n) (hi : i ≤ n)
    (hleft : x.retries ≤ i + left) (hs : enter s (attempt i) = (x.trial i).session) :
    attempts x.advisor x.request x.run (attempt x.retries) left (x.token i) s =
      (x.outcome n, x.final n) := by
  have hle : n ≤ x.retries := hn.2 (stops_retries _)
  have hbefore : ∀ j < n, ¬ x.Stops (x.first.strategy.capacity x.partition) j := fun j hj hstop =>
    absurd (hn.2 hstop) (Nat.not_le.2 hj)
  induction left generalizing i s with
  | zero =>
    obtain rfl : i = n := by omega
    exact attempts_of_stops hm hs ((charged_trial hrun hbefore).after hrun) hn.1
  | succ left ih =>
    have hcharged : Charged x (x.after i).strategy i :=
      (charged_trial hrun fun j hj => hbefore j (Nat.lt_of_lt_of_le hj hi)).after hrun
    obtain rfl | hlt := Nat.eq_or_lt_of_le hi
    · exact attempts_of_stops hm hs hcharged hn.1
    · obtain ⟨s', hs', hrenewal⟩ := renewal?_of_not_stops hbody hm (Nat.lt_of_lt_of_le hlt hle)
        hlimit hcharged (hbefore i hlt)
      rw [attempts_apply, attempt_token hs]
      dsimp only
      rw [hrenewal]
      exact ih hlt (by omega) hs'

theorem exists_isLeast_stops (x : Retrial ω) (c : Nat) : ∃ n, IsLeast {i | x.Stops c i} n := by
  classical
  have h : ∃ i, x.Stops c i := ⟨x.retries, stops_retries c⟩
  exact ⟨Nat.find h, Nat.find_spec h, fun i hi => Nat.find_min' h hi⟩

theorem attempt_trial {n : Nat} (h : ∀ j < n, ¬ x.Stops c j) (hi : i ≤ n) :
    (x.trial i).session.context.attempt = attempt i := by
  cases i with
  | zero => rfl
  | succ i =>
    obtain ⟨e, a, ho, ha, hm, hc⟩ := continues (h i hi)
    have hadvice : x.advice? i = some a := by simp [advice?, ho, adviceOf?, ha]
    rw [trial_succ hadvice]
    rfl

def Recording (run : Request → Calling ω) : Prop :=
  ∀ request s, (run request s).2.journal = s.journal ++ [.sent request none]

theorem journal_trial {n : Nat} (hrun : Recording x.run) (h : ∀ j < n, ¬ x.Stops c j)
    (hi : i ≤ n) : (x.trial i).session.journal =
      x.first.journal ++ (List.range i).map fun j => .sent (x.sent j) none := by
  induction i with
  | zero => exact (List.append_nil _).symm
  | succ i ih =>
    obtain ⟨e, a, ho, ha, hm, hc⟩ := continues (h i hi)
    have hadvice : x.advice? i = some a := by simp [advice?, ho, adviceOf?, ha]
    rw [trial_succ hadvice, List.range_succ, List.map_append, ← List.append_assoc,
      ← ih (Nat.le_of_lt hi)]
    exact hrun (x.sent i) (x.trial i).session

theorem journal_final {n : Nat} (hrun : Recording x.run) (h : ∀ j < n, ¬ x.Stops c j) :
    (x.final n).journal =
      x.first.journal ++ (List.range (n + 1)).map fun j => .sent (x.sent j) none := by
  have hafter : (x.final n).journal = (x.after n).journal := by
    rw [final]
    cases x.outcome n <;> rfl
  rw [hafter, List.range_succ, List.map_append, ← List.append_assoc,
    ← journal_trial hrun h (Nat.le_refl n)]
  exact hrun (x.sent n) (x.trial n).session

theorem capacity_final {n : Nat} (hcharged : Charged x (x.after n).strategy n) :
    (x.final n).strategy.capacity x.partition =
      match x.outcome n with
      | .ok _ => min (x.first.strategy.capacity x.partition - x.spent n + x.refund n)
          (x.first.strategy.pool.bucket x.partition).maximum
      | .error _ => x.first.strategy.capacity x.partition - x.spent n := by
  rw [final]
  cases x.outcome n with
  | ok output =>
    change ((x.after n).strategy.restore _ _).capacity _ = _
    rw [Strategy.capacity_restore, hcharged.capacity, hcharged.maximum]
  | error e => exact hcharged.capacity

/-- The sequence of trials that starts with a token from the session's strategy. Its calls share one
new identifier. -/
def of (advisor : Advisor) (request : Request) (run : Request → Calling ω) (s : Session) :
    Retrial ω :=
  let id := Call.Identifier.firstFree s.spelled s.spelled.length s.drawn
  { advisor := advisor
    run := run
    request := request.setHeader "amz-sdk-invocation-id" (Text.encode (Call.Identifier.text id))
    partition := s.context.partitionId
    retries := s.strategy.options.maxRetries
    first := { s with
      strategy := { s.strategy with pool := s.strategy.pool.touch s.context.partitionId }
      drawn := id + 1 } }

/-- The sequence ends with the trial after `n` retries, which is the first one that stops, and `r`
is what comes of it. -/
structure Result (x : Retrial ω) (n : Nat) (r : Except CallError ω × Session) : Prop where
  stops : IsLeast {i | x.Stops (x.first.strategy.capacity x.partition) i} n
  result : r = (x.outcome n, x.final n)
  cost_eq : ∀ i e a, x.outcome i = .error e → x.advisor e = some a →
    x.cost i = if a.isTimeout ∨ a.category = .transient then 10 else 5
  attempt_eq : ∀ i ≤ n, (x.trial i).session.context.attempt = attempt i
  wait_zero : (x.trial 0).wait = .zero
  wait_succ : ∀ i < n, ∃ e a, x.outcome i = .error e ∧ x.advisor e = some a ∧
    (x.trial (i + 1)).wait = a.hint.getD
      (x.first.strategy.options.backoff.delay i (x.trial i).wait (x.after i).fraction) ∧
    (x.trial (i + 1)).session.clock = (x.after i).clock + (x.trial (i + 1)).wait.timerMillis
  capacity : r.2.strategy.capacity x.partition =
    match r.1 with
    | .ok _ => min (x.first.strategy.capacity x.partition - x.spent n + x.refund n)
        (x.first.strategy.pool.bucket x.partition).maximum
    | .error _ => x.first.strategy.capacity x.partition - x.spent n
  requests : Recording x.run → r.2.journal =
    x.first.journal ++ (List.range (n + 1)).map fun i => .sent (x.sent i) none

theorem result_attempts (hbody : x.request.body.isStream = false)
    (hm : x.retries = x.first.strategy.options.maxRetries) (hlimit : x.retries ≤ Config.countLimit)
    (hrun : Undisturbed x.partition x.run) : ∃ n, x.Result n (attempts x.advisor x.request x.run
      (attempt x.retries) Config.countLimit (x.token 0) x.first) := by
  obtain ⟨n, hn⟩ := exists_isLeast_stops x (x.first.strategy.capacity x.partition)
  have hbefore : ∀ j < n, ¬ x.Stops (x.first.strategy.capacity x.partition) j := fun j hj hstop =>
    absurd (hn.2 hstop) (Nat.not_le.2 hj)
  have hcharged : ∀ i ≤ n, Charged x (x.after i).strategy i := fun i hi =>
    (charged_trial hrun fun j hj => hbefore j (Nat.lt_of_lt_of_le hj hi)).after hrun
  have hresult := attempts_eq_of_le hbody hm hlimit hrun hn (Nat.zero_le n)
    (Nat.le_trans hlimit (Nat.le_add_left _ 0)) (rfl : enter x.first (attempt 0) = _)
  rw [hresult]
  refine ⟨n, hn, rfl, fun i e a ho ha => ?_, fun i hi => attempt_trial hbefore hi, rfl,
    fun i hi => ?_, capacity_final (hcharged n (Nat.le_refl n)),
    fun hrecord => journal_final hrecord hbefore⟩
  · have hadvice : x.advice? i = some a := by simp [advice?, ho, adviceOf?, ha]
    exact (cost_of_advice hadvice).trans (Advice.cost_mk a.category a.hint a.isTimeout)
  obtain ⟨e, a, ho, ha, hne, hc⟩ := continues (hbefore i hi)
  have hadvice : x.advice? i = some a := by simp [advice?, ho, adviceOf?, ha]
  refine ⟨e, a, ho, ha, ?_, ?_⟩
  · rw [trial_succ hadvice, waitFor, (hcharged i (Nat.le_of_lt hi)).options]
  · rw [trial_succ hadvice]
    rfl

end Retrial

theorem acquire_apply (p : String) (s : Session) : acquire p s =
    match s.strategy.acquire p with
    | (strategy, .ok t) => (.ok t, { s with strategy := strategy })
    | (strategy, .error e) => (.error (.retry e), { s with strategy := strategy }) := by
  rw [acquire]
  refine (bind_of_ok (rfl : (get : Calling Session) s = (.ok s, s))).trans ?_
  generalize s.strategy.acquire p = x
  obtain ⟨strategy, r⟩ := x
  cases r with
  | ok t => rfl
  | error e => rfl

theorem retry_apply {ω : Type} (advisor : Advisor) (request : Request)
    (next : Next Calling Request ω) {s : Session}
    (h : Retry.retryCost ≤ s.strategy.capacity s.context.partitionId) :
    let x := Retrial.of advisor request next.run s
    (retry advisor).handle request next s =
      attempts advisor x.request next.run (Strategy.successor x.retries) Config.countLimit
        ⟨x.partition, 0, none, .zero⟩ x.first := by
  intro x
  have hcontext : (Calling.context : Calling Call.Context) s = (.ok s.context, s) := rfl
  have hacquire := acquire_apply s.context.partitionId s
  rw [Strategy.acquire_of_le h] at hacquire
  refine (bind_of_ok hcontext).trans ((bind_of_ok hacquire).trans ?_)
  exact (bind_of_ok (rfl : (get : Calling Session) _ = (.ok _, _))).trans
    (bind_of_ok (rfl : Calling.drawIdentifier _ = (.ok _, x.first)))

/-- A partition that cannot pay for the cheapest retry refuses the call before the rest of the stack
is run; else the call comes to what the sequence of trials comes to. -/
theorem retry_handle {ω : Type} (advisor : Advisor) (request : Request)
    (next : Next Calling Request ω) (s : Session) (hbody : request.body.isStream = false)
    (hlimit : s.strategy.options.maxRetries ≤ Config.countLimit)
    (hrun : Retrial.Undisturbed s.context.partitionId next.run) :
    let p := s.context.partitionId
    (s.strategy.capacity p < Retry.retryCost →
      (retry advisor).handle request next s = (.error (.retry (.noCapacity p)),
        { s with strategy := { s.strategy with pool := s.strategy.pool.touch p } })) ∧
    (Retry.retryCost ≤ s.strategy.capacity p →
      ∃ n, (Retrial.of advisor request next.run s).Result n
        ((retry advisor).handle request next s)) := by
  refine ⟨fun h => ?_, fun h => ?_⟩
  · have hcontext : (Calling.context : Calling Call.Context) s = (.ok s.context, s) := rfl
    have hacquire := acquire_apply s.context.partitionId s
    rw [Strategy.acquire_of_lt h] at hacquire
    exact (bind_of_ok hcontext).trans (bind_of_error hacquire)
  · rw [retry_apply advisor request next h]
    exact Retrial.result_attempts (x := Retrial.of advisor request next.run s) hbody rfl hlimit hrun

def flaky : Request → Calling Nat := fun request s =>
  (if s.context.attempt < 2 then .error (.client (.network "reset")) else .ok s.context.attempt,
    { s with journal := s.journal ++ [.sent request none] })

def calm : Session where
  context := .ofConfig .default "queue" "Send"
  strategy := .new { Retry.Options.default with capacity := 12 }
  fraction := 1 / 2
  window := none
  server := ⟨[], .empty .none, false⟩
  sources := []
  clock := 0
  spelled := []
  drawn := 0
  journal := []

theorem stops_flaky : IsLeast {i | (Retrial.of Advisor.standard .empty flaky calm).Stops 12 i} 1 := by
  refine ⟨.inl ⟨2, rfl⟩, fun i hi => Nat.one_le_iff_ne_zero.2 fun hzero => ?_⟩
  subst hzero
  obtain ⟨output, ho⟩ | ⟨e, ho, ha⟩ | hi | hi := hi
  · cases ho
  · cases ho
    cases ha
  · cases hi
  · exact absurd hi (by decide)

/-- The rest of the stack is called twice, half of 25 ms apart; the success puts back what the retry
has cost. -/
theorem retry_handle_flaky : Request.empty.body.isStream = false ∧
    calm.strategy.options.maxRetries ≤ Config.countLimit ∧
    Retrial.Undisturbed calm.context.partitionId flaky ∧
    Retry.retryCost ≤ calm.strategy.capacity calm.context.partitionId ∧
    let x := Retrial.of Advisor.standard .empty flaky calm
    let r := (retry Advisor.standard).handle .empty ⟨0, flaky⟩ calm
    x.Result 1 r ∧ r.1 = .ok 2 ∧ r.2.strategy.capacity calm.context.partitionId = 12 ∧
      (List.range 2).map (fun i => (x.trial i).wait) = [.zero, ⟨12500000⟩] ∧ r.2.clock = 13 ∧
      r.2.journal = [.sent (x.sent 0) none, .sent (x.sent 1) none] ∧
      (List.range 2).map (fun i => (x.sent i).headers.values "amz-sdk-request") =
        [[Text.encode "attempt=1; max=4"], [Text.encode "attempt=2; max=4"]] := by
  have hrun : Retrial.Undisturbed calm.context.partitionId flaky := fun _ _ => ⟨rfl, rfl⟩
  obtain ⟨n, hn⟩ := (retry_handle Advisor.standard .empty ⟨0, flaky⟩ calm rfl (by decide) hrun).2
    (by decide)
  obtain rfl : n = 1 :=
    Nat.le_antisymm (hn.stops.2 stops_flaky.1) (stops_flaky.2 hn.stops.1)
  refine ⟨rfl, by decide, hrun, by decide, hn, ?_, ?_, ?_, ?_, ?_, ?_⟩
  · rw [hn.result]
    rfl
  · rw [hn.result]
    decide +kernel
  · decide +kernel
  · rw [hn.result]
    decide +kernel
  · rw [hn.result]
    rfl
  · decide +kernel

end ServiceClient.Pipeline
