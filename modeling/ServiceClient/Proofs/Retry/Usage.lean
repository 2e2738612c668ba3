import Mathlib.Algebra.Ring.Nat
import ServiceClient.Proofs.Retry.Strategy

/-! Any number of calls that share one strategy, in any order. A call is known by the number of its
first token and holds one token at a time; what it does with it is one `Action`. The journal keeps
every charge and every refund with the call that it belongs to, the last one first. -/

namespace ServiceClient.Retry

/-- A retry whose wait is given up is one that was scheduled and whose new token is dropped. -/
inductive Action where
  | acquire (partition : String)
  | schedule (call : Nat) (advice : Advice) (r : Rat)
  | succeed (call : Nat)
  | drop (call : Nat)
  deriving DecidableEq, Repr

/-- `amount` is by how much the capacity grew. -/
inductive Entry where
  | charge (call : Nat) (partition : String) (cost : Nat)
  | refund (call : Nat) (partition : String) (amount : Nat)
  deriving DecidableEq, Repr

namespace Entry

def call : Entry → Nat
  | charge c _ _ => c
  | refund c _ _ => c

def costOn (x : String) : Entry → Nat
  | charge _ p cost => if p = x then cost else 0
  | refund _ _ _ => 0

def amountOn (x : String) : Entry → Nat
  | charge _ _ _ => 0
  | refund _ p amount => if p = x then amount else 0

def isChargeOn (x : String) : Entry → Bool
  | charge _ p _ => p == x
  | refund _ _ _ => false

def isChargeOf (c : Nat) : Entry → Bool
  | charge c' _ _ => c' == c
  | refund _ _ _ => false

def chargeOf? (c : Nat) : Entry → Option Nat
  | charge c' _ cost => if c' = c then some cost else none
  | refund _ _ _ => none

end Entry

abbrev Journal := List Entry

namespace Journal

def charged (j : Journal) (x : String) : Nat := (j.map (Entry.costOn x)).sum

def refunded (j : Journal) (x : String) : Nat := (j.map (Entry.amountOn x)).sum

def granted (j : Journal) (x : String) : Nat := j.countP (Entry.isChargeOn x)

def retries (j : Journal) (c : Nat) : Nat := j.countP (Entry.isChargeOf c)

def lastCharge? (j : Journal) (c : Nat) : Option Nat := j.findSome? (Entry.chargeOf? c)

end Journal

inductive Answer where
  | granted (t : Token)
  | refused (e : RetryError)
  | done
  | unheld
  deriving DecidableEq, Repr

/-- `held` has the token of each call, none if it was used up. -/
structure Usage where
  strategy : Strategy
  held : List (Option Token)
  journal : Journal
  deriving DecidableEq, Repr

namespace Usage

def start (o : Options) : Usage := ⟨.new o, [], []⟩

def token? (u : Usage) (c : Nat) : Option Token := (u.held[c]?).join

def capacity (u : Usage) (x : String) : Nat := u.strategy.capacity x

def Admits (u : Usage) (x : String) : Prop := ∃ s t, u.strategy.acquire x = (s, .ok t)

/-- A token is used up by what is done with it, whatever comes of it. -/
def step (u : Usage) : Action → Usage × Answer
  | .acquire x =>
    match u.strategy.acquire x with
    | (s, .ok t) => (⟨s, u.held ++ [some t], u.journal⟩, .granted t)
    | (s, .error e) => (⟨s, u.held, u.journal⟩, .refused e)
  | .schedule c a r =>
    match u.token? c with
    | none => (u, .unheld)
    | some t =>
      match u.strategy.schedule t a r with
      | (s, .ok t') =>
        (⟨s, u.held.set c (some t'), .charge c t.partition a.cost :: u.journal⟩, .granted t')
      | (s, .error e) => (⟨s, u.held.set c none, u.journal⟩, .refused e)
  | .succeed c =>
    match u.token? c with
    | none => (u, .unheld)
    | some t =>
      (⟨u.strategy.recordSuccess t, u.held.set c none,
        .refund c t.partition (u.strategy.gain t) :: u.journal⟩, .done)
  | .drop c => (⟨u.strategy, u.held.set c none, u.journal⟩, .done)

def run (u : Usage) (as : List Action) : Usage := as.foldl (fun u a => (u.step a).1) u

def partition? (u : Usage) : Action → Option String
  | .acquire x => some x
  | .schedule c _ _ => (u.token? c).map (·.partition)
  | .succeed c => (u.token? c).map (·.partition)
  | .drop c => (u.token? c).map (·.partition)

@[simp] theorem run_nil (u : Usage) : u.run [] = u := rfl

@[simp] theorem run_cons (u : Usage) (a : Action) (as : List Action) :
    u.run (a :: as) = (u.step a).1.run as := rfl

theorem run_append (u : Usage) (as bs : List Action) : u.run (as ++ bs) = (u.run as).run bs := by
  simp only [run, List.foldl_append]

theorem run_induction {P : Usage → Prop} {u : Usage} (h : P u)
    (hstep : ∀ u a, P u → P (u.step a).1) (as : List Action) : P (u.run as) := by
  induction as generalizing u with
  | nil => exact h
  | cons a as ih => exact ih (hstep u a h)

theorem admits_iff {u : Usage} {x : String} : u.Admits x ↔ retryCost ≤ u.capacity x := by
  constructor
  · rintro ⟨s, t, h⟩
    by_contra hlt
    rw [Strategy.acquire_of_lt (Nat.lt_of_not_le hlt)] at h
    simp at h
  · intro h
    exact ⟨_, _, Strategy.acquire_of_le h⟩

variable {held : List (Option Token)} {c d : Nat} {t t' : Token}

theorem lt_of_join_some (h : (held[c]?).join = some t) : c < held.length := by
  by_contra hn
  rw [List.getElem?_eq_none (by omega)] at h
  simp at h

theorem join_set (v : Option Token) :
    ((held.set c v)[d]?).join = if c = d ∧ c < held.length then v else (held[d]?).join := by
  by_cases hcd : c = d
  · subst hcd
    by_cases hc : c < held.length
    · simp [hc]
    · simp [hc]
  · simp [hcd]

theorem join_append (v : Option Token) :
    ((held ++ [v])[d]?).join = if d = held.length then v else (held[d]?).join := by
  by_cases hd : d = held.length
  · simp [hd]
  · by_cases hlt : d < held.length
    · simp [hd, List.getElem?_append_left hlt]
    · rw [List.getElem?_eq_none (by simp; omega), List.getElem?_eq_none (by omega)]
      simp [hd]

structure SameBudget (s s' : Strategy) : Prop where
  options : s'.options = s.options
  initial : s'.pool.initial = s.pool.initial
  bucket : ∀ x, s'.pool.bucket x = s.pool.bucket x

theorem SameBudget.refl (s : Strategy) : SameBudget s s := ⟨rfl, rfl, fun _ => rfl⟩

theorem sameBudget_touch (s : Strategy) (x : String) :
    SameBudget s { s with pool := s.pool.touch x } :=
  ⟨rfl, rfl, fun y => by simp⟩

/-- All that one action can do. A call that is `idle` moves no capacity and gains no token. -/
inductive Outcome (u : Usage) : Action → Usage → Answer → Prop where
  | idle {a : Action} {s : Strategy} {held : List (Option Token)} {ans : Answer}
      (hs : SameBudget u.strategy s) (hlen : held.length = u.held.length)
      (hheld : ∀ c t, (held[c]?).join = some t → u.token? c = some t)
      (hans : ∀ t, ans ≠ .granted t) : Outcome u a ⟨s, held, u.journal⟩ ans
  | acquired {x : String} {s : Strategy} (hs : SameBudget u.strategy s)
      (hc : retryCost ≤ u.capacity x) :
      Outcome u (.acquire x) ⟨s, u.held ++ [some ⟨x, 0, none, .zero⟩], u.journal⟩
        (.granted ⟨x, 0, none, .zero⟩)
  | charged {c : Nat} {a : Advice} {r : Rat} {t : Token} (ht : u.token? c = some t)
      (hm : t.retries < u.strategy.options.maxRetries) (hc : a.cost ≤ u.capacity t.partition) :
      Outcome u (.schedule c a r)
        ⟨u.strategy.charge t.partition a.cost, u.held.set c (some (u.strategy.nextToken t a r)),
          .charge c t.partition a.cost :: u.journal⟩
        (.granted (u.strategy.nextToken t a r))
  | refunded {c : Nat} {t : Token} (ht : u.token? c = some t) :
      Outcome u (.succeed c) ⟨u.strategy.recordSuccess t, u.held.set c none,
        .refund c t.partition (u.strategy.gain t) :: u.journal⟩ .done

theorem token_of_join_set_none {u : Usage}
    (h : (((u.held.set c none)[d]?).join) = some t) : u.token? d = some t := by
  rw [join_set] at h
  split at h
  · simp at h
  · exact h

theorem Outcome.unchanged (u : Usage) (a : Action) {ans : Answer} (h : ∀ t, ans ≠ .granted t) :
    Outcome u a u ans :=
  .idle (.refl _) rfl (fun _ _ ht => ht) h

theorem Outcome.dropped (u : Usage) (a : Action) (c : Nat) {ans : Answer}
    (h : ∀ t, ans ≠ .granted t) : Outcome u a ⟨u.strategy, u.held.set c none, u.journal⟩ ans :=
  .idle (.refl _) (List.length_set ..) (fun _ _ ht => token_of_join_set_none ht) h

theorem step_schedule_of_exhausted {u : Usage} {a : Advice} {r : Rat} (ht : u.token? c = some t)
    (h : u.strategy.options.maxRetries ≤ t.retries) :
    u.step (.schedule c a r) = (⟨u.strategy, u.held.set c none, u.journal⟩,
      .refused (.maxRetriesExceeded (Strategy.successor t.retries))) := by
  simp only [step, ht, Strategy.schedule_of_exhausted h]

theorem step_schedule_of_lt {u : Usage} {a : Advice} {r : Rat} (ht : u.token? c = some t)
    (hm : t.retries < u.strategy.options.maxRetries) (hc : u.capacity t.partition < a.cost) :
    u.step (.schedule c a r) = (⟨u.strategy, u.held.set c none, u.journal⟩,
      .refused (.noCapacity t.partition)) := by
  simp only [step, ht, Strategy.schedule_of_lt hm hc]

theorem step_outcome (u : Usage) (a : Action) : Outcome u a (u.step a).1 (u.step a).2 := by
  cases a with
  | acquire x =>
    by_cases hc : retryCost ≤ u.capacity x
    · simp only [step, Strategy.acquire_of_le hc]
      exact .acquired (sameBudget_touch _ x) hc
    · simp only [step, Strategy.acquire_of_lt (Nat.lt_of_not_le hc)]
      exact .idle (sameBudget_touch _ x) rfl (fun _ _ ht => ht) (by simp)
  | schedule c a r =>
    cases ht : u.token? c with
    | none =>
      simp only [step, ht]
      exact .unchanged u _ (by simp)
    | some t =>
      by_cases hm : t.retries < u.strategy.options.maxRetries
      · by_cases hc : a.cost ≤ u.capacity t.partition
        · simp only [step, ht, Strategy.schedule_of_le hm hc]
          exact .charged ht hm hc
        · rw [step_schedule_of_lt ht hm (Nat.lt_of_not_le hc)]
          exact .dropped u _ c (by simp)
      · rw [step_schedule_of_exhausted ht (Nat.le_of_not_lt hm)]
        exact .dropped u _ c (by simp)
  | succeed c =>
    cases ht : u.token? c with
    | none =>
      simp only [step, ht]
      exact .unchanged u _ (by simp)
    | some t =>
      simp only [step, ht]
      exact .refunded ht
  | drop c => exact .dropped u _ c (by simp [step])

end Usage

end ServiceClient.Retry
