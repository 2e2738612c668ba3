import ServiceClient.Proofs.Retry.Usage

/-! The retry budget that calls share. Capacity is neither made nor lost: what a partition has now
and what its retries have cost come to what it started with and what its successes have put back. -/

namespace ServiceClient.Retry

namespace Journal

variable {j : Journal} {e : Entry} {x : String} {c : Nat}

@[simp] theorem charged_cons : charged (e :: j) x = e.costOn x + charged j x := by simp [charged]

@[simp] theorem refunded_cons : refunded (e :: j) x = e.amountOn x + refunded j x := by
  simp [refunded]

theorem retries_cons_of_ne (h : e.call ≠ c) : Journal.retries (e :: j) c = j.retries c := by
  cases e with
  | charge c' p cost =>
    have hc : c' ≠ c := h
    exact List.countP_cons_of_neg (by simpa [Entry.isChargeOf] using hc)
  | refund c' p amount => exact List.countP_cons_of_neg (by simp [Entry.isChargeOf])

theorem lastCharge?_cons_of_ne (h : e.call ≠ c) :
    Journal.lastCharge? (e :: j) c = j.lastCharge? c := by
  cases e with
  | charge c' p cost =>
    have hc : c' ≠ c := h
    simp [lastCharge?, Entry.chargeOf?, hc]
  | refund c' p amount => rfl

theorem retries_eq_zero (h : ∀ e ∈ j, e.call ≠ c) : j.retries c = 0 := by
  induction j with
  | nil => rfl
  | cons e j ih =>
    rw [retries_cons_of_ne (h e List.mem_cons_self)]
    exact ih fun e' he => h e' (List.mem_cons_of_mem _ he)

theorem lastCharge?_eq_none (h : ∀ e ∈ j, e.call ≠ c) : j.lastCharge? c = none := by
  induction j with
  | nil => rfl
  | cons e j ih =>
    rw [lastCharge?_cons_of_ne (h e List.mem_cons_self)]
    exact ih fun e' he => h e' (List.mem_cons_of_mem _ he)

theorem retries_cons_charge (x : String) (n : Nat) :
    Journal.retries (.charge c x n :: j) c = j.retries c + 1 :=
  List.countP_cons_of_pos (by simp [Entry.isChargeOf])

theorem lastCharge?_cons_charge (x : String) (n : Nat) :
    Journal.lastCharge? (.charge c x n :: j) c = some n := by
  simp [lastCharge?, Entry.chargeOf?]

/-- Every refund gives back at most what the last retry of its call had cost. -/
def Modest (j : Journal) : Prop :=
  ∀ later c x n earlier, j = later ++ .refund c x n :: earlier →
    n ≤ (lastCharge? earlier c).getD successRefund

theorem Modest.cons_charge (h : j.Modest) (c : Nat) (x : String) (n : Nat) :
    Modest (.charge c x n :: j) := by
  intro later c' x' n' earlier he
  cases later with
  | nil => simp at he
  | cons e later =>
    rw [List.cons_append, List.cons.injEq] at he
    exact h later c' x' n' earlier he.2

theorem Modest.cons_refund (h : j.Modest) {c n : Nat} {x : String}
    (hn : n ≤ (j.lastCharge? c).getD successRefund) : Modest (.refund c x n :: j) := by
  intro later c' x' n' earlier he
  cases later with
  | nil =>
    simp only [List.nil_append, List.cons.injEq, Entry.refund.injEq] at he
    obtain ⟨⟨rfl, rfl, rfl⟩, rfl⟩ := he
    exact hn
  | cons e later =>
    rw [List.cons_append, List.cons.injEq] at he
    exact h later c' x' n' earlier he.2

theorem retryCost_mul_granted_le (h : ∀ c y n, Entry.charge c y n ∈ j → retryCost ≤ n) :
    retryCost * j.granted x ≤ j.charged x := by
  induction j with
  | nil => simp [granted, charged]
  | cons e j ih =>
    have hj := ih fun c y n hn => h c y n (List.mem_cons_of_mem _ hn)
    rw [charged_cons, granted, List.countP_cons, Nat.mul_add]
    change retryCost * granted j x + _ ≤ _
    cases e with
    | refund c y n => simpa [Entry.isChargeOn, Entry.costOn] using hj
    | charge c y n =>
      have hn := h c y n List.mem_cons_self
      by_cases hy : y = x
      · simp only [Entry.isChargeOn, hy, BEq.rfl, if_true, Entry.costOn]
        omega
      · simpa [Entry.isChargeOn, Entry.costOn, hy] using hj

end Journal

structure Token.Records (t : Token) (j : Journal) (c : Nat) : Prop where
  retries : t.retries = j.retries c
  lastCost : t.lastCost = j.lastCharge? c

theorem Token.Records.cons {t : Token} {j : Journal} {c : Nat} (h : t.Records j c) {e : Entry}
    (he : e.call ≠ c) : t.Records (e :: j) c where
  retries := h.retries.trans (Journal.retries_cons_of_ne he).symm
  lastCost := h.lastCost.trans (Journal.lastCharge?_cons_of_ne he).symm

theorem Token.Records.refund_eq {t : Token} {j : Journal} {c : Nat} (h : t.Records j c) :
    t.refund = (j.lastCharge? c).getD successRefund := by
  rw [Token.refund, h.lastCost]

namespace Usage

theorem successor_of_lt {n m : Nat} (h : n < m) (hm : m ≤ Config.countLimit) :
    Strategy.successor n = n + 1 :=
  Nat.min_eq_left (Nat.le_trans h hm)

theorem SameBudget.sound {s s' : Strategy} (h : SameBudget s s') (hs : s.pool.Sound) :
    s'.pool.Sound := by
  constructor
  · intro x
    rw [h.bucket, h.initial, hs.maximum]
  · intro x
    rw [BucketPool.capacity, h.bucket, h.initial]
    exact hs.capacity_le x

theorem SameBudget.capacity {s s' : Strategy} (h : SameBudget s s') (x : String) :
    s'.capacity x = s.capacity x := by
  rw [Strategy.capacity, BucketPool.capacity, h.bucket]
  rfl

structure Funded (o : Options) (u : Usage) : Prop where
  options : u.strategy.options = o
  initial : u.strategy.pool.initial = o.capacity
  sound : u.strategy.pool.Sound
  balance : ∀ x, u.capacity x + u.journal.charged x = o.capacity + u.journal.refunded x
  costs : ∀ c x n, Entry.charge c x n ∈ u.journal → retryCost ≤ n

theorem funded_start (o : Options) : Funded o (start o) where
  options := rfl
  initial := rfl
  sound := BucketPool.sound_empty _
  balance _ := rfl
  costs := by simp [start]

variable {o : Options} {u u' : Usage} {a : Action} {ans : Answer}

theorem Funded.congr (h : Funded o u) {s : Strategy} (hs : SameBudget u.strategy s)
    (held : List (Option Token)) : Funded o ⟨s, held, u.journal⟩ where
  options := hs.options.trans h.options
  initial := hs.initial.trans h.initial
  sound := hs.sound h.sound
  balance x := by simpa only [Usage.capacity, hs.capacity x] using h.balance x
  costs := h.costs

theorem Funded.outcome (h : Funded o u) (hout : Outcome u a u' ans) : Funded o u' := by
  cases hout with
  | idle hs hlen hheld hans => exact h.congr hs _
  | acquired hs hc => exact h.congr hs _
  | @charged c a r t ht hm hc =>
    refine ⟨h.options, h.initial, Strategy.sound_charge h.sound _, fun x => ?_, ?_⟩
    · have hb := h.balance x
      simp only [Usage.capacity, Strategy.capacity_charge, Journal.charged_cons,
        Journal.refunded_cons, Entry.costOn, Entry.amountOn, eq_comm (a := x)] at hb hc ⊢
      split
      · subst x
        omega
      · omega
    · intro c' x n hn
      obtain he | hn := List.mem_cons.1 hn
      · rw [Entry.charge.injEq] at he
        exact he.2.2 ▸ retryCost_le_cost a
      · exact h.costs c' x n hn
  | @refunded c t ht =>
    refine ⟨h.options, h.initial, Strategy.sound_recordSuccess h.sound, fun x => ?_, ?_⟩
    · have hb := h.balance x
      have hg := Strategy.gain_eq (t := t) h.sound
      have hle : u.strategy.capacity t.partition ≤ u.strategy.pool.initial :=
        h.sound.capacity_le t.partition
      simp only [Usage.capacity, Strategy.capacity_recordSuccess h.sound, Journal.charged_cons,
        Journal.refunded_cons, Entry.costOn, Entry.amountOn, eq_comm (a := x)] at hb ⊢
      split
      · subst x
        omega
      · omega
    · intro c' x n hn
      obtain he | hn := List.mem_cons.1 hn
      · simp at he
      · exact h.costs c' x n hn

/-- The calls' side of the books: the journal has no call before its first token, and all tokens
record it. -/
structure Traced (o : Options) (u : Usage) : Prop where
  calls : ∀ e ∈ u.journal, e.call < u.held.length
  records : ∀ c t, u.token? c = some t → t.Records u.journal c
  retries_le : ∀ c t, u.token? c = some t → t.retries ≤ o.maxRetries

theorem traced_start (o : Options) : Traced o (start o) where
  calls := by simp [start]
  records := by simp [start, token?]
  retries_le := by simp [start, token?]

theorem token_of_join_append {d : Nat} {t t' : Token}
    (h : ((u.held ++ [some t])[d]?).join = some t') :
    (d = u.held.length ∧ t' = t) ∨ u.token? d = some t' := by
  rw [join_append] at h
  split at h
  · exact .inl ⟨‹_›, (Option.some.inj h).symm⟩
  · exact .inr h

theorem token_of_join_set {c d : Nat} {v : Option Token} {t : Token} (hlt : c < u.held.length)
    (h : ((u.held.set c v)[d]?).join = some t) :
    (c = d ∧ v = some t) ∨ (c ≠ d ∧ u.token? d = some t) := by
  rw [join_set] at h
  by_cases hcd : c = d
  · rw [if_pos ⟨hcd, hlt⟩] at h
    exact .inl ⟨hcd, h⟩
  · rw [if_neg (fun hn => hcd hn.1)] at h
    exact .inr ⟨hcd, h⟩

theorem Traced.outcome (ho : o.maxRetries ≤ Config.countLimit) (h : Traced o u)
    (hopt : u.strategy.options = o) (hout : Outcome u a u' ans) : Traced o u' := by
  cases hout with
  | idle hs hlen hheld hans =>
    refine ⟨fun e he => hlen ▸ h.calls e he, fun c t ht => ?_, fun c t ht => ?_⟩
    · exact h.records c t (hheld c t ht)
    · exact h.retries_le c t (hheld c t ht)
  | @acquired x s hs hc =>
    have hfresh : ∀ e ∈ u.journal, e.call ≠ u.held.length := fun e he =>
      Nat.ne_of_lt (h.calls e he)
    refine ⟨fun e he => ?_, fun c t ht => ?_, fun c t ht => ?_⟩
    · simpa using Nat.lt_succ_of_lt (h.calls e he)
    · obtain ⟨rfl, rfl⟩ | ht := token_of_join_append ht
      · exact ⟨(Journal.retries_eq_zero hfresh).symm, (Journal.lastCharge?_eq_none hfresh).symm⟩
      · exact h.records c t ht
    · obtain ⟨rfl, rfl⟩ | ht := token_of_join_append ht
      · exact Nat.zero_le _
      · exact h.retries_le c t ht
  | @charged c a r t ht hm hc =>
    have hlt := lt_of_join_some ht
    rw [hopt] at hm
    refine ⟨fun e he => ?_, fun d t' hd => ?_, fun d t' hd => ?_⟩
    · rw [List.length_set]
      obtain rfl | he := List.mem_cons.1 he
      · exact hlt
      · exact h.calls e he
    -- The new entry is about the call that is charged, and no other token records it.
    · obtain ⟨rfl, hv⟩ | ⟨hcd, hd⟩ := token_of_join_set hlt hd
      · obtain rfl := Option.some.inj hv
        refine ⟨?_, (Journal.lastCharge?_cons_charge _ _).symm⟩
        rw [Journal.retries_cons_charge, ← (h.records c t ht).retries]
        exact successor_of_lt hm ho
      · exact (h.records d t' hd).cons hcd
    · obtain ⟨rfl, hv⟩ | ⟨hcd, hd⟩ := token_of_join_set hlt hd
      · obtain rfl := Option.some.inj hv
        exact Nat.le_trans (Nat.le_of_eq (successor_of_lt hm ho)) hm
      · exact h.retries_le d t' hd
  | @refunded c t ht =>
    have hlt := lt_of_join_some ht
    refine ⟨fun e he => ?_, fun d t' hd => ?_, fun d t' hd => ?_⟩
    · rw [List.length_set]
      obtain rfl | he := List.mem_cons.1 he
      · exact hlt
      · exact h.calls e he
    · obtain ⟨rfl, hv⟩ | ⟨hcd, hd⟩ := token_of_join_set hlt hd
      · cases hv
      · exact (h.records d t' hd).cons hcd
    · obtain ⟨rfl, hv⟩ | ⟨hcd, hd⟩ := token_of_join_set hlt hd
      · cases hv
      · exact h.retries_le d t' hd

structure Balanced (o : Options) (u : Usage) : Prop extends Funded o u, Traced o u where
  modest : u.journal.Modest

theorem balanced_start (o : Options) : Balanced o (start o) :=
  ⟨funded_start o, traced_start o, by simp [start, Journal.Modest]⟩

theorem Balanced.outcome (ho : o.maxRetries ≤ Config.countLimit) (h : Balanced o u)
    (hout : Outcome u a u' ans) : Balanced o u' := by
  refine ⟨h.toFunded.outcome hout, h.toTraced.outcome ho h.options hout, ?_⟩
  cases hout with
  | idle hs hlen hheld hans => exact h.modest
  | acquired hs hc => exact h.modest
  | charged ht hm hc => exact h.modest.cons_charge _ _ _
  | refunded ht =>
    refine h.modest.cons_refund ?_
    rw [Strategy.gain_eq h.sound, ← (h.records _ _ ht).refund_eq]
    exact Nat.min_le_left _ _

theorem balanced_run (ho : o.maxRetries ≤ Config.countLimit) (as : List Action) :
    Balanced o ((start o).run as) :=
  run_induction (balanced_start o) (fun u a h => h.outcome ho (step_outcome u a)) as

theorem capacity_step_of_refused {e : RetryError} (h : (u.step a).2 = .refused e) (x : String) :
    (u.step a).1.capacity x = u.capacity x := by
  have hout := step_outcome u a
  rw [h] at hout
  generalize (u.step a).1 = u' at hout ⊢
  cases hout with
  | idle hs hlen hheld hans => exact hs.capacity x

theorem capacity_step_of_ne {x : String} (h : u.partition? a ≠ some x) :
    (u.step a).1.capacity x = u.capacity x := by
  have hout := step_outcome u a
  generalize (u.step a).1 = u' at hout ⊢
  generalize (u.step a).2 = ans at hout
  cases hout with
  | idle hs hlen hheld hans => exact hs.capacity x
  | acquired hs hc => exact hs.capacity x
  | @charged c a r t ht hm hc =>
    have hne : x ≠ t.partition := by
      rintro rfl
      simp [partition?, ht] at h
    rw [capacity, Strategy.capacity_charge, if_neg hne]
    rfl
  | @refunded c t ht =>
    have hne : x ≠ t.partition := by
      rintro rfl
      simp [partition?, ht] at h
    simp only [capacity, Strategy.capacity, Strategy.recordSuccess, BucketPool.capacity_put,
      if_neg hne]

theorem Balanced.exceeded_iff (h : Balanced o u) {c n : Nat} {a : Advice} {r : Rat} :
    (u.step (.schedule c a r)).2 = .refused (.maxRetriesExceeded n) ↔
      (u.token? c).isSome ∧ u.journal.retries c = o.maxRetries ∧
        n = Strategy.successor o.maxRetries := by
  cases ht : u.token? c with
  | none => simp [step, ht]
  | some t =>
    have hr := (h.records c t ht).retries
    have hle := h.retries_le c t ht
    by_cases hm : o.maxRetries ≤ t.retries
    · have heq : t.retries = o.maxRetries := Nat.le_antisymm hle hm
      rw [step_schedule_of_exhausted ht (by rwa [h.options]), heq, ← hr]
      simp [heq, eq_comm]
    · have hlt : t.retries < u.strategy.options.maxRetries := by
        rw [h.options]
        omega
      have hne : u.journal.retries c ≠ o.maxRetries := by omega
      by_cases hc : a.cost ≤ u.capacity t.partition
      · simp [step, ht, Strategy.schedule_of_le hlt hc, hne]
      · rw [step_schedule_of_lt ht hlt (Nat.lt_of_not_le hc)]
        simp [hne]

theorem journal_refund_of_mem {as : List Action} {u : Usage}
    (h : ∀ c, Action.succeed c ∉ as) : (u.run as).journal.refunded = u.journal.refunded := by
  induction as generalizing u with
  | nil => rfl
  | cons a as ih =>
    rw [run_cons, ih fun c hc => h c (List.mem_cons_of_mem _ hc)]
    have hout := step_outcome u a
    generalize (u.step a).1 = u' at hout ⊢
    generalize (u.step a).2 = ans at hout
    cases hout with
    | idle hs hlen hheld hans => rfl
    | acquired hs hc => rfl
    | charged ht hm hc =>
      funext x
      simp [Entry.amountOn]
    | @refunded c t ht => exact absurd List.mem_cons_self (h c)

/-- What a budget of `o.capacity` a partition means for calls that do `as`, and for whatever one of
them does next. -/
structure SharedBudget (o : Options) (as : List Action) : Prop where
  capacity_le : ∀ x, ((start o).run as).capacity x ≤ o.capacity
  balance : ∀ x, ((start o).run as).capacity x + ((start o).run as).journal.charged x =
    o.capacity + ((start o).run as).journal.refunded x
  modest : ((start o).run as).journal.Modest
  charged_le : ∀ x, ((start o).run as).journal.charged x ≤
    o.capacity + ((start o).run as).journal.refunded x
  granted_le : (∀ c, Action.succeed c ∉ as) →
    ∀ x, ((start o).run as).journal.granted x ≤ o.capacity / retryCost
  refused : ∀ a e, (((start o).run as).step a).2 = .refused e →
    ∀ x, (((start o).run as).step a).1.capacity x = ((start o).run as).capacity x
  elsewhere : ∀ a x, ((start o).run as).partition? a ≠ some x →
    (((start o).run as).step a).1.capacity x = ((start o).run as).capacity x
  retries : ∀ c t, ((start o).run as).token? c = some t →
    t.retries = ((start o).run as).journal.retries c ∧ t.retries ≤ o.maxRetries
  exceeded : ∀ c a r n,
    (((start o).run as).step (.schedule c a r)).2 = .refused (.maxRetriesExceeded n) ↔
      (((start o).run as).token? c).isSome ∧
        ((start o).run as).journal.retries c = o.maxRetries ∧
        n = Strategy.successor o.maxRetries

theorem sharedBudget (o : Options) (ho : o.maxRetries ≤ Config.countLimit) (as : List Action) :
    SharedBudget o as := by
  have h := balanced_run ho as
  have hle : ∀ x, ((start o).run as).capacity x ≤ o.capacity := fun x =>
    h.initial ▸ h.sound.capacity_le x
  have hcharged : ∀ x, ((start o).run as).journal.charged x ≤
      o.capacity + ((start o).run as).journal.refunded x := fun x => by
    have := h.balance x
    omega
  refine ⟨hle, h.balance, h.modest, hcharged, fun hsucceed x => ?_,
    fun a e ha x => capacity_step_of_refused ha x, fun a x hx => capacity_step_of_ne hx,
    fun c t ht => ⟨(h.records c t ht).retries, h.retries_le c t ht⟩,
    fun c a r n => h.exceeded_iff⟩
  have hzero : ((start o).run as).journal.refunded x = 0 := by
    rw [journal_refund_of_mem hsucceed]
    rfl
  have hmul := Journal.retryCost_mul_granted_le (x := x) h.costs
  have hpaid := hcharged x
  rw [Nat.le_div_iff_mul_le (by decide)]
  rw [Nat.mul_comm] at hmul
  omega

def tight : Options := ⟨1, 12, .ofMillis 10, .ofSeconds 20, .off⟩

/-- Two calls on one partition: the first is granted a retry and succeeds, the second one is refused
for want of capacity, and a third call on another partition uses up its retries. -/
def rush : List Action :=
  [.acquire "queue", .acquire "queue", .acquire "mail", .schedule 0 ⟨.transient, none, false⟩ 0,
    .schedule 1 ⟨.throttling, none, false⟩ 0, .succeed 0, .schedule 2 ⟨.throttling, none, false⟩ 0]

theorem sharedBudget_rush : tight.maxRetries ≤ Config.countLimit ∧ SharedBudget tight rush ∧
    ((start tight).run rush).journal =
      [.charge 2 "mail" 5, .refund 0 "queue" 10, .charge 0 "queue" 10] ∧
    (((start tight).run rush).step (.schedule 2 ⟨.transient, none, false⟩ 0)).2 =
      .refused (.maxRetriesExceeded 2) :=
  ⟨by decide, sharedBudget tight (by decide) rush, by decide, by decide⟩

end Usage

end ServiceClient.Retry
