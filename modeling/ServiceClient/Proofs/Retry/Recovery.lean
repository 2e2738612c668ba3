import Mathlib.Algebra.BigOperators.Group.List.Basic
import ServiceClient.Proofs.Retry.Budget

/-! When an exhausted partition can give tokens again. Only successes put capacity back, and a
success needs a token, so what a partition can still reach is what it has now with what its tokens
would refund. This never grows once it is less than the cheapest retry costs. -/

namespace ServiceClient.Retry.Usage

def refundOn (x : String) : Option Token → Nat
  | some t => if t.partition = x then t.refund else 0
  | none => 0

def outstanding (held : List (Option Token)) (x : String) : Nat := (held.map (refundOn x)).sum

/-- The capacity of a partition with all that tokens may put back on it. -/
def reserve (u : Usage) (x : String) : Nat := u.capacity x + outstanding u.held x

theorem reserve_mk (s : Strategy) (held : List (Option Token)) (j : Journal) (x : String) :
    reserve ⟨s, held, j⟩ x = s.capacity x + outstanding held x := rfl

variable {held held' : List (Option Token)} {x : String} {o : Options} {u u' : Usage} {a : Action}
  {ans : Answer} {c d : Nat} {t : Token}

@[simp] theorem outstanding_append (v : Option Token) :
    outstanding (held ++ [v]) x = outstanding held x + refundOn x v := by
  simp [outstanding]

theorem outstanding_set (h : (held[c]?).join = some t) (v : Option Token) :
    outstanding (held.set c v) x + refundOn x (some t) = outstanding held x + refundOn x v := by
  induction held generalizing c with
  | nil => simp at h
  | cons w held ih =>
    cases c with
    | zero =>
      obtain rfl : w = some t := by simpa using h
      simp only [List.set_cons_zero, outstanding, List.map_cons, List.sum_cons]
      omega
    | succ c =>
      have hc := ih (c := c) (by simpa using h)
      simp only [List.set_cons_succ, outstanding, List.map_cons, List.sum_cons] at hc ⊢
      omega

theorem outstanding_le (hlen : held'.length = held.length)
    (h : ∀ (c : Nat) t, (held'[c]?).join = some t → (held[c]?).join = some t) :
    outstanding held' x ≤ outstanding held x := by
  induction held generalizing held' with
  | nil =>
    obtain rfl : held' = [] := List.length_eq_zero_iff.1 hlen
    exact Nat.le_refl _
  | cons v held ih =>
    obtain ⟨w, held', rfl⟩ := List.exists_cons_of_length_eq_add_one hlen
    have hrest := @ih held' (by simpa using hlen)
      (fun c t ht => by simpa using h (c + 1) t (by simpa using ht))
    have hhead : refundOn x w ≤ refundOn x v := by
      cases w with
      | none => exact Nat.zero_le _
      | some t =>
        obtain rfl : v = some t := by simpa using h 0 t (by simp)
        exact Nat.le_refl _
    simp only [outstanding, List.map_cons, List.sum_cons] at hrest ⊢
    exact Nat.add_le_add hhead hrest

theorem outstanding_eq_zero (h : ∀ c : Nat, (held[c]?).join = none) : outstanding held x = 0 := by
  have hnone : ∀ v ∈ held, v = none := by
    intro v hv
    obtain ⟨c, hc, rfl⟩ := List.getElem_of_mem hv
    simpa [List.getElem?_eq_getElem hc] using h c
  refine List.sum_eq_zero fun n hn => ?_
  obtain ⟨v, hv, rfl⟩ := List.mem_map.1 hn
  rw [hnone v hv]
  rfl

theorem refundOn_of_ne (h : x ≠ t.partition) : refundOn x (some t) = 0 :=
  if_neg (Ne.symm h)

theorem Outcome.reserve_lt (hu : u.strategy.pool.Sound) (hout : Outcome u a u' ans)
    (h : u.reserve x < retryCost) : u'.reserve x < retryCost := by
  cases hout with
  | idle hs hlen hheld hans =>
    have hle := outstanding_le (x := x) hlen hheld
    have hcap : u.strategy.capacity x + outstanding u.held x < retryCost := h
    rw [reserve_mk, hs.capacity x]
    omega
  | @acquired y s hs hc =>
    have hcap : u.strategy.capacity x + outstanding u.held x < retryCost := h
    have hne : x ≠ y := by
      rintro rfl
      rw [capacity] at hc
      omega
    rw [reserve_mk, hs.capacity x, outstanding_append, refundOn_of_ne hne]
    exact hcap
  | @charged c a r t ht hm hc =>
    have hcap : u.strategy.capacity x + outstanding u.held x < retryCost := h
    -- The retry has been paid for, so it is another partition that cannot pay.
    have hcost := retryCost_le_cost a
    have hne : x ≠ t.partition := by
      rintro rfl
      rw [capacity] at hc
      omega
    have hset := outstanding_set (x := x) ht (some (u.strategy.nextToken t a r))
    rw [refundOn_of_ne hne, refundOn_of_ne (t := u.strategy.nextToken t a r) hne] at hset
    rw [reserve_mk, Strategy.capacity_charge, if_neg hne]
    omega
  | @refunded c t ht =>
    have hcap : u.strategy.capacity x + outstanding u.held x < retryCost := h
    -- What comes back has been part of the reserve.
    have hset := outstanding_set (x := x) ht none
    rw [reserve_mk, Strategy.capacity_recordSuccess hu]
    by_cases hx : x = t.partition
    · subst hx
      simp only [refundOn, if_true] at hset ⊢
      omega
    · rw [refundOn_of_ne hx] at hset
      rw [if_neg hx]
      simp only [refundOn] at hset
      omega

theorem funded_run (o : Options) (as : List Action) : Funded o ((start o).run as) :=
  run_induction (funded_start o) (fun u a h => h.outcome (step_outcome u a)) as

theorem not_admits_of_reserve_lt (hu : Funded o u) (h : u.reserve x < retryCost)
    (as : List Action) : ¬ (u.run as).Admits x := by
  have hrun := run_induction (P := fun u => Funded o u ∧ u.reserve x < retryCost) ⟨hu, h⟩
    (fun u a hua =>
      ⟨hua.1.outcome (step_outcome u a), (step_outcome u a).reserve_lt hua.1.sound hua.2⟩) as
  rw [admits_iff]
  have hle : (u.run as).capacity x ≤ (u.run as).reserve x := Nat.le_add_right _ _
  omega

theorem retryCost_le_of_token (h : Funded o u) (hout : Outcome u a u' ans)
    (hu : ∀ c t, u.token? c = some t → retryCost ≤ o.capacity) (ht : u'.token? c = some t) :
    retryCost ≤ o.capacity := by
  cases hout with
  | idle hs hlen hheld hans => exact hu c t (hheld c t ht)
  | @acquired y s hs hc =>
    have hle : u.capacity y ≤ o.capacity := h.initial ▸ h.sound.capacity_le y
    exact Nat.le_trans hc hle
  | @charged c' a r t' ht' hm hc => exact hu c' t' ht'
  | @refunded c' t' ht' => exact hu c' t' ht'

theorem retryCost_le_of_token_run {as : List Action} (ht : ((start o).run as).token? c = some t) :
    retryCost ≤ o.capacity := by
  have hrun := run_induction
    (P := fun u => Funded o u ∧ ∀ c t, u.token? c = some t → retryCost ≤ o.capacity)
    ⟨funded_start o, fun c t ht => by simp [start, token?] at ht⟩
    (fun u a hu => ⟨hu.1.outcome (step_outcome u a),
      fun c t ht => retryCost_le_of_token hu.1 (step_outcome u a) hu.2 ht⟩) as
  exact hrun.2 c t ht

theorem step_succeed_of_none (h : u.token? c = none) : (u.step (.succeed c)).1 = u := by
  simp [step, h]

theorem step_succeed_of_some (h : u.token? c = some t) : (u.step (.succeed c)).1 =
    ⟨u.strategy.recordSuccess t, u.held.set c none,
      .refund c t.partition (u.strategy.gain t) :: u.journal⟩ := by
  simp [step, h]

theorem token_step_succeed :
    (u.step (.succeed c)).1.token? d = if c = d then none else u.token? d := by
  cases ht : u.token? c with
  | none =>
    rw [step_succeed_of_none ht]
    split
    · exact ‹c = d› ▸ ht
    · rfl
  | some t =>
    have hlt := lt_of_join_some ht
    rw [step_succeed_of_some ht, token?, join_set]
    simp only [hlt, and_true]
    rfl

theorem retryCost_le_reserve_succeed (h : Funded o u) (ho : retryCost ≤ o.capacity)
    (hu : retryCost ≤ u.reserve x) : retryCost ≤ (u.step (.succeed c)).1.reserve x := by
  cases ht : u.token? c with
  | none => rwa [step_succeed_of_none ht]
  | some t =>
    have hset := outstanding_set (x := x) ht none
    have hcap : retryCost ≤ u.strategy.capacity x + outstanding u.held x := hu
    have hi := h.initial
    rw [step_succeed_of_some ht, reserve_mk, Strategy.capacity_recordSuccess h.sound]
    by_cases hx : x = t.partition
    · subst hx
      simp only [refundOn, if_true] at hset ⊢
      omega
    · rw [refundOn_of_ne hx] at hset
      rw [if_neg hx]
      simp only [refundOn] at hset
      omega

/-- Successes of all calls hand every token back and keep what the partition can reach. -/
theorem run_succeed (h : Funded o u) (ho : retryCost ≤ o.capacity) (hu : retryCost ≤ u.reserve x)
    (cs : List Nat) : retryCost ≤ (u.run (cs.map .succeed)).reserve x ∧
      ∀ d, d ∈ cs ∨ u.token? d = none → (u.run (cs.map .succeed)).token? d = none := by
  induction cs generalizing u with
  | nil => exact ⟨hu, fun d hd => by simpa using hd⟩
  | cons c cs ih =>
    obtain ⟨hreserve, hnone⟩ := ih (u := (u.step (.succeed c)).1)
      (h.outcome (step_outcome u _)) (retryCost_le_reserve_succeed h ho hu)
    refine ⟨hreserve, fun d hd => hnone d ?_⟩
    rw [token_step_succeed]
    by_cases hcd : c = d
    · exact .inr (if_pos hcd)
    · rw [if_neg hcd]
      simpa [Ne.symm hcd] using hd

theorem exists_admits (h : Funded o u) (ho : retryCost ≤ o.capacity)
    (hu : retryCost ≤ u.reserve x) : ∃ more, (u.run more).Admits x := by
  refine ⟨(List.range u.held.length).map .succeed, admits_iff.2 ?_⟩
  obtain ⟨hreserve, hnone⟩ := run_succeed h ho hu (List.range u.held.length)
  have hall : ∀ d, (u.run ((List.range u.held.length).map .succeed)).token? d = none := by
    intro d
    apply hnone
    by_cases hd : d < u.held.length
    · exact .inl (List.mem_range.2 hd)
    · right
      rw [token?, List.getElem?_eq_none (by omega)]
      rfl
  rwa [reserve, outstanding_eq_zero hall, Nat.add_zero] at hreserve

/-- A partition gives tokens again after some continuation exactly if its capacity, with what its
tokens may still put back, pays for a retry; otherwise it never does. -/
theorem exists_admits_iff (o : Options) (as : List Action) (x : String) :
    (∃ more, ((start o).run (as ++ more)).Admits x) ↔
      retryCost ≤ ((start o).run as).reserve x := by
  have h := funded_run o as
  simp only [run_append]
  constructor
  · rintro ⟨more, hmore⟩
    by_contra hlt
    exact not_admits_of_reserve_lt h (Nat.lt_of_not_le hlt) more hmore
  · intro hle
    by_cases hlive : ∃ c t, ((start o).run as).token? c = some t
    · obtain ⟨c, t, ht⟩ := hlive
      exact exists_admits h (retryCost_le_of_token_run ht) hle
    · have hzero : outstanding ((start o).run as).held x = 0 := by
        refine outstanding_eq_zero fun c => ?_
        cases ht : ((start o).run as).token? c with
        | none => exact ht
        | some t => exact absurd ⟨c, t, ht⟩ hlive
      refine ⟨[], admits_iff.2 ?_⟩
      rwa [reserve, hzero, Nat.add_zero] at hle

/-- One call spends the whole capacity on a retry and is refused the next one, so that no token is
left to bring any of it back. -/
def drain : List Action :=
  [.acquire "queue", .schedule 0 ⟨.throttling, none, false⟩ 0,
    .schedule 0 ⟨.throttling, none, false⟩ 0]

theorem not_exists_admits_drain :
    ¬ ∃ more, ((start { tight with capacity := 5 }).run (drain ++ more)).Admits "queue" := by
  rintro ⟨more, hmore⟩
  rw [run_append] at hmore
  exact not_admits_of_reserve_lt (funded_run _ drain) (by decide) more hmore

end ServiceClient.Retry.Usage
