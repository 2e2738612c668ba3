import Mathlib.Data.List.Basic
import ServiceClient.Http.Response

/-! One response in many hands. Each of them may set its status or wait until that is final, in any
order; a wait looks at the status when it is polled, but for the first time only if there was a change
since it looked last. The first final status stays, and it is what every wait ends with. -/

namespace ServiceClient.Http

/-- `seen` is how many changes of the status there had been when the waiter looked last. -/
structure Wait where
  waiter : Waiter
  seen : Option Nat
  deriving DecidableEq, Repr

structure Shared where
  response : Response
  handles : Nat
  changes : Nat
  waits : List Wait
  deriving DecidableEq, Repr

namespace Shared

inductive Action where
  | clone (handle : Nat)
  | set (handle status : Nat)
  | wait (handle : Nat)
  | poll (wait : Nat)
  deriving DecidableEq, Repr

def start (r : Response) : Shared := ⟨r, 1, 0, []⟩

def set (s : Shared) (status : Nat) : Shared × Bool :=
  let (response, taken) := s.response.setStatus status
  ({ s with response := response, changes := if taken then s.changes + 1 else s.changes }, taken)

def look (s : Shared) (w : Wait) : Wait :=
  if w.seen = some s.changes then w else ⟨s.response.poll w.waiter, some s.changes⟩

/-- Nothing happens through a handle or to a wait that there is not. -/
def step (s : Shared) : Action → Shared
  | .clone h => if h < s.handles then { s with handles := s.handles + 1 } else s
  | .set h status => if h < s.handles then (s.set status).1 else s
  | .wait h => if h < s.handles then { s with waits := s.waits ++ [⟨.pending, none⟩] } else s
  | .poll i => { s with waits := s.waits.modify i s.look }

def run (s : Shared) (as : List Action) : Shared := as.foldl step s

def held (s : Shared) : List Action → List Nat
  | [] => [s.response.status]
  | a :: as => s.response.status :: (s.step a).held as

def waiter? (s : Shared) (i : Nat) : Option Waiter := (s.waits[i]?).map (·.waiter)

@[simp] theorem run_cons (s : Shared) (a : Action) (as : List Action) :
    s.run (a :: as) = (s.step a).run as := rfl

section Status

variable {s : Shared} {status : Nat}

theorem isFinal_iff : Response.isFinal status = true ↔ 200 ≤ status := by
  simp [Response.isFinal]

theorem set_of_final (h : 200 ≤ s.response.status) (status : Nat) :
    s.set status = (s, false) := by
  simp [set, Response.setStatus, isFinal_iff, h]

theorem set_of_lt (h : s.response.status < 200) (status : Nat) : s.set status =
    ({ s with response := { s.response with status := status }, changes := s.changes + 1 },
      true) := by
  have hopen : Response.isFinal s.response.status = false := by simpa [Response.isFinal] using h
  simp [set, Response.setStatus, hopen]

theorem response_step_of_final (h : 200 ≤ s.response.status) (a : Action) :
    (s.step a).response = s.response := by
  cases a with
  | clone handle => simp only [step]; split <;> rfl
  | set handle status => simp only [step]; split <;> simp [set_of_final h]
  | wait handle => simp only [step]; split <;> rfl
  | poll i => rfl

theorem response_run_of_final (h : 200 ≤ s.response.status) (as : List Action) :
    (s.run as).response = s.response := by
  induction as generalizing s with
  | nil => rfl
  | cons a as ih =>
    have hstep := response_step_of_final h a
    rw [run_cons, ih (by rwa [hstep]), hstep]

theorem find?_held (s : Shared) (as : List Action) : (s.held as).find? Response.isFinal =
    if 200 ≤ (s.run as).response.status then some (s.run as).response.status else none := by
  induction as generalizing s with
  | nil =>
    by_cases h : 200 ≤ s.response.status <;> simp [held, run, isFinal_iff, h]
  | cons a as ih =>
    by_cases h : 200 ≤ s.response.status
    · rw [response_run_of_final h (a :: as)]
      simp [held, isFinal_iff.2 h, h]
    · rw [held, List.find?_cons_of_neg (by simpa [isFinal_iff] using h), ih, run_cons]

theorem find?_held_eq_some_iff {as : List Action} {v : Nat} :
    (s.held as).find? Response.isFinal = some v ↔
      (s.run as).response.status = v ∧ 200 ≤ v := by
  rw [find?_held]
  split <;> grind

end Status

section Waits

variable {s : Shared} {w : Wait}

/-- A wait that is over has the status, which is final; one that has nothing new to look at has seen
that it is not. -/
structure Follows (s : Shared) (w : Wait) : Prop where
  done : ∀ v, w.waiter = .done v → s.response.status = v ∧ 200 ≤ v
  pending : w.seen = some s.changes → w.waiter = .pending → s.response.status < 200
  seen_le : ∀ n, w.seen = some n → n ≤ s.changes

theorem Follows.set (h : s.Follows w) (status : Nat) : (s.set status).1.Follows w := by
  by_cases hfinal : 200 ≤ s.response.status
  · simpa [set_of_final hfinal] using h
  · have hlt : s.response.status < 200 := by omega
    rw [set_of_lt hlt]
    constructor
    · -- While the status was open no wait was over.
      intro v hv
      have hdone := h.done v hv
      omega
    · intro hseen
      have hle := h.seen_le _ hseen
      simp only at hle
      omega
    · intro n hn
      exact Nat.le_succ_of_le (h.seen_le n hn)

theorem Follows.look (h : s.Follows w) : s.Follows (s.look w) := by
  unfold Shared.look
  split
  · exact h
  · obtain ⟨waiter, seen⟩ := w
    cases waiter with
    | done v => exact ⟨h.done, nofun, by simp⟩
    | pending =>
      by_cases hfinal : 200 ≤ s.response.status
      · have hpoll : s.response.poll .pending = .done s.response.status := by
          simp [Response.poll, isFinal_iff, hfinal]
        rw [hpoll]
        exact ⟨by simp [hfinal], nofun, by simp⟩
      · have hpoll : s.response.poll .pending = .pending := by
          simp [Response.poll, isFinal_iff, hfinal]
        rw [hpoll]
        exact ⟨nofun, fun _ _ => by omega, by simp⟩

theorem follows_new (s : Shared) : s.Follows ⟨.pending, none⟩ := ⟨nofun, nofun, nofun⟩

def Attended (s : Shared) : Prop :=
  ∀ (i : Nat) (w : Wait), s.waits[i]? = some w → s.Follows w

theorem attended_start (r : Response) : (start r).Attended := by
  intro i w h
  simp [start] at h

theorem Attended.step (h : s.Attended) (a : Action) : (s.step a).Attended := by
  cases a with
  | clone handle =>
    simp only [Shared.step]
    split
    · intro i w hw
      have hfollows := h i w hw
      exact ⟨hfollows.done, hfollows.pending, hfollows.seen_le⟩
    · exact h
  | set handle status =>
    simp only [Shared.step]
    split
    · intro i w hw
      exact (h i w hw).set status
    · exact h
  | wait handle =>
    simp only [Shared.step]
    split
    · intro i w hw
      have hfollows : s.Follows w := by
        rw [List.getElem?_append] at hw
        split at hw
        · exact h i w hw
        · have hnew : w = ⟨.pending, none⟩ := by grind
          rw [hnew]
          exact follows_new s
      exact ⟨hfollows.done, hfollows.pending, hfollows.seen_le⟩
    · exact h
  | poll j =>
    intro i w hw
    simp only [Shared.step, List.getElem?_modify] at hw
    obtain ⟨w', hw', rfl⟩ := Option.map_eq_some_iff.1 hw
    have hfollows : s.Follows (if j = i then s.look w' else w') := by
      split
      · exact (h i w' hw').look
      · exact h i w' hw'
    exact ⟨hfollows.done, hfollows.pending, hfollows.seen_le⟩

theorem attended_run (r : Response) (as : List Action) : ((start r).run as).Attended := by
  have hrun : ∀ s : Shared, s.Attended → (s.run as).Attended := by
    induction as with
    | nil => exact fun s h => h
    | cons a as ih => exact fun s h => ih (s.step a) (h.step a)
  exact hrun _ (attended_start r)

theorem exists_of_waiter? {i : Nat} {x : Waiter} (h : s.waiter? i = some x) :
    ∃ w, s.waits[i]? = some w ∧ w.waiter = x := by
  simpa [waiter?] using h

theorem poll_or_waiter?_step (a : Action) {i : Nat} {x : Waiter} (h : s.waiter? i = some x) :
    (∃ j, a = .poll j) ∨ (s.step a).waiter? i = some x := by
  obtain ⟨w, hw, rfl⟩ := exists_of_waiter? h
  cases a with
  | poll j => exact .inl ⟨j, rfl⟩
  | clone handle => right; simp only [step]; split <;> exact h
  | set handle status => right; simp only [step]; split <;> exact h
  | wait handle =>
    right
    simp only [step]
    split
    · have hi : i < s.waits.length := (List.getElem?_eq_some_iff.1 hw).1
      simp [waiter?, List.getElem?_append_left hi, hw]
    · exact h

theorem Attended.eq_of_done (h : s.Attended) {i v : Nat} (hi : s.waiter? i = some (.done v)) :
    s.response.status = v ∧ 200 ≤ v := by
  obtain ⟨w, hw, hdone⟩ := exists_of_waiter? hi
  exact (h i w hw).done v hdone

theorem Attended.waiter?_poll (h : s.Attended) (hfinal : 200 ≤ s.response.status) {i : Nat}
    (hi : i < s.waits.length) :
    (s.step (.poll i)).waiter? i = some (.done s.response.status) := by
  have hw : s.waits[i]? = some s.waits[i] := List.getElem?_eq_getElem hi
  have hpolled : (s.step (.poll i)).waits[i]? = some (s.look s.waits[i]) := by
    simp [Shared.step, hw]
  have hfollows := (h i _ hw).look
  cases hwaiter : (s.look s.waits[i]).waiter with
  | done v => simp [waiter?, hpolled, hwaiter, (hfollows.done v hwaiter).1]
  | pending =>
    -- Then it has just looked, or not had to, and the status was not final.
    have hseen : (s.look s.waits[i]).seen = some s.changes := by
      unfold Shared.look
      split
      · assumption
      · rfl
    have hlt := hfollows.pending hseen hwaiter
    omega

end Waits

/-- However a response is shared: its status changes only while it is not final, and a change is
taken exactly then, through whichever handle it comes; the first final status stays; no wait ends
before it is there, all end with it, and a wait that is polled after it came has ended. -/
theorem first_final_status (r : Response) (as : List Action) :
    let s := (start r).run as
    let first? := ((start r).held as).find? Response.isFinal
    (∀ a, (s.step a).response.status ≠ s.response.status → s.response.status < 200) ∧
    (∀ v, first? = some v → ∀ more, (s.run more).response.status = v) ∧
    (∀ status, ((s.set status).2 = true ↔ s.response.status < 200) ∧
      ((s.set status).2 = true → (s.set status).1.response.status = status) ∧
      ((s.set status).2 = false → (s.set status).1 = s)) ∧
    (∀ handle status, handle < s.handles → s.step (.set handle status) = (s.set status).1) ∧
    (∀ a i v, s.waiter? i = some .pending → (s.step a).waiter? i = some (.done v) →
      200 ≤ s.response.status) ∧
    (∀ i v, s.waiter? i = some (.done v) → first? = some v) ∧
    (∀ v, first? = some v → ∀ i, i < s.waits.length →
      (s.step (.poll i)).waiter? i = some (.done v)) := by
  intro s first?
  have h : s.Attended := attended_run r as
  have hfirst : ∀ v, first? = some v ↔ s.response.status = v ∧ 200 ≤ v := fun v =>
    find?_held_eq_some_iff
  refine ⟨fun a hne => ?_, fun v hv more => ?_, fun status => ?_, fun _ _ hhandle => if_pos hhandle,
    fun a i v hpending hdone => ?_, fun i v hv => (hfirst v).2 (h.eq_of_done hv), fun v hv i hi => ?_⟩
  · by_contra hfinal
    rw [response_step_of_final (by omega)] at hne
    exact hne rfl
  · obtain ⟨rfl, hle⟩ := (hfirst v).1 hv
    rw [response_run_of_final hle]
  · by_cases hfinal : 200 ≤ s.response.status
    · simp [set_of_final hfinal, hfinal]
    · simp [set_of_lt (Nat.lt_of_not_le hfinal), Nat.lt_of_not_le hfinal]
  · obtain ⟨hstatus, hle⟩ := (h.step a).eq_of_done hdone
    obtain ⟨j, rfl⟩ | hsame := poll_or_waiter?_step a hpending
    · -- Looking does not change the status.
      exact hstatus ▸ hle
    · simp [hsame] at hdone
  · obtain ⟨rfl, hle⟩ := (hfirst v).1 hv
    exact h.waiter?_poll hle hi

/-- One wait starts before any final status, one after it; the second one set is too late. -/
def contended : List Action :=
  [.wait 0, .poll 0, .clone 0, .set 1 100, .poll 0, .set 0 201, .set 1 500, .wait 1, .poll 1, .poll 0]

theorem first_final_status_contended :
    let s := (start .provisional).run contended
    s.waits.map (·.waiter) = [.done 201, .done 201] ∧
      ∀ more, (s.run more).response.status = 201 := by
  obtain ⟨-, hstays, -, -, -, hdone, -⟩ := first_final_status .provisional contended
  exact ⟨by decide, hstays 201 (hdone 0 201 (by decide))⟩

end Shared

end ServiceClient.Http
