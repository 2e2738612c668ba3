/-! Runs of a computation that may fail, one step at a time. If it has a state, it keeps that when it
fails. -/

namespace ServiceClient

variable {ε σ α β : Type} {s s' : σ}

theorem bind_of_ok {x : ExceptT ε (StateM σ) α} {f : α → ExceptT ε (StateM σ) β} {a : α}
    (h : x s = (.ok a, s')) : (x >>= f) s = f a s' := by
  change StateT.bind x (ExceptT.bindCont f) s = _
  rw [StateT.bind, h]
  rfl

theorem bind_of_error {x : ExceptT ε (StateM σ) α} {f : α → ExceptT ε (StateM σ) β} {e : ε}
    (h : x s = (.error e, s')) : (x >>= f) s = (.error e, s') := by
  change StateT.bind x (ExceptT.bindCont f) s = _
  rw [StateT.bind, h]
  rfl

theorem bind_eq_of_eq {x y : ExceptT ε (StateM σ) α} {f : α → ExceptT ε (StateM σ) β}
    (h : x s = y s) : (x >>= f) s = (y >>= f) s := by
  change StateT.bind x (ExceptT.bindCont f) s = StateT.bind y (ExceptT.bindCont f) s
  rw [StateT.bind, StateT.bind, h]

section Partial

theorem bind_of_some {x : StateT σ Option α} {f : α → StateT σ Option β} {a : α}
    (h : x s = some (a, s')) : (x >>= f) s = f a s' := by
  change (x s).bind (fun r => f r.1 r.2) = _
  rw [h]
  rfl

theorem bind_of_some_ok {x : ExceptT ε (StateT σ Option) α}
    {f : α → ExceptT ε (StateT σ Option) β} {a : α} (h : x s = some (.ok a, s')) :
    (x >>= f) s = f a s' := by
  change StateT.bind x (ExceptT.bindCont f) s = _
  exact bind_of_some h

theorem bind_of_some_error {x : ExceptT ε (StateT σ Option) α}
    {f : α → ExceptT ε (StateT σ Option) β} {e : ε} (h : x s = some (.error e, s')) :
    (x >>= f) s = some (.error e, s') := by
  change StateT.bind x (ExceptT.bindCont f) s = _
  exact bind_of_some h

theorem lift_of_some {x : StateT σ Option α} {a : α} (h : x s = some (a, s')) :
    (liftM x : ExceptT ε (StateT σ Option) α) s = some (.ok a, s') := by
  change (x s).bind (fun r => some (Except.ok r.1, r.2)) = _
  rw [h]
  rfl

theorem mapM_of_forall {f : α → Option β} {g : α → β} {l : List α}
    (h : ∀ a ∈ l, f a = some (g a)) : l.mapM f = some (l.map g) := by
  induction l with
  | nil => rfl
  | cons a l ih =>
    rw [List.forall_mem_cons] at h
    rw [List.mapM_cons, h.1, ih h.2]
    rfl

end Partial

theorem exists_of_bind {x : Except ε α} {f : α → Except ε β} {b : β} (h : x >>= f = .ok b) :
    ∃ a, x = .ok a ∧ f a = .ok b := by
  cases x with
  | error e => cases h
  | ok a => exact ⟨a, rfl, h⟩

theorem eq_ok_of_toOption {x : Except ε α} {a : α} (h : x.toOption = some a) : x = .ok a := by
  cases x with
  | error e => cases h
  | ok b => exact congrArg Except.ok (Option.some.inj h)

end ServiceClient
