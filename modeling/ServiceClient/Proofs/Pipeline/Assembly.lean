import ServiceClient.Pipeline.Step

/-! Lists of entries with ids, put together one change at a time. A change looks for the first entry
with an id and does nothing if there is none. Steps are changed in the same way. -/

namespace ServiceClient.Pipeline

inductive Change (α : Type) where
  | add (x : α) (place : Place)
  | remove (id : String)

namespace Change

variable {α β : Type} (idOf : α → String)

def map (f : α → β) : Change α → Change β
  | .add x place => .add (f x) place
  | .remove id => .remove id

def replace (id : String) (f : α → List α) (l : List α) : List α :=
  match l.dropWhile (idOf · != id) with
  | [] => l
  | y :: back => l.takeWhile (idOf · != id) ++ f y ++ back

def apply (l : List α) : Change α → List α
  | .add x .first => x :: l
  | .add x .last => l ++ [x]
  | .add x (.before id) => replace idOf id (fun y => [x, y]) l
  | .add x (.after id) => replace idOf id (fun y => [y, x]) l
  | .remove id => replace idOf id (fun _ => []) l

def arranged (cs : List (Change α)) : List α := cs.foldl (apply idOf) []

theorem replace_cons (id : String) (f : α → List α) (y : α) (l : List α) :
    replace idOf id f (y :: l) = if idOf y = id then f y ++ l else y :: replace idOf id f l := by
  by_cases h : idOf y = id
  · simp [replace, h]
  · simp only [replace, h, List.dropWhile_cons, List.takeWhile_cons, bne_iff_ne, ne_eq,
      not_false_eq_true, if_true, if_false]
    cases l.dropWhile (idOf · != id) <;> rfl

variable {idOf} {idOf' : β → String} {f : α → β}

theorem replace_map (hf : ∀ x, idOf' (f x) = idOf x) (id : String) {g : α → List α}
    {g' : β → List β} (hg : ∀ x, g' (f x) = (g x).map f) (l : List α) :
    replace idOf' id g' (l.map f) = (replace idOf id g l).map f := by
  induction l with
  | nil => rfl
  | cons y l ih =>
    rw [List.map_cons, replace_cons, replace_cons, hf, hg, ih]
    split <;> simp

theorem apply_map (hf : ∀ x, idOf' (f x) = idOf x) (l : List α) (c : Change α) :
    apply idOf' (l.map f) (c.map f) = (apply idOf l c).map f := by
  cases c with
  | remove id => exact replace_map hf id (fun _ => rfl) l
  | add x place =>
    cases place with
    | first => rfl
    | last => simp [map, apply]
    | before id => exact replace_map hf id (fun _ => rfl) l
    | after id => exact replace_map hf id (fun _ => rfl) l

end Change

namespace Step

variable {m : Type → Type} {ι ω : Type}

/-- The step after a change; one that fails leaves it as it is. -/
def change (s : Step m ι ω) : Change (Middleware m ι ω) → Step m ι ω
  | .add x place =>
    match s.insert x place with
    | .ok s => s
    | .error _ => s
  | .remove id => s.remove id

theorem insertAt_eq (x : Middleware m ι ω) (anchor : String) (behind : Bool)
    (l : List (Middleware m ι ω)) : (insertAt x anchor behind l).getD l =
      Change.replace (·.id) anchor (fun y => if behind then [y, x] else [x, y]) l := by
  induction l with
  | nil => rfl
  | cons y l ih =>
    rw [Change.replace_cons, ← ih, insertAt]
    by_cases h : y.id = anchor
    · cases behind <;> simp [h]
    · cases insertAt x anchor behind l <;> simp [h]

theorem eraseP_eq (id : String) (l : List (Middleware m ι ω)) :
    l.eraseP (·.id == id) = Change.replace (·.id) id (fun _ => []) l := by
  induction l with
  | nil => rfl
  | cons y l ih =>
    rw [Change.replace_cons, ← ih]
    by_cases h : y.id = id
    · rw [List.eraseP_cons_of_pos (by simpa using h), if_pos h, List.nil_append]
    · rw [List.eraseP_cons_of_neg (by simpa using h), if_neg h]

theorem entries_change (s : Step m ι ω) (c : Change (Middleware m ι ω)) :
    (s.change c).entries = Change.apply (·.id) s.entries c := by
  cases c with
  | remove id => exact eraseP_eq id s.entries
  | add x place =>
    cases place with
    | first => rfl
    | last => rfl
    | before anchor =>
      refine Eq.trans ?_ (insertAt_eq x anchor false s.entries)
      simp only [change, insert]
      cases insertAt x anchor false s.entries <;> rfl
    | after anchor =>
      refine Eq.trans ?_ (insertAt_eq x anchor true s.entries)
      simp only [change, insert]
      cases insertAt x anchor true s.entries <;> rfl

def changes (s : Step m ι ω) (cs : List (Change (Middleware m ι ω))) : Step m ι ω :=
  cs.foldl change s

/-- A step is put together in the same way as a list of what its middleware are made from. -/
theorem entries_changes {α : Type} {idOf : α → String} {f : α → Middleware m ι ω}
    (hf : ∀ x, (f x).id = idOf x) (cs : List (Change α)) {s : Step m ι ω} {l : List α}
    (h : s.entries = l.map f) :
    (s.changes (cs.map (Change.map f))).entries = (cs.foldl (Change.apply idOf) l).map f := by
  induction cs generalizing s l with
  | nil => exact h
  | cons c cs ih =>
    have hchange : (s.change (c.map f)).entries = (Change.apply idOf l c).map f := by
      rw [entries_change, h, Change.apply_map hf]
    exact ih hchange

end Step

end ServiceClient.Pipeline
