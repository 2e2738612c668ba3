import ServiceClient.Text.Quoted

/-!
A step is a list of middleware around a terminal. Each middleware gets the input and what is left of
the step, which it may run, leave out or run again; the first one in the list is the outermost.
-/

namespace ServiceClient.Pipeline

/-- The rest of a step: how many middleware are left, and how to run them with the terminal. -/
structure Next (m : Type → Type) (ι ω : Type) where
  remaining : Nat
  run : ι → m ω

structure Middleware (m : Type → Type) (ι ω : Type) where
  id : String
  handle : ι → Next m ι ω → m ω

inductive Place where
  | first
  | last
  | before (anchor : String)
  | after (anchor : String)
  deriving DecidableEq, Repr

structure StepError where
  step : String
  id : String
  deriving DecidableEq, Repr

def StepError.message (e : StepError) : String :=
  s!"middleware '{e.id}' not found in step '{e.step}'"

structure Step (m : Type → Type) (ι ω : Type) where
  id : String
  entries : List (Middleware m ι ω)

namespace Step

variable {m : Type → Type} {ι ω : Type}

def empty (id : String) : Step m ι ω := ⟨id, []⟩

def ids (s : Step m ι ω) : List String := s.entries.map (·.id)

def size (s : Step m ι ω) : Nat := s.entries.length

def contains (s : Step m ι ω) (id : String) : Bool := s.ids.contains id

def insertAt (x : Middleware m ι ω) (anchor : String) (behind : Bool) :
    List (Middleware m ι ω) → Option (List (Middleware m ι ω))
  | [] => none
  | y :: ys =>
    if y.id = anchor then some (if behind then y :: x :: ys else x :: y :: ys)
    else (insertAt x anchor behind ys).map (y :: ·)

def insert (s : Step m ι ω) (x : Middleware m ι ω) : Place → Except StepError (Step m ι ω)
  | .first => .ok { s with entries := x :: s.entries }
  | .last => .ok { s with entries := s.entries ++ [x] }
  | .before anchor =>
    match insertAt x anchor false s.entries with
    | some entries => .ok { s with entries := entries }
    | none => .error ⟨s.id, anchor⟩
  | .after anchor =>
    match insertAt x anchor true s.entries with
    | some entries => .ok { s with entries := entries }
    | none => .error ⟨s.id, anchor⟩

def remove (s : Step m ι ω) (id : String) : Step m ι ω :=
  { s with entries := s.entries.eraseP (·.id == id) }

def chain (terminal : ι → m ω) : List (Middleware m ι ω) → Next m ι ω
  | [] => ⟨0, terminal⟩
  | x :: xs => ⟨xs.length + 1, fun input => x.handle input (chain terminal xs)⟩

def run (s : Step m ι ω) (terminal : ι → m ω) (input : ι) : m ω :=
  (chain terminal s.entries).run input

def summary (s : Step m ι ω) : String :=
  "Step \x7b id: " ++ Text.quoted s.id ++ ", middleware: [" ++
    ", ".intercalate (s.ids.map Text.quoted) ++ "] \x7d"

end Step

end ServiceClient.Pipeline
