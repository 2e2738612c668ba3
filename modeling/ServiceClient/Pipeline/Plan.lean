import ServiceClient.Call.Session
import ServiceClient.Pipeline.Step

/-!
Changes that put a step together.
-/

namespace ServiceClient.Pipeline

open Call (Calling Event)

inductive Entry (ι ω : Type) where
  | add (x : Middleware Calling ι ω) (place : Place)
  | remove (id : String)

/-- Makes the changes in order; a removal is recorded whether it found something or not. -/
def Step.assemble {ι ω : Type} (s : Step Calling ι ω) :
    List (Entry ι ω) → Except StepError (Step Calling ι ω × List Event)
  | [] => .ok (s, [])
  | .add x place :: rest => do
    let s ← s.insert x place
    s.assemble rest
  | .remove id :: rest => do
    let (t, events) ← (s.remove id).assemble rest
    pure (t, .removed id (s.contains id) :: events)

end ServiceClient.Pipeline
