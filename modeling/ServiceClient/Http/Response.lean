import ServiceClient.Http.Body

/-!
Responses. The status may be provisional at first; it can change until it is final, which is when
it is 200 or more, and waiters see the first final one.
-/

namespace ServiceClient.Http

structure Response where
  status : Nat
  headers : Headers
  body : Body
  deriving DecidableEq, Repr

/-- One who waits for the final status has it once it was there when they looked. -/
inductive Waiter where
  | pending
  | done (status : Nat)
  deriving DecidableEq, Repr

namespace Response

def isFinal (status : Nat) : Bool := 200 ≤ status

def provisional : Response := ⟨102, .empty, .none⟩

/-- Whether the status was taken; a final one stays. -/
def setStatus (r : Response) (status : Nat) : Response × Bool :=
  if isFinal r.status then (r, false) else ({ r with status := status }, true)

def addHeaders (r : Response) (more : Headers) : Response :=
  { r with headers := r.headers.addAll more }

def parts (r : Response) : ResponseParts := ⟨r.status, r.headers⟩

def poll (r : Response) : Waiter → Waiter
  | .done status => .done status
  | .pending => if isFinal r.status then .done r.status else .pending

end Response

end ServiceClient.Http
