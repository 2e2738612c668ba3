import ServiceClient.Http.Response

/-!
One exchange with a server: a reply comes after a stall, fails or brings a response, whose status
may become final only later. Times are in milliseconds; the wait for all of it may be limited by a
window. Every wait is a timer of its own.
-/

namespace ServiceClient.Call

open Http (Response)
open Time (Duration)

/-- A response that comes `later` first shows a status that is not final; then it gets the given
ones one after the other. -/
inductive Outcome where
  | failure (e : ClientError)
  | response (r : Response)
  | later (delay : Nat) (r : Response) (statuses : List Nat)
  deriving DecidableEq, Repr

structure Reply where
  stall : Nat
  outcome : Outcome
  deriving DecidableEq, Repr

structure Ending where
  time : Nat
  settled : Bool
  result : Except ClientError Response

namespace Reply

def empty (body : Http.Body) : Reply := ⟨0, .response ⟨200, .empty, body⟩⟩

def settle (r : Response) (statuses : List Nat) : Response :=
  statuses.foldl (fun r status => (r.setStatus status).1) r

/-- None if the status never becomes final. -/
def ending? (reply : Reply) : Option Ending :=
  let stall := Duration.timer reply.stall
  match reply.outcome with
  | .failure e => some ⟨stall, false, .error e⟩
  | .response r => if Response.isFinal r.status then some ⟨stall, false, .ok r⟩ else none
  | .later delay r statuses =>
    let r := settle r statuses
    if Response.isFinal r.status then some ⟨stall + Duration.timer delay, true, .ok r⟩ else none

/-- What arrives as the window closes is in time; a status that changes then is not. -/
def inTime (window : Duration) (e : Ending) : Bool :=
  if e.settled then e.time < window.timerMillis else e.time ≤ window.timerMillis

/-- How long the exchange takes and what comes of it. Without a window a status that never becomes
final would be waited for without end, which shows as a response without content. -/
def exchange (window : Option Duration) (reply : Reply) :
    Nat × Except ClientError Response :=
  match window, reply.ending? with
  | some w, some e => if inTime w e then (e.time, e.result) else (w.timerMillis, .error (.timeout w))
  | some w, none => (w.timerMillis, .error (.timeout w))
  | none, some e => (e.time, e.result)
  | none, none => (Duration.timer reply.stall, .ok .provisional)

end Reply

end ServiceClient.Call
