import ServiceClient.Call.Context
import ServiceClient.Call.Exchange
import ServiceClient.Call.Identifier
import ServiceClient.Http.Request
import ServiceClient.Retry.Strategy

/-!
What a call finds and leaves behind: its context, the clock, and what it shares with other calls. A
journal keeps what could be seen from outside, in order.
-/

namespace ServiceClient.Call

open Http (Request Response)
open Text (Octets)

inductive Event where
  | removed (id : String) (found : Bool)
  | entered (id : String) (attempt : Nat)
  | left (id : String) (success : Bool)
  | signed (scheme : String) (params : SigningParams) (attemptHeader : Option Octets)
  | sent (request : Request) (read : Option (Except ClientError (Option Octets)))
  | requestLogged (attempt : Nat) (method host path : String)
  | requestBodyLogged (text : String)
  | responseLogged (status : Nat)
  | responseBodyLogged (text : String)

structure Server where
  replies : List Reply
  otherwise : Reply
  readsBody : Bool
  deriving DecidableEq, Repr

/-- `fraction` is what every draw of a random part of one gives; `clock` is in milliseconds.
Identifiers that are `spelled` out somewhere are never drawn. -/
structure Session where
  context : Context
  strategy : Retry.Strategy
  fraction : Rat
  window : Option Time.Duration
  server : Server
  sources : Http.Sources
  clock : Nat
  spelled : List String
  drawn : Nat
  journal : List Event

/-- Work on a session that may fail; what was done before a failure stays done. -/
abbrev Calling (α : Type) := ExceptT CallError (StateM Session) α

namespace Calling

def context : Calling Context := do
  pure (← get).context

def modifyContext (f : Context → Context) : Calling Unit :=
  modify fun s => { s with context := f s.context }

def record (e : Event) : Calling Unit :=
  modify fun s => { s with journal := s.journal ++ [e] }

def wait (millis : Nat) : Calling Unit :=
  modify fun s => { s with clock := s.clock + millis }

def fail {α : Type} (e : ClientError) : Calling α :=
  throw (.client e)

def ofClient {α : Type} : Except ClientError α → Calling α
  | .ok a => pure a
  | .error e => fail e

def outcome {α : Type} (x : Calling α) : Calling (Except CallError α) :=
  fun s => let (r, s) := x s; (.ok r, s)

def ofOutcome {α : Type} : Except CallError α → Calling α
  | .ok a => pure a
  | .error e => throw e

def drawIdentifier : Calling String := do
  let s ← get
  let n := Identifier.firstFree s.spelled s.spelled.length s.drawn
  set { s with drawn := n + 1 }
  pure (Identifier.text n)

def makeBody (c : Http.Content) : Calling Http.Body := do
  let (body, sources) := c.toBody (← get).sources
  modify fun s => { s with sources := sources }
  pure body

def readBody (b : Http.Body) : Calling (Except ClientError (Option Octets)) := do
  let (r, sources) := b.read (← get).sources
  modify fun s => { s with sources := sources }
  pure r

def bodyOctets (b : Http.Body) : Calling Octets := do
  let r ← ofClient (← readBody b)
  pure (r.getD [])

def takeReply : Calling Reply := do
  let server := (← get).server
  match server.replies with
  | [] => pure server.otherwise
  | reply :: rest =>
    modify fun s => { s with server := { server with replies := rest } }
    pure reply

def transmit (request : Request) : Calling Response := do
  let read ← if (← get).server.readsBody then some <$> readBody request.body else pure none
  record (.sent request read)
  match read with
  | some (.error e) => fail e
  | _ =>
    let (elapsed, result) := (← takeReply).exchange (← get).window
    wait elapsed
    ofClient result

end Calling

end ServiceClient.Call
