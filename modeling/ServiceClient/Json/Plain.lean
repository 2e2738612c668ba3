import ServiceClient.Json.Basic
import ServiceClient.Time.Calendar
import ServiceClient.Time.Duration

/-!
Plain values in JSON. Octets that are text stand as a string, others in hexadecimal; times are pairs
of whole seconds and nanoseconds.
-/

namespace ServiceClient.Json

open Text (Octets)

def octets? : Json → Option Octets
  | .string s => some (Text.encode s)
  | j => (j.member "hex").string?.bind Text.Hex.decode?

def ofOctets (s : Octets) : Json :=
  match Text.decode? s with
  | some t => .string t
  | none => .ofMembers [("hex", .string (Text.Hex.encode s))]

def durationPair? : Json → Option Time.Duration
  | .array [seconds, nanos] => do
    let seconds ← seconds.nat?
    let nanos ← nanos.nat?
    pure (.ofParts seconds nanos)
  | _ => none

def ofDurationPair (d : Time.Duration) : Json :=
  .array [.ofNat d.seconds, .ofNat d.subsecond]

def instantPair? : Json → Option Time.Instant
  | .array [seconds, nanos] => do
    let seconds ← seconds.int?
    let nanos ← nanos.nat?
    pure ⟨seconds, nanos⟩
  | _ => none

def ofInstantPair (t : Time.Instant) : Json :=
  .array [.ofInt t.seconds, .ofNat t.nanos]

def isTrue : Json → Bool
  | .bool b => b
  | _ => false

mutual

def height : Json → Nat
  | .array items => heightOfItems items + 1
  | .object members => heightOfMembers members + 1
  | _ => 0

def heightOfItems : List Json → Nat
  | [] => 0
  | v :: vs => max v.height (heightOfItems vs)

def heightOfMembers : List (String × Json) → Nat
  | [] => 0
  | (_, v) :: rest => max v.height (heightOfMembers rest)

end

end ServiceClient.Json
