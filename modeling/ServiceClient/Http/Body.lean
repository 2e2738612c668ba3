import ServiceClient.Error

/-!
Message bodies: none, octets, or a stream that can be read once. Copies of a stream share its
source, so the first reader empties it for all; a source is found by number among the sources. What
a body is made from is its content, from which any number of bodies can be made.
-/

namespace ServiceClient.Http

open Text (Octets)

inductive Chunk where
  | octets (s : Octets)
  | failure (reason : String)
  deriving DecidableEq, Repr

inductive Content where
  | none
  | data (s : Octets)
  | chunks (pieces : List Chunk) (length : Option Nat)
  deriving DecidableEq, Repr

inductive Body where
  | none
  | data (s : Octets)
  | stream (source : Nat) (length : Option Nat)
  deriving DecidableEq, Repr, Inhabited

/-- All sources by number; none stands for one that has been read. -/
abbrev Sources := List (Option (List Chunk))

namespace Sources

def add (s : Sources) (chunks : List Chunk) : Sources × Nat :=
  (s ++ [some chunks], s.length)

end Sources

def Content.toBody (c : Content) (sources : Sources) : Body × Sources :=
  match c with
  | .none => (.none, sources)
  | .data s => (.data s, sources)
  | .chunks pieces length =>
    let (sources, source) := sources.add pieces
    (.stream source length, sources)

namespace Body

def length? : Body → Option Nat
  | .none => some 0
  | .data s => some s.length
  | .stream _ length => length

def isEmpty (b : Body) : Bool := b.length? == some 0

def isStream : Body → Bool
  | .stream _ _ => true
  | _ => false

def octets? : Body → Option Octets
  | .data s => some s
  | _ => Option.none

def collect : List Chunk → Except ClientError Octets
  | [] => .ok []
  | .failure reason :: _ => .error (.network reason)
  | .octets s :: rest =>
    match collect rest with
    | .ok t => .ok (s ++ t)
    | .error e => .error e

/-- The whole body, none if there is none. A stream's source is used up even if it fails. -/
def read (b : Body) (sources : Sources) : Except ClientError (Option Octets) × Sources :=
  match b with
  | .none => (.ok Option.none, sources)
  | .data s => (.ok (some s), sources)
  | .stream source _ =>
    match sources[source]? with
    | some (some chunks) => ((collect chunks).map some, sources.set source Option.none)
    | _ => (.error .streamConsumed, sources)

def summary : Body → String
  | .none => "NoStream"
  | .data s => "Data(" ++ Nat.repr s.length ++ ")"
  | .stream _ length =>
    let length := match length with
      | some n => "Some(" ++ Nat.repr n ++ ")"
      | Option.none => "None"
    "Stream \x7b length: " ++ length ++ " \x7d"

end Body

end ServiceClient.Http
