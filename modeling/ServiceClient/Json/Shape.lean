import ServiceClient.Json.Decoder
import ServiceClient.Time.Duration

/-!
Shapes of JSON values. A text is read against a shape in one pass: what does not fit the shape is a
fault of the data where it is met, ahead of any fault of the syntax after it. Records are objects,
or arrays of the members in order.
-/

namespace ServiceClient.Json

/-- `strict` records refuse members that they do not know, others skip them; members of `partialOk`
records may be missing from an array's end. A member that is not `required` may be missing from an
object. -/
inductive Shape where
  | string
  | natural (limit : Nat)
  | choice (names : List String)
  | nullable (shape : Shape)
  | list (shape : Shape)
  | record (strict partialOk : Bool) (members : List (String × Bool × Shape))
  | duration
  deriving Repr

namespace Decoder

/-- A value that is not of the wanted kind: its own syntax counts first. -/
def misfit {α : Type} : Decoder α := do
  match ← peek with
  | none => malformed
  | some b =>
    if b = 'n'.toUInt8 then word "null"; misshapen
    else if b = 't'.toUInt8 then word "true"; misshapen
    else if b = 'f'.toUInt8 then word "false"; misshapen
    else if b = '"'.toUInt8 then skipOctet; discard stringBody; misshapen
    else if b = '['.toUInt8 ∨ b = '\x7b'.toUInt8 then misshapen
    else discard number; misshapen

def string : Decoder String := do
  match ← peek with
  | none => malformed
  | some b => if b = '"'.toUInt8 then do skipOctet; stringBody else misfit

def natural (limit : Nat) : Decoder Nat := do
  match ← peek with
  | none => malformed
  | some b =>
    if b = '-'.toUInt8 ∨ isDigit b then
      match ← number with
      | .integer n => if 0 ≤ n ∧ n ≤ limit then pure n.toNat else misshapen
      | .real _ => misshapen
    else misfit

def isNull : Decoder Bool := do
  match ← peek with
  | some b => if b = 'n'.toUInt8 then do word "null"; pure true else pure false
  | none => pure false

/-- A name, alone or as the only member of an object with the value null. -/
def choice (names : List String) : Decoder String := do
  match ← peek with
  | none => malformed
  | some b =>
    if b = '"'.toUInt8 then
      let name ← string
      if name ∈ names then pure name else misshapen
    else if b = '\x7b'.toUInt8 then
      skipOctet
      let name ← string
      if name ∈ names then
        expect ':'
        if ← isNull then
          expect '\x7d'
          pure name
        else misfit
      else misshapen
    else malformed

def closeArray : Decoder Unit := expect ']'

def nextItem (later : Bool) : Decoder Bool := do
  match ← peek with
  | none => malformed
  | some b =>
    if b = ']'.toUInt8 then pure false
    else if !later then pure true
    else if b = ','.toUInt8 then
      skipOctet
      match ← peek with
      | some b => if b = ']'.toUInt8 then malformed else pure true
      | none => malformed
    else malformed

def nextKey (later : Bool) : Decoder (Option String) := do
  match ← peek with
  | none => malformed
  | some b =>
    if b = '\x7d'.toUInt8 then pure none
    else
      if later then expect ','
      some <$> key

def list (item : Decoder Json) : (fuel : Nat) → (later : Bool) → Decoder (List Json)
  | 0, _ => malformed
  | fuel + 1, later => do
    if ← nextItem later then
      let v ← item
      pure (v :: (← list item fuel true))
    else pure []

def knownMembers (strict : Bool) (known : List (String × Decoder Json)) :
    (fuel : Nat) → (later : Bool) → List (String × Json) → Decoder (List (String × Json))
  | 0, _, _ => malformed
  | fuel + 1, later, found => do
    match ← nextKey later with
    | none => pure found
    | some k =>
      match known.lookup k with
      | some p =>
        if (found.lookup k).isSome then misshapen
        else
          expect ':'
          let v ← p
          knownMembers strict known fuel true ((k, v) :: found)
      | none =>
        if strict then misshapen
        else
          expect ':'
          ignored
          knownMembers strict known fuel true found

def positional (partialOk : Bool) : (later : Bool) → List (String × Decoder Json) →
    Decoder (List (String × Json))
  | _, [] => pure []
  | later, (k, p) :: rest => do
    if ← nextItem later then
      let v ← p
      pure ((k, v) :: (← positional partialOk true rest))
    else if partialOk then pure []
    else misshapen

/-- The members together must be `sound`, which counts before what closes the record. -/
def record (strict partialOk : Bool) (required : List String)
    (known : List (String × Decoder Json)) (sound : Json → Bool) : Decoder Json := do
  match ← peek with
  | none => malformed
  | some b =>
    if b = '['.toUInt8 then
      skipOctet
      let j := Json.ofMembers (← positional partialOk false known)
      if sound j then
        closeArray
        pure j
      else misshapen
    else if b = '\x7b'.toUInt8 then
      skipOctet
      let found ← knownMembers strict known ((← get).length + 1) false []
      let j := Json.ofMembers found
      if (required.all fun k => (found.lookup k).isSome) ∧ sound j then
        expect '\x7d'
        pure j
      else misshapen
    else misfit

def durationMembers : List (String × Decoder Json) :=
  [("secs", do pure (.ofNat (← natural wordMax))),
    ("nanos", do pure (.ofNat (← natural (Nat.pow 2 32 - 1))))]

end Decoder

/-- A duration is written as its seconds and nanoseconds; more than a second of the latter carries
over. -/
def durationOf (j : Json) : Time.Duration :=
  .ofParts ((j.member "secs").nat?.getD 0) ((j.member "nanos").nat?.getD 0)

def ofDuration (d : Time.Duration) : Json :=
  .ofMembers [("secs", .ofNat d.seconds), ("nanos", .ofNat d.subsecond)]

mutual

def Shape.decode : Shape → Decoder Json
  | .string => do pure (.string (← Decoder.string))
  | .natural limit => do pure (.ofNat (← Decoder.natural limit))
  | .choice names => do pure (.string (← Decoder.choice names))
  | .nullable shape => do if ← Decoder.isNull then pure .null else shape.decode
  | .list shape => do
    match ← Decoder.peek with
    | none => Decoder.malformed
    | some b =>
      if b = '['.toUInt8 then
        Decoder.skipOctet
        let items ← Decoder.list shape.decode ((← get).length + 1) false
        Decoder.closeArray
        pure (.array items)
      else Decoder.misfit
  | .record strict partialOk members =>
    Decoder.record strict partialOk
      (members.filterMap fun (k, required, _) => if required then some k else none)
      (decodeMembers members) (fun _ => true)
  | .duration => do
    let j ← Decoder.record true false ["secs", "nanos"] Decoder.durationMembers
      fun j => durationOf j ≤ Time.Duration.max
    pure (ofDuration (durationOf j))

def decodeMembers : List (String × Bool × Shape) → List (String × Decoder Json)
  | [] => []
  | (k, _, shape) :: rest => (k, shape.decode) :: decodeMembers rest

end

def Shape.parse (shape : Shape) (s : Text.Octets) : Except JsonFault Json :=
  shape.decode.run s

end ServiceClient.Json
