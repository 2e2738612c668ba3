import ServiceClient.Json.Basic

/-!
Reading JSON from octets. A decoder takes the front of a text and fails at the first octet that
fits neither the grammar nor the wanted shape, so of two faults the earlier one wins. A number with
more digits than 64 bits hold drops the rest, and its power of ten comes in by one rounded
operation.
-/

namespace ServiceClient.Json

open Text (Octets)

abbrev Decoder (α : Type) := StateT Octets (Except JsonFault) α

namespace Decoder

def malformed {α : Type} : Decoder α := fun _ => .error .syntaxError

def misshapen {α : Type} : Decoder α := fun _ => .error .data

def isSpace (b : UInt8) : Bool :=
  b == 0x20 || b == 0x09 || b == 0x0A || b == 0x0D

def isDigit (b : UInt8) : Bool :=
  0x30 ≤ b && b ≤ 0x39

def peek : Decoder (Option UInt8) := fun s =>
  let s := s.dropWhile isSpace
  .ok (s.head?, s)

def skipOctet : Decoder Unit := fun s => .ok ((), s.drop 1)

def expect (c : Char) : Decoder Unit := fun s =>
  match s.dropWhile isSpace with
  | b :: rest => if b = c.toUInt8 then .ok ((), rest) else .error .syntaxError
  | [] => .error .syntaxError

def word (w : String) : Decoder Unit := fun s =>
  let w := Text.encode w
  if w.isPrefixOf s then .ok ((), s.drop w.length) else .error .syntaxError

def digits : Decoder (List Nat) := fun s =>
  .ok ((s.takeWhile isDigit).map (fun b => b.toNat - 0x30), s.dropWhile isDigit)

def wordMax : Nat := Nat.pow 2 64 - 1

/-- As many leading digits as fit in 64 bits, and how many are left over. -/
def significand : Nat → List Nat → Nat × Nat
  | value, [] => (value, 0)
  | value, d :: ds =>
    if value * 10 + d ≤ wordMax then significand (value * 10 + d) ds else (value, ds.length + 1)

open Number (Binary nearestDouble pow10)

def finiteDouble (x : Rat) : Option Rat :=
  match Binary.round .double false x with
  | .finite _ m e => some (m * Number.pow2 e)
  | _ => none

/-- `x · 10 ^ exponent` by way of rounded powers up to `1e308`. -/
def scaleDouble : (fuel : Nat) → Rat → (exponent : Int) → Option Rat
  | 0, _, _ => some 0
  | fuel + 1, x, exponent =>
    if x = 0 then some 0
    else if exponent < -308 then do
      let y ← finiteDouble (x / nearestDouble (pow10 308))
      scaleDouble fuel y (exponent + 308)
    else if exponent < 0 then finiteDouble (x / nearestDouble (pow10 (-exponent)))
    else if exponent ≤ 308 then finiteDouble (x * nearestDouble (pow10 exponent))
    else none

def doubleOf (negative : Bool) (value : Nat) (exponent : Int) : Decoder JsonNumber :=
  match scaleDouble 10 (nearestDouble value) exponent with
  | some x => pure (.real (Binary.round .double negative x))
  | none => malformed

def exponentPart : Decoder (Option Int) := do
  match (← get).head? with
  | some b =>
    if b = 'e'.toUInt8 ∨ b = 'E'.toUInt8 then
      skipOctet
      let negative ← match (← get).head? with
        | some b =>
          if b = '+'.toUInt8 then do skipOctet; pure false
          else if b = '-'.toUInt8 then do skipOctet; pure true
          else pure false
        | none => pure false
      let ds ← digits
      if ds.isEmpty then malformed
      else
        let n : Nat := ds.foldl (fun n d => min 1000000000 (n * 10 + d)) 0
        pure (some (if negative then -(n : Int) else n))
    else pure none
  | none => pure none

/-- Digits after a point that still fit the significand, with those left out counted as none. -/
def fractionDigits : Nat → Nat → List Nat → Nat × Nat
  | value, count, [] => (value, count)
  | value, count, d :: ds =>
    if value * 10 + d ≤ wordMax then fractionDigits (value * 10 + d) (count + 1) ds
    else (value, count)

def number : Decoder JsonNumber := do
  let negative := (← get).head? == some '-'.toUInt8
  if negative then skipOctet
  let whole ← digits
  match whole with
  | [] => malformed
  | first :: more =>
    if first = 0 ∧ !more.isEmpty then malformed
    else
      let (value, dropped) := significand 0 whole
      if (← get).head? == some '.'.toUInt8 then
        skipOctet
        let places ← digits
        if places.isEmpty then malformed
        else
          let (value, count) := fractionDigits value 0 places
          let exponent ← exponentPart
          doubleOf negative value ((dropped : Int) - count + exponent.getD 0)
      else
        match ← exponentPart with
        | some exponent => doubleOf negative value (dropped + exponent)
        | none =>
          if dropped ≠ 0 then doubleOf negative value dropped
          else if !negative then pure (.integer value)
          else if value = 0 ∨ Nat.pow 2 63 < value then doubleOf true value 0
          else pure (.integer (-(value : Int)))

def hexQuad : Octets → Option (Nat × Octets)
  | a :: b :: c :: d :: rest => do
    let a ← Text.Hex.digitValue? (Char.ofNat a.toNat)
    let b ← Text.Hex.digitValue? (Char.ofNat b.toNat)
    let c ← Text.Hex.digitValue? (Char.ofNat c.toNat)
    let d ← Text.Hex.digitValue? (Char.ofNat d.toNat)
    pure (((a * 16 + b) * 16 + c) * 16 + d, rest)
  | _ => none

/-- The character of a `u` escape after its letter; halves of a pair must meet. -/
def unicodeEscape (s : Octets) : Option (Char × Octets) := do
  let (high, rest) ← hexQuad s
  if 0xDC00 ≤ high ∧ high ≤ 0xDFFF then none
  else if 0xD800 ≤ high ∧ high ≤ 0xDBFF then
    match rest with
    | b :: u :: rest =>
      if b = '\\'.toUInt8 ∧ u = 'u'.toUInt8 then do
        let (low, rest) ← hexQuad rest
        if 0xDC00 ≤ low ∧ low ≤ 0xDFFF then
          some (Char.ofNat (0x10000 + (high - 0xD800) * 0x400 + (low - 0xDC00)), rest)
        else none
      else none
    | _ => none
  else some (Char.ofNat high, rest)

def simpleEscape? (b : UInt8) : Option Char :=
  if b = '"'.toUInt8 then some '"'
  else if b = '\\'.toUInt8 then some '\\'
  else if b = '/'.toUInt8 then some '/'
  else if b = 'b'.toUInt8 then some '\x08'
  else if b = 'f'.toUInt8 then some '\x0c'
  else if b = 'n'.toUInt8 then some '\n'
  else if b = 'r'.toUInt8 then some '\r'
  else if b = 't'.toUInt8 then some '\t'
  else none

def stringOctets : (fuel : Nat) → Octets → Option (Octets × Octets)
  | 0, _ => none
  | _ + 1, [] => none
  | fuel + 1, b :: rest =>
    if b = '"'.toUInt8 then some ([], rest)
    else if b = '\\'.toUInt8 then
      match rest with
      | [] => none
      | e :: rest =>
        match if e = 'u'.toUInt8 then unicodeEscape rest else (simpleEscape? e).map (·, rest) with
        | none => none
        | some (c, rest) =>
          (stringOctets fuel rest).map fun (x, y) => (String.utf8EncodeChar c ++ x, y)
    else if b < 0x20 then none
    else (stringOctets fuel rest).map fun (x, y) => (b :: x, y)

def stringBody : Decoder String := fun s =>
  match stringOctets (s.length + 1) s with
  | none => .error .syntaxError
  | some (raw, rest) =>
    match Text.decode? raw with
    | some s => .ok (s, rest)
    | none => .error .syntaxError

/-- Skips a string after its opening quote: escapes need only their form, octets may be any. -/
def skipString : (fuel : Nat) → Octets → Option Octets
  | 0, _ => none
  | _ + 1, [] => none
  | fuel + 1, b :: rest =>
    if b = '"'.toUInt8 then some rest
    else if b = '\\'.toUInt8 then
      match rest with
      | [] => none
      | e :: rest =>
        if e = 'u'.toUInt8 then (hexQuad rest).bind fun (_, rest) => skipString fuel rest
        else if (simpleEscape? e).isSome then skipString fuel rest
        else none
    else if b < 0x20 then none
    else skipString fuel rest

def skipNumber : Decoder Unit := do
  if (← get).head? == some '-'.toUInt8 then skipOctet
  match ← digits with
  | [] => malformed
  | first :: more =>
    if first = 0 ∧ !more.isEmpty then malformed
    else
      if (← get).head? == some '.'.toUInt8 then
        skipOctet
        if (← digits).isEmpty then malformed
      discard exponentPart

def continues (close : Char) : Decoder Bool := do
  match ← peek with
  | some b =>
    if b = close.toUInt8 then do skipOctet; pure false
    else if b = ','.toUInt8 then do skipOctet; pure true
    else malformed
  | none => malformed

def begins (close : Char) : Decoder Bool := do
  match ← peek with
  | some b => if b = close.toUInt8 then do skipOctet; pure false else pure true
  | none => malformed

def key : Decoder String := do
  expect '"'
  stringBody

mutual

def value : (fuel : Nat) → (depth : Nat) → Decoder Json
  | 0, _ => malformed
  | fuel + 1, depth => do
    match ← peek with
    | none => malformed
    | some b =>
      if b = 'n'.toUInt8 then do word "null"; pure .null
      else if b = 't'.toUInt8 then do word "true"; pure (.bool true)
      else if b = 'f'.toUInt8 then do word "false"; pure (.bool false)
      else if b = '"'.toUInt8 then do skipOctet; pure (.string (← stringBody))
      else if b = '['.toUInt8 then
        if depth = 0 then malformed
        else do
          skipOctet
          if ← begins ']' then pure (.array (← items fuel (depth - 1))) else pure (.array [])
      else if b = '\x7b'.toUInt8 then
        if depth = 0 then malformed
        else do
          skipOctet
          if ← begins '\x7d' then pure (.ofMembers (← members fuel (depth - 1)))
          else pure (.object [])
      else do pure (.number (← number))

def items : (fuel : Nat) → (depth : Nat) → Decoder (List Json)
  | 0, _ => malformed
  | fuel + 1, depth => do
    let v ← value fuel depth
    if ← continues ']' then pure (v :: (← items fuel depth)) else pure [v]

def members : (fuel : Nat) → (depth : Nat) → Decoder (List (String × Json))
  | 0, _ => malformed
  | fuel + 1, depth => do
    let k ← key
    expect ':'
    let v ← value fuel depth
    if ← continues '\x7d' then pure ((k, v) :: (← members fuel depth)) else pure [(k, v)]

end

mutual

def skip : (fuel : Nat) → Decoder Unit
  | 0 => malformed
  | fuel + 1 => do
    match ← peek with
    | none => malformed
    | some b =>
      if b = 'n'.toUInt8 then word "null"
      else if b = 't'.toUInt8 then word "true"
      else if b = 'f'.toUInt8 then word "false"
      else if b = '"'.toUInt8 then do
        skipOctet
        fun s => match skipString (s.length + 1) s with
          | some rest => .ok ((), rest)
          | none => .error .syntaxError
      else if b = '['.toUInt8 then do
        skipOctet
        if ← begins ']' then skipItems fuel
      else if b = '\x7b'.toUInt8 then do
        skipOctet
        if ← begins '\x7d' then skipMembers fuel
      else skipNumber

def skipItems : (fuel : Nat) → Decoder Unit
  | 0 => malformed
  | fuel + 1 => do
    skip fuel
    if ← continues ']' then skipItems fuel

def skipMembers : (fuel : Nat) → Decoder Unit
  | 0 => malformed
  | fuel + 1 => do
    expect '"'
    fun s => match skipString (s.length + 1) s with
      | some rest => .ok ((), rest)
      | none => .error .syntaxError
    expect ':'
    skip fuel
    if ← continues '\x7d' then skipMembers fuel

end

def depthLimit : Nat := 127

def anyValue : Decoder Json := fun s => value (2 * s.length + 2) depthLimit s

def ignored : Decoder Unit := fun s => skip (2 * s.length + 2) s

def run {α : Type} (p : Decoder α) (s : Octets) : Except JsonFault α :=
  match p s with
  | .error e => .error e
  | .ok (a, rest) => if rest.all isSpace then .ok a else .error .syntaxError

end Decoder

def parse (s : Octets) : Except JsonFault Json :=
  Decoder.anyValue.run s

end ServiceClient.Json
