import ServiceClient.Number.Shortest
import ServiceClient.Text.Hex
import ServiceClient.Wire.Error

/-!
JSON values and their compact text. Objects hold each key once, in increasing order; a key that is
given again takes the later value.
-/

namespace ServiceClient

/-- Whole numbers that fit in 64 bits are exact; all others are doubles. -/
inductive JsonNumber where
  | integer (n : Int)
  | real (x : Number.Binary)
  deriving DecidableEq, Repr

inductive Json where
  | null
  | bool (b : Bool)
  | number (n : JsonNumber)
  | string (s : String)
  | array (items : List Json)
  | object (members : List (String × Json))
  deriving Repr, Inhabited

def insertKey {α : Type} (key : String) (value : α) : List (String × α) → List (String × α)
  | [] => [(key, value)]
  | (k, v) :: rest =>
    if key < k then (key, value) :: (k, v) :: rest
    else if key = k then (key, value) :: rest
    else (k, v) :: insertKey key value rest

def sortedByKey {α : Type} (entries : List (String × α)) : List (String × α) :=
  entries.foldl (fun members (key, value) => insertKey key value members) []

namespace Json

def ofMembers (members : List (String × Json)) : Json :=
  .object (sortedByKey members)

def ofNat (n : Nat) : Json := .number (.integer n)

def ofInt (n : Int) : Json := .number (.integer n)

def ofOption {α : Type} (f : α → Json) : Option α → Json
  | some a => f a
  | none => .null

def member (key : String) : Json → Json
  | .object members => (members.lookup key).getD .null
  | _ => .null

def has (key : String) : Json → Bool
  | .object members => (members.lookup key).isSome
  | _ => false

def string? : Json → Option String
  | .string s => some s
  | _ => none

def nat? : Json → Option Nat
  | .number (.integer n) => if 0 ≤ n then some n.toNat else none
  | _ => none

def int? : Json → Option Int
  | .number (.integer n) => some n
  | _ => none

def items : Json → List Json
  | .array items => items
  | _ => []

def escapeChar (c : Char) : List Char :=
  if c = '"' then ['\\', '"']
  else if c = '\\' then ['\\', '\\']
  else if c = '\x08' then ['\\', 'b']
  else if c = '\x0c' then ['\\', 'f']
  else if c = '\n' then ['\\', 'n']
  else if c = '\r' then ['\\', 'r']
  else if c = '\t' then ['\\', 't']
  else if c.toNat < 0x20 then
    ['\\', 'u', '0', '0', Text.Hex.lowerDigit (c.toNat / 16), Text.Hex.lowerDigit (c.toNat % 16)]
  else [c]

def quoted (s : String) : String :=
  "\"" ++ String.ofList (s.toList.flatMap escapeChar) ++ "\""

/-- Positional from `1e-5` to below `1e16`, else one digit, the others after a point, and an
exponent that always bears its sign. -/
def realText (x : Number.Binary) : String :=
  match x with
  | .finite negative m e =>
    let sign := if negative then "-" else ""
    if m = 0 then sign ++ "0.0"
    else
      let d := Number.shortest .double .toEven m e
      let digits := Nat.repr d.digits
      let point : Int := digits.length + d.exponent
      if 0 ≤ d.exponent ∧ point ≤ 16 then sign ++ d.positional ++ ".0"
      else if -5 < point ∧ point ≤ 16 then sign ++ d.positional
      else
        let rest := String.ofList (digits.toList.drop 1)
        sign ++ String.ofList (digits.toList.take 1) ++ (if rest.isEmpty then "" else "." ++ rest) ++
          (if 0 < point then "e+" else "e") ++ toString (point - 1)
  | _ => "null"

mutual

def text : Json → String
  | .null => "null"
  | .bool b => if b then "true" else "false"
  | .number (.integer n) => toString n
  | .number (.real x) => realText x
  | .string s => quoted s
  | .array items => "[" ++ itemsText items ++ "]"
  | .object members => "\x7b" ++ membersText members ++ "\x7d"

def itemsText : List Json → String
  | [] => ""
  | [v] => v.text
  | v :: vs => v.text ++ "," ++ itemsText vs

def membersText : List (String × Json) → String
  | [] => ""
  | [(k, v)] => quoted k ++ ":" ++ v.text
  | (k, v) :: rest => quoted k ++ ":" ++ v.text ++ "," ++ membersText rest

end

end Json

end ServiceClient
