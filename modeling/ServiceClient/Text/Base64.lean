import ServiceClient.Text.Utf8

/-!
Base 64 with the alphabet that ends in `+/`. Padding is required, blanks are refused, and the bits
that no octet uses must be zero, so each octet string has one spelling.
-/

namespace ServiceClient.Text.Base64

def digit (n : Nat) : Char :=
  if n < 26 then Char.ofNat ('A'.toNat + n)
  else if n < 52 then Char.ofNat ('a'.toNat + (n - 26))
  else if n < 62 then Char.ofNat ('0'.toNat + (n - 52))
  else if n = 62 then '+' else '/'

def digitValue? (c : Char) : Option Nat :=
  if 'A' ≤ c ∧ c ≤ 'Z' then some (c.toNat - 'A'.toNat)
  else if 'a' ≤ c ∧ c ≤ 'z' then some (c.toNat - 'a'.toNat + 26)
  else if '0' ≤ c ∧ c ≤ '9' then some (c.toNat - '0'.toNat + 52)
  else if c = '+' then some 62
  else if c = '/' then some 63
  else none

def encodeChars : Octets → List Char
  | [] => []
  | [a] => [digit (a.toNat / 4), digit (a.toNat % 4 * 16), '=', '=']
  | [a, b] =>
    [digit (a.toNat / 4), digit (a.toNat % 4 * 16 + b.toNat / 16), digit (b.toNat % 16 * 4), '=']
  | a :: b :: c :: rest =>
    digit (a.toNat / 4) :: digit (a.toNat % 4 * 16 + b.toNat / 16) ::
      digit (b.toNat % 16 * 4 + c.toNat / 64) :: digit (c.toNat % 64) :: encodeChars rest

def encode (s : Octets) : String :=
  String.ofList (encodeChars s)

def quantum (a b c d : Char) (last : Bool) : Option Octets := do
  let a ← digitValue? a
  let b ← digitValue? b
  let first := UInt8.ofNat (a * 4 + b / 16)
  if c = '=' then
    if d = '=' ∧ last ∧ b % 16 = 0 then pure [first] else none
  else
    let c ← digitValue? c
    let second := UInt8.ofNat (b % 16 * 16 + c / 4)
    if d = '=' then
      if last ∧ c % 4 = 0 then pure [first, second] else none
    else
      let d ← digitValue? d
      pure [first, second, UInt8.ofNat (c % 4 * 64 + d)]

def decodeChars : List Char → Option Octets
  | [] => some []
  | a :: b :: c :: d :: rest => do
    let octets ← quantum a b c d rest.isEmpty
    let more ← decodeChars rest
    pure (octets ++ more)
  | _ => none

def decode? (s : String) : Option Octets :=
  decodeChars s.toList

end ServiceClient.Text.Base64
