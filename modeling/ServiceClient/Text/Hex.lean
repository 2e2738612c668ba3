import ServiceClient.Text.Utf8

/-!
Hexadecimal digits: two for each octet, upper or lower case when read.
-/

namespace ServiceClient.Text.Hex

def digitValue? (c : Char) : Option Nat :=
  if '0' ≤ c ∧ c ≤ '9' then some (c.toNat - '0'.toNat)
  else if 'a' ≤ c ∧ c ≤ 'f' then some (c.toNat - 'a'.toNat + 10)
  else if 'A' ≤ c ∧ c ≤ 'F' then some (c.toNat - 'A'.toNat + 10)
  else none

def lowerDigit (n : Nat) : Char :=
  if n < 10 then Char.ofNat ('0'.toNat + n) else Char.ofNat ('a'.toNat + n - 10)

def upperDigit (n : Nat) : Char :=
  if n < 10 then Char.ofNat ('0'.toNat + n) else Char.ofNat ('A'.toNat + n - 10)

def encode (s : Octets) : String :=
  String.ofList (s.flatMap fun b => [lowerDigit (b.toNat / 16), lowerDigit (b.toNat % 16)])

def decodeChars : List Char → Option Octets
  | [] => some []
  | [_] => none
  | a :: b :: rest => do
    let high ← digitValue? a
    let low ← digitValue? b
    let octets ← decodeChars rest
    pure (UInt8.ofNat (high * 16 + low) :: octets)

def decode? (s : String) : Option Octets :=
  decodeChars s.toList

end ServiceClient.Text.Hex
