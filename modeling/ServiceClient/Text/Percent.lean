import ServiceClient.Text.Hex

/-!
Percent encoding of text for query strings. Letters, digits and the marks `-_.~` stay; every other
octet becomes a percent sign and two upper-case digits.
-/

namespace ServiceClient.Text.Percent

def isUnreserved (c : Char) : Bool :=
  ('0' ≤ c && c ≤ '9') || ('a' ≤ c && c ≤ 'z') || ('A' ≤ c && c ≤ 'Z') ||
    c == '-' || c == '_' || c == '.' || c == '~'

def escapeOctet (b : UInt8) : List Char :=
  ['%', Hex.upperDigit (b.toNat / 16), Hex.upperDigit (b.toNat % 16)]

def escapeChar (c : Char) : List Char :=
  if isUnreserved c then [c] else (String.utf8EncodeChar c).flatMap escapeOctet

def escape (s : String) : String :=
  String.ofList (s.toList.flatMap escapeChar)

end ServiceClient.Text.Percent
