import ServiceClient.Text.Hex

/-!
Random identifiers in the usual form of five groups of hexadecimal digits, where the third one
begins with the version 4 and the fourth one with the variant. A session numbers those that it has
drawn and leaves out those that are known already, so that a new one differs from all others.
-/

namespace ServiceClient.Call.Identifier

def hexDigits : (width : Nat) → Nat → List Char
  | 0, _ => []
  | width + 1, n => hexDigits width (n / 16) ++ [Text.Hex.lowerDigit (n % 16)]

def text (n : Nat) : String :=
  "00000000-0000-4000-8000-" ++ String.ofList (hexDigits 12 n)

def firstFree (used : List String) : (tries : Nat) → (n : Nat) → Nat
  | 0, n => n
  | tries + 1, n => if used.contains (text n) then firstFree used tries (n + 1) else n

def isLowerHex (c : Char) : Bool :=
  ('0' ≤ c && c ≤ '9') || ('a' ≤ c && c ≤ 'f')

def isIdentifier (s : String) : Bool :=
  let groups := s.splitOn "-"
  groups.map String.length == [8, 4, 4, 4, 12] && groups.all (·.toList.all isLowerHex) &&
    (groups[2]?.bind (·.toList.head?)) == some '4' &&
    (groups[3]?.bind (·.toList.head?)).any fun c => c ∈ ['8', '9', 'a', 'b']

end ServiceClient.Call.Identifier
