import ServiceClient.Text.Hidden

/-!
Text between double quotes, with backslashes before what could be misread and hidden characters by
their number.
-/

namespace ServiceClient.Text

def hexNumber (n : Nat) : List Char := Nat.toDigits 16 n

def quotedChar (c : Char) : List Char :=
  if c = '"' then ['\\', '"']
  else if c = '\\' then ['\\', '\\']
  else if c = '\n' then ['\\', 'n']
  else if c = '\r' then ['\\', 'r']
  else if c = '\t' then ['\\', 't']
  else if c = '\x00' then ['\\', '0']
  else if isHidden c then
    ['\\', 'u', '\x7b'] ++ hexNumber c.toNat ++ ['\x7d']
  else [c]

def quoted (s : String) : String :=
  "\"" ++ String.ofList (s.toList.flatMap quotedChar) ++ "\""

end ServiceClient.Text
