import ServiceClient.Text.Blank
import ServiceClient.Time.Calendar

/-!
The small readers that date formats are made of. Each takes the front of a text and gives what it
read with the rest, or nothing.
-/

namespace ServiceClient.Time

abbrev Scan (α : Type) := StateT (List Char) Option α

namespace Scan

def fail {α : Type} : Scan α := fun _ => none

def blanks : Scan Unit := fun s => some ((), s.dropWhile Text.isBlank)

def someBlanks : Scan Unit := fun s =>
  match s with
  | [] => none
  | c :: rest => if Text.isBlank c then some ((), rest.dropWhile Text.isBlank) else none

def char (c : Char) : Scan Unit := fun s =>
  match s with
  | [] => none
  | d :: rest => if d = c then some ((), rest) else none

def oneOf (cs : List Char) : Scan Unit := fun s =>
  match s with
  | [] => none
  | d :: rest => if d ∈ cs then some ((), rest) else none

def digitsOf (s : List Char) : Nat :=
  s.foldl (fun n c => n * 10 + (c.toNat - '0'.toNat)) 0

def number (least most : Nat) : Scan Nat := fun s =>
  let digits := (s.take most).takeWhile Number.isDigit
  if digits.length < least then none else some (digitsOf digits, s.drop digits.length)

def longNumber (least : Nat) : Scan (Nat × Nat) := fun s =>
  let digits := s.takeWhile Number.isDigit
  if digits.length < least then none
  else some ((digitsOf digits, digits.length), s.drop digits.length)

/-- Decimals of a second; those after the ninth are skipped. -/
def fraction : Scan Nat := fun s =>
  let digits := s.takeWhile Number.isDigit
  if digits.isEmpty then none
  else
    let nine := digits.take 9
    some (digitsOf nine * Nat.pow 10 (9 - nine.length), s.drop digits.length)

def word (words : List String) : Scan Nat := fun s =>
  let front := String.ofList ((s.take 3).map Char.toLower)
  (words.findIdx? (fun w => Text.lowerAscii w == front)).map fun i => (i, s.drop 3)

/-- Whether a sign is negative; the minus sign proper is read where `minusSign` says so. -/
def sign (minusSign : Bool) : Scan Bool
  | '+' :: rest => some (false, rest)
  | '-' :: rest => some (true, rest)
  | '\u2212' :: rest => if minusSign then some (true, rest) else none
  | _ => none

/-- Hours and minutes east of Greenwich in seconds, with `colon` read between them. -/
def offset (minusSign : Bool) (colon : Scan Unit) : Scan Int := do
  let negative ← sign minusSign
  let hours ← number 2 2
  colon
  let minutes ← number 2 2
  if 60 ≤ minutes then fail
  else
    let seconds : Int := (hours * 3600 + minutes * 60 : Nat)
    pure (if negative then -seconds else seconds)

def complete {α : Type} (p : Scan α) (s : String) : Option α :=
  match p s.toList with
  | some (a, []) => some a
  | _ => none

end Scan

end ServiceClient.Time
