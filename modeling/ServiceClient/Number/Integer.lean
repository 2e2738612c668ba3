import ServiceClient.Text.Hex

/-!
Whole numbers in decimal or hexadecimal digits. Reading goes from left to right and stops at the
first character that is no digit or whose digit takes the value past the limit.
-/

namespace ServiceClient.Number

inductive IntegerFault where
  | empty
  | invalidDigit
  | tooLarge
  | tooSmall
  deriving DecidableEq, Repr

def IntegerFault.message : IntegerFault → String
  | .empty => "cannot parse integer from empty string"
  | .invalidDigit => "invalid digit found in string"
  | .tooLarge => "number too large to fit in target type"
  | .tooSmall => "number too small to fit in target type"

def digitValue? (base : Nat) (c : Char) : Option Nat :=
  (Text.Hex.digitValue? c).filter (· < base)

def isDigit (c : Char) : Bool :=
  '0' ≤ c && c ≤ '9'

def readDigits (base limit : Nat) : Nat → List Char → Except IntegerFault Nat
  | value, [] => .ok value
  | value, c :: rest =>
    match digitValue? base c with
    | none => .error .invalidDigit
    | some d =>
      if value * base + d ≤ limit then readDigits base limit (value * base + d) rest
      else .error .tooLarge

/-- A number without sign up to `limit`; one leading `+` is allowed. -/
def readNatural (base limit : Nat) (s : List Char) : Except IntegerFault Nat :=
  match s with
  | [] => .error .empty
  | '+' :: c :: rest => readDigits base limit 0 (c :: rest)
  | s => readDigits base limit 0 s

def readInteger (limit : Nat) (s : List Char) : Except IntegerFault Int :=
  match s with
  | [] => .error .empty
  | '-' :: c :: rest =>
    match readDigits 10 (limit + 1) 0 (c :: rest) with
    | .ok n => .ok (-n)
    | .error .tooLarge => .error .tooSmall
    | .error e => .error e
  | s => (readNatural 10 limit s).map Int.ofNat

def natural? (limit : Nat) (s : String) : Option Nat :=
  (readNatural 10 limit s.toList).toOption

def integer? (limit : Nat) (s : String) : Option Int :=
  (readInteger limit s.toList).toOption

def paddedDigits : (width : Nat) → Nat → List Char
  | 0, _ => []
  | width + 1, n => paddedDigits width (n / 10) ++ [Text.Hex.lowerDigit (n % 10)]

def padded (width n : Nat) : String :=
  if Nat.pow 10 width ≤ n then Nat.repr n else String.ofList (paddedDigits width n)

end ServiceClient.Number
