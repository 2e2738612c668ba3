import ServiceClient.Number.Binary
import ServiceClient.Number.Integer

/-!
Lengths of time in whole nanoseconds, at most `Duration.max`: the seconds fit in 64 bits. Products
either say that they pass the limit or stop at it; a product with a real factor goes through
doubles and ends at the nearest nanosecond.
-/

namespace ServiceClient.Time

structure Duration where
  nanos : Nat
  deriving DecidableEq, Repr, Inhabited

namespace Duration

def secondNanos : Nat := 1000000000

def zero : Duration := ⟨0⟩

def max : Duration := ⟨Nat.pow 2 64 * secondNanos - 1⟩

def ofSeconds (n : Nat) : Duration := ⟨n * secondNanos⟩

def ofMillis (n : Nat) : Duration := ⟨n * 1000000⟩

def ofParts (seconds nanos : Nat) : Duration := ⟨seconds * secondNanos + nanos⟩

def seconds (d : Duration) : Nat := d.nanos / secondNanos

def subsecond (d : Duration) : Nat := d.nanos % secondNanos

def ceilMillis (d : Duration) : Nat := (d.nanos + 999999) / 1000000

/-- The longest that a timer runs, in milliseconds: thirty years of 365 days. -/
def timerLimit : Nat := 30 * 365 * 86400 * 1000

def timer (millis : Nat) : Nat := if millis ≤ timerLimit then millis else timerLimit

def timerMillis (d : Duration) : Nat := timer d.ceilMillis

instance : LE Duration := ⟨fun a b => a.nanos ≤ b.nanos⟩

instance (a b : Duration) : Decidable (a ≤ b) := inferInstanceAs (Decidable (a.nanos ≤ b.nanos))

def min (a b : Duration) : Duration := if a ≤ b then a else b

def checkedMul (d : Duration) (n : Nat) : Option Duration :=
  if d.nanos * n ≤ max.nanos then some ⟨d.nanos * n⟩ else none

def saturatingMul (d : Duration) (n : Nat) : Duration :=
  (d.checkedMul n).getD max

/-- The seconds as a double: whole seconds and the fraction are rounded, then their sum. -/
def inSeconds (d : Duration) : Rat :=
  Number.nearestDouble (Number.nearestDouble d.seconds +
    Number.nearestDouble (mkRat d.subsecond secondNanos))

def ofRat (seconds : Rat) : Duration := ⟨Number.roundHalfEven (seconds * secondNanos)⟩

def scale (d : Duration) (factor : Rat) : Duration :=
  ofRat (Number.nearestDouble (d.inSeconds * factor))

/-- None for a negative number, not-a-number, and `2 ^ 64` or more. -/
def ofBinary? : Number.Binary → Option Duration
  | .finite negative m e =>
    let x := m * Number.pow2 e
    if (negative ∧ m ≠ 0) ∨ Nat.pow 2 64 ≤ x then none else some (ofRat x)
  | _ => none

def decimal (whole fraction width : Nat) : String :=
  let digits := (Number.paddedDigits width fraction).reverse.dropWhile (· == '0') |>.reverse
  Nat.repr whole ++ if digits.isEmpty then "" else "." ++ String.ofList digits

/-- In the largest of the units s, ms, µs and ns that has a whole part. -/
def text (d : Duration) : String :=
  let n := d.nanos
  if secondNanos ≤ n then decimal (n / secondNanos) (n % secondNanos) 9 ++ "s"
  else if 1000000 ≤ n then decimal (n / 1000000) (n % 1000000) 6 ++ "ms"
  else if 1000 ≤ n then decimal (n / 1000) (n % 1000) 3 ++ "µs"
  else Nat.repr n ++ "ns"

end Duration

end ServiceClient.Time
