import ServiceClient.Number.Binary

/-!
The shortest decimal that reads back as a given binary number: of the decimals with fewest digits
among those that round to it, the nearest one.
-/

namespace ServiceClient.Number

structure Decimal where
  digits : Nat
  exponent : Int
  deriving DecidableEq, Repr

def Decimal.toRat (d : Decimal) : Rat :=
  d.digits * pow10 d.exponent

/-- The decimals that round to a number are those between two bounds, which belong to them iff the
mantissa is even. -/
structure Interval where
  low : Rat
  high : Rat
  closed : Bool

def Interval.contains (i : Interval) (x : Rat) : Bool :=
  if i.closed then i.low ≤ x && x ≤ i.high else i.low < x && x < i.high

def roundingInterval (f : Format) (m : Nat) (e : Int) : Interval :=
  let value := m * pow2 e
  let below := if m = Nat.pow 2 (f.precision - 1) ∧ f.minExponent < e then pow2 (e - 2) else pow2 (e - 1)
  ⟨value - below, value + pow2 (e - 1), m % 2 = 0⟩

def countDigits (n : Nat) : Nat :=
  (Nat.toDigits 10 n).length

def leadingDigit (x : Rat) : Int :=
  if 1 ≤ x then (countDigits (x.num.natAbs / x.den) : Int) - 1
  else -(countDigits (x.den / x.num.natAbs) : Int)

inductive Tie
  | away
  | toEven
  deriving DecidableEq, Repr

/-- Whether `x` is written as `low`, when `low + 1` on the same grid would do as well. -/
def Tie.takesLower (tie : Tie) (low : Nat) (x : Rat) : Bool :=
  let past := x - low
  past < 1 / 2 || (past == 1 / 2 && tie == .toEven && low % 2 == 0)

def gridPoint? (tie : Tie) (i : Interval) (x : Rat) (e : Int) : Option Decimal :=
  let scaled := x * pow10 (-e)
  let low := scaled.num.natAbs / scaled.den
  let down : Decimal := ⟨low, e⟩
  let up : Decimal := ⟨low + 1, e⟩
  match i.contains down.toRat, i.contains up.toRat with
  | true, true => if tie.takesLower low scaled then some down else some up
  | true, false => some down
  | false, true => some up
  | false, false => none

def stripZeros : (fuel : Nat) → Decimal → Decimal
  | 0, d => d
  | fuel + 1, d =>
    if d.digits ≠ 0 ∧ d.digits % 10 = 0 then stripZeros fuel ⟨d.digits / 10, d.exponent + 1⟩ else d

def shortestFrom (tie : Tie) (i : Interval) (x : Rat) (lead : Int) :
    (grids : Nat) → (count : Nat) → Decimal
  | 0, count => ⟨roundHalfEven (x * pow10 (count - lead)), lead - count⟩
  | grids + 1, count =>
    match gridPoint? tie i x (lead - count) with
    | some d => d
    | none => shortestFrom tie i x lead grids (count + 1)

/-- For the positive number `m · 2 ^ e`; seventeen digits are enough for a double. -/
def shortest (f : Format) (tie : Tie) (m : Nat) (e : Int) : Decimal :=
  let x := m * pow2 e
  stripZeros 20 (shortestFrom tie (roundingInterval f m e) x (leadingDigit x) 17 0)

def Decimal.positional (d : Decimal) : String :=
  let digits := Nat.repr d.digits
  if 0 ≤ d.exponent then
    if d.digits = 0 then "0" else digits ++ String.ofList (List.replicate d.exponent.toNat '0')
  else
    let places := (-d.exponent).toNat
    if places < digits.length then
      let whole := digits.length - places
      String.ofList (digits.toList.take whole) ++ "." ++ String.ofList (digits.toList.drop whole)
    else
      "0." ++ String.ofList (List.replicate (places - digits.length) '0') ++ digits

end ServiceClient.Number
