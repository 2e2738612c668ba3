/-!
Binary floating-point numbers as exact values. A format has `precision` bits and a range for the
exponent of its last place; rounding takes the nearest value of the format, and a half goes to the
even neighbour.
-/

namespace ServiceClient.Number

structure Format where
  precision : Nat
  minExponent : Int
  maxExponent : Int
  deriving DecidableEq, Repr

def Format.single : Format := ⟨24, -149, 104⟩
def Format.double : Format := ⟨53, -1074, 971⟩

/-- A finite number is `± mantissa · 2 ^ exponent`, in the one form that has all bits of precision
or the least exponent. -/
inductive Binary where
  | nan
  | infinite (negative : Bool)
  | finite (negative : Bool) (mantissa : Nat) (exponent : Int)
  deriving DecidableEq, Repr

def pow2 (e : Int) : Rat :=
  if 0 ≤ e then (Nat.pow 2 e.toNat : Nat) else mkRat 1 (Nat.pow 2 (-e).toNat)

def pow10 (e : Int) : Rat :=
  if 0 ≤ e then (Nat.pow 10 e.toNat : Nat) else mkRat 1 (Nat.pow 10 (-e).toNat)

def leadingBit (x : Rat) : Int :=
  let e : Int := (x.num.natAbs.log2 : Int) - x.den.log2
  if pow2 e ≤ x then e else e - 1

def roundHalfEven (x : Rat) : Nat :=
  let n := x.num.natAbs
  let q := n / x.den
  let r := n % x.den
  if 2 * r < x.den then q
  else if x.den < 2 * r then q + 1
  else if q % 2 = 0 then q else q + 1

namespace Binary

def zero (f : Format) (negative : Bool) : Binary :=
  .finite negative 0 f.minExponent

def round (f : Format) (negative : Bool) (x : Rat) : Binary :=
  if x = 0 then zero f negative
  else
    let e := max (leadingBit x - (f.precision - 1)) f.minExponent
    let m := roundHalfEven (x * pow2 (-e))
    let (m, e) := if m = Nat.pow 2 f.precision then (Nat.pow 2 (f.precision - 1), e + 1) else (m, e)
    if f.maxExponent < e then .infinite negative else .finite negative m e

def isNegative : Binary → Bool
  | .nan => false
  | .infinite s => s
  | .finite s _ _ => s

def magnitude : Binary → Rat
  | .finite _ m e => m * pow2 e
  | _ => 0

def toRat (x : Binary) : Rat :=
  if x.isNegative then -x.magnitude else x.magnitude

end Binary

/-- The double nearest to `x ≥ 0`, for sums and products that stay in range. -/
def nearestDouble (x : Rat) : Rat :=
  (Binary.round .double false x).magnitude

end ServiceClient.Number
