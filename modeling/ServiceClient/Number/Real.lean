import ServiceClient.Number.Integer
import ServiceClient.Number.Shortest
import ServiceClient.Text.Blank

/-!
Binary numbers as text. Read: an optional sign, digits with at most one point, an optional
exponent, or the words for infinity and not-a-number in any case. Written: the shortest digits that
read back, in positional notation.
-/

namespace ServiceClient.Number

def readFraction (s : List Char) : Option (List Char × Int × List Char) :=
  let whole := s.takeWhile isDigit
  match s.dropWhile isDigit with
  | '.' :: rest =>
    let places := rest.takeWhile isDigit
    if whole.isEmpty ∧ places.isEmpty then none
    else some (whole ++ places, -(places.length : Int), rest.dropWhile isDigit)
  | rest => if whole.isEmpty then none else some (whole, 0, rest)

def readExponent : List Char → Option Int
  | [] => some 0
  | c :: rest =>
    if c = 'e' ∨ c = 'E' then
      let (negative, digits) := match rest with
        | '-' :: r => (true, r)
        | '+' :: r => (false, r)
        | r => (false, r)
      if digits.isEmpty ∨ !digits.all isDigit then none
      else
        let n := digits.foldl (fun n c => min 100000 (n * 10 + (c.toNat - '0'.toNat))) 0
        some (if negative then -(n : Int) else n)
    else none

def digitsValue (s : List Char) : Nat :=
  s.foldl (fun n c => n * 10 + (c.toNat - '0'.toNat)) 0

/-- Exponents far outside every format's range are decided without computing the power. -/
def Binary.ofDecimal (f : Format) (negative : Bool) (digits : Nat) (exponent : Int) : Binary :=
  let size : Int := countDigits digits + exponent
  if digits = 0 ∨ size < -400 then zero f negative
  else if 400 < size then .infinite negative
  else round f negative (digits * pow10 exponent)

def Binary.readMagnitude? (f : Format) (negative : Bool) (s : List Char) : Option Binary :=
  match String.ofList (s.map Char.toLower) with
  | "inf" | "infinity" => some (.infinite negative)
  | "nan" => some .nan
  | _ => do
    let (digits, shift, rest) ← readFraction s
    let exponent ← readExponent rest
    pure (ofDecimal f negative (digitsValue digits) (exponent + shift))

def Binary.read? (f : Format) (s : String) : Option Binary :=
  match s.toList with
  | '-' :: rest => readMagnitude? f true rest
  | '+' :: rest => readMagnitude? f false rest
  | s => readMagnitude? f false s

def Binary.text (f : Format) : Binary → String
  | .nan => "NaN"
  | .infinite negative => if negative then "-Infinity" else "Infinity"
  | .finite negative m e =>
    (if negative then "-" else "") ++ if m = 0 then "0" else (shortest f .away m e).positional

end ServiceClient.Number
