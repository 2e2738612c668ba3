import ServiceClient.Number.Real
import ServiceClient.Wire.Error

/-!
Scalars as text. Blanks around all but strings are dropped before reading.
-/

namespace ServiceClient

inductive ScalarType where
  | string
  | boolean
  | signed (bits : Nat)
  | unsigned (bits : Nat)
  | single
  | double
  deriving DecidableEq, Repr

def ScalarType.name : ScalarType → String
  | .string => "string"
  | .boolean => "bool"
  | .signed bits => s!"i{bits}"
  | .unsigned bits => s!"u{bits}"
  | .single => "f32"
  | .double => "f64"

inductive Scalar where
  | string (s : String)
  | boolean (b : Bool)
  | integer (n : Int)
  | real (f : Number.Format) (x : Number.Binary)
  deriving DecidableEq, Repr

def Scalar.text : Scalar → String
  | .string s => s
  | .boolean b => if b then "true" else "false"
  | .integer n => toString n
  | .real f x => x.text f

namespace ScalarType

def readTrimmed? (t : ScalarType) (s : String) : Option Scalar :=
  match t with
  | .string => some (.string s)
  | .boolean =>
    if s = "true" then some (.boolean true)
    else if s = "false" then some (.boolean false)
    else none
  | .signed bits => (Number.integer? (Nat.pow 2 (bits - 1) - 1) s).map .integer
  | .unsigned bits => (Number.natural? (Nat.pow 2 bits - 1) s).map fun n => .integer n
  | .single => (Number.Binary.read? .single s).map (.real .single)
  | .double => (Number.Binary.read? .double s).map (.real .double)

def read (t : ScalarType) (s : String) : Except WireError Scalar :=
  match t with
  | .string => .ok (.string s)
  | t =>
    let s := Text.trim s
    match t.readTrimmed? s with
    | some x => .ok x
    | none => .error (.invalidValue s t.name)

end ScalarType

end ServiceClient
