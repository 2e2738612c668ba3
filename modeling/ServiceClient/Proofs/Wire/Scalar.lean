import Mathlib.Algebra.Group.Int.Defs
import ServiceClient.Proofs.Number.Numeral
import ServiceClient.Proofs.Text.Blank
import ServiceClient.Wire.Scalar

/-! Scalars other than reals are read back from their text: decimal digits give the number they
spell as long as it is within the limit, and no such text has a blank in it. -/

namespace ServiceClient

namespace Number

theorem natural?_repr {limit n : Nat} (h : n ≤ limit) : natural? limit (Nat.repr n) = some n := by
  rw [natural?, Nat.toList_repr, readNatural_toDigits h]
  rfl

theorem integer?_repr {limit : Nat} {x : Int} (hlow : -(limit + 1 : Int) ≤ x) (hhigh : x ≤ limit) :
    integer? limit (Int.repr x) = some x := by
  obtain ⟨sign, digits, hspells, hx⟩ := exists_spells_repr x
  rw [integer?, readInteger_eq_ok_iff.2 ⟨sign, digits, hspells, hx, hlow, hhigh⟩]
  rfl

theorem trim_repr (x : Int) : Text.trim (Int.repr x) = Int.repr x := by
  obtain ⟨sign, digits, hspells, -⟩ := exists_spells_repr x
  refine Text.trim_of_solid fun c hc => ?_
  rw [hspells.text, List.mem_append, Option.mem_toList] at hc
  rcases hc with hc | hc
  · rcases hspells.sign c hc with rfl | rfl <;> rfl
  · exact isBlank_of_isDigit (hspells.digits c hc)

end Number

namespace ScalarType

def Holds : ScalarType → Scalar → Prop
  | .string, .string _ => True
  | .boolean, .boolean _ => True
  | .signed bits, .integer n => -(2 ^ (bits - 1) : Int) ≤ n ∧ n < 2 ^ (bits - 1)
  | .unsigned bits, .integer n => 0 ≤ n ∧ n < 2 ^ bits
  | _, _ => False

theorem readTrimmed?_signed {bits : Nat} {n : Int} (h : (signed bits).Holds (.integer n)) :
    (signed bits).readTrimmed? (Int.repr n) = some (.integer n) := by
  obtain ⟨hlow, hhigh⟩ := h
  have hpos : 0 < 2 ^ (bits - 1) := Nat.two_pow_pos _
  have hcast : ((2 ^ (bits - 1) : Nat) : Int) = 2 ^ (bits - 1) := Int.natCast_pow 2 (bits - 1)
  rw [← hcast] at hlow hhigh
  rw [readTrimmed?, Nat.pow_eq, Number.integer?_repr (by omega) (by omega)]
  rfl

theorem readTrimmed?_unsigned {bits : Nat} {n : Int} (h : (unsigned bits).Holds (.integer n)) :
    (unsigned bits).readTrimmed? (Int.repr n) = some (.integer n) := by
  obtain ⟨hlow, hhigh⟩ := h
  obtain ⟨n, rfl⟩ := Int.eq_ofNat_of_zero_le hlow
  have hcast : ((2 ^ bits : Nat) : Int) = 2 ^ bits := Int.natCast_pow 2 bits
  rw [← hcast] at hhigh
  have hread : Number.natural? (Nat.pow 2 bits - 1) (Int.repr n) = some n :=
    Number.natural?_repr (by rw [Nat.pow_eq]; omega)
  rw [readTrimmed?, hread]
  rfl

theorem read_text {t : ScalarType} {x : Scalar} (h : t.Holds x) : t.read x.text = .ok x := by
  cases t with
  | string => cases x with
    | string s => rfl
    | _ => exact h.elim
  | boolean => cases x with
    | boolean b =>
      have htrim : Text.trim (Scalar.text (.boolean b)) = Scalar.text (.boolean b) :=
        Text.trim_of_solid (by cases b <;> decide)
      simp only [read, htrim]
      cases b <;> rfl
    | _ => exact h.elim
  | signed bits => cases x with
    | integer n =>
      simp only [read, Scalar.text]
      rw [show toString n = Int.repr n from rfl, Number.trim_repr, readTrimmed?_signed h]
    | _ => exact h.elim
  | unsigned bits => cases x with
    | integer n =>
      simp only [read, Scalar.text]
      rw [show toString n = Int.repr n from rfl, Number.trim_repr, readTrimmed?_unsigned h]
    | _ => exact h.elim
  | single => cases x <;> exact h.elim
  | double => cases x <;> exact h.elim

end ScalarType

end ServiceClient
