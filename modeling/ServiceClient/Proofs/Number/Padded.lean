import ServiceClient.Proofs.Number.Numeral

/-! Numbers with leading zeros: the digits spell the number, and they are as many as asked for unless
the number has more. -/

namespace ServiceClient.Number

variable {width n : Nat}

theorem isDigit_lowerDigit {d : Nat} (h : d < 10) : isDigit (Text.Hex.lowerDigit d) = true := by
  interval_cases d <;> decide

theorem digitValue_lowerDigit {d : Nat} (h : d < 10) : digitValue (Text.Hex.lowerDigit d) = d := by
  interval_cases d <;> rfl

@[simp] theorem length_paddedDigits (width n : Nat) : (paddedDigits width n).length = width := by
  induction width generalizing n with
  | zero => rfl
  | succ width ih => rw [paddedDigits, List.length_append, ih, List.length_singleton]

theorem areDigits_paddedDigits (width n : Nat) : AreDigits (paddedDigits width n) := by
  induction width generalizing n with
  | zero => exact fun _ hc => absurd hc List.not_mem_nil
  | succ width ih =>
    intro c hc
    rcases List.mem_append.1 hc with hc | hc
    · exact ih (n / 10) c hc
    · rw [List.mem_singleton.1 hc]
      exact isDigit_lowerDigit (Nat.mod_lt n (by decide))

theorem placeValue_paddedDigits (h : n < 10 ^ width) : placeValue (paddedDigits width n) = n := by
  induction width generalizing n with
  | zero => exact (Nat.lt_one_iff.1 h).symm
  | succ width ih =>
    have hfront : n / 10 < 10 ^ width := by
      rw [Nat.div_lt_iff_lt_mul (by decide), ← Nat.pow_succ]
      exact h
    rw [paddedDigits, placeValue_append, ih hfront, placeValue_singleton,
      digitValue_lowerDigit (Nat.mod_lt n (by decide)), List.length_singleton, Nat.pow_one,
      Nat.mul_comm, Nat.div_add_mod]

theorem toList_padded_of_lt (h : n < 10 ^ width) : (padded width n).toList = paddedDigits width n := by
  rw [padded, Nat.pow_eq, if_neg (Nat.not_le.2 h), String.toList_ofList]

theorem toList_padded_of_le (h : 10 ^ width ≤ n) : (padded width n).toList = Nat.toDigits 10 n := by
  rw [padded, Nat.pow_eq, if_pos h, Nat.toList_repr]

theorem areDigits_padded (width n : Nat) : AreDigits (padded width n).toList := by
  rcases Nat.lt_or_ge n (10 ^ width) with h | h
  · rw [toList_padded_of_lt h]
    exact areDigits_paddedDigits width n
  · rw [toList_padded_of_le h]
    exact areDigits_toDigits n

theorem placeValue_padded (width n : Nat) : placeValue (padded width n).toList = n := by
  rcases Nat.lt_or_ge n (10 ^ width) with h | h
  · rw [toList_padded_of_lt h, placeValue_paddedDigits h]
  · rw [toList_padded_of_le h, placeValue_toDigits]

theorem length_padded (hwidth : 0 < width) (h : n < 10 ^ (width + 1)) :
    (padded width n).toList.length = if n < 10 ^ width then width else width + 1 := by
  split_ifs with hn
  · rw [toList_padded_of_lt hn, length_paddedDigits]
  · have hbase : 1 < 10 := by decide
    have hmost := (Nat.length_toDigits_le_iff hbase (Nat.succ_pos width)).2 h
    have hleast := mt (Nat.length_toDigits_le_iff hbase hwidth).1 hn
    rw [toList_padded_of_le (Nat.le_of_not_lt hn)]
    omega

end ServiceClient.Number
