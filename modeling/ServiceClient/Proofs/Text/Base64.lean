import ServiceClient.Proofs.Text.Blank
import ServiceClient.Text.Base64

/-! Decoding undoes encoding: each group of three octets is spelled by one quantum of four digits,
and only the last quantum is padded. -/

namespace ServiceClient.Text.Base64

theorem digitValue?_digit : ∀ n < 64, digitValue? (digit n) = some n := by decide

theorem digit_ne_pad : ∀ n < 64, digit n ≠ '=' := by decide

theorem isBlank_digit : ∀ n < 64, isBlank (digit n) = false := by decide

theorem ofNat_of_eq {n : Nat} {b : UInt8} (h : n = b.toNat) : UInt8.ofNat n = b := by
  rw [h, UInt8.ofNat_toNat]

section Quanta

variable (a b c : UInt8) (last : Bool)

theorem quantum_three : quantum (digit (a.toNat / 4)) (digit (a.toNat % 4 * 16 + b.toNat / 16))
    (digit (b.toNat % 16 * 4 + c.toNat / 64)) (digit (c.toNat % 64)) last = some [a, b, c] := by
  have ha := a.toNat_lt
  have hb := b.toNat_lt
  have hc := c.toNat_lt
  rw [quantum, digitValue?_digit _ (by omega), digitValue?_digit _ (by omega),
    digitValue?_digit _ (by omega), digitValue?_digit _ (by omega)]
  dsimp only [Option.bind_eq_bind, Option.bind_some]
  rw [if_neg (digit_ne_pad _ (by omega)), if_neg (digit_ne_pad _ (by omega)),
    ofNat_of_eq (b := a) (by omega), ofNat_of_eq (b := b) (by omega),
    ofNat_of_eq (b := c) (by omega)]
  rfl

theorem quantum_two : quantum (digit (a.toNat / 4)) (digit (a.toNat % 4 * 16 + b.toNat / 16))
    (digit (b.toNat % 16 * 4)) '=' true = some [a, b] := by
  have ha := a.toNat_lt
  have hb := b.toNat_lt
  rw [quantum, digitValue?_digit _ (by omega), digitValue?_digit _ (by omega),
    digitValue?_digit _ (by omega)]
  dsimp only [Option.bind_eq_bind, Option.bind_some]
  rw [if_neg (digit_ne_pad _ (by omega)), if_pos rfl, if_pos ⟨rfl, by omega⟩,
    ofNat_of_eq (b := a) (by omega), ofNat_of_eq (b := b) (by omega)]
  rfl

theorem quantum_one :
    quantum (digit (a.toNat / 4)) (digit (a.toNat % 4 * 16)) '=' '=' true = some [a] := by
  have ha := a.toNat_lt
  rw [quantum, digitValue?_digit _ (by omega), digitValue?_digit _ (by omega)]
  dsimp only [Option.bind_eq_bind, Option.bind_some]
  rw [if_pos rfl, if_pos ⟨rfl, rfl, by omega⟩, ofNat_of_eq (b := a) (by omega)]
  rfl

end Quanta

theorem decodeChars_encodeChars (s : Octets) : decodeChars (encodeChars s) = some s := by
  fun_induction encodeChars s with
  | case1 => rfl
  | case2 a =>
    rw [decodeChars, List.isEmpty_nil, quantum_one]
    rfl
  | case3 a b =>
    rw [decodeChars, List.isEmpty_nil, quantum_two]
    rfl
  | case4 a b c rest ih =>
    rw [decodeChars, quantum_three, ih]
    rfl

theorem isBlank_encodeChars (s : Octets) : ∀ c ∈ encodeChars s, isBlank c = false := by
  fun_induction encodeChars s with
  | case1 => simp
  | case2 a =>
    have ha := a.toNat_lt
    simp only [List.forall_mem_cons]
    exact ⟨isBlank_digit _ (by omega), isBlank_digit _ (by omega), rfl, rfl, by simp⟩
  | case3 a b =>
    have ha := a.toNat_lt
    have hb := b.toNat_lt
    simp only [List.forall_mem_cons]
    exact ⟨isBlank_digit _ (by omega), isBlank_digit _ (by omega), isBlank_digit _ (by omega), rfl,
      by simp⟩
  | case4 a b c rest ih =>
    have ha := a.toNat_lt
    have hb := b.toNat_lt
    have hc := c.toNat_lt
    simp only [List.forall_mem_cons]
    exact ⟨isBlank_digit _ (by omega), isBlank_digit _ (by omega), isBlank_digit _ (by omega),
      isBlank_digit _ (by omega), ih⟩

theorem decode?_trim_encode (s : Octets) : decode? (trim (encode s)) = some s := by
  have hsolid : ∀ c ∈ (encode s).toList, isBlank c = false := by
    rw [encode, String.toList_ofList]
    exact isBlank_encodeChars s
  rw [trim_of_solid hsolid, decode?, encode, String.toList_ofList, decodeChars_encodeChars]

end ServiceClient.Text.Base64
