import ServiceClient.Proofs.Text.Utf8
import ServiceClient.Text.Percent

/-! Percent encoding leaves nothing but unreserved characters and escapes, and the octets of the text
are read from it again, so that no two texts are encoded alike. -/

namespace ServiceClient.Text.Percent

/-- The unreserved characters of RFC 3986. -/
def unreserved : List Char :=
  "ABCDEFGHIJKLMNOPQRSTUVWXYZabcdefghijklmnopqrstuvwxyz0123456789-._~".toList

def upperDigits : List Char := "0123456789ABCDEF".toList

inductive IsEncoded (delimiters : List Char) : List Char → Prop where
  | nil : IsEncoded delimiters []
  | char {c : Char} {s : List Char} (hc : c ∈ unreserved ∨ c ∈ delimiters)
      (h : IsEncoded delimiters s) : IsEncoded delimiters (c :: s)
  | octet {a b : Char} {s : List Char} (ha : a ∈ upperDigits) (hb : b ∈ upperDigits)
      (h : IsEncoded delimiters s) : IsEncoded delimiters ('%' :: a :: b :: s)

variable {delimiters s t : List Char} {c : Char}

namespace IsEncoded

theorem append (hs : IsEncoded delimiters s) (ht : IsEncoded delimiters t) :
    IsEncoded delimiters (s ++ t) := by
  induction hs with
  | nil => exact ht
  | char hc _ ih => exact .char hc ih
  | octet ha hb _ ih => exact .octet ha hb ih

theorem mono {more : List Char} (hs : IsEncoded delimiters s) (hsub : delimiters ⊆ more) :
    IsEncoded more s := by
  induction hs with
  | nil => exact .nil
  | char hc _ ih => exact .char (hc.imp_right (hsub ·)) ih
  | octet ha hb _ ih => exact .octet ha hb ih

theorem mem_unreserved_of_mem_upperDigits : ∀ a ∈ upperDigits, a ∈ unreserved := by decide

theorem of_mem (hs : IsEncoded delimiters s) (hc : c ∈ s) :
    c ∈ '%' :: unreserved ∨ c ∈ delimiters := by
  induction hs with
  | nil => cases hc
  | char hd _ ih =>
    rcases List.mem_cons.1 hc with rfl | hc
    · exact hd.imp_left (List.mem_cons_of_mem '%')
    · exact ih hc
  | octet ha hb _ ih =>
    rcases List.mem_cons.1 hc with rfl | hc
    · exact .inl List.mem_cons_self
    rcases List.mem_cons.1 hc with rfl | hc
    · exact .inl (List.mem_cons_of_mem '%' (mem_unreserved_of_mem_upperDigits _ ha))
    rcases List.mem_cons.1 hc with rfl | hc
    · exact .inl (List.mem_cons_of_mem '%' (mem_unreserved_of_mem_upperDigits _ hb))
    · exact ih hc

theorem flatMap {α : Type} {f : α → List Char} {l : List α}
    (h : ∀ a, IsEncoded delimiters (f a)) : IsEncoded delimiters (l.flatMap f) := by
  induction l with
  | nil => exact .nil
  | cons a l ih => exact (h a).append ih

end IsEncoded

theorem lt_of_isUnreserved (h : isUnreserved c = true) : c.toNat < 128 := by
  simp only [isUnreserved, Bool.or_eq_true, Bool.and_eq_true, decide_eq_true_eq, beq_iff_eq,
    Char.le_def, UInt32.le_iff_toNat_le] at h
  rcases h with (((((h | h) | h) | rfl) | rfl) | rfl) | rfl
  · exact Nat.lt_of_le_of_lt h.2 (by decide)
  · exact Nat.lt_of_le_of_lt h.2 (by decide)
  · exact Nat.lt_of_le_of_lt h.2 (by decide)
  all_goals decide

theorem mem_unreserved (h : isUnreserved c = true) : c ∈ unreserved := by
  have hall : ∀ n < 128, isUnreserved (Char.ofNat n) = true → Char.ofNat n ∈ unreserved := by
    decide +kernel
  have hc := hall c.toNat (lt_of_isUnreserved h)
  rw [Char.ofNat_toNat] at hc
  exact hc h

theorem upperDigit_mem {n : Nat} (h : n < 16) : Hex.upperDigit n ∈ upperDigits := by
  have hall : ∀ n < 16, Hex.upperDigit n ∈ upperDigits := by decide
  exact hall n h

theorem digitValue?_upperDigit {n : Nat} (h : n < 16) :
    Hex.digitValue? (Hex.upperDigit n) = some n := by
  have hall : ∀ n < 16, Hex.digitValue? (Hex.upperDigit n) = some n := by decide
  exact hall n h

theorem digits_lt (b : UInt8) : b.toNat / 16 < 16 ∧ b.toNat % 16 < 16 :=
  ⟨Nat.div_lt_of_lt_mul b.toNat_lt, Nat.mod_lt _ (by decide)⟩

theorem isEncoded_escapeChar (c : Char) : IsEncoded [] (escapeChar c) := by
  unfold escapeChar
  split
  · rename_i hc
    exact .char (.inl (mem_unreserved hc)) .nil
  · refine .flatMap fun b => ?_
    exact .octet (upperDigit_mem (digits_lt b).1) (upperDigit_mem (digits_lt b).2) .nil

theorem isEncoded_escape (s : String) : IsEncoded [] (escape s).toList := by
  rw [escape, String.toList_ofList]
  exact .flatMap isEncoded_escapeChar

theorem not_mem_escape (s : String) (hc : c ∉ '%' :: unreserved) : c ∉ (escape s).toList :=
  fun h => ((isEncoded_escape s).of_mem h).elim hc List.not_mem_nil

def octets? : List Char → Option Octets
  | [] => some []
  | '%' :: a :: b :: rest => do
    let high ← Hex.digitValue? a
    let low ← Hex.digitValue? b
    let more ← octets? rest
    pure (UInt8.ofNat (high * 16 + low) :: more)
  | c :: rest =>
    if isUnreserved c then (octets? rest).map (String.utf8EncodeChar c ++ ·) else none

theorem octets?_unreserved (h : isUnreserved c = true) :
    octets? (c :: s) = (octets? s).map (String.utf8EncodeChar c ++ ·) := by
  rw [octets?, if_pos h]
  rintro a b rest ⟨⟩
  cases h

theorem octets?_escapeOctet (b : UInt8) :
    octets? (escapeOctet b ++ s) = (octets? s).map (b :: ·) := by
  have hdigits := digits_lt b
  have hvalue : UInt8.ofNat (b.toNat / 16 * 16 + b.toNat % 16) = b := by
    rw [Nat.div_add_mod', UInt8.ofNat_toNat]
  rw [escapeOctet, List.cons_append, List.cons_append, List.cons_append, List.nil_append, octets?,
    digitValue?_upperDigit hdigits.1, digitValue?_upperDigit hdigits.2]
  cases hs : octets? s with
  | none => rfl
  | some more => exact congrArg (fun x => some (x :: more)) hvalue

theorem octets?_escapeOctets (bs : Octets) :
    octets? (bs.flatMap escapeOctet ++ s) = (octets? s).map (bs ++ ·) := by
  induction bs with
  | nil => simp
  | cons b bs ih =>
    rw [List.flatMap_cons, List.append_assoc, octets?_escapeOctet, ih, Option.map_map]
    rfl

theorem octets?_escapeChar (c : Char) :
    octets? (escapeChar c ++ s) = (octets? s).map (String.utf8EncodeChar c ++ ·) := by
  unfold escapeChar
  split
  · rename_i hc
    exact octets?_unreserved hc
  · exact octets?_escapeOctets _

theorem octets?_escape (s : String) : octets? (escape s).toList = some (encode s) := by
  rw [escape, String.toList_ofList, encode]
  induction s.toList with
  | nil => rfl
  | cons c cs ih => rw [List.flatMap_cons, octets?_escapeChar, ih, List.flatMap_cons, Option.map_some]

theorem escape_injective {s t : String} (h : escape s = escape t) : s = t := by
  have hs := octets?_escape s
  rw [h, octets?_escape] at hs
  exact (encode_injective (Option.some.inj hs)).symm

end ServiceClient.Text.Percent
