import Mathlib.Tactic.IntervalCases
import ServiceClient.Text.Utf8

/-! The UTF-8 reading undoes the writing, and the writing undoes what the reading takes. Octets
below 128 stand for themselves: none of them is inside a longer character. A text can be cut where a
character starts. -/

namespace ServiceClient.Text

theorem toNat_ofNat {n : Nat} (h : n < 256) : (UInt8.ofNat n).toNat = n :=
  UInt8.toNat_ofNat_of_lt h

theorem tailOctets_cons {size value m n : Nat} {low high : UInt8} {rest : Octets} (hm : m < 64)
    (hlow : low.toNat ≤ m + 0x80) (hhigh : m + 0x80 ≤ high.toNat) :
    tailOctets size value low high (n + 1) (UInt8.ofNat (m + 0x80) :: rest) =
      tailOctets (size + 1) (value * 64 + m) 0x80 0xBF n rest := by
  have hb : (UInt8.ofNat (m + 0x80)).toNat = m + 0x80 := toNat_ofNat (by omega)
  rw [tailOctets, if_pos]
  · rw [hb, Nat.add_sub_cancel]
  · constructor
    · rw [UInt8.le_iff_toNat_le, hb]
      exact hlow
    · rw [UInt8.le_iff_toNat_le, hb]
      exact hhigh

theorem leadOctet_two {m : Nat} (hm : 2 ≤ m) (hm' : m < 32) :
    leadOctet (UInt8.ofNat (m + 0xC0)) = some (1, m, 0x80, 0xBF) := by
  have hb : (UInt8.ofNat (m + 0xC0)).toNat = m + 0xC0 := toNat_ofNat (by omega)
  rw [leadOctet, if_neg, if_pos, hb, Nat.add_sub_cancel]
  · rw [UInt8.lt_iff_toNat_lt, hb]
    change _ < 224
    omega
  · rw [UInt8.lt_iff_toNat_lt, hb]
    change ¬ _ < 194
    omega

theorem leadOctet_three {m : Nat} (hm : m < 16) : leadOctet (UInt8.ofNat (m + 0xE0)) =
    some (2, m, if m = 0 then 0xA0 else 0x80, if m = 13 then 0x9F else 0xBF) := by
  interval_cases m <;> rfl

theorem leadOctet_four {m : Nat} (hm : m < 5) : leadOctet (UInt8.ofNat (m + 0xF0)) =
    some (3, m, if m = 0 then 0x90 else 0x80, if m = 4 then 0x8F else 0xBF) := by
  interval_cases m <;> rfl

theorem lead_ge {n k : Nat} (hk : 0x80 ≤ k) (hn : n + k < 256) : ¬ UInt8.ofNat (n + k) < 0x80 := by
  rw [UInt8.lt_iff_toNat_lt, toNat_ofNat hn]
  change ¬ _ < 128
  omega

def encodeNumber (v : Nat) : Octets :=
  if v ≤ 0x7F then [.ofNat v]
  else if v ≤ 0x7FF then [.ofNat (v / 64 % 32 + 0xC0), .ofNat (v % 64 + 0x80)]
  else if v ≤ 0xFFFF then
    [.ofNat (v / 4096 % 16 + 0xE0), .ofNat (v / 64 % 64 + 0x80), .ofNat (v % 64 + 0x80)]
  else
    [.ofNat (v / 262144 % 8 + 0xF0), .ofNat (v / 4096 % 64 + 0x80), .ofNat (v / 64 % 64 + 0x80),
      .ofNat (v % 64 + 0x80)]

theorem encodeChar_eq (c : Char) : String.utf8EncodeChar c = encodeNumber c.toNat := rfl

theorem char_valid (c : Char) : c.toNat < 0xD800 ∨ 0xDFFF < c.toNat ∧ c.toNat < 0x110000 :=
  c.valid

theorem firstScalar_encodeChar (c : Char) : ∃ b s, String.utf8EncodeChar c = b :: s ∧
    ∀ rest, ∃ n, firstScalar b (s ++ rest) = .char c n rest := by
  have hvalid := char_valid c
  have hc : Char.ofNat c.toNat = c := Char.ofNat_toNat c
  rw [encodeChar_eq]
  generalize c.toNat = v at hvalid hc
  rw [encodeNumber]
  -- By the number of octets; the range of the second one begins where a shorter spelling ends.
  split_ifs with h1 h2 h3
  · refine ⟨_, _, rfl, fun rest => ⟨1, ?_⟩⟩
    have hb : (UInt8.ofNat v).toNat = v := toNat_ofNat (by omega)
    rw [firstScalar, if_pos, hb, hc]
    · rfl
    · rw [UInt8.lt_iff_toNat_lt, hb]
      exact Nat.lt_succ_of_le h1
  · refine ⟨_, _, rfl, fun rest => ⟨2, ?_⟩⟩
    have hlead : 2 ≤ v / 64 % 32 := by omega
    rw [firstScalar, if_neg (lead_ge (by decide) (by omega)), leadOctet_two hlead (by omega)]
    dsimp only [List.cons_append, List.nil_append]
    rw [tailOctets_cons (by omega) (by change 128 ≤ _; omega) (by change _ ≤ 191; omega),
      tailOctets]
    rw [show v / 64 % 32 * 64 + v % 64 = v by omega, hc]
  · refine ⟨_, _, rfl, fun rest => ⟨3, ?_⟩⟩
    rw [firstScalar, if_neg (lead_ge (by decide) (by omega)), leadOctet_three (by omega)]
    dsimp only [List.cons_append, List.nil_append]
    rw [tailOctets_cons (by omega), tailOctets_cons (by omega), tailOctets]
    · rw [show (v / 4096 % 16 * 64 + v / 64 % 64) * 64 + v % 64 = v by omega, hc]
    · change 128 ≤ _; omega
    · change _ ≤ 191; omega
    · split_ifs
      · change 160 ≤ _; omega
      · change 128 ≤ _; omega
    · split_ifs
      · change _ ≤ 159; omega
      · change _ ≤ 191; omega
  · refine ⟨_, _, rfl, fun rest => ⟨4, ?_⟩⟩
    rw [firstScalar, if_neg (lead_ge (by decide) (by omega)), leadOctet_four (by omega)]
    dsimp only [List.cons_append, List.nil_append]
    rw [tailOctets_cons (by omega), tailOctets_cons (by omega), tailOctets_cons (by omega),
      tailOctets]
    · rw [show ((v / 262144 % 8 * 64 + v / 4096 % 64) * 64 + v / 64 % 64) * 64 + v % 64 = v by
        omega, hc]
    · change 128 ≤ _; omega
    · change _ ≤ 191; omega
    · change 128 ≤ _; omega
    · change _ ≤ 191; omega
    · split_ifs
      · change 144 ≤ _; omega
      · change 128 ≤ _; omega
    · split_ifs
      · change _ ≤ 143; omega
      · change _ ≤ 191; omega

theorem decodeFrom_append (cs : List Char) (offset : Nat) (s : Octets) :
    ∃ after, decodeFrom offset (cs.flatMap String.utf8EncodeChar ++ s) =
      (decodeFrom after s).map (cs ++ ·) := by
  induction cs generalizing offset with
  | nil =>
    refine ⟨offset, ?_⟩
    rw [List.flatMap_nil, List.nil_append]
    cases decodeFrom offset s <;> rfl
  | cons c cs ih =>
    obtain ⟨b, x, hc, hread⟩ := firstScalar_encodeChar c
    obtain ⟨n, hread⟩ := hread (cs.flatMap String.utf8EncodeChar ++ s)
    obtain ⟨after, hmore⟩ := ih (offset + n)
    refine ⟨after, ?_⟩
    rw [List.flatMap_cons, hc, List.append_assoc, List.cons_append, decodeFrom]
    split
    · rename_i c' n' rest hscalar
      rw [hread, Scalar.char.injEq] at hscalar
      obtain ⟨rfl, rfl, rfl⟩ := hscalar
      rw [hmore]
      cases decodeFrom after s <;> rfl
    · rename_i hscalar
      rw [hread] at hscalar
      cases hscalar
    · rename_i hscalar
      rw [hread] at hscalar
      cases hscalar

theorem decodeFrom_encodeChars (cs : List Char) (offset : Nat) :
    decodeFrom offset (cs.flatMap String.utf8EncodeChar) = .ok cs := by
  obtain ⟨after, h⟩ := decodeFrom_append cs offset []
  rwa [List.append_nil, decodeFrom, Except.map, List.append_nil] at h

theorem decode_encode (s : String) : decode (encode s) = .ok s := by
  rw [decode, encode, decodeFrom_encodeChars]
  exact congrArg Except.ok (String.ofList_toList)

theorem encode_append (s t : String) : encode (s ++ t) = encode s ++ encode t := by
  rw [encode, String.toList_append, List.flatMap_append]
  rfl

theorem encode_ofList (cs : List Char) :
    encode (String.ofList cs) = cs.flatMap String.utf8EncodeChar := by
  rw [encode, String.toList_ofList]

theorem encode_injective {s t : String} (h : encode s = encode t) : s = t := by
  have hs := decode_encode s
  rw [h, decode_encode] at hs
  exact (Except.ok.inj hs).symm

theorem eq_of_mem_encodeChar {c : Char} {b : UInt8} (hb : b < 0x80)
    (h : b ∈ String.utf8EncodeChar c) : c.toNat = b.toNat := by
  have hb : b.toNat < 128 := hb
  have hvalid := char_valid c
  rw [encodeChar_eq] at h
  generalize c.toNat = v at h hvalid
  rw [encodeNumber] at h
  split_ifs at h with h1 h2 h3
  · rw [List.mem_singleton] at h
    rw [h, toNat_ofNat (by omega)]
  · simp only [List.mem_cons, List.not_mem_nil, or_false] at h
    rcases h with rfl | rfl <;> rw [toNat_ofNat (by omega)] at hb <;> omega
  · simp only [List.mem_cons, List.not_mem_nil, or_false] at h
    rcases h with rfl | rfl | rfl <;> rw [toNat_ofNat (by omega)] at hb <;> omega
  · simp only [List.mem_cons, List.not_mem_nil, or_false] at h
    rcases h with rfl | rfl | rfl | rfl <;> rw [toNat_ofNat (by omega)] at hb <;> omega

section Length

variable {cs : List Char}

def octetLength (cs : List Char) : Nat := (cs.flatMap String.utf8EncodeChar).length

theorem length_encode (s : String) : (encode s).length = octetLength s.toList := rfl

@[simp] theorem octetLength_append (cs ds : List Char) :
    octetLength (cs ++ ds) = octetLength cs + octetLength ds := by
  simp [octetLength]

theorem length_le_octetLength (cs : List Char) : cs.length ≤ octetLength cs := by
  induction cs with
  | nil => exact Nat.le_refl 0
  | cons c cs ih =>
    have hc : 0 < (String.utf8EncodeChar c).length := by
      rw [String.length_utf8EncodeChar]
      exact c.utf8Size_pos
    rw [← List.singleton_append, octetLength_append, List.length_append]
    simp only [octetLength, List.flatMap_singleton, List.length_singleton] at hc ih ⊢
    omega

theorem octetLength_of_ascii (h : ∀ c ∈ cs, c.toNat < 128) : octetLength cs = cs.length := by
  induction cs with
  | nil => rfl
  | cons c cs ih =>
    obtain ⟨hc, hcs⟩ := List.forall_mem_cons.1 h
    rw [← List.singleton_append, octetLength_append, ih hcs, List.length_append, octetLength,
      List.flatMap_singleton, encodeChar_eq, encodeNumber, if_pos (Nat.le_of_lt_succ hc)]
    rfl

end Length

section Inverse

variable {b : UInt8} {s rest : Octets} {c : Char} {n : Nat}

theorem toNat_char {v : Nat} (h : v < 0xD800 ∨ 0xDFFF < v ∧ v < 0x110000) :
    (Char.ofNat v).toNat = v := by
  have hvalid : v.isValidChar := h
  rw [Char.ofNat, dif_pos hvalid]
  rfl

theorem exists_of_tailOctets {size value k : Nat} {low high : UInt8} (hlow : 128 ≤ low.toNat)
    (hhigh : high.toNat ≤ 191) (h : tailOctets size value low high (k + 1) s = .char c n rest) :
    ∃ m s', m < 64 ∧ s = UInt8.ofNat (m + 0x80) :: s' ∧ low.toNat ≤ m + 0x80 ∧
      m + 0x80 ≤ high.toNat ∧
      tailOctets (size + 1) (value * 64 + m) 0x80 0xBF k s' = .char c n rest := by
  cases s with
  | nil => simp [tailOctets] at h
  | cons b s' =>
    rw [tailOctets] at h
    split_ifs at h with hb
    rw [UInt8.le_iff_toNat_le, UInt8.le_iff_toNat_le] at hb
    have hadd : b.toNat - 0x80 + 0x80 = b.toNat := by omega
    refine ⟨b.toNat - 0x80, s', by omega, ?_, by omega, by omega, h⟩
    rw [hadd, UInt8.ofNat_toNat]

theorem exists_of_tailOctets_any {size value k : Nat}
    (h : tailOctets size value 0x80 0xBF (k + 1) s = .char c n rest) :
    ∃ m s', m < 64 ∧ s = UInt8.ofNat (m + 0x80) :: s' ∧
      tailOctets (size + 1) (value * 64 + m) 0x80 0xBF k s' = .char c n rest := by
  obtain ⟨m, s', hm, hs, _, _, hmore⟩ := exists_of_tailOctets (by decide) (by decide) h
  exact ⟨m, s', hm, hs, hmore⟩

theorem eq_of_tailOctets_zero {size value : Nat} {low high : UInt8}
    (h : tailOctets size value low high 0 s = .char c n rest) :
    c = Char.ofNat value ∧ s = rest := by
  rw [tailOctets, Scalar.char.injEq] at h
  exact ⟨h.1.symm, h.2.2⟩

/-- A first octet says how many follow. The range of the second leaves out what is spelled too long
and what is no character. -/
theorem leadOctet_cases {k value : Nat} {low high : UInt8}
    (h : leadOctet b = some (k, value, low, high)) : 128 ≤ low.toNat ∧ high.toNat ≤ 191 ∧
      ((k = 1 ∧ b = UInt8.ofNat (value + 0xC0) ∧ 2 ≤ value ∧ value < 32) ∨
      (k = 2 ∧ b = UInt8.ofNat (value + 0xE0) ∧ value < 16 ∧ (value = 0 → 160 ≤ low.toNat) ∧
        (value = 13 → high.toNat ≤ 159)) ∨
      (k = 3 ∧ b = UInt8.ofNat (value + 0xF0) ∧ value < 5 ∧ (value = 0 → 144 ≤ low.toNat) ∧
        (value = 4 → high.toNat ≤ 143))) := by
  have hshift : ∀ k, k ≤ b.toNat → b = UInt8.ofNat (b.toNat - k + k) := fun k hk => by
    rw [Nat.sub_add_cancel hk, UInt8.ofNat_toNat]
  by_cases hnone : b.toNat < 194
  · rw [leadOctet, if_pos (UInt8.lt_iff_toNat_lt.2 hnone)] at h
    cases h
  by_cases htwo : b.toNat < 224
  · have hb := hshift 0xC0 (by omega)
    rw [hb, leadOctet_two (by omega) (by omega), Option.some_inj] at h
    obtain ⟨rfl, rfl, rfl, rfl⟩ := by simpa only [Prod.mk.injEq] using h
    exact ⟨by decide, by decide, .inl ⟨rfl, hb, by omega, by omega⟩⟩
  by_cases hthree : b.toNat < 240
  · have hb := hshift 0xE0 (by omega)
    rw [hb, leadOctet_three (by omega), Option.some_inj] at h
    obtain ⟨rfl, rfl, rfl, rfl⟩ := by simpa only [Prod.mk.injEq] using h
    refine ⟨?_, ?_, .inr (.inl ⟨rfl, hb, by omega, fun h => ?_, fun h => ?_⟩)⟩
    · split_ifs <;> decide
    · split_ifs <;> decide
    · rw [if_pos h]; decide
    · rw [if_pos h]; decide
  by_cases hfour : b.toNat < 245
  · have hb := hshift 0xF0 (by omega)
    rw [hb, leadOctet_four (by omega), Option.some_inj] at h
    obtain ⟨rfl, rfl, rfl, rfl⟩ := by simpa only [Prod.mk.injEq] using h
    refine ⟨?_, ?_, .inr (.inr ⟨rfl, hb, by omega, fun h => ?_, fun h => ?_⟩)⟩
    · split_ifs <;> decide
    · split_ifs <;> decide
    · rw [if_pos h]; decide
    · rw [if_pos h]; decide
  · rw [leadOctet, if_neg (mt UInt8.lt_iff_toNat_lt.1 hnone),
      if_neg (mt UInt8.lt_iff_toNat_lt.1 htwo), if_neg (mt UInt8.lt_iff_toNat_lt.1 hthree),
      if_neg (mt UInt8.lt_iff_toNat_lt.1 hfour)] at h
    cases h

theorem encodeNumber_two {m m₁ : Nat} (hm : 2 ≤ m) (hm' : m < 32) (h₁ : m₁ < 64) :
    encodeNumber (m * 64 + m₁) = [UInt8.ofNat (m + 0xC0), UInt8.ofNat (m₁ + 0x80)] := by
  have hlead : (m * 64 + m₁) / 64 % 32 = m := by omega
  have htail : (m * 64 + m₁) % 64 = m₁ := by omega
  rw [encodeNumber, if_neg (by omega), if_pos (by omega), hlead, htail]

theorem encodeNumber_three {m m₁ m₂ : Nat} (hm : m < 16) (h₁ : m₁ < 64) (h₂ : m₂ < 64)
    (hlong : m ≠ 0 ∨ 32 ≤ m₁) : encodeNumber ((m * 64 + m₁) * 64 + m₂) =
      [UInt8.ofNat (m + 0xE0), UInt8.ofNat (m₁ + 0x80), UInt8.ofNat (m₂ + 0x80)] := by
  have hlead : ((m * 64 + m₁) * 64 + m₂) / 4096 % 16 = m := by omega
  have hmiddle : ((m * 64 + m₁) * 64 + m₂) / 64 % 64 = m₁ := by omega
  have htail : ((m * 64 + m₁) * 64 + m₂) % 64 = m₂ := by omega
  rw [encodeNumber, if_neg (by omega), if_neg (by omega), if_pos (by omega), hlead, hmiddle, htail]

theorem encodeNumber_four {m m₁ m₂ m₃ : Nat} (hm : m < 5) (h₁ : m₁ < 64) (h₂ : m₂ < 64)
    (h₃ : m₃ < 64) (hlong : m ≠ 0 ∨ 16 ≤ m₁) :
    encodeNumber (((m * 64 + m₁) * 64 + m₂) * 64 + m₃) =
      [UInt8.ofNat (m + 0xF0), UInt8.ofNat (m₁ + 0x80), UInt8.ofNat (m₂ + 0x80),
        UInt8.ofNat (m₃ + 0x80)] := by
  have hlead : (((m * 64 + m₁) * 64 + m₂) * 64 + m₃) / 262144 % 8 = m := by omega
  have hsecond : (((m * 64 + m₁) * 64 + m₂) * 64 + m₃) / 4096 % 64 = m₁ := by omega
  have hthird : (((m * 64 + m₁) * 64 + m₂) * 64 + m₃) / 64 % 64 = m₂ := by omega
  have htail : (((m * 64 + m₁) * 64 + m₂) * 64 + m₃) % 64 = m₃ := by omega
  rw [encodeNumber, if_neg (by omega), if_neg (by omega), if_neg (by omega), hlead, hsecond,
    hthird, htail]

theorem eq_encodeChar_append (h : firstScalar b s = .char c n rest) :
    b :: s = String.utf8EncodeChar c ++ rest := by
  rw [firstScalar] at h
  split at h
  · rename_i hascii
    have hb : b.toNat < 128 := UInt8.lt_iff_toNat_lt.1 hascii
    obtain ⟨rfl, -, rfl⟩ := Scalar.char.inj h
    rw [encodeChar_eq, toNat_char (by omega), encodeNumber, if_pos (by omega), UInt8.ofNat_toNat]
    rfl
  · split at h
    · cases h
    · rename_i hlead
      obtain ⟨hlow, hhigh, hcases⟩ := leadOctet_cases hlead
      rcases hcases with ⟨rfl, rfl, hcases⟩ | ⟨rfl, rfl, hcases⟩ | ⟨rfl, rfl, hcases⟩
      · obtain ⟨m₁, s₁, h₁, rfl, _, _, hend⟩ := exists_of_tailOctets hlow hhigh h
        obtain ⟨rfl, rfl⟩ := eq_of_tailOctets_zero hend
        rw [encodeChar_eq, toNat_char (by omega), encodeNumber_two (by omega) (by omega) h₁]
        rfl
      · obtain ⟨m₁, s₁, h₁, rfl, hlow₁, hhigh₁, hmore⟩ := exists_of_tailOctets hlow hhigh h
        obtain ⟨m₂, s₂, h₂, rfl, hend⟩ := exists_of_tailOctets_any hmore
        obtain ⟨rfl, rfl⟩ := eq_of_tailOctets_zero hend
        rw [encodeChar_eq, toNat_char (by omega), encodeNumber_three (by omega) h₁ h₂ (by omega)]
        rfl
      · obtain ⟨m₁, s₁, h₁, rfl, hlow₁, hhigh₁, hmore⟩ := exists_of_tailOctets hlow hhigh h
        obtain ⟨m₂, s₂, h₂, rfl, hrest⟩ := exists_of_tailOctets_any hmore
        obtain ⟨m₃, s₃, h₃, rfl, hend⟩ := exists_of_tailOctets_any hrest
        obtain ⟨rfl, rfl⟩ := eq_of_tailOctets_zero hend
        rw [encodeChar_eq, toNat_char (by omega),
          encodeNumber_four (by omega) h₁ h₂ h₃ (by omega)]
        rfl

theorem flatMap_of_decodeFrom {offset : Nat} {cs : List Char} (h : decodeFrom offset s = .ok cs) :
    cs.flatMap String.utf8EncodeChar = s := by
  fun_induction decodeFrom offset s generalizing cs with
  | case1 offset =>
    obtain rfl := Except.ok.inj h
    rfl
  | case2 offset b s' c n rest hscalar hlength cs' hmore ih =>
    obtain rfl := Except.ok.inj h
    rw [List.flatMap_cons, ih hmore, eq_encodeChar_append hscalar]
  | case3 => cases h
  | case4 => cases h
  | case5 => cases h

theorem encode_of_decode {t : String} (h : decode s = .ok t) : encode t = s := by
  rw [decode] at h
  cases hcs : decodeFrom 0 s with
  | error e => rw [hcs] at h; cases h
  | ok cs =>
    rw [hcs] at h
    obtain rfl := Except.ok.inj h
    rw [encode_ofList, flatMap_of_decodeFrom hcs]

theorem toOption_decodeFrom (offset after : Nat) (s : Octets) :
    (decodeFrom offset s).toOption = (decodeFrom after s).toOption := by
  have hcongr : ∀ {m n cs}, decodeFrom m s = .ok cs → decodeFrom n s = .ok cs := by
    intro m n cs h
    rw [← flatMap_of_decodeFrom h]
    exact decodeFrom_encodeChars cs n
  cases hleft : decodeFrom offset s with
  | ok cs => rw [hcongr hleft]
  | error e =>
    cases hright : decodeFrom after s with
    | error e' => rfl
    | ok cs =>
      rw [hcongr hright] at hleft
      cases hleft

theorem toOption_decode_append (t : String) (s : Octets) :
    (decode (encode t ++ s)).toOption = (decode s).toOption.map (t ++ ·) := by
  obtain ⟨after, hmore⟩ := decodeFrom_append t.toList 0 s
  have hs := toOption_decodeFrom after 0 s
  rw [decode, encode, hmore, decode]
  cases hafter : decodeFrom after s <;> cases hzero : decodeFrom 0 s <;>
    rw [hafter, hzero] at hs <;> cases hs
  · rfl
  · exact congrArg some (by rw [String.ofList_append, String.ofList_toList])

end Inverse

section Boundaries

def IsFirst (b : UInt8) : Prop := b.toNat < 128 ∨ 192 ≤ b.toNat

theorem isFirst_encodeChar (c : Char) : ∃ b s, String.utf8EncodeChar c = b :: s ∧ IsFirst b ∧
    ∀ x ∈ s, ¬ IsFirst x := by
  have hvalid := char_valid c
  rw [encodeChar_eq]
  generalize c.toNat = v at hvalid
  have hlow : ∀ {m}, m < 128 → IsFirst (.ofNat m) := fun {m} hm =>
    .inl (by rwa [toNat_ofNat (Nat.lt_trans hm (by decide))])
  have hhigh : ∀ {m k}, 192 ≤ k → m + k < 256 → IsFirst (.ofNat (m + k)) := fun {m k} hk hm =>
    .inr (by rw [toNat_ofNat hm]; omega)
  have hinner : ∀ m, ¬ IsFirst (.ofNat (m % 64 + 128)) := fun m => by
    rw [IsFirst, toNat_ofNat (by omega)]
    omega
  rw [encodeNumber]
  split_ifs
  · exact ⟨_, _, rfl, hlow (by omega), nofun⟩
  · exact ⟨_, _, rfl, hhigh (by decide) (by omega), List.forall_mem_singleton.2 (hinner _)⟩
  · exact ⟨_, _, rfl, hhigh (by decide) (by omega),
      List.forall_mem_cons.2 ⟨hinner _, List.forall_mem_singleton.2 (hinner _)⟩⟩
  · exact ⟨_, _, rfl, hhigh (by decide) (by omega), List.forall_mem_cons.2 ⟨hinner _,
      List.forall_mem_cons.2 ⟨hinner _, List.forall_mem_singleton.2 (hinner _)⟩⟩⟩

theorem encode_singleton (c : Char) : encode (String.singleton c) = String.utf8EncodeChar c := by
  rw [encode, String.toList_singleton, List.flatMap_singleton]

theorem exists_of_flatMap_eq_append {cs : List Char} {s x : Octets}
    (h : cs.flatMap String.utf8EncodeChar = s ++ x) (hx : ∀ b ∈ x.head?, IsFirst b) :
    ∃ t, s = encode t := by
  induction cs generalizing s with
  | nil => exact ⟨"", (List.append_eq_nil_iff.1 h.symm).1⟩
  | cons c cs ih =>
    obtain ⟨b, inner, hc, -, hinner⟩ := isFirst_encodeChar c
    rw [List.flatMap_cons] at h
    rcases List.append_eq_append_iff.1 h with ⟨a, hs, hrest⟩ | ⟨a, hchar, hxa⟩
    · obtain ⟨t, rfl⟩ := ih hrest
      exact ⟨String.singleton c ++ t, by rw [hs, encode_append, encode_singleton]⟩
    · cases s with
      | nil => exact ⟨"", rfl⟩
      | cons d s =>
        rw [hc, List.cons_append] at hchar
        cases a with
        | nil =>
          refine ⟨String.singleton c, ?_⟩
          rw [encode_singleton, hc, hchar, List.append_nil]
        | cons d' a =>
          rw [hxa] at hx
          have hmem : d' ∈ inner := by
            rw [(List.cons.inj hchar).2]
            exact List.mem_append_right _ List.mem_cons_self
          exact absurd (hx d' rfl) (hinner d' hmem)

theorem exists_encode_of_decode_append {s x : Octets} {t : String} (h : decode (s ++ x) = .ok t)
    (hx : ∀ b ∈ x.head?, IsFirst b) : ∃ u, s = encode u :=
  exists_of_flatMap_eq_append (encode_of_decode h) hx

end Boundaries

end ServiceClient.Text
