import Mathlib.Data.Nat.Digits.Lemmas
import ServiceClient.Number.Integer
import ServiceClient.Text.Blank

/-! The value of digits by their places, and decimal numbers as they are written: a sign or none,
digits, and decimals behind a point or none. What is read as a whole number is written so. -/

namespace ServiceClient.Number

def digitValue (c : Char) : Nat := c.toNat - '0'.toNat

def placeValue (s : List Char) : Nat := Nat.ofDigits 10 (s.reverse.map digitValue)

def AreDigits (s : List Char) : Prop := ∀ c ∈ s, isDigit c = true

variable {s : List Char}

theorem placeValue_append (s t : List Char) :
    placeValue (s ++ t) = placeValue s * 10 ^ t.length + placeValue t := by
  simp [placeValue, Nat.ofDigits_append]
  ring

theorem placeValue_singleton (c : Char) : placeValue [c] = digitValue c := by
  simp [placeValue]

theorem placeValue_cons (c : Char) (s : List Char) :
    placeValue (c :: s) = digitValue c * 10 ^ s.length + placeValue s := by
  rw [← List.singleton_append, placeValue_append, placeValue_singleton]

theorem toNat_of_isDigit {c : Char} (h : isDigit c = true) : 48 ≤ c.toNat ∧ c.toNat ≤ 57 := by
  simp only [isDigit, Bool.and_eq_true, decide_eq_true_eq] at h
  exact h

theorem ne_of_isDigit {c d : Char} (hc : isDigit c = true) (hd : isDigit d = false) : c ≠ d := by
  rintro rfl
  rw [hc] at hd
  cases hd

theorem isBlank_of_isDigit {c : Char} (h : isDigit c = true) : Text.isBlank c = false := by
  have hbounds := toNat_of_isDigit h
  simp only [Text.isBlank, Bool.or_eq_false_iff, Bool.and_eq_false_iff, decide_eq_false_iff_not,
    beq_eq_false_iff_ne]
  omega

theorem digitValue_lt {c : Char} (h : isDigit c = true) : digitValue c < 10 := by
  have hbounds := toNat_of_isDigit h
  have hzero : '0'.toNat = 48 := rfl
  unfold digitValue
  omega

theorem placeValue_lt (h : AreDigits s) : placeValue s < 10 ^ s.length := by
  have hdigits : ∀ d ∈ s.reverse.map digitValue, d < 10 := by
    intro d hd
    obtain ⟨c, hc, rfl⟩ := List.mem_map.1 hd
    exact digitValue_lt (h c (List.mem_reverse.1 hc))
  simpa [placeValue] using Nat.ofDigits_lt_base_pow_length (by decide) hdigits

theorem areDigits_toDigits (n : Nat) : AreDigits (Nat.toDigits 10 n) :=
  fun _ hc => Nat.isDigit_of_mem_toDigits (by decide) (by decide) hc

theorem placeValue_eq (s : List Char) : placeValue s = Nat.ofDigitChars 10 s 0 := by
  induction s using List.reverseRecOn with
  | nil => rfl
  | append_singleton s c ih =>
    rw [placeValue_append, placeValue_singleton, ih, Nat.ofDigitChars_append, Nat.ofDigitChars_cons,
      Nat.ofDigitChars_nil, List.length_singleton, pow_one, Nat.mul_comm, digitValue]

theorem placeValue_toDigits (n : Nat) : placeValue (Nat.toDigits 10 n) = n := by
  rw [placeValue_eq, Nat.ofDigitChars_ten_toDigits]

theorem digitValue?_eq_some {c : Char} {d : Nat} (h : digitValue? 10 c = some d) :
    isDigit c = true ∧ d = digitValue c := by
  rw [digitValue?, Option.filter_eq_some_iff] at h
  obtain ⟨hvalue, hlt⟩ := h
  have hsmall : d < 10 := by simpa using hlt
  unfold Text.Hex.digitValue? at hvalue
  split_ifs at hvalue with hdigit hlower hupper
  · exact ⟨by simpa [isDigit] using hdigit, (Option.some.inj hvalue).symm⟩
  · have := Option.some.inj hvalue
    omega
  · have := Option.some.inj hvalue
    omega

theorem digitValue?_of_isDigit {c : Char} (h : isDigit c = true) :
    digitValue? 10 c = some (digitValue c) := by
  have hdigit : '0' ≤ c ∧ c ≤ '9' := by simpa [isDigit] using h
  have hvalue : Text.Hex.digitValue? c = some (digitValue c) := by
    rw [Text.Hex.digitValue?, if_pos hdigit]
    rfl
  rw [digitValue?, hvalue, Option.filter_some, if_pos (by simpa using digitValue_lt h)]

theorem readDigits_eq_ok {limit n m : Nat} (h : readDigits 10 limit n s = .ok m) :
    AreDigits s ∧ m = n * 10 ^ s.length + placeValue s := by
  induction s generalizing n with
  | nil => exact ⟨by simp [AreDigits], by simpa [readDigits, placeValue, eq_comm] using h⟩
  | cons c s ih =>
    rw [readDigits] at h
    cases hdigit : digitValue? 10 c with
    | none => simp [hdigit] at h
    | some d =>
      obtain ⟨hc, rfl⟩ := digitValue?_eq_some hdigit
      simp only [hdigit] at h
      split_ifs at h
      obtain ⟨hs, rfl⟩ := ih h
      refine ⟨List.forall_mem_cons.2 ⟨hc, hs⟩, ?_⟩
      rw [placeValue_cons, List.length_cons, pow_succ]
      ring

theorem readDigits_le {base limit n m : Nat} (hn : n ≤ limit)
    (h : readDigits base limit n s = .ok m) : m ≤ limit := by
  induction s generalizing n with
  | nil =>
    rw [readDigits] at h
    exact Except.ok.inj h ▸ hn
  | cons c s ih =>
    rw [readDigits] at h
    cases hdigit : digitValue? base c with
    | none => simp [hdigit] at h
    | some d =>
      simp only [hdigit] at h
      split_ifs at h with hle
      exact ih hle h

theorem readDigits_of_le {limit n : Nat} (hs : AreDigits s)
    (hle : n * 10 ^ s.length + placeValue s ≤ limit) :
    readDigits 10 limit n s = .ok (n * 10 ^ s.length + placeValue s) := by
  induction s generalizing n with
  | nil => simp [readDigits, placeValue]
  | cons c s ih =>
    obtain ⟨hc, hs⟩ := List.forall_mem_cons.1 hs
    have hshift : n * 10 ^ (c :: s).length + placeValue (c :: s) =
        (n * 10 + digitValue c) * 10 ^ s.length + placeValue s := by
      rw [placeValue_cons, List.length_cons, pow_succ]
      ring
    rw [hshift] at hle ⊢
    have hfirst : n * 10 + digitValue c ≤ limit :=
      calc n * 10 + digitValue c ≤ (n * 10 + digitValue c) * 10 ^ s.length :=
            Nat.le_mul_of_pos_right _ (Nat.pow_pos (by decide))
        _ ≤ limit := Nat.le_trans (Nat.le_add_right _ _) hle
    rw [readDigits, digitValue?_of_isDigit hc]
    simp only [if_pos hfirst]
    exact ih hs hle

theorem readDigits_zero_iff {limit m : Nat} : readDigits 10 limit 0 s = .ok m ↔
    AreDigits s ∧ m = placeValue s ∧ m ≤ limit := by
  constructor
  · intro h
    obtain ⟨hs, hm⟩ := readDigits_eq_ok h
    exact ⟨hs, by simpa using hm, readDigits_le (Nat.zero_le limit) h⟩
  · rintro ⟨hs, rfl, hle⟩
    simpa using readDigits_of_le (n := 0) hs (by simpa using hle)

structure Spells (sign : Option Char) (digits s : List Char) : Prop where
  text : s = sign.toList ++ digits
  sign : ∀ c ∈ sign, c = '+' ∨ c = '-'
  ne_nil : digits ≠ []
  digits : AreDigits digits

theorem Spells.not_mem {sign : Option Char} {digits : List Char} (h : Spells sign digits s)
    {c : Char} (hc : isDigit c = false) (hsign : c ≠ '+' ∧ c ≠ '-') : c ∉ s := by
  rw [h.text, List.mem_append, not_or]
  constructor
  · intro hmem
    rcases h.sign c (Option.mem_toList.1 hmem) with rfl | rfl
    · exact hsign.1 rfl
    · exact hsign.2 rfl
  · exact fun hmem => ne_of_isDigit (h.digits c hmem) hc rfl

theorem spells_toDigits (n : Nat) : Spells none (Nat.toDigits 10 n) (Nat.toDigits 10 n) :=
  ⟨rfl, by simp, Nat.toDigits_ne_nil, areDigits_toDigits n⟩

theorem spells_minus_toDigits (n : Nat) :
    Spells (some '-') (Nat.toDigits 10 n) ('-' :: Nat.toDigits 10 n) :=
  ⟨rfl, by simp, Nat.toDigits_ne_nil, areDigits_toDigits n⟩

theorem readNatural_eq_ok_iff {limit n : Nat} : readNatural 10 limit s = .ok n ↔
    ∃ sign digits, Spells sign digits s ∧ sign ≠ some '-' ∧ n = placeValue digits ∧ n ≤ limit := by
  constructor
  · intro h
    unfold readNatural at h
    split at h
    · cases h
    · rename_i c rest
      obtain ⟨hdigits, hn, hle⟩ := readDigits_zero_iff.1 h
      exact ⟨some '+', c :: rest, ⟨rfl, by simp, by simp, hdigits⟩, by decide, hn, hle⟩
    · rename_i hne _
      obtain ⟨hdigits, hn, hle⟩ := readDigits_zero_iff.1 h
      exact ⟨none, s, ⟨rfl, by simp, hne, hdigits⟩, by simp, hn, hle⟩
  · rintro ⟨sign, digits, hspells, hsign, hn, hle⟩
    obtain ⟨c, rest, rfl⟩ := List.exists_cons_of_ne_nil hspells.ne_nil
    have hread := readDigits_zero_iff.2 ⟨hspells.digits, hn, hle⟩
    cases sign with
    | none =>
      have hc : c ≠ '+' := by
        rintro rfl
        exact absurd (hspells.digits '+' List.mem_cons_self) (by decide)
      rw [hspells.text, Option.toList_none, List.nil_append, readNatural]
      · exact hread
      · simp
      · exact fun c' rest' heq => hc (List.cons.inj heq).1
    | some d =>
      obtain rfl : d = '+' :=
        (hspells.sign d rfl).resolve_right fun hd => hsign (congrArg some hd)
      rw [hspells.text]
      exact hread

theorem readNatural_toDigits {limit n : Nat} (h : n ≤ limit) :
    readNatural 10 limit (Nat.toDigits 10 n) = .ok n :=
  readNatural_eq_ok_iff.2
    ⟨none, Nat.toDigits 10 n, spells_toDigits n, by simp, (placeValue_toDigits n).symm, h⟩

theorem length_toDigits_le {limit n : Nat} (h : readNatural 10 limit s = .ok n) :
    (Nat.toDigits 10 n).length ≤ s.length := by
  obtain ⟨sign, digits, hspells, -, rfl, -⟩ := readNatural_eq_ok_iff.1 h
  have hdigits : (Nat.toDigits 10 (placeValue digits)).length ≤ digits.length :=
    (Nat.length_toDigits_le_iff (by decide) (List.length_pos_iff.2 hspells.ne_nil)).2
      (placeValue_lt hspells.digits)
  have htext := congrArg List.length hspells.text
  rw [List.length_append] at htext
  omega

def withSign (sign : Option Char) (n : Nat) : Int := if sign = some '-' then -(n : Int) else n

theorem toList_repr_negSucc (n : Nat) :
    (Int.repr (Int.negSucc n)).toList = '-' :: Nat.toDigits 10 (n + 1) := by
  rw [Int.repr, String.toList_append, Nat.toList_repr]
  rfl

theorem exists_spells_repr (x : Int) : ∃ sign digits, Spells sign digits (Int.repr x).toList ∧
    x = withSign sign (placeValue digits) := by
  cases x with
  | ofNat n =>
    refine ⟨none, Nat.toDigits 10 n, ?_, ?_⟩
    · rw [Int.repr, Nat.toList_repr]
      exact spells_toDigits n
    · rw [withSign, if_neg (by simp), placeValue_toDigits]
      rfl
  | negSucc n =>
    refine ⟨some '-', Nat.toDigits 10 (n + 1), ?_, ?_⟩
    · rw [toList_repr_negSucc]
      exact spells_minus_toDigits (n + 1)
    · rw [withSign, if_pos rfl, placeValue_toDigits]
      rfl

theorem readInteger_minus_iff {limit : Nat} {c : Char} {n : Int} :
    readInteger limit ('-' :: c :: s) = .ok n ↔ AreDigits (c :: s) ∧
      n = -(placeValue (c :: s) : Int) ∧ placeValue (c :: s) ≤ limit + 1 := by
  have hdigits : ∀ m, readDigits 10 (limit + 1) 0 (c :: s) = .ok m ↔
      AreDigits (c :: s) ∧ m = placeValue (c :: s) ∧ m ≤ limit + 1 := fun _ => readDigits_zero_iff
  rw [readInteger]
  cases hread : readDigits 10 (limit + 1) 0 (c :: s) with
  | ok m =>
    obtain ⟨hs, rfl, hle⟩ := (hdigits m).1 hread
    simp [hs, hle, eq_comm]
  | error e =>
    refine iff_of_false (by cases e <;> simp) ?_
    rintro ⟨hs, -, hle⟩
    have hok := (hdigits _).2 ⟨hs, rfl, hle⟩
    rw [hread] at hok
    cases hok

theorem readInteger_of_ne {limit : Nat} {c : Char} (h : c ≠ '-') :
    readInteger limit (c :: s) = (readNatural 10 limit (c :: s)).map Int.ofNat := by
  rw [readInteger]
  · simp
  · exact fun d rest heq => h (List.cons.inj heq).1

theorem Spells.exists_cons {sign : Option Char} {digits : List Char} (h : Spells sign digits s)
    (hsign : sign ≠ some '-') : ∃ c rest, s = c :: rest ∧ c ≠ '-' := by
  obtain ⟨c, rest, rfl⟩ := List.exists_cons_of_ne_nil h.ne_nil
  cases sign with
  | none =>
    refine ⟨c, rest, h.text, ?_⟩
    rintro rfl
    exact absurd (h.digits '-' List.mem_cons_self) (by decide)
  | some d => exact ⟨d, c :: rest, h.text, fun hd => hsign (congrArg some hd)⟩

theorem readInteger_eq_ok_iff {limit : Nat} {n : Int} : readInteger limit s = .ok n ↔
    ∃ sign digits, Spells sign digits s ∧ n = withSign sign (placeValue digits) ∧
      -(limit + 1 : Int) ≤ n ∧ n ≤ limit := by
  constructor
  · intro h
    cases s with
    | nil => cases h
    | cons c rest =>
      by_cases hc : c = '-'
      · subst hc
        cases rest with
        | nil => cases h
        | cons d rest =>
          obtain ⟨hs, rfl, hle⟩ := readInteger_minus_iff.1 h
          exact ⟨some '-', d :: rest, ⟨rfl, by simp, by simp, hs⟩, by simp [withSign], by omega,
            by omega⟩
      · rw [readInteger_of_ne hc] at h
        cases hread : readNatural 10 limit (c :: rest) with
        | error e => simp [hread, Except.map] at h
        | ok m =>
          obtain ⟨sign, digits, hspells, hsign, rfl, hle⟩ := readNatural_eq_ok_iff.1 hread
          rw [hread] at h
          obtain rfl : ((placeValue digits : Nat) : Int) = n := Except.ok.inj h
          exact ⟨sign, digits, hspells, by rw [withSign, if_neg hsign], by omega, by omega⟩
  · rintro ⟨sign, digits, hspells, rfl, hlow, hhigh⟩
    by_cases hsign : sign = some '-'
    · subst hsign
      obtain ⟨c, rest, rfl⟩ := List.exists_cons_of_ne_nil hspells.ne_nil
      rw [withSign, if_pos rfl] at hlow ⊢
      rw [hspells.text]
      exact readInteger_minus_iff.2 ⟨hspells.digits, rfl, by omega⟩
    · rw [withSign, if_neg hsign] at hhigh ⊢
      have hread := readNatural_eq_ok_iff.2 ⟨sign, digits, hspells, hsign, rfl, Int.ofNat_le.1 hhigh⟩
      obtain ⟨c, rest, rfl, hc⟩ := hspells.exists_cons hsign
      rw [readInteger_of_ne hc, hread]
      rfl

structure Numeral where
  sign : Option Char
  whole : List Char
  decimals : Option (List Char)

namespace Numeral

variable (x : Numeral)

def fraction : List Char := x.decimals.getD []

def text : List Char := x.sign.toList ++ x.whole ++ x.decimals.elim [] ('.' :: ·)

structure IsWritten : Prop where
  sign : ∀ c ∈ x.sign, c = '+' ∨ c = '-'
  whole_ne : x.whole ≠ []
  whole : AreDigits x.whole
  fraction : AreDigits x.fraction

def IsNegative : Prop := x.sign = some '-'

instance : Decidable x.IsNegative := inferInstanceAs (Decidable (_ = _))

def signed (n : Nat) : Int := withSign x.sign n

def nanos : Int :=
  x.signed (placeValue (x.whole ++ x.fraction) * 10 ^ 9 / 10 ^ x.fraction.length)

def fractionNanos : Nat := placeValue x.fraction * 10 ^ 9 / 10 ^ x.fraction.length

theorem nanos_eq : x.nanos = x.signed (placeValue x.whole * 10 ^ 9 + x.fractionNanos) := by
  have hpos : 0 < 10 ^ x.fraction.length := Nat.pow_pos (by decide)
  rw [nanos, fractionNanos, placeValue_append, Nat.add_mul, Nat.mul_right_comm,
    Nat.add_comm (_ * _), Nat.add_mul_div_right _ _ hpos, Nat.add_comm]

variable {x}

theorem fractionNanos_lt (h : x.IsWritten) : x.fractionNanos < 10 ^ 9 := by
  have hlt := placeValue_lt h.fraction
  rw [fractionNanos, Nat.div_lt_iff_lt_mul (Nat.pow_pos (by decide)), Nat.mul_comm]
  exact Nat.mul_lt_mul_of_pos_left hlt (by decide)

end Numeral

end ServiceClient.Number
