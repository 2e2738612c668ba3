import ServiceClient.Proofs.Number.Numeral
import ServiceClient.Proofs.Run
import ServiceClient.Proofs.Time.Calendar
import ServiceClient.Proofs.Time.Scan
import ServiceClient.Time.Timestamp

/-! Seconds since 1970 as a decimal number. Every number is read whose whole seconds are within the
years that have dates. What is read is the number that is written as far as the whole seconds go; the
decimals are added to them, also where a minus sign is in front. An instant that has been written is
read as it was to the millisecond, unless it is within a leap second. -/

namespace ServiceClient.Time

open Number (Numeral AreDigits placeValue)

/-- Nine decimals are a number of nanoseconds; what is behind them is cut off. -/
theorem digitsOf_take_nine {f : List Char} (h : AreDigits f) :
    Scan.digitsOf (f.take 9) * 10 ^ (9 - (f.take 9).length) =
      placeValue f * 10 ^ 9 / 10 ^ f.length := by
  rw [Scan.digitsOf_eq]
  by_cases hle : f.length ≤ 9
  · rw [List.take_of_length_le hle]
    have hsplit : 10 ^ 9 = 10 ^ (9 - f.length) * 10 ^ f.length := by
      rw [← Nat.pow_add, Nat.sub_add_cancel hle]
    rw [hsplit, ← Nat.mul_assoc, Nat.mul_div_cancel _ (Nat.pow_pos (by decide))]
  · have hlength : (f.take 9).length = 9 := by
      rw [List.length_take]
      omega
    have hrest : placeValue (f.drop 9) < 10 ^ (f.drop 9).length :=
      Number.placeValue_lt fun c hc => h c (List.mem_of_mem_drop hc)
    have hpow : 10 ^ f.length = 10 ^ (f.drop 9).length * 10 ^ 9 := by
      rw [← Nat.pow_add, List.length_drop, Nat.sub_add_cancel (Nat.le_of_not_le hle)]
    have hvalue : placeValue f =
        placeValue (f.drop 9) + placeValue (f.take 9) * 10 ^ (f.drop 9).length := by
      rw [Nat.add_comm, ← Number.placeValue_append, List.take_append_drop]
    rw [hlength, Nat.sub_self, Nat.pow_zero, Nat.mul_one, hpow,
      Nat.mul_div_mul_right _ _ (by decide : 0 < 10 ^ 9), hvalue,
      Nat.add_mul_div_right _ _ (Nat.pow_pos (by decide)), Nat.div_eq_of_lt hrest, Nat.zero_add]

namespace TimestampFormat

variable {s : String} {t : Instant}

theorem readEpoch_of_split {whole fraction : List Char}
    (hsplit : (Text.splitFirst? (· == '.') s.toList).getD (s.toList, []) = (whole, fraction)) :
    readEpoch s = some t ↔ ∃ seconds, Number.readInteger (Nat.pow 2 63 - 1) whole = .ok seconds ∧
      AreDigits fraction ∧ Instant.IsDated seconds ∧
        t = ⟨seconds, placeValue fraction * 10 ^ 9 / 10 ^ fraction.length⟩ := by
  rw [readEpoch, hsplit]
  constructor
  · intro h
    obtain ⟨seconds, hseconds, h⟩ := Option.bind_eq_some_iff.1 h
    split_ifs at h with hfraction
    have hdigits : AreDigits fraction := List.all_eq_true.1 hfraction
    obtain ⟨hdated, rfl⟩ := Instant.ofSeconds?_eq_some_iff.1 h
    have ht := congrArg (Instant.mk seconds) (digitsOf_take_nine hdigits)
    exact ⟨seconds, eq_ok_of_toOption hseconds, hdigits, hdated, ht⟩
  · rintro ⟨seconds, hseconds, hdigits, hdated, rfl⟩
    refine Option.bind_eq_some_iff.2 ⟨seconds, by rw [hseconds]; rfl, ?_⟩
    rw [if_pos (List.all_eq_true.2 hdigits)]
    have ht := congrArg (Instant.mk seconds) (digitsOf_take_nine hdigits)
    exact Instant.ofSeconds?_eq_some_iff.2 ⟨hdated, ht.symm⟩

theorem exists_split (s : List Char) :
    ∃ (whole : List Char) (decimals : Option (List Char)),
      s = whole ++ decimals.elim [] ('.' :: ·) ∧
      (Text.splitFirst? (· == '.') s).getD (s, []) = (whole, decimals.getD []) := by
  cases h : Text.splitFirst? (· == '.') s with
  | none => exact ⟨s, none, by simp, rfl⟩
  | some parts =>
    obtain ⟨whole, decimals⟩ := parts
    exact ⟨whole, some decimals, (Text.append_of_splitFirst?_beq h).1, rfl⟩

theorem split_text {x : Numeral} (h : x.IsWritten) :
    (Text.splitFirst? (· == '.') x.text).getD (x.text, []) =
      (x.sign.toList ++ x.whole, x.fraction) := by
  have hpoint : '.' ∉ x.sign.toList ++ x.whole := by
    intro hmem
    rcases List.mem_append.1 hmem with hmem | hmem
    · rcases h.sign '.' (Option.mem_toList.1 hmem) with hc | hc <;> cases hc
    · exact absurd (h.whole '.' hmem) (by decide)
  rw [Numeral.text, Numeral.fraction]
  cases x.decimals with
  | none =>
    rw [Option.elim_none, List.append_nil, Text.splitFirst?_beq_eq_none_iff.2 hpoint]
    rfl
  | some decimals =>
    rw [Option.elim_some, Text.splitFirst?_beq_append hpoint]
    rfl

theorem readEpoch_eq_some_iff : readEpoch s = some t ↔ ∃ x : Numeral, x.IsWritten ∧
    x.text = s.toList ∧ Instant.IsDated (x.signed (placeValue x.whole)) ∧
      t = ⟨x.signed (placeValue x.whole), x.fractionNanos⟩ := by
  constructor
  · intro h
    obtain ⟨whole, decimals, hs, hsplit⟩ := exists_split s.toList
    obtain ⟨seconds, hseconds, hdigits, hdated, ht⟩ := (readEpoch_of_split hsplit).1 h
    obtain ⟨sign, digits, hspells, rfl, -, -⟩ := Number.readInteger_eq_ok_iff.1 hseconds
    refine ⟨⟨sign, digits, decimals⟩, ⟨hspells.sign, hspells.ne_nil, hspells.digits, hdigits⟩, ?_,
      hdated, ht⟩
    rw [Numeral.text, hs, hspells.text]
  · rintro ⟨x, hx, htext, hdated, rfl⟩
    have hsplit := split_text hx
    rw [htext] at hsplit
    refine (readEpoch_of_split hsplit).2 ⟨x.signed (placeValue x.whole), ?_, hx.fraction, hdated, rfl⟩
    obtain ⟨hlow, hhigh⟩ := hdated.bounds
    refine Number.readInteger_eq_ok_iff.2
      ⟨x.sign, x.whole, ⟨rfl, hx.sign, hx.whole_ne, hx.whole⟩, rfl, ?_, ?_⟩
    · simpa using hlow
    · have hlimit : ((Nat.pow 2 63 - 1 : Nat) : Int) = 2 ^ 63 - 1 := by decide
      omega

theorem parse_eq_ok_iff_read? {f : TimestampFormat} :
    f.parse s = .ok t ↔ f.read? (Text.trim s) = some t := by
  simp only [parse]
  split <;> simp_all

theorem parse_eq_ok_iff : epochSeconds.parse s = .ok t ↔ readEpoch (Text.trim s) = some t :=
  parse_eq_ok_iff_read?

/-- The decimals are added to the whole seconds, whatever the sign. -/
theorem eq_mk_iff {x : Numeral} (hx : x.IsWritten) :
    t = ⟨x.signed (placeValue x.whole), x.fractionNanos⟩ ↔ t.nanos < 10 ^ 9 ∧
      t.total = x.nanos + (if x.IsNegative then 2 * x.fractionNanos else 0 : Nat) ∧
      (t.total = x.nanos ↔ (x.IsNegative → x.fractionNanos = 0)) := by
  obtain ⟨seconds, nanos⟩ := t
  have hlt := Numeral.fractionNanos_lt hx
  simp only [Instant.mk.injEq, Instant.total, Numeral.nanos_eq, Numeral.signed, Number.withSign,
    Numeral.IsNegative]
  by_cases hsign : x.sign = some '-'
  · simp only [hsign, if_true, true_implies]
    omega
  · simp only [hsign, if_false, false_implies, iff_true, Nat.cast_zero, add_zero]
    omega

/-- Just the numbers are read that are written as such and whose whole seconds have a date. What is
read is the number, in nanoseconds since 1970, unless there is a minus sign: then the decimals count
upwards from the whole seconds instead of downwards. -/
theorem epochSeconds_parse_eq_ok_iff (s : String) (t : Instant) :
    epochSeconds.parse s = .ok t ↔ ∃ x : Numeral, x.IsWritten ∧ x.text = (Text.trim s).toList ∧
      Instant.IsDated (x.signed (placeValue x.whole)) ∧ t.nanos < 10 ^ 9 ∧
      t.total = x.nanos + (if x.IsNegative then 2 * x.fractionNanos else 0 : Nat) ∧
      (t.total = x.nanos ↔ (x.IsNegative → x.fractionNanos = 0)) := by
  rw [parse_eq_ok_iff, readEpoch_eq_some_iff]
  refine exists_congr fun x => and_congr_right fun hx => and_congr_right fun _ => ?_
  rw [eq_mk_iff hx]

theorem epochSeconds_parse_quarter :
    epochSeconds.parse " 1398796238.25" = .ok ⟨1398796238, 250000000⟩ ∧
      ∃ x : Numeral, x.IsWritten ∧ x.text = (Text.trim " 1398796238.25").toList ∧
        Instant.IsDated (x.signed (placeValue x.whole)) ∧ 250000000 < 10 ^ 9 ∧
        (⟨1398796238, 250000000⟩ : Instant).total =
          x.nanos + (if x.IsNegative then 2 * x.fractionNanos else 0 : Nat) ∧
        ((⟨1398796238, 250000000⟩ : Instant).total = x.nanos ↔
          (x.IsNegative → x.fractionNanos = 0)) := by
  have h : epochSeconds.parse " 1398796238.25" = .ok ⟨1398796238, 250000000⟩ := rfl
  exact ⟨h, (epochSeconds_parse_eq_ok_iff _ _).1 h⟩

/-- One and a half seconds before 1970 is read as half a second before 1970. -/
theorem not_total_of_parse :
    ¬ ∀ (s : String) (t : Instant) (x : Numeral), epochSeconds.parse s = .ok t →
      x.IsWritten → x.text = (Text.trim s).toList → t.total = x.nanos := by
  intro h
  have hwritten : (⟨some '-', ['1'], some ['5']⟩ : Numeral).IsWritten :=
    ⟨by simp, by simp, by simp [AreDigits]; decide, by simp [AreDigits, Numeral.fraction]; decide⟩
  exact absurd (h "-1.5" ⟨-1, 500000000⟩ _ rfl hwritten rfl) (by decide)

theorem isBlank_of_mem_text {x : Numeral} (hx : x.IsWritten) :
    ∀ c ∈ x.text, Text.isBlank c = false := by
  have hdigits : ∀ s : List Char, AreDigits s → ∀ c ∈ s, Text.isBlank c = false :=
    fun _ hs c hc => Number.isBlank_of_isDigit (hs c hc)
  intro c hc
  rw [Numeral.text, List.mem_append, List.mem_append, Option.mem_toList] at hc
  rcases hc with (hc | hc) | hc
  · rcases hx.sign c hc with rfl | rfl <;> rfl
  · exact hdigits _ hx.whole c hc
  · have hfraction := hdigits _ hx.fraction
    rw [Numeral.fraction] at hfraction
    cases hdecimals : x.decimals with
    | none => simp [hdecimals] at hc
    | some decimals =>
      rw [hdecimals, Option.elim_some, List.mem_cons] at hc
      rcases hc with rfl | hc
      · rfl
      · exact hfraction c (by rwa [hdecimals, Option.getD_some])

/-- The nanoseconds that the written milliseconds are read as. A leap second has four digits of them,
of which the first one stands for tenths. -/
def shownNanos (t : Instant) : Nat :=
  if t.nanos < 10 ^ 9 then millis t * 10 ^ 6 else millis t * 10 ^ 5

theorem fractionNanos_millis (hnanos : t.nanos < 2 * 10 ^ 9) (sign : Option Char)
    (whole : List Char) :
    (⟨sign, whole, some (Number.padded 3 (millis t)).toList⟩ : Numeral).fractionNanos =
      shownNanos t := by
  have hlt : millis t < 10 ^ 4 := by
    unfold millis
    omega
  have hlength := Number.length_padded (by decide : 0 < 3) hlt
  have hfew : millis t < 10 ^ 3 ↔ t.nanos < 10 ^ 9 := by
    unfold millis
    omega
  rw [Numeral.fractionNanos, Numeral.fraction, Option.getD_some, Number.placeValue_padded, hlength,
    shownNanos]
  simp only [hfew]
  split_ifs <;> omega

theorem exists_numeral_epochText (hnanos : t.nanos < 2 * 10 ^ 9) :
    ∃ x : Numeral, x.IsWritten ∧ x.text = (epochText t).toList ∧
      x.signed (placeValue x.whole) = t.seconds ∧ x.fractionNanos = shownNanos t := by
  obtain ⟨sign, whole, hspells, hseconds⟩ := Number.exists_spells_repr t.seconds
  have hsign := hspells.sign
  have htext : (toString t.seconds).toList = sign.toList ++ whole := hspells.text
  by_cases hmillis : millis t = 0
  · refine ⟨⟨sign, whole, none⟩, ⟨hsign, hspells.ne_nil, hspells.digits, ?_⟩, ?_, hseconds.symm, ?_⟩
    · exact fun _ hc => absurd hc List.not_mem_nil
    · rw [epochText, if_pos hmillis, htext, Numeral.text, Option.elim_none, List.append_nil]
    · simp [Numeral.fractionNanos, Numeral.fraction, shownNanos, hmillis, Number.placeValue]
  · refine ⟨⟨sign, whole, some (Number.padded 3 (millis t)).toList⟩,
      ⟨hsign, hspells.ne_nil, hspells.digits, Number.areDigits_padded 3 (millis t)⟩, ?_,
      hseconds.symm, fractionNanos_millis hnanos sign whole⟩
    rw [epochText, if_neg hmillis, String.toList_append, String.toList_append, htext, Numeral.text,
      Option.elim_some, List.append_assoc (sign.toList ++ whole)]
    rfl

/-- What has been written is read as the same second with its milliseconds, unless it is a leap
second: that one comes back as an instant of the second before it. -/
theorem epochSeconds_parse_format (t : Instant) (hdated : Instant.IsDated t.seconds)
    (hnanos : t.nanos < 2 * 10 ^ 9) :
    epochSeconds.parse (epochSeconds.format t) = .ok ⟨t.seconds, shownNanos t⟩ ∧
      (epochSeconds.parse (epochSeconds.format t) = .ok (t.truncate (10 ^ 6)) ↔
        t.nanos < 10 ^ 9) := by
  obtain ⟨x, hx, htext, hseconds, hfraction⟩ := exists_numeral_epochText hnanos
  have htrim : Text.trim (epochText t) = epochText t := by
    refine Text.trim_of_solid fun c hc => isBlank_of_mem_text hx c ?_
    rwa [htext]
  have hread : epochSeconds.parse (epochSeconds.format t) = .ok ⟨t.seconds, shownNanos t⟩ := by
    rw [parse_eq_ok_iff, format, htrim, readEpoch_eq_some_iff]
    refine ⟨x, hx, htext, ?_, ?_⟩
    · rwa [hseconds]
    · rw [hseconds, hfraction]
  refine ⟨hread, ?_⟩
  rw [hread, Except.ok.injEq, Instant.truncate, Instant.mk.injEq, shownNanos, millis]
  split_ifs <;> omega

theorem epochSeconds_parse_format_before : Instant.IsDated (-1) ∧ 999999999 < 2 * 10 ^ 9 ∧
    epochSeconds.format ⟨-1, 999999999⟩ = "-1.999" ∧
    epochSeconds.parse "-1.999" = .ok ⟨-1, 999000000⟩ := by
  have hdated : Instant.IsDated (-1) := by unfold Instant.IsDated; decide
  exact ⟨hdated, by decide, rfl,
    (epochSeconds_parse_format ⟨-1, 999999999⟩ hdated (by decide)).2.2 (by decide)⟩

/-- The middle of the leap second at the end of 2016 is read as 0.15 s into the second before it. -/
theorem not_epochSeconds_parse_format :
    ¬ ∀ t : Instant, Instant.IsDated t.seconds → t.nanos < 2 * 10 ^ 9 →
      epochSeconds.parse (epochSeconds.format t) = .ok (t.truncate (10 ^ 6)) := by
  intro h
  have hdated : Instant.IsDated 1483228799 := by unfold Instant.IsDated; decide
  have hclaim := h ⟨1483228799, 1500000000⟩ hdated (by decide)
  have hread : epochSeconds.parse (epochSeconds.format ⟨1483228799, 1500000000⟩) =
      .ok ⟨1483228799, 150000000⟩ := rfl
  rw [hread] at hclaim
  exact absurd (Except.ok.inj hclaim) (by decide)

end TimestampFormat

end ServiceClient.Time
