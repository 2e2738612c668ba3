import ServiceClient.Proofs.Time.Calendar
import ServiceClient.Proofs.Time.Scan
import ServiceClient.Proofs.Time.Shown

/-! Dates with a time of day are read as they were written, leap seconds at the end of a minute among
them: the format of RFC 3339 keeps the milliseconds, that of HTTP headers the seconds. A leap second
anywhere else is written as the second after it, and read as that. -/

namespace ServiceClient.Time

open Number (paddedDigits)

namespace Date

structure Names (words : List String) (i : Nat) (w : List Char) : Prop where
  text : (words.getD i "").toList = w
  length : w.length = 3
  index : words.findIdx? (fun v => Text.lowerAscii v == String.ofList (w.map Char.toLower)) = some i
  solid : ∀ c ∈ w, Text.isBlank c = false

theorem exists_names_weekday {i : Nat} (h : i < 7) : ∃ w, Names weekdays i w := by
  interval_cases i <;> exact ⟨_, rfl, rfl, by decide, by decide⟩

theorem exists_names_month {i : Nat} (h : i < 12) : ∃ w, Names months i w := by
  interval_cases i <;> exact ⟨_, rfl, rfl, by decide, by decide⟩

end Date

namespace TimestampFormat

section Read

variable {year month day hour minute second nanos : Nat} {tail : List Char} {u : Instant}

theorem scanDateTime_eq (hyear : year < 10 ^ 4) (hmonth : month < 10 ^ 2) (hday : day < 10 ^ 2)
    (hhour : hour < 10 ^ 2) (hminute : minute < 10 ^ 2) (hsecond : second < 10 ^ 2)
    (htail : decimals tail = some (nanos, ['Z']))
    (hcivil : Instant.ofCivil? ⟨year, month, day⟩ ⟨hour, minute, second, nanos⟩ 0 = some u) :
    scanDateTime (paddedDigits 4 year ++ '-' :: (paddedDigits 2 month ++ '-' ::
      (paddedDigits 2 day ++ 'T' :: (paddedDigits 2 hour ++ ':' :: (paddedDigits 2 minute ++ ':' ::
        (paddedDigits 2 second ++ tail)))))) = some (u, []) := by
  unfold scanDateTime
  rw [Scan.bind_of_some (Scan.number_padded (by decide) hyear _),
    Scan.bind_of_some (Scan.char_cons '-' _),
    Scan.bind_of_some (Scan.number_padded (by decide) hmonth _),
    Scan.bind_of_some (Scan.char_cons '-' _),
    Scan.bind_of_some (Scan.number_padded (by decide) hday _),
    Scan.bind_of_some (Scan.oneOf_cons (by decide)),
    Scan.bind_of_some (Scan.number_padded (by decide) hhour _),
    Scan.bind_of_some (Scan.char_cons ':' _),
    Scan.bind_of_some (Scan.number_padded (by decide) hminute _),
    Scan.bind_of_some (Scan.char_cons ':' _),
    Scan.bind_of_some (Scan.number_padded (by decide) hsecond _),
    Scan.bind_of_some htail,
    Scan.bind_of_some (show offsetOrZulu ['Z'] = some (0, []) from rfl),
    if_neg (by decide), hcivil]
  rfl

theorem isBlank_of_head_names {words : List String} {i : Nat} {w : List Char}
    (h : Date.Names words i w) : ∀ c ∈ (w ++ tail).head?, Text.isBlank c = false := by
  intro c hc
  have hne : w ≠ [] := by
    rw [← List.length_pos_iff, h.length]
    decide
  rw [List.head?_append_of_ne_nil _ hne] at hc
  exact h.solid c (List.mem_of_mem_head? hc)

theorem optionalWeekday_comma {i : Nat} {w : List Char} (h : Date.Names Date.weekdays i w) :
    optionalWeekday (w ++ ',' :: tail) = some (some i, tail) := by
  rw [optionalWeekday, Scan.word_append h.length h.index]
  rfl

theorem optionalSecond_colon (hsecond : second < 10 ^ 2) :
    optionalSecond (':' :: (paddedDigits 2 second ++ tail)) = some (second, tail) := by
  change Scan.number 2 2 (paddedDigits 2 second ++ tail) = _
  exact Scan.number_padded (by decide) hsecond tail

theorem scanHttpDate_eq {weekday : Nat} {w m : List Char} (hw : Date.Names Date.weekdays weekday w)
    (hm : Date.Names Date.months (month - 1) m) (hmonth : 1 ≤ month) (hyear : year < 10 ^ 4)
    (hday : day < 10 ^ 2) (hhour : hour < 10 ^ 2) (hminute : minute < 10 ^ 2)
    (hsecond : second < 10 ^ 2) (hweekday : (⟨year, month, day⟩ : Date).weekday = weekday)
    (hcivil : Instant.ofCivil? ⟨year, month, day⟩ ⟨hour, minute, second, 0⟩ 0 = some u) :
    scanHttpDate (w ++ ',' :: ' ' :: (paddedDigits 2 day ++ ' ' :: (m ++ ' ' ::
      (paddedDigits 4 year ++ ' ' :: (paddedDigits 2 hour ++ ':' :: (paddedDigits 2 minute ++ ':' ::
        (paddedDigits 2 second ++ [' ', 'G', 'M', 'T']))))))) = some (u, []) := by
  have hnext : month - 1 + 1 = month := Nat.sub_add_cancel hmonth
  unfold scanHttpDate
  rw [Scan.bind_of_some (Scan.blanks_of_stops (isBlank_of_head_names hw)),
    Scan.bind_of_some (optionalWeekday_comma hw),
    Scan.bind_of_some (Scan.blanks_space (Scan.isBlank_of_head_padded (by decide))),
    Scan.bind_of_some (Scan.number_padded (by decide) hday _),
    Scan.bind_of_some (Scan.someBlanks_space (isBlank_of_head_names hm)),
    Scan.bind_of_some (Scan.word_append hm.length hm.index),
    Scan.bind_of_some (Scan.someBlanks_space (Scan.isBlank_of_head_padded (by decide))),
    Scan.bind_of_some (Scan.longNumber_padded (by decide) hyear (by simp; decide))]
  dsimp only
  rw [Scan.bind_of_some (Scan.someBlanks_space (Scan.isBlank_of_head_padded (by decide))),
    Scan.bind_of_some (Scan.number_padded (by decide) hhour _),
    Scan.bind_of_some (Scan.blanks_of_stops (by simp; decide)),
    Scan.bind_of_some (Scan.char_cons ':' _),
    Scan.bind_of_some (Scan.blanks_of_stops (Scan.isBlank_of_head_padded (by decide))),
    Scan.bind_of_some (Scan.number_padded (by decide) hminute _),
    Scan.bind_of_some (optionalSecond_colon hsecond),
    Scan.bind_of_some (Scan.someBlanks_space (by simp; decide)),
    Scan.bind_of_some (show zone ['G', 'M', 'T'] = some (0, []) from rfl),
    Scan.bind_of_some (show (modify fun s => skipComments s.length s : Scan Unit) [] = some ((), [])
      from rfl)]
  have hfull : fullYear year 4 = year := rfl
  rw [hfull, hnext, hweekday, hcivil, if_neg (by simp)]
  rfl

end Read

section Write

variable {t : Instant}

theorem toList_yearText {year : Int} (hlow : 0 ≤ year) (hhigh : year ≤ 9999) :
    (yearText year).toList = paddedDigits 4 year.natAbs := by
  have hlt : year.natAbs < 10 ^ 4 := by omega
  rw [yearText, if_pos ⟨hlow, hhigh⟩, Number.toList_padded_of_lt hlt]

theorem toList_pair {n : Nat} (h : n < 100) : (Number.padded 2 n).toList = paddedDigits 2 n :=
  Number.toList_padded_of_lt h

theorem toList_clockText (h : t.IsShown) : (clockText t.clock).toList =
    paddedDigits 2 t.clock.hour ++ ':' :: (paddedDigits 2 t.clock.minute ++ ':' ::
      paddedDigits 2 t.clock.second) := by
  obtain ⟨hhour, hminute, hsecond⟩ := Instant.clock_bounds h
  simp only [clockText, String.toList_append, toList_pair (by omega : t.clock.hour < 100),
    toList_pair (by omega : t.clock.minute < 100), toList_pair (by omega : t.clock.second < 100)]
  simp

def fractionChars (t : Instant) : List Char :=
  if millis t = 0 then ['Z'] else '.' :: (paddedDigits 3 (t.clock.nanos / 10 ^ 6) ++ ['Z'])

theorem decimals_fractionChars (h : t.IsShown) :
    decimals (fractionChars t) = some (t.clock.nanos / 10 ^ 6 * 10 ^ 6, ['Z']) := by
  have hnanos := Instant.clock_nanos h
  rw [fractionChars, millis]
  split_ifs with hmillis
  · have hzero : t.clock.nanos / 10 ^ 6 = 0 := by omega
    rw [hzero]
    rfl
  · have hlt : t.clock.nanos / 10 ^ 6 < 10 ^ 3 := by omega
    exact Scan.fraction_padded (by decide) (by decide) hlt (by simp; decide)

theorem toList_dateTimeText (h : t.IsCivil) :
    (dateTimeText t).toList = paddedDigits 4 t.date.year.natAbs ++ '-' ::
      (paddedDigits 2 t.date.month ++ '-' :: (paddedDigits 2 t.date.day ++ 'T' ::
        (paddedDigits 2 t.clock.hour ++ ':' :: (paddedDigits 2 t.clock.minute ++ ':' ::
          (paddedDigits 2 t.clock.second ++ fractionChars t))))) := by
  obtain ⟨-, hmonth, -, hday⟩ := t.date_bounds
  have hnanos := Instant.clock_nanos h.toIsShown
  have hmonth : (Number.padded 2 t.date.month).toList = paddedDigits 2 t.date.month :=
    toList_pair (Nat.lt_of_le_of_lt hmonth (by decide))
  have hday : (Number.padded 2 t.date.day).toList = paddedDigits 2 t.date.day :=
    toList_pair (Nat.lt_of_le_of_lt hday (by decide))
  have hmillis : (Number.padded 3 (t.clock.nanos / 1000000)).toList =
      paddedDigits 3 (t.clock.nanos / 10 ^ 6) :=
    Number.toList_padded_of_lt (by omega)
  have hend : ((if millis t = 0 then "" else "." ++ Number.padded 3 (t.clock.nanos / 1000000)) ++
      "Z").toList = fractionChars t := by
    rw [fractionChars]
    split_ifs
    · rfl
    · rw [String.toList_append, String.toList_append, hmillis]
      rfl
  simp only [dateTimeText, String.toList_append, toList_yearText h.year_nonneg h.year_le, hmonth, hday,
    toList_clockText h.toIsShown, ← hend]
  simp

theorem toList_httpDateText (h : t.IsCivil)
    {w m : List Char} (hw : Date.Names Date.weekdays t.date.weekday w)
    (hm : Date.Names Date.months (t.date.month - 1) m) :
    (httpDateText t).toList = w ++ ',' :: ' ' :: (paddedDigits 2 t.date.day ++ ' ' :: (m ++ ' ' ::
      (paddedDigits 4 t.date.year.natAbs ++ ' ' :: (paddedDigits 2 t.clock.hour ++ ':' ::
        (paddedDigits 2 t.clock.minute ++ ':' :: (paddedDigits 2 t.clock.second ++
          [' ', 'G', 'M', 'T'])))))) := by
  obtain ⟨-, -, -, hday⟩ := t.date_bounds
  have hday : (Number.padded 2 t.date.day).toList = paddedDigits 2 t.date.day :=
    toList_pair (Nat.lt_of_le_of_lt hday (by decide))
  simp only [httpDateText, String.toList_append, hw.text, hm.text, hday,
    toList_yearText h.year_nonneg h.year_le, toList_clockText h.toIsShown]
  simp

end Write

section RoundTrip

variable {t : Instant}

theorem date_eq (h : t.IsCivil) :
    (⟨(t.date.year.natAbs : Nat), t.date.month, t.date.day⟩ : Date) = t.date := by
  rw [Int.natAbs_of_nonneg h.year_nonneg]

theorem dateTime_read (h : t.IsCivil) :
    Scan.complete scanDateTime (dateTimeText t) = some (t.truncate (10 ^ 6)) := by
  obtain ⟨hhour, hminute, hsecond⟩ := Instant.clock_bounds h.toIsShown
  obtain ⟨-, hmonth, -, hday⟩ := t.date_bounds
  have hyear := h.year_le
  have hnonneg := h.year_nonneg
  have hnanos := Instant.clock_nanos h.toIsShown
  have hmost := h.nanos_lt
  have hlt : t.clock.nanos / 10 ^ 6 * 10 ^ 6 < 10 ^ 9 := by omega
  refine Scan.complete_of_nil ?_
  rw [toList_dateTimeText h]
  refine scanDateTime_eq (by omega) (by omega) (by omega) (by omega) (by omega) (by omega)
    (decimals_fractionChars h.toIsShown) ?_
  rw [date_eq h, Instant.ofCivil?_date_clock h.toIsShown h.isDated hlt, Instant.truncate,
    Option.some.injEq, Instant.mk.injEq]
  refine ⟨rfl, ?_⟩
  split_ifs <;> omega

theorem httpDate_read (h : t.IsCivil) :
    Scan.complete scanHttpDate (httpDateText t) = some (t.truncate (10 ^ 9)) := by
  obtain ⟨hhour, hminute, hsecond⟩ := Instant.clock_bounds h.toIsShown
  obtain ⟨hfirst, hmonth, -, hday⟩ := t.date_bounds
  have hyear := h.year_le
  have hnonneg := h.year_nonneg
  have hmost := h.nanos_lt
  have hplace : t.date.month - 1 < 12 := by omega
  obtain ⟨w, hw⟩ := Date.exists_names_weekday t.date.weekday_lt
  obtain ⟨m, hm⟩ := Date.exists_names_month hplace
  have hzero : 0 < 10 ^ 9 := by decide
  refine Scan.complete_of_nil ?_
  rw [toList_httpDateText h hw hm]
  refine scanHttpDate_eq hw hm hfirst (by omega) (by omega) (by omega) (by omega) (by omega) ?_ ?_
  · rw [date_eq h]
  · rw [date_eq h, Instant.ofCivil?_date_clock h.toIsShown h.isDated hzero, Instant.truncate,
      Option.some.injEq, Instant.mk.injEq]
    refine ⟨rfl, ?_⟩
    split_ifs <;> omega

theorem trim_dateTimeText (h : t.IsCivil) : Text.trim (dateTimeText t) = dateTimeText t := by
  refine Text.trim_of_ends ?_ ?_
  · rw [toList_dateTimeText h]
    exact Scan.isBlank_of_head_padded (by decide)
  · rw [dateTimeText, String.toList_append]
    exact Text.stops_append (a := 'Z') rfl rfl

theorem trim_httpDateText : Text.trim (httpDateText t) = httpDateText t := by
  obtain ⟨w, hw⟩ := Date.exists_names_weekday t.date.weekday_lt
  refine Text.trim_of_ends ?_ ?_
  · rw [httpDateText]
    simp only [String.toList_append, hw.text, List.append_assoc]
    exact isBlank_of_head_names hw
  · rw [httpDateText, String.toList_append]
    exact Text.stops_append (a := 'T') rfl rfl

theorem parse_format_of_isCivil (h : t.IsCivil) :
    dateTime.parse (dateTime.format t) = .ok (t.truncate (10 ^ 6)) ∧
      httpDate.parse (httpDate.format t) = .ok (t.truncate (10 ^ 9)) := by
  constructor
  · simp only [parse, format, trim_dateTimeText h, read?, dateTime_read h]
  · simp only [parse, format, trim_httpDateText, read?, httpDate_read h]

theorem leap_of_parse_truncate {f : TimestampFormat} {s : String} {unit : Nat} (hunit : unit ∣ 10 ^ 9)
    (h : f.parse s = .ok (t.truncate unit)) (hnanos : 10 ^ 9 ≤ t.nanos) : t.seconds % 60 = 59 := by
  refine (isShown_of_parse h).1.leap ?_
  obtain ⟨k, hk⟩ := hunit
  have hle : k ≤ t.nanos / unit := by
    rw [Nat.le_div_iff_mul_le (Nat.pos_of_ne_zero fun hzero => by simp [hzero] at hk), Nat.mul_comm,
      ← hk]
    exact hnanos
  calc 10 ^ 9 = k * unit := by rw [hk, Nat.mul_comm]
    _ ≤ t.nanos / unit * unit := Nat.mul_le_mul_right unit hle

/-- A date with a year of four digits is read as it was written, without what its format leaves out of
the second, and a leap second stays one: unless that leap second is in the middle of a minute. -/
theorem parse_format_eq_ok_iff (t : Instant) (hnanos : t.nanos < 2 * 10 ^ 9)
    (hlow : 0 ≤ t.date.year) (hhigh : t.date.year ≤ 9999) :
    (dateTime.parse (dateTime.format t) = .ok (t.truncate (10 ^ 6)) ↔
      (10 ^ 9 ≤ t.nanos → t.seconds % 60 = 59)) ∧
    (httpDate.parse (httpDate.format t) = .ok (t.truncate (10 ^ 9)) ↔
      (10 ^ 9 ≤ t.nanos → t.seconds % 60 = 59)) := by
  have hread := fun hleap => parse_format_of_isCivil (t := t) ⟨⟨hnanos, hleap⟩, hlow, hhigh⟩
  exact ⟨⟨leap_of_parse_truncate (by decide), fun hleap => (hread hleap).1⟩,
    ⟨leap_of_parse_truncate (by decide), fun hleap => (hread hleap).2⟩⟩

theorem parse_format_leap : 1500000000 < 2 * 10 ^ 9 ∧
    0 ≤ (⟨1483228799, 1500000000⟩ : Instant).date.year ∧
    (⟨1483228799, 1500000000⟩ : Instant).date.year ≤ 9999 ∧
    dateTime.format ⟨1483228799, 1500000000⟩ = "2016-12-31T23:59:60.500Z" ∧
    dateTime.parse "2016-12-31T23:59:60.500Z" = .ok ⟨1483228799, 1500000000⟩ ∧
    httpDate.format ⟨1483228799, 1500000000⟩ = "Sat, 31 Dec 2016 23:59:60 GMT" ∧
    httpDate.parse "Sat, 31 Dec 2016 23:59:60 GMT" = .ok ⟨1483228799, 1000000000⟩ := by
  obtain ⟨hdateTime, hhttpDate⟩ := parse_format_eq_ok_iff ⟨1483228799, 1500000000⟩ (by decide)
    (by decide) (by decide)
  exact ⟨by decide, by decide, by decide, rfl, hdateTime.2 fun _ => by decide, rfl,
    hhttpDate.2 fun _ => by decide⟩

/-- Half a second into a leap second after 18:30:38, which is no end of a minute, is written and read
as half a second after 18:30:39. -/
theorem parse_format_misplaced :
    dateTime.format ⟨1398796238, 1500000000⟩ = "2014-04-29T18:30:39.500Z" ∧
    dateTime.parse "2014-04-29T18:30:39.500Z" = .ok ⟨1398796239, 500000000⟩ ∧
    ¬ ∀ t : Instant, t.nanos < 2 * 10 ^ 9 → 0 ≤ t.date.year → t.date.year ≤ 9999 →
      dateTime.parse (dateTime.format t) = .ok (t.truncate (10 ^ 6)) ∧
        httpDate.parse (httpDate.format t) = .ok (t.truncate (10 ^ 9)) := by
  have hshown : Instant.IsCivil ⟨1398796239, 500000000⟩ :=
    ⟨⟨by decide, fun h => absurd h (by decide)⟩, by decide, by decide⟩
  have hparse : dateTime.parse "2014-04-29T18:30:39.500Z" = .ok ⟨1398796239, 500000000⟩ :=
    (parse_format_of_isCivil hshown).1
  refine ⟨rfl, hparse, fun h => ?_⟩
  obtain ⟨hdateTime, -⟩ := h ⟨1398796238, 1500000000⟩ (by decide) (by decide) (by decide)
  exact absurd (leap_of_parse_truncate (by decide) hdateTime (by decide)) (by decide)

end RoundTrip

end TimestampFormat

end ServiceClient.Time
