import Mathlib.Tactic.IntervalCases
import ServiceClient.Time.Calendar

/-! Every count of days since 1970 has a date, and the date has that count. A day is known by its era of
400 years, the year of the era, which starts in March, and its place in that year, the leap day being
the last one. -/

namespace ServiceClient.Time

def daysBeforeEraYear (y : Nat) : Nat := 365 * y + y / 4 - y / 100

theorem daysBeforeYear_add_era {y : Nat} (hy : y < 400) (era : Int) :
    daysBeforeYear (y + era * 400) = era * 146097 + daysBeforeEraYear y := by
  unfold daysBeforeYear daysBeforeEraYear
  omega

section Cycles

variable {century cycle year d day : Nat}

/-- A day's century of the era, its four years of the century, its year of these and its place in it. The
last year of the four has a day more, unless it ends a century that does not end the era. -/
theorem exists_cycles (h : day < 146097) :
    ∃ century cycle year d, century ≤ 3 ∧ cycle ≤ 24 ∧ year ≤ 3 ∧ d ≤ 365 ∧
      (d = 365 → year = 3 ∧ (cycle = 24 → century = 3)) ∧
      day = 36524 * century + 1461 * cycle + 365 * year + d := by
  obtain ⟨century, hcentury⟩ : ∃ c, c = min (day / 36524) 3 := ⟨_, rfl⟩
  obtain ⟨cycle, hcycle⟩ : ∃ q, q = (day - 36524 * century) / 1461 := ⟨_, rfl⟩
  obtain ⟨year, hyear⟩ : ∃ r, r = min ((day - 36524 * century) % 1461 / 365) 3 := ⟨_, rfl⟩
  refine ⟨century, cycle, year, (day - 36524 * century) % 1461 - 365 * year, ?_⟩
  omega

theorem daysBeforeEraYear_eq (hcycle : cycle ≤ 24) (hyear : year ≤ 3) :
    daysBeforeEraYear (100 * century + 4 * cycle + year) =
      36524 * century + 1461 * cycle + 365 * year := by
  have hfours : (100 * century + 4 * cycle + year) / 4 = 25 * century + cycle := by omega
  have hcenturies : (100 * century + 4 * cycle + year) / 100 = century := by omega
  rw [daysBeforeEraYear, hfours, hcenturies]
  omega

/-- Without the leap days that are in front of a day, each of its years has 365. -/
theorem eraYear_eq (hcentury : century ≤ 3) (hcycle : cycle ≤ 24) (hyear : year ≤ 3) (hd : d ≤ 365)
    (hleap : d = 365 → year = 3 ∧ (cycle = 24 → century = 3))
    (hday : day = 36524 * century + 1461 * cycle + 365 * year + d) :
    (day - day / 1460 + day / 36524 - day / 146096) / 365 = 100 * century + 4 * cycle + year := by
  by_cases hlast : day = 146096
  · subst hlast
    omega
  · have hcenturies : day / 36524 = century := by omega
    have hera : day / 146096 = 0 := by omega
    rw [hcenturies, hera]
    by_cases hlate : 1460 ≤ 24 * century + cycle + 365 * year + d
    · have hfours : day / 1460 = 25 * century + cycle + 1 := by omega
      have hthird : year = 3 := by omega
      rw [hfours]
      omega
    · have hfours : day / 1460 = 25 * century + cycle := by omega
      rw [hfours]
      omega

theorem exists_eraYear (h : day < 146097) :
    ∃ y d, y < 400 ∧ d ≤ 365 ∧ day = daysBeforeEraYear y + d ∧
      (d = 365 → (y + 1) % 4 = 0 ∧ ((y + 1) % 100 = 0 → y = 399)) ∧
      (day - day / 1460 + day / 36524 - day / 146096) / 365 = y := by
  obtain ⟨century, cycle, year, d, hcentury, hcycle, hyear, hd, hleap, hday⟩ := exists_cycles h
  refine ⟨100 * century + 4 * cycle + year, d, by omega, hd, ?_, by omega,
    eraYear_eq hcentury hcycle hyear hd hleap hday⟩
  rw [daysBeforeEraYear_eq hcycle hyear, hday]

end Cycles

namespace Date

def ofYearDay (y : Int) (d : Nat) : Date :=
  let m := (5 * d + 2) / 153
  ⟨if m < 10 then y else y + 1, if m < 10 then m + 3 else m - 9, d - (153 * m + 2) / 5 + 1⟩

variable {y : Int} {d : Nat}

theorem toDays_ofYearDay (hd : d ≤ 365) :
    (ofYearDay y d).toDays = daysBeforeYear y + d - 719468 := by
  have hm : (5 * d + 2) / 153 ≤ 11 := by omega
  unfold toDays ofYearDay
  generalize hmonth : (5 * d + 2) / 153 = m at hm ⊢
  by_cases hlate : m < 10
  · have hmarch : ¬ m + 3 ≤ 2 := by omega
    simp only [hlate, if_true, hmarch, if_false, Nat.add_sub_cancel]
    omega
  · have hjanuary : m - 9 ≤ 2 := by omega
    have hback : m - 9 + 9 = m := by omega
    simp only [hlate, if_false, hjanuary, if_true, hback, add_sub_cancel_right]
    omega

theorem isValid_ofYearDay (hd : d ≤ 365) (hleap : d = 365 → isLeapYear (y + 1) = true) :
    (ofYearDay y d).isValid = true := by
  have hm : (5 * d + 2) / 153 ≤ 11 := by omega
  have hfebruary : d - 336 ≤ if isLeapYear (y + 1) = true then 29 else 28 := by
    split_ifs with h
    · omega
    · have hlast := mt hleap h
      omega
  unfold isValid ofYearDay
  generalize hmonth : (5 * d + 2) / 153 = m at hm ⊢
  simp only [Bool.and_eq_true, decide_eq_true_eq]
  refine ⟨⟨⟨by split_ifs <;> omega, by split_ifs <;> omega⟩, by omega⟩, ?_⟩
  interval_cases m <;> simp [daysInMonth] <;> omega

theorem exists_ofDays (n : Int) : ∃ (y : Int) (d : Nat), d ≤ 365 ∧
    (d = 365 → isLeapYear (y + 1) = true) ∧ n = daysBeforeYear y + d - 719468 ∧
      ofDays n = ofYearDay y d := by
  obtain ⟨era, hera⟩ : ∃ era, era = (n + 719468) / 146097 := ⟨_, rfl⟩
  obtain ⟨day, hday⟩ : ∃ day, day = ((n + 719468) % 146097).toNat := ⟨_, rfl⟩
  have hlt : day < 146097 := by omega
  obtain ⟨y, d, hy, hd, hplace, hleap, hyear⟩ := exists_eraYear hlt
  refine ⟨y + era * 400, d, hd, ?_, ?_, ?_⟩
  · intro hlast
    obtain ⟨hfour, hcentury⟩ := hleap hlast
    simp only [isLeapYear, Bool.and_eq_true, Bool.or_eq_true, beq_iff_eq, bne_iff_ne]
    omega
  · rw [daysBeforeYear_add_era hy]
    omega
  · have hrest : day - daysBeforeEraYear y = d := by omega
    unfold daysBeforeEraYear at hrest
    have hm : (5 * d + 2) / 153 ≤ 11 := by omega
    simp only [ofDays, ← hera, ← hday, hyear, hrest, ofYearDay]
    generalize (5 * d + 2) / 153 = m at hm ⊢
    congr 1
    split_ifs <;> omega

theorem toDays_ofDays (n : Int) : (ofDays n).toDays = n := by
  obtain ⟨y, d, hd, -, hn, hdate⟩ := exists_ofDays n
  rw [hdate, toDays_ofYearDay hd, hn]

theorem isValid_ofDays (n : Int) : (ofDays n).isValid = true := by
  obtain ⟨y, d, hd, hleap, -, hdate⟩ := exists_ofDays n
  rw [hdate, isValid_ofYearDay hd hleap]

theorem daysInMonth_le (y : Int) (m : Nat) : daysInMonth y m ≤ 31 := by
  unfold daysInMonth
  split
  · split_ifs <;> decide
  all_goals decide

theorem bounds_of_isValid {d : Date} (h : d.isValid = true) :
    1 ≤ d.month ∧ d.month ≤ 12 ∧ 1 ≤ d.day ∧ d.day ≤ 31 := by
  simp only [isValid, Bool.and_eq_true, decide_eq_true_eq] at h
  obtain ⟨⟨⟨hmonth, hmonths⟩, hday⟩, hdays⟩ := h
  exact ⟨hmonth, hmonths, hday, Nat.le_trans hdays (daysInMonth_le d.year d.month)⟩

theorem weekday_lt (d : Date) : d.weekday < 7 := by
  unfold weekday
  omega

theorem days_of_year {n : Int} (hlow : 0 ≤ (ofDays n).year) (hhigh : (ofDays n).year ≤ 9999) :
    -719528 ≤ n ∧ n ≤ 2932896 := by
  obtain ⟨y, d, hd, -, hn, hdate⟩ := exists_ofDays n
  have hm : (5 * d + 2) / 153 < 10 ↔ d ≤ 305 := by omega
  rw [hdate] at hlow hhigh
  simp only [ofYearDay, hm] at hlow hhigh
  rw [daysBeforeYear] at hn
  split_ifs at hlow hhigh <;> omega

end Date

namespace Instant

def total (t : Instant) : Int := t.seconds * 10 ^ 9 + t.nanos

def truncate (t : Instant) (unit : Nat) : Instant := ⟨t.seconds, t.nanos / unit * unit⟩

def IsDated (seconds : Int) : Prop := firstDay ≤ seconds / 86400 ∧ seconds / 86400 ≤ lastDay

variable {seconds : Int} {nanos : Nat} {t : Instant}

theorem ofSeconds?_eq_some_iff :
    ofSeconds? seconds nanos = some t ↔ IsDated seconds ∧ t = ⟨seconds, nanos⟩ := by
  unfold ofSeconds? IsDated
  split_ifs with h
  · simp [h, eq_comm]
  · simp [h]

theorem IsDated.bounds (h : IsDated seconds) : -2 ^ 63 ≤ seconds ∧ seconds < 2 ^ 63 := by
  have hfirst : firstDay = -96465292 := by decide
  have hlast : lastDay = 95026236 := by decide
  obtain ⟨hlow, hhigh⟩ := h
  omega

/-- An instant that a clock can show: only the last second of a minute is followed by a leap second. -/
structure IsShown (t : Instant) : Prop where
  nanos_lt : t.nanos < 2 * 10 ^ 9
  leap : 10 ^ 9 ≤ t.nanos → t.seconds % 60 = 59

structure IsCivil (t : Instant) : Prop extends t.IsShown where
  year_nonneg : 0 ≤ t.date.year
  year_le : t.date.year ≤ 9999

theorem date_bounds (t : Instant) :
    1 ≤ t.date.month ∧ t.date.month ≤ 12 ∧ 1 ≤ t.date.day ∧ t.date.day ≤ 31 :=
  Date.bounds_of_isValid (Date.isValid_ofDays (t.seconds / 86400))

theorem IsCivil.isDated (h : t.IsCivil) : IsDated t.seconds := by
  have hfirst : firstDay = -96465292 := by decide
  have hlast : lastDay = 95026236 := by decide
  have hdays := Date.days_of_year h.year_nonneg h.year_le
  unfold IsDated
  omega

theorem clock_bounds (h : t.IsShown) :
    t.clock.hour < 24 ∧ t.clock.minute < 60 ∧ t.clock.second ≤ 60 := by
  have hleap := h.leap
  unfold clock
  split_ifs with hnanos <;> dsimp only <;> omega

theorem clock_second_eq (h : t.IsShown) : t.clock.second = 60 ↔ 10 ^ 9 ≤ t.nanos := by
  have hleap := h.leap
  unfold clock
  split_ifs with hnanos <;> dsimp only <;> omega

/-- The seconds of the day; those of a leap second are those of the second before it. -/
theorem clock_seconds (h : t.IsShown) :
    ((t.clock.hour * 3600 + t.clock.minute * 60 +
      (if t.clock.second = 60 then 59 else t.clock.second) : Nat) : Int) = t.seconds % 86400 := by
  have hleap := h.leap
  unfold clock
  split_ifs with hnanos hsecond hsecond <;> dsimp only at * <;> omega

theorem clock_nanos (h : t.IsShown) : t.clock.nanos = t.nanos % 10 ^ 9 := by
  have hlt := h.nanos_lt
  unfold clock
  split_ifs with hnanos <;> dsimp only <;> omega

theorem ofCivil?_date_clock (h : t.IsShown) (hdated : IsDated t.seconds) (hnanos : nanos < 10 ^ 9) :
    ofCivil? t.date ⟨t.clock.hour, t.clock.minute, t.clock.second, nanos⟩ 0 =
      some ⟨t.seconds, if t.nanos < 10 ^ 9 then nanos else nanos + 10 ^ 9⟩ := by
  obtain ⟨hhour, hminute, hsecond⟩ := clock_bounds h
  have hdays : t.date.toDays = t.seconds / 86400 := Date.toDays_ofDays _
  have hseconds := clock_seconds h
  have hguard : t.date.isValid = true ∧ t.clock.hour < 24 ∧ t.clock.minute < 60 ∧
      t.clock.second ≤ 60 ∧ nanos < 1000000000 :=
    ⟨Date.isValid_ofDays _, hhour, hminute, hsecond, hnanos⟩
  have hrange : firstDay ≤ t.date.toDays ∧ t.date.toDays ≤ lastDay := by rwa [hdays]
  have hlocal : ∀ n : Nat, (n : Int) = t.seconds % 86400 →
      ofSeconds? (t.date.toDays * 86400 + n - 0) = ofSeconds? t.seconds := by
    intro n hn
    rw [hdays, hn, Int.sub_zero, Int.ediv_mul_add_emod]
  have hread : ∀ n, ofSeconds? t.seconds n = some ⟨t.seconds, n⟩ := fun n =>
    ofSeconds?_eq_some_iff.2 ⟨hdated, rfl⟩
  unfold ofCivil?
  rw [if_pos hguard]
  by_cases hleap : t.clock.second = 60
  · have hlate := (clock_second_eq h).1 hleap
    rw [if_pos hleap] at hseconds
    simp only [if_pos hleap, if_pos hrange, if_neg (Nat.not_lt.2 hlate), hlocal _ hseconds, hread]
    rfl
  · have hearly := mt (clock_second_eq h).2 hleap
    rw [if_neg hleap] at hseconds
    simp only [if_neg hleap, if_pos hrange, if_pos (Nat.lt_of_not_le hearly), hlocal _ hseconds, hread]

/-- Offsets of whole minutes leave a leap second at the end of its minute. -/
theorem isShown_of_ofCivil? {d : Date} {c : Clock} {offset : Int} (hoffset : offset % 60 = 0)
    (h : ofCivil? d c offset = some t) : t.IsShown ∧ IsDated t.seconds := by
  unfold ofCivil? at h
  split_ifs at h with hguard hleap hrange
  all_goals
    obtain ⟨-, -, -, -, hnanos⟩ := hguard
    obtain ⟨hdated, rfl⟩ := ofSeconds?_eq_some_iff.1 h
    exact ⟨⟨by dsimp only; omega, by dsimp only; omega⟩, hdated⟩

end Instant

end ServiceClient.Time
