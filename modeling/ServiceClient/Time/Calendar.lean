import ServiceClient.Number.Integer

/-!
Instants and the proleptic Gregorian calendar. An instant is a count of seconds since 1970 and the
nanoseconds of that second; in a leap second these go on past a thousand million.
-/

namespace ServiceClient.Time

structure Instant where
  seconds : Int
  nanos : Nat
  deriving DecidableEq, Repr, Inhabited

structure Date where
  year : Int
  month : Nat
  day : Nat
  deriving DecidableEq, Repr

/-- The time of day; `second` is 60 in a leap second. -/
structure Clock where
  hour : Nat
  minute : Nat
  second : Nat
  nanos : Nat
  deriving DecidableEq, Repr

def isLeapYear (year : Int) : Bool :=
  year % 4 == 0 && (year % 100 != 0 || year % 400 == 0)

def daysInMonth (year : Int) (month : Nat) : Nat :=
  match month with
  | 2 => if isLeapYear year then 29 else 28
  | 4 | 6 | 9 | 11 => 30
  | _ => 31

/-- Days of the years before the given one, which starts in March, since March of year 0. -/
def daysBeforeYear (y : Int) : Int :=
  365 * y + y / 4 - y / 100 + y / 400

namespace Date

def isValid (d : Date) : Bool :=
  1 ≤ d.month && d.month ≤ 12 && 1 ≤ d.day && d.day ≤ daysInMonth d.year d.month

/-- Days since 1970-01-01. Years count from March, so that the leap day is the last one. -/
def toDays (d : Date) : Int :=
  let (y, m) := if d.month ≤ 2 then (d.year - 1, d.month + 9) else (d.year, d.month - 3)
  daysBeforeYear y + (153 * m + 2) / 5 + d.day - 1 - 719468

def ofDays (days : Int) : Date :=
  let z := days + 719468
  let era := z / 146097
  let dayOfEra := (z % 146097).toNat
  let yearOfEra := (dayOfEra - dayOfEra / 1460 + dayOfEra / 36524 - dayOfEra / 146096) / 365
  let dayOfYear := dayOfEra - (365 * yearOfEra + yearOfEra / 4 - yearOfEra / 100)
  let m := (5 * dayOfYear + 2) / 153
  let day := dayOfYear - (153 * m + 2) / 5 + 1
  let month := if m < 10 then m + 3 else m - 9
  let year := (yearOfEra : Int) + era * 400
  ⟨if month ≤ 2 then year + 1 else year, month, day⟩

def weekdays : List String := ["Mon", "Tue", "Wed", "Thu", "Fri", "Sat", "Sun"]

def months : List String :=
  ["Jan", "Feb", "Mar", "Apr", "May", "Jun", "Jul", "Aug", "Sep", "Oct", "Nov", "Dec"]

/-- The weekday's place in `weekdays`; 1970 began on a Thursday. -/
def weekday (d : Date) : Nat :=
  ((d.toDays + 3) % 7).toNat

end Date

namespace Instant

/-- The days of the years from -262143 to 262142. -/
def firstDay : Int := Date.toDays ⟨-262143, 1, 1⟩
def lastDay : Int := Date.toDays ⟨262142, 12, 31⟩

def ofSeconds? (seconds : Int) (nanos : Nat) : Option Instant :=
  if firstDay ≤ seconds / 86400 ∧ seconds / 86400 ≤ lastDay then some ⟨seconds, nanos⟩ else none

def date (t : Instant) : Date :=
  Date.ofDays (t.seconds / 86400)

def clock (t : Instant) : Clock :=
  let s := (t.seconds % 86400).toNat
  if t.nanos < 1000000000 then ⟨s / 3600, s / 60 % 60, s % 60, t.nanos⟩
  else ⟨s / 3600, s / 60 % 60, s % 60 + 1, t.nanos - 1000000000⟩

def ofCivil? (d : Date) (c : Clock) (offset : Int) : Option Instant :=
  if d.isValid ∧ c.hour < 24 ∧ c.minute < 60 ∧ c.second ≤ 60 ∧ c.nanos < 1000000000 then
    let (second, nanos) := if c.second = 60 then (59, c.nanos + 1000000000) else (c.second, c.nanos)
    let local_ := d.toDays * 86400 + (c.hour * 3600 + c.minute * 60 + second : Nat)
    if firstDay ≤ d.toDays ∧ d.toDays ≤ lastDay then ofSeconds? (local_ - offset) nanos else none
  else none

end Instant

/-- Four digits from 0 to 9999, and else a sign and at least four digits. -/
def yearText (year : Int) : String :=
  let digits := Number.padded 4 year.natAbs
  if 0 ≤ year ∧ year ≤ 9999 then digits else (if year < 0 then "-" else "+") ++ digits

end ServiceClient.Time
