import ServiceClient.Time.Scan
import ServiceClient.Wire.Error

/-!
Timestamps on the wire: seconds since the epoch, the date and time of RFC 3339, or the date of an
HTTP header. Writing keeps milliseconds where the format has a place for them; reading takes the
wider grammars of RFC 3339 and RFC 2822.
-/

namespace ServiceClient.Time

inductive TimestampFormat where
  | epochSeconds
  | dateTime
  | httpDate
  deriving DecidableEq, Repr, Inhabited

namespace TimestampFormat

def name : TimestampFormat → String
  | .epochSeconds => "EpochSeconds"
  | .dateTime => "DateTime"
  | .httpDate => "HttpDate"

/-- The milliseconds of the second; a leap second has 1000 or more. -/
def millis (t : Instant) : Nat := t.nanos / 1000000

def epochText (t : Instant) : String :=
  if millis t = 0 then toString t.seconds
  else toString t.seconds ++ "." ++ Number.padded 3 (millis t)

def clockText (c : Clock) : String :=
  Number.padded 2 c.hour ++ ":" ++ Number.padded 2 c.minute ++ ":" ++ Number.padded 2 c.second

def dateTimeText (t : Instant) : String :=
  let d := t.date
  let c := t.clock
  yearText d.year ++ "-" ++ Number.padded 2 d.month ++ "-" ++ Number.padded 2 d.day ++ "T" ++
    clockText c ++ (if millis t = 0 then "" else "." ++ Number.padded 3 (c.nanos / 1000000)) ++ "Z"

def httpDateText (t : Instant) : String :=
  let d := t.date
  Date.weekdays.getD d.weekday "" ++ ", " ++ Number.padded 2 d.day ++ " " ++
    Date.months.getD (d.month - 1) "" ++ " " ++ yearText d.year ++ " " ++ clockText t.clock ++ " GMT"

def format : TimestampFormat → Instant → String
  | .epochSeconds => epochText
  | .dateTime => dateTimeText
  | .httpDate => httpDateText

/-- Whole seconds with an optional sign, then at most nine decimals that count: they are added to
the seconds whatever the sign. -/
def readEpoch (s : String) : Option Instant := do
  let (whole, fraction) := (Text.splitFirst? (· == '.') s.toList).getD (s.toList, [])
  let seconds ← (Number.readInteger (Nat.pow 2 63 - 1) whole).toOption
  if fraction.all Number.isDigit then
    let nine := fraction.take 9
    Instant.ofSeconds? seconds (Scan.digitsOf nine * Nat.pow 10 (9 - nine.length))
  else none

def decimals : Scan Nat
  | '.' :: rest => Scan.fraction rest
  | s => some (0, s)

def offsetOrZulu : Scan Int
  | 'z' :: rest => some (0, rest)
  | 'Z' :: rest => some (0, rest)
  | s => Scan.offset true (Scan.char ':') s

open Scan in
def scanDateTime : Scan Instant := do
  let year ← number 4 4
  char '-'
  let month ← number 2 2
  char '-'
  let day ← number 2 2
  oneOf ['t', 'T', ' ']
  let hour ← number 2 2
  char ':'
  let minute ← number 2 2
  char ':'
  let second ← number 2 2
  let nanos ← decimals
  let offset ← offsetOrZulu
  if 86400 ≤ offset.natAbs then fail
  else
    (Instant.ofCivil? ⟨year, month, day⟩ ⟨hour, minute, second, nanos⟩ offset : Option Instant)

def zones : List (String × Int) :=
  [("gmt", 0), ("ut", 0), ("z", 0), ("edt", -4), ("est", -5), ("cdt", -5), ("cst", -6),
    ("mdt", -6), ("mst", -7), ("pdt", -7), ("pst", -8)]

/-- A zone's name or its offset; the other single letters but J stand for an unknown zone. -/
def zone : Scan Int := fun s =>
  let letters := s.takeWhile Char.isAlpha
  let rest := s.drop letters.length
  if letters.isEmpty then Scan.offset false (pure ()) s
  else match zones.lookup (String.ofList (letters.map Char.toLower)) with
    | some hours => some (hours * 3600, rest)
    | none => if letters.length = 1 ∧ letters.head? ∉ [some 'j', some 'J'] then some (0, rest) else none

/-- The rest after a comment in parentheses, which nest and where a backslash hides the next
character; `depth` counts those open. -/
def closeComment : (depth : Nat) → List Char → Option (List Char)
  | _, [] => none
  | depth, '\\' :: _ :: rest => closeComment depth rest
  | depth, '(' :: rest => closeComment (depth + 1) rest
  | depth, ')' :: rest => if depth ≤ 1 then some rest else closeComment (depth - 1) rest
  | depth, _ :: rest => closeComment depth rest

/-- Skips comments; blanks before one belong to it. -/
def skipComments : (fuel : Nat) → List Char → List Char
  | 0, s => s
  | fuel + 1, s =>
    match s.dropWhile Text.isBlank with
    | '(' :: rest =>
      match closeComment 1 rest with
      | some rest => skipComments fuel rest
      | none => s
    | _ => s

/-- Years of two digits are those from 1950 to 2049, years of three count from 1900. -/
def fullYear (value digits : Nat) : Nat :=
  if digits = 2 then if value < 50 then value + 2000 else value + 1900
  else if digits = 3 then value + 1900
  else value

def optionalWeekday : Scan (Option Nat) := fun s =>
  match Scan.word Date.weekdays s with
  | none => some (none, s)
  | some (w, ',' :: rest) => some (some w, rest)
  | some _ => none

def optionalSecond : Scan Nat := fun s =>
  match s.dropWhile Text.isBlank with
  | ':' :: rest => Scan.number 2 2 rest
  | _ => some (0, s)

open Scan in
def scanHttpDate : Scan Instant := do
  blanks
  let weekday ← optionalWeekday
  blanks
  let day ← number 1 2
  someBlanks
  let month ← word Date.months
  someBlanks
  let (value, digits) ← longNumber 2
  someBlanks
  let hour ← number 2 2
  blanks
  char ':'
  blanks
  let minute ← number 2 2
  let second ← optionalSecond
  someBlanks
  let offset ← zone
  modify fun s => skipComments s.length s
  let date : Date := ⟨fullYear value digits, month + 1, day⟩
  if 86400 ≤ offset.natAbs ∨ (weekday.isSome ∧ weekday ≠ some date.weekday) then fail
  else (Instant.ofCivil? date ⟨hour, minute, second, 0⟩ offset : Option Instant)

def read? : TimestampFormat → String → Option Instant
  | .epochSeconds => readEpoch
  | .dateTime => Scan.complete scanDateTime
  | .httpDate => Scan.complete scanHttpDate

/-- Blanks around the text do not count. -/
def parse (f : TimestampFormat) (s : String) : Except WireError Instant :=
  let s := Text.trim s
  match f.read? s with
  | some t => .ok t
  | none => .error (.invalidValue s (f.name ++ " timestamp"))

end TimestampFormat

end ServiceClient.Time
