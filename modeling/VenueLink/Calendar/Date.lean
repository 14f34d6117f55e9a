import VenueLink.Calendar.Scan

/-!
# Calendar dates

Dates of the Gregorian calendar with a year of either sign, limited to the years that a
timestamp can hold. `Date.text` writes a date as `YYYY-MM-DD`; `Date.ofText?` reads it back and
forgives short months and days and blanks around the numbers, `Date.ofQuery?` forgives blanks
only in front of them. `Date.toDays` counts days from the first of January 1970.
-/

namespace VenueLink

namespace Calendar

/-- A year with a 29th of February. -/
def isLeap (year : Int) : Bool :=
  year % 4 = 0 && (year % 100 ≠ 0 || year % 400 = 0)

/-- The number of days of a month; a month outside 1–12 has none. -/
def monthLength (year : Int) : Nat → Nat
  | 1 | 3 | 5 | 7 | 8 | 10 | 12 => 31
  | 4 | 6 | 9 | 11 => 30
  | 2 => if isLeap year then 29 else 28
  | _ => 0

/-- The earliest and the latest year. -/
def minYear : Int := -262143
def maxYear : Int := 262142

/-- The day exists and its year is in range. -/
def IsDay (year : Int) (month day : Nat) : Prop :=
  minYear ≤ year ∧ year ≤ maxYear ∧ 1 ≤ day ∧ day ≤ monthLength year month

instance (year : Int) (month day : Nat) : Decidable (IsDay year month day) :=
  inferInstanceAs (Decidable (_ ∧ _ ∧ _ ∧ _))

end Calendar

/-- A day of the calendar. -/
structure Date where
  year : Int
  month : Nat
  day : Nat
  isDay : Calendar.IsDay year month day
deriving DecidableEq

namespace Date

open Calendar

/-- The date of a year, month and day, if the day exists. -/
def make? (year : Int) (month day : Nat) : Option Date :=
  if h : IsDay year month day then some ⟨year, month, day, h⟩ else none

/-- The first of January 1970. -/
def epoch : Date :=
  ⟨1970, 1, 1, by decide⟩

instance : Inhabited Date := ⟨epoch⟩

/-- The order of dates in time. -/
def order (a b : Date) : Ordering :=
  (compare a.year b.year).then ((compare a.month b.month).then (compare a.day b.day))

/-- `a` is earlier than `b`. -/
def before (a b : Date) : Bool :=
  a.order b == .lt

/-- A year: four digits from 0 to 9999, else a sign and at least four digits. -/
def yearText (year : Int) : List Char :=
  if 0 ≤ year && year ≤ 9999 then Text.padded 4 year.toNat
  else (if year < 0 then '-' else '+') :: Text.padded 4 year.natAbs

/-- The date as year, month and day. -/
def chars (d : Date) : List Char :=
  yearText d.year ++ '-' :: Text.padded 2 d.month ++ '-' :: Text.padded 2 d.day

/-- The date as `YYYY-MM-DD`. -/
def text (d : Date) : String :=
  String.ofList d.chars

/-- Year, month and day with `-` between them, where `gap` is what may be passed over before
each `-`; and the rest. -/
def scan? (gap : List Char → List Char) (cs : List Char) : Option (Date × List Char) := do
  let (year, cs) ← year? cs
  let cs ← literal? '-' (gap cs)
  let (month, cs) ← number? 2 cs
  let cs ← literal? '-' (gap cs)
  let (day, cs) ← number? 2 cs
  let date ← make? year month day
  some (date, cs)

/-- A date, with blanks allowed around each number. -/
def ofText? (s : String) : Option Date := do
  let (date, rest) ← scan? Text.skipBlank s.toList
  if rest.all Text.isBlank then some date else none

/-- A date, with blanks allowed only in front of a number. -/
def ofQuery? (s : String) : Option Date := do
  let (date, rest) ← scan? id s.toList
  if rest.isEmpty then some date else none

/-- Days from the first of March of year 0 to the first of March of a year. -/
def daysToYear (year : Int) : Int :=
  365 * year + year / 4 - year / 100 + year / 400

/-- Days from the first of March to the first day of the month that comes `m` months later. -/
def daysToMonth (m : Nat) : Nat :=
  (153 * m + 2) / 5

/-- Days from the epoch to the date. Years are counted from March, so that a leap day is the
last day of its year. -/
def toDays (d : Date) : Int :=
  let year := if d.month ≤ 2 then d.year - 1 else d.year
  let month := (d.month + 9) % 12
  daysToYear year + daysToMonth month + d.day - 719469

/-- The date that lies `days` days after the epoch, if its year is in range. -/
def ofDays? (days : Int) : Option Date :=
  let z := days + 719468
  let era := z / 146097
  let dayOfEra := (z % 146097).toNat
  let yearOfEra := (dayOfEra - dayOfEra / 1460 + dayOfEra / 36524 - dayOfEra / 146096) / 365
  let dayOfYear := dayOfEra - (365 * yearOfEra + yearOfEra / 4 - yearOfEra / 100)
  let shifted := (5 * dayOfYear + 2) / 153
  let day := dayOfYear - daysToMonth shifted + 1
  let month := if shifted < 10 then shifted + 3 else shifted - 9
  let year : Int := yearOfEra + era * 400
  make? (if month ≤ 2 then year + 1 else year) month day

end Date

end VenueLink
