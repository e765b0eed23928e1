namespace RecordQuery.Calendar

/-- A day of the proleptic Gregorian calendar. -/
structure Date where
  year : Int
  month : Nat
  day : Nat
  deriving DecidableEq, Repr

def isLeap (year : Int) : Bool :=
  year % 4 == 0 && (year % 100 != 0 || year % 400 == 0)

def daysIn (year : Int) (month : Nat) : Nat :=
  match month with
  | 2 => if isLeap year then 29 else 28
  | 4 | 6 | 9 | 11 => 30
  | _ => 31

def firstYear : Int := -262143

def lastYear : Int := 262142

namespace Date

/-- The date of a year, a month and a day, when there is such a day in the years covered. -/
def make? (year : Int) (month day : Nat) : Option Date :=
  if firstYear ≤ year ∧ year ≤ lastYear ∧ 1 ≤ month ∧ month ≤ 12 ∧ 1 ≤ day ∧ day ≤ daysIn year month
  then some ⟨year, month, day⟩
  else none

/-- The days before a month in years that begin with March, so that a leap day comes last. -/
def daysBeforeMonth (month : Nat) : Nat :=
  (153 * ((month + 9) % 12) + 2) / 5

/-- The number of days from the first of January 1970 on. -/
def number (d : Date) : Int :=
  let year := if d.month ≤ 2 then d.year - 1 else d.year
  365 * year + year / 4 - year / 100 + year / 400 + daysBeforeMonth d.month + d.day - 719469

/-- The date of a number of days. Eras of 400 years have 146097 days each. -/
def ofNumber (n : Int) : Date :=
  let shifted := n + 719468
  let era := shifted / 146097
  let dayOfEra := (shifted % 146097).toNat
  let yearOfEra := (dayOfEra - dayOfEra / 1460 + dayOfEra / 36524 - dayOfEra / 146096) / 365
  let dayOfYear := dayOfEra - (365 * yearOfEra + yearOfEra / 4 - yearOfEra / 100)
  let shiftedMonth := (5 * dayOfYear + 2) / 153
  let month := (shiftedMonth + 2) % 12 + 1
  let year : Int := yearOfEra + 400 * era
  ⟨if month ≤ 2 then year + 1 else year, month, dayOfYear - (153 * shiftedMonth + 2) / 5 + 1⟩

/-- The day of the year, from one on. -/
def ordinal (d : Date) : Nat :=
  (d.number - number ⟨d.year, 1, 1⟩).toNat + 1

/-- The days since the last Monday. -/
def fromMonday (d : Date) : Nat :=
  ((d.number + 3) % 7).toNat

/-- The days since the last Sunday. -/
def fromSunday (d : Date) : Nat :=
  ((d.number + 4) % 7).toNat

/-- The week of the year, when weeks begin with the given day of the date's own week and the first
of them that lies in the year is number one. -/
def weekFrom (d : Date) (sinceStart : Nat) : Nat :=
  (d.ordinal + 6 - sinceStart) / 7

/-- The year and the number of the week that a date belongs to, when weeks begin on Monday and
belong to the year of their Thursday. -/
def isoWeek (d : Date) : Int × Nat :=
  let thursday := ofNumber (d.number - d.fromMonday + 3)
  (thursday.year, (thursday.ordinal - 1) / 7 + 1)

def monthNames : List String :=
  ["January", "February", "March", "April", "May", "June", "July", "August", "September", "October",
    "November", "December"]

def dayNames : List String :=
  ["Sunday", "Monday", "Tuesday", "Wednesday", "Thursday", "Friday", "Saturday"]

def monthName (d : Date) : String :=
  monthNames.getD (d.month - 1) ""

def dayName (d : Date) : String :=
  dayNames.getD d.fromSunday ""

end Date

/-- A moment in universal time: the day, the second of the day, and nanoseconds. A leap second is
the second before it with more than a whole second of nanoseconds. -/
structure Moment where
  day : Int
  second : Nat
  nano : Nat
  deriving DecidableEq, Repr

namespace Moment

def date (m : Moment) : Date :=
  Date.ofNumber m.day

def timestamp (m : Moment) : Int :=
  86400 * m.day + m.second

/-- The moment so many seconds after the beginning of 1970, within the years covered. -/
def ofTimestamp? (seconds : Int) : Option Moment :=
  let day := seconds / 86400
  if Date.number ⟨firstYear, 1, 1⟩ ≤ day ∧ day ≤ Date.number ⟨lastYear, 12, 31⟩ then
    some ⟨day, (seconds % 86400).toNat, 0⟩
  else none

/-- The moment of a local date and time that is `offset` seconds ahead of universal time. -/
def ofLocal (d : Date) (second nano : Nat) (offset : Int) : Moment :=
  let seconds := 86400 * d.number + second - offset
  ⟨seconds / 86400, (seconds % 86400).toNat, nano⟩

end Moment

end RecordQuery.Calendar
