/-!
# Dates and times of day

Seconds since the start of 1970, in universal time, as dates of the Gregorian
calendar and times of day. Years are counted from March, so that the day that
may be missing is the last of its year; four hundred years have 146097 days.

* `Calendar.ofSeconds?` — the date and time, as far as the calendar goes.
* `Moment.text` — year, month, day and time, in that order.
-/

namespace Checkup

/-- A date and a time of day. -/
structure Moment where
  /-- the year; the one before the first year is the year zero -/
  year : Int
  /-- the month, from one on -/
  month : Nat
  /-- the day of the month, from one on -/
  day : Nat
  /-- the second of the day, from zero on -/
  second : Nat
  deriving DecidableEq, Repr

namespace Calendar

/-- The days from the start of March of the year zero to the start of 1970. -/
def daysBefore1970 : Int := 719468

/-- The days of four hundred years. -/
def cycleDays : Int := 146097

/-- The seconds of a day. -/
def daySeconds : Int := 86400

/-- The first and the last year of the calendar. -/
def years : Int × Int := (-262143, 262142)

/-- The year of a cycle in which a day of that cycle falls. -/
def yearOfCycle (day : Nat) : Nat :=
  (day - day / 1460 + day / 36524 - day / 146096) / 365

/-- The month, counted from March, in which a day of a year falls. -/
def monthOfYear (day : Nat) : Nat := (5 * day + 2) / 153

/-- The day of a year, counted from March, with which a month starts. -/
def monthStart (month : Nat) : Nat := (153 * month + 2) / 5

/-- The date of a day that is counted from the start of 1970. -/
def dateOfDay (day : Int) : Int × Nat × Nat :=
  let shifted := day + daysBefore1970
  let cycle := shifted / cycleDays
  let dayOfCycle := (shifted % cycleDays).toNat
  let year := yearOfCycle dayOfCycle
  let dayOfYear := dayOfCycle - (365 * year + year / 4 - year / 100)
  let month := monthOfYear dayOfYear
  let isNext := month ≥ 10
  (cycle * 400 + year + (if isNext then 1 else 0),
    if isNext then month - 9 else month + 3,
    dayOfYear - monthStart month + 1)

/-- The date and time of a number of seconds since the start of 1970. -/
def ofSeconds? (seconds : Int) : Option Moment :=
  let (year, month, day) := dateOfDay (seconds / daySeconds)
  if years.1 ≤ year ∧ year ≤ years.2 then
    some ⟨year, month, day, (seconds % daySeconds).toNat⟩
  else none

end Calendar

namespace Moment

/-- A number with zeros before it, up to a width. -/
def padded (width n : Nat) : String :=
  let digits := toString n
  String.ofList (List.replicate (width - digits.length) '0') ++ digits

/-- A year with at least four digits. It has a sign unless it has four digits and is not negative. -/
def yearText (year : Int) : String :=
  if 0 ≤ year ∧ year ≤ 9999 then padded 4 year.toNat
  else (if year < 0 then "-" else "+") ++ padded 4 year.natAbs

/-- The date and the time of day. -/
def text (m : Moment) : String :=
  yearText m.year ++ "-" ++ padded 2 m.month ++ "-" ++ padded 2 m.day ++ " " ++
    padded 2 (m.second / 3600) ++ ":" ++ padded 2 (m.second / 60 % 60) ++ ":" ++
    padded 2 (m.second % 60)

end Moment

end Checkup
