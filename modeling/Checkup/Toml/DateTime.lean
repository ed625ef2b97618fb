import Checkup.Text.Digits

/-!
# Dates and times

Dates, times and offsets of TOML, read from text and written in one normal
form: `T` between date and time, `Z` for no offset, and no trailing zeros in a
fraction of a second.
-/

namespace Checkup.Toml

/-- A day. -/
structure Date where
  /-- the year -/
  year : Nat
  /-- the month, from one -/
  month : Nat
  /-- the day of the month, from one -/
  day : Nat
  deriving DecidableEq, Repr

/-- A time of day. -/
structure Time where
  /-- the hour -/
  hour : Nat
  /-- the minute -/
  minute : Nat
  /-- the second; 60 is a leap second -/
  second : Nat
  /-- the fraction of the second -/
  nanosecond : Nat
  deriving DecidableEq, Repr

/-- How far a clock is from universal time. -/
inductive Offset where
  /-- universal time -/
  | utc
  /-- minutes to the east -/
  | minutes (east : Int)
  deriving DecidableEq, Repr

/-- A date, a time or both; only both have an offset. -/
inductive DateTime where
  /-- a day -/
  | date (d : Date)
  /-- a time of day -/
  | time (t : Time)
  /-- a point in time, of a local clock if there is no offset -/
  | instant (d : Date) (t : Time) (offset : Option Offset)
  deriving DecidableEq, Repr

/-! ## Writing -/

/-- A number with at least `width` digits. -/
def padded (width n : Nat) : String :=
  let digits := Nat.toDigits 10 n
  String.ofList (List.replicate (width - digits.length) '0' ++ digits)

/-- A day as `2024-02-29`. -/
def Date.text (d : Date) : String :=
  padded 4 d.year ++ "-" ++ padded 2 d.month ++ "-" ++ padded 2 d.day

/-- A time as `07:32:00.5`. -/
def Time.text (t : Time) : String :=
  let fraction := (padded 9 t.nanosecond).toList.reverse.dropWhile (· = '0') |>.reverse
  padded 2 t.hour ++ ":" ++ padded 2 t.minute ++ ":" ++ padded 2 t.second ++
    (if t.nanosecond = 0 then "" else "." ++ String.ofList fraction)

/-- An offset as `Z` or `-07:00`. -/
def Offset.text : Offset → String
  | utc => "Z"
  | minutes east =>
    (if east < 0 then "-" else "+") ++ padded 2 (east.natAbs / 60) ++ ":" ++
      padded 2 (east.natAbs % 60)

/-- The normal form of a date or time. -/
def DateTime.text : DateTime → String
  | date d => d.text
  | time t => t.text
  | instant d t offset => d.text ++ "T" ++ t.text ++ (offset.map Offset.text).getD ""

/-! ## Reading -/

/-- The number that exactly `width` decimal digits at the front stand for. -/
def fixedDigits (width : Nat) (cs : List Char) : Option (Nat × List Char) :=
  let digits := cs.take width
  if digits.length = width ∧ digits.all Char.isDigit then
    some (Text.decimalNumber digits, cs.drop width)
  else none

/-- The text behind one expected character. -/
def skipChar (c : Char) : List Char → Option (List Char)
  | [] => none
  | d :: rest => if d = c then some rest else none

/-- The number of days of a month. -/
def daysInMonth (year month : Nat) : Nat :=
  if month = 2 then
    if year % 4 = 0 ∧ (year % 100 ≠ 0 ∨ year % 400 = 0) then 29 else 28
  else if month = 4 ∨ month = 6 ∨ month = 9 ∨ month = 11 then 30
  else 31

/-- A day at the front. -/
def readDate (cs : List Char) : Option (Date × List Char) := do
  let (year, cs) ← fixedDigits 4 cs
  let cs ← skipChar '-' cs
  let (month, cs) ← fixedDigits 2 cs
  let cs ← skipChar '-' cs
  let (day, cs) ← fixedDigits 2 cs
  guard (1 ≤ month ∧ month ≤ 12 ∧ 1 ≤ day ∧ day ≤ daysInMonth year month)
  return (⟨year, month, day⟩, cs)

/-- Nanoseconds from the digits behind the point; further digits are dropped. -/
def nanoseconds (digits : List Char) : Nat :=
  let kept := digits.take 9
  Text.decimalNumber kept * Nat.pow 10 (9 - kept.length)

/-- A fraction of a second at the front, or none. -/
def readFraction : List Char → Option (Nat × List Char)
  | '.' :: rest =>
    let digits := rest.takeWhile Char.isDigit
    if digits.isEmpty then none else some (nanoseconds digits, rest.dropWhile Char.isDigit)
  | cs => some (0, cs)

/-- A time of day at the front. -/
def readTime (cs : List Char) : Option (Time × List Char) := do
  let (hour, cs) ← fixedDigits 2 cs
  let cs ← skipChar ':' cs
  let (minute, cs) ← fixedDigits 2 cs
  let cs ← skipChar ':' cs
  let (second, cs) ← fixedDigits 2 cs
  guard (hour ≤ 23 ∧ minute ≤ 59 ∧ second ≤ 60)
  let (nanosecond, cs) ← readFraction cs
  return (⟨hour, minute, second, nanosecond⟩, cs)

/-- Hours and minutes of an offset at the front, as minutes. -/
def readOffsetMinutes (cs : List Char) : Option (Nat × List Char) := do
  let (hour, cs) ← fixedDigits 2 cs
  let cs ← skipChar ':' cs
  let (minute, cs) ← fixedDigits 2 cs
  guard (hour ≤ 23 ∧ minute ≤ 59)
  return (hour * 60 + minute, cs)

/-- An offset at the front, or none. -/
def readOffset : List Char → Option (Option Offset × List Char)
  | 'Z' :: rest => some (some .utc, rest)
  | 'z' :: rest => some (some .utc, rest)
  | '+' :: rest => (readOffsetMinutes rest).map fun (n, cs) => (some (.minutes n), cs)
  | '-' :: rest => (readOffsetMinutes rest).map fun (n, cs) => (some (.minutes (-n)), cs)
  | cs => some (none, cs)

/-- Whether a character may stand between date and time. -/
def isTimeMark (c : Char) : Bool := c = 'T' || c = 't' || c = ' '

/-- A date, a time or both, as the whole text. -/
def readDateTime (cs : List Char) : Option DateTime :=
  match readDate cs with
  | some (d, []) => some (.date d)
  | some (d, mark :: rest) =>
    if isTimeMark mark then
      match readTime rest with
      | some (t, rest) =>
        match readOffset rest with
        | some (offset, []) => some (.instant d t offset)
        | _ => none
      | none => none
    else none
  | none =>
    match readTime cs with
    | some (t, []) => some (.time t)
    | _ => none

end Checkup.Toml
