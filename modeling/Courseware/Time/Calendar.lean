import Courseware.Text.Slug
import Courseware.Time.Duration

/-!
The calendar: dates of the Gregorian calendar, instants as seconds since the start of 1970, their
RFC 3339 form, and the file name of a package made on a date.
-/

namespace Courseware.Time

/-- A date of the Gregorian calendar. -/
structure Date where
  year : Int
  month : Nat
  day : Nat
  deriving DecidableEq, Repr

/-- Whether a year has a day more than 365. -/
def isLeapYear (year : Int) : Bool :=
  year % 4 = 0 && (year % 100 ≠ 0 || year % 400 = 0)

def daysInMonth (year : Int) (month : Nat) : Nat :=
  if month = 2 then (if isLeapYear year then 29 else 28)
  else if month = 4 ∨ month = 6 ∨ month = 9 ∨ month = 11 then 30
  else 31

def firstYear : Int := -262143

def lastYear : Int := 262142

namespace Date

/-- Whether the date exists. -/
def Valid (d : Date) : Prop :=
  1 ≤ d.month ∧ d.month ≤ 12 ∧ 1 ≤ d.day ∧ d.day ≤ daysInMonth d.year d.month

instance (d : Date) : Decidable d.Valid :=
  inferInstanceAs (Decidable (_ ∧ _ ∧ _ ∧ _))

/-- The date with the given parts, when it exists in a year of the calendar. -/
def ofParts? (year : Int) (month day : Nat) : Option Date :=
  let d : Date := ⟨year, month, day⟩
  if firstYear ≤ year ∧ year ≤ lastYear ∧ d.Valid then some d else none

/-- The lengths of the months from March on. The leap day is the last day of the list. -/
def monthsFromMarch : List Nat := [31, 30, 31, 30, 31, 31, 30, 31, 30, 31, 31, 29]

/-- Finds the month, counted from zero, and the day in it that a number of days leads to. -/
def placeInMonths : List Nat → Nat → Nat × Nat
  | [], day => (0, day)
  | length :: rest, day =>
    if day < length then (0, day)
    else
      let (month, day) := placeInMonths rest (day - length)
      (month + 1, day)

/-- The date that lies the given number of days after the first of March of the year 0. Years that
start in March end with their leap day, so 400 years, 100 years, 4 years and one year are counted
off in turn, each with the last one a day longer or shorter. -/
def ofDaysFromMarch (days : Int) : Date :=
  let cycle := days / 146097
  let rest := (days % 146097).toNat
  let century := min (rest / 36524) 3
  let rest := rest - century * 36524
  let four := min (rest / 1461) 24
  let rest := rest - four * 1461
  let one := min (rest / 365) 3
  let rest := rest - one * 365
  let year : Int := cycle * 400 + (century * 100 + four * 4 + one : Nat)
  let (month, day) := placeInMonths monthsFromMarch rest
  if month < 10 then ⟨year, month + 3, day + 1⟩ else ⟨year + 1, month - 9, day + 1⟩

/-- The date that lies the given number of days after the start of 1970. -/
def ofDays (days : Int) : Date :=
  ofDaysFromMarch (days + 719468)

/-- A number with at least four digits. -/
def fourDigits (n : Nat) : String :=
  String.ofList (List.replicate (4 - (toString n).length) '0') ++ toString n

/-- A year as text; one that is not between 0 and 9999 has a sign. -/
def yearText (year : Int) : String :=
  if 0 ≤ year ∧ year ≤ 9999 then fourDigits year.toNat
  else (if year < 0 then "-" else "+") ++ fourDigits year.natAbs

/-- The date as `YYYY-MM-DD`. -/
def text (d : Date) : String :=
  yearText d.year ++ "-" ++ twoDigits d.month ++ "-" ++ twoDigits d.day

end Date

/-- A moment in whole seconds since the start of 1970, in universal time. -/
structure Instant where
  seconds : Int
  /-- Whether the moment lies in a leap second after the second that is counted. -/
  leap : Bool
  deriving DecidableEq, Repr

namespace Instant

def secondsPerDay : Int := 86400

def date (t : Instant) : Date := Date.ofDays (t.seconds / secondsPerDay)

/-- The time of day of a moment. A leap second shows the second before it. -/
def clock (t : Instant) : Clock := Clock.ofSeconds (t.seconds % secondsPerDay).toNat

/-- The moment with the given seconds and billionths. A second billion of billionths makes a leap
second, which only the last second of a minute can have. -/
def ofParts? (seconds : Int) (nanos : Nat) : Option Instant :=
  let t : Instant := ⟨seconds, 1000000000 ≤ nanos⟩
  if nanos < 2000000000 ∧ (t.leap → seconds % 60 = 59) ∧
      firstYear ≤ t.date.year ∧ t.date.year ≤ lastYear then
    some t
  else none

/-- The moment in RFC 3339 form with whole seconds. -/
def text (t : Instant) : String :=
  let c := t.clock
  t.date.text ++ "T" ++ twoDigits c.hours ++ ":" ++ twoDigits c.minutes ++ ":" ++
    twoDigits (if t.leap then c.seconds + 1 else c.seconds) ++ "Z"

end Instant

/-- The name of a file that is made from a title on a date. A title without letters and digits counts
as `course`. -/
def fileName (title : String) (suffix : Option String) (extension : String) (date : Date) :
    String :=
  let slug := Text.slug title
  let slug := if slug.isEmpty then "course" else slug
  let suffix := match suffix with
    | some s => "-" ++ s
    | none => ""
  slug ++ suffix ++ "-" ++ date.text ++ "." ++ extension

end Courseware.Time
