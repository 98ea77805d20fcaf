import Courseware.Time.Calendar

/-!
The time of an archive entry: a date from 1980 to 2107 and a time of day in steps of two seconds, in
two fields of 16 bits.
-/

namespace Courseware.Zip

open Time

/-- The time of an entry. -/
structure DosTime where
  year : Nat
  month : Nat
  day : Nat
  hour : Nat
  minute : Nat
  /-- Half the seconds. -/
  pair : Nat
  deriving DecidableEq, Repr

namespace DosTime

/-- The first time that can be given. -/
def first : DosTime := ⟨1980, 1, 1, 0, 0, 0⟩

/-- The time of an instant. A year that cannot be given is moved to the nearest that can; if the day does
not exist in that year, the first time is given. -/
def ofInstant (t : Instant) : DosTime :=
  let d := t.date
  let c := t.clock
  let year := if d.year < 1980 then 1980 else if 2107 < d.year then 2107 else d.year
  if (⟨year, d.month, d.day⟩ : Date).Valid then
    ⟨year.toNat, d.month, d.day, c.hours, c.minutes, c.seconds / 2⟩
  else first

def dateField (t : DosTime) : Nat :=
  (t.year - 1980) * 512 + t.month * 32 + t.day

def timeField (t : DosTime) : Nat :=
  t.hour * 2048 + t.minute * 32 + t.pair

def ofFields (date time : Nat) : DosTime :=
  ⟨date / 512 + 1980, date / 32 % 16, date % 32, time / 2048, time / 32 % 64, time % 32⟩

def text (t : DosTime) : String :=
  (⟨t.year, t.month, t.day⟩ : Date).text ++ "T" ++ twoDigits t.hour ++ ":" ++
    twoDigits t.minute ++ ":" ++ twoDigits (2 * t.pair)

end DosTime

end Courseware.Zip
