/-!
Durations as the descriptors write them: ISO 8601 (`PT1H2M3S`, with the zero components left out)
and the SCORM 1.2 time span (`HH:MM:SS`).
-/

namespace Courseware.Time

/-- A length of time in hours, minutes and seconds. -/
structure Clock where
  hours : Nat
  minutes : Nat
  seconds : Nat
  deriving DecidableEq, Repr

/-- A number of seconds on the clock, with minutes and seconds below sixty. -/
def Clock.ofSeconds (total : Nat) : Clock :=
  ⟨total / 3600, total % 3600 / 60, total % 60⟩

def Clock.toSeconds (c : Clock) : Nat :=
  c.hours * 3600 + c.minutes * 60 + c.seconds

@[simp] theorem Clock.toSeconds_ofSeconds (n : Nat) : (Clock.ofSeconds n).toSeconds = n := by
  simp only [Clock.ofSeconds, Clock.toSeconds]
  omega

/-- One component of an ISO 8601 duration; a zero is left out. -/
def component (n : Nat) (mark : String) : String :=
  if n = 0 then "" else toString n ++ mark

def iso8601 (total : Nat) : String :=
  if total = 0 then "PT0S"
  else
    let c := Clock.ofSeconds total
    "PT" ++ component c.hours "H" ++ component c.minutes "M" ++ component c.seconds "S"

def iso8601OfMinutes (minutes : Nat) : String :=
  iso8601 (minutes * 60)

/-- A number with at least two digits. -/
def twoDigits (n : Nat) : String :=
  if n < 10 then "0" ++ toString n else toString n

/-- Seconds as a SCORM 1.2 time span. -/
def timespan (total : Nat) : String :=
  let c := Clock.ofSeconds total
  twoDigits c.hours ++ ":" ++ twoDigits c.minutes ++ ":" ++ twoDigits c.seconds

end Courseware.Time
