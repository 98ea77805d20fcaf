import Courseware.Time.Calendar
import Mathlib.Algebra.GroupWithZero.Nat

/-!
# The calendar

The date of a day exists, and the day is found again by counting the days from it: those of the
months from March on, of the years that start in March, and a leap day for every fourth year, less
one in a hundred years, and one in four hundred years more.
-/

namespace Courseware.Time.Date

/-! ## Months -/

/-- Whether a place in a list of lengths, its index and what is left for it, is that of a day. -/
structure IsPlace (lengths : List Nat) (day : Nat) (place : Nat × Nat) (length : Nat) : Prop where
  found : lengths[place.1]? = some length
  bound : place.2 < length
  sum : (lengths.take place.1).sum + place.2 = day

theorem exists_isPlace {lengths : List Nat} {day : Nat} (h : day < lengths.sum) :
    ∃ length, IsPlace lengths day (placeInMonths lengths day) length := by
  induction lengths generalizing day with
  | nil => exact absurd h (Nat.not_lt_zero day)
  | cons first rest ih =>
    rw [placeInMonths]
    split
    · rename_i hfirst
      exact ⟨first, rfl, hfirst, Nat.zero_add day⟩
    · rename_i hfirst
      rw [List.sum_cons] at h
      have hrest : day - first < rest.sum := by omega
      obtain ⟨length, hfound, hbound, hsum⟩ := ih hrest
      refine ⟨length, hfound, hbound, ?_⟩
      simp only [List.take_succ_cons, List.sum_cons]
      omega

/-- The days before a month of a year that starts in March, the months counted from zero. -/
def daysBefore (month : Nat) : Nat :=
  (monthsFromMarch.take month).sum

/-! ## Days -/

/-- The number of days from the start of 1970 to a date. -/
def toDays (d : Date) : Int :=
  let year := if d.month ≤ 2 then d.year - 1 else d.year
  let month := if d.month ≤ 2 then d.month + 9 else d.month - 3
  365 * year + year / 4 - year / 100 + year / 400 + daysBefore month + d.day - 1 - 719468

/-- A number of days in years that start in March: the year is `y`, and `day` days of it are
over. The last day of a year that a leap day ends is day 365. -/
structure InYear (days y : Int) (day : Nat) : Prop where
  count : days = 365 * y + y / 4 - y / 100 + y / 400 + day
  bound : day < 366
  leap : day = 365 → isLeapYear (y + 1) = true

theorem isLeapYear_iff (year : Int) : isLeapYear year = true ↔
    year % 4 = 0 ∧ (year % 100 ≠ 0 ∨ year % 400 = 0) := by
  simp [isLeapYear]

/-- Every fourth year ends with a leap day, but not the last one of a hundred, except that of the
last hundred of four. -/
theorem inYear_of_counted (cycle : Int) {century four one day : Nat} (hcentury : century ≤ 3)
    (hfour : four ≤ 24) (hone : one ≤ 3) (hday : day < 366)
    (hleap : day = 365 → one = 3 ∧ (four < 24 ∨ century = 3)) :
    InYear (cycle * 146097 + (century * 36524 + four * 1461 + one * 365 + day : Nat))
      (cycle * 400 + (century * 100 + four * 4 + one : Nat)) day where
  count := by omega
  bound := hday
  leap := by
    intro hlast
    obtain ⟨rfl, hwhole⟩ := hleap hlast
    rw [isLeapYear_iff]
    omega

/-- The date at a place in a year that starts in March. -/
def ofPlace (y : Int) (place : Nat × Nat) : Date :=
  if place.1 < 10 then ⟨y, place.1 + 3, place.2 + 1⟩ else ⟨y + 1, place.1 - 9, place.2 + 1⟩

/-- Four hundred years, one hundred, four and one are counted off in turn. -/
theorem exists_inYear (days : Int) :
    ∃ y day, InYear days y day ∧
      ofDaysFromMarch days = ofPlace y (placeInMonths monthsFromMarch day) := by
  have hcycle : days = days / 146097 * 146097 + ((days % 146097).toNat : Nat) ∧
      (days % 146097).toNat < 146097 := by omega
  rw [ofDaysFromMarch]
  generalize hrest : (days % 146097).toNat = rest at hcycle
  generalize hcentury : min (rest / 36524) 3 = century
  generalize hrest₁ : rest - century * 36524 = rest₁
  generalize hfour : min (rest₁ / 1461) 24 = four
  generalize hrest₂ : rest₁ - four * 1461 = rest₂
  generalize hone : min (rest₂ / 365) 3 = one
  -- Only the last year of a cycle may be longer, which the caps by three and twenty-four see to.
  have hcenturies : century ≤ 3 ∧ rest = century * 36524 + rest₁ ∧ rest₁ < 36525 ∧
      (rest₁ = 36524 → century = 3) := by omega
  have hfours : four ≤ 24 ∧ rest₁ = four * 1461 + rest₂ ∧ rest₂ < 1461 ∧
      (rest₂ = 1460 → four < 24 ∨ century = 3) := by omega
  have hones : one ≤ 3 ∧ rest₂ = one * 365 + (rest₂ - one * 365) ∧ rest₂ - one * 365 < 366 ∧
      (rest₂ - one * 365 = 365 → one = 3) := by omega
  have hyear := inYear_of_counted (days / 146097) hcenturies.1 hfours.1 hones.1
    hones.2.2.1 (by omega)
  have hcount : days / 146097 * 146097 +
      (century * 36524 + four * 1461 + one * 365 + (rest₂ - one * 365) : Nat) = days := by
    omega
  rw [hcount] at hyear
  exact ⟨_, rest₂ - one * 365, hyear, rfl⟩

/-! ## Dates of days -/

theorem daysInMonth_eq {month : Nat} (h : month ≠ 2) (year other : Int) :
    daysInMonth year month = daysInMonth other month := by
  rw [daysInMonth, daysInMonth, if_neg h, if_neg h]

theorem valid_mk_iff {year : Int} {month day : Nat} : (⟨year, month, day⟩ : Date).Valid ↔
    1 ≤ month ∧ month ≤ 12 ∧ 1 ≤ day ∧ day ≤ daysInMonth year month :=
  Iff.rfl

theorem IsPlace.month_lt {place : Nat × Nat} {length day : Nat}
    (h : IsPlace monthsFromMarch day place length) : place.1 < 12 :=
  (List.getElem?_eq_some_iff.mp h.found).1

/-- The months are as long as the calendar says, the last one in a leap year. -/
theorem valid_ofPlace {y : Int} {place : Nat × Nat} {length day : Nat}
    (hplace : IsPlace monthsFromMarch day place length)
    (hleap : day = 365 → isLeapYear (y + 1) = true) : (ofPlace y place).Valid := by
  have hmonth := hplace.month_lt
  have hday := hplace.bound
  have htable : ∀ m < 10, monthsFromMarch[m]? = some (daysInMonth 0 (m + 3)) := by decide
  rw [ofPlace]
  split
  · rename_i hearly
    have hlength := Option.some.inj (hplace.found.symm.trans (htable _ hearly))
    rw [daysInMonth_eq (by omega) 0 y] at hlength
    rw [valid_mk_iff]
    omega
  · rename_i hlate
    obtain ⟨m, d⟩ := place
    rcases (by omega : m = 10 ∨ m = 11) with rfl | rfl
    · obtain rfl : 31 = length := Option.some.inj hplace.found
      rw [valid_mk_iff]
      exact ⟨Nat.le_refl 1, by simp, Nat.le_add_left .., hday⟩
    · obtain rfl : 29 = length := Option.some.inj hplace.found
      -- the last of the 29 days is the day that ends a leap year
      have hsum : 337 + d = day := hplace.sum
      rw [valid_mk_iff]
      refine ⟨by simp, by simp, Nat.le_add_left .., ?_⟩
      change d + 1 ≤ if isLeapYear (y + 1) then 29 else 28
      split
      · omega
      · rename_i hcommon
        have : day ≠ 365 := fun hlast => hcommon (hleap hlast)
        omega

/-- Counting the days from a place gives the days of the years and of the months before it. -/
theorem toDays_ofPlace {y : Int} {place : Nat × Nat} {length day : Nat}
    (hplace : IsPlace monthsFromMarch day place length) :
    (ofPlace y place).toDays = 365 * y + y / 4 - y / 100 + y / 400 + day - 719468 := by
  have hmonth := hplace.month_lt
  have hsum : daysBefore place.1 + place.2 = day := hplace.sum
  rw [ofPlace]
  split
  · rw [toDays]
    simp only [if_neg (show ¬ place.1 + 3 ≤ 2 by omega), Nat.add_sub_cancel]
    omega
  · rw [toDays]
    simp only [if_pos (show place.1 - 9 ≤ 2 by omega),
      show place.1 - 9 + 9 = place.1 by omega, Int.add_sub_cancel]
    omega

/-- The date of a day exists, and its day is found again by counting. -/
theorem valid_and_toDays_ofDays (days : Int) :
    (ofDays days).Valid ∧ (ofDays days).toDays = days := by
  obtain ⟨y, day, hyear, heq⟩ := exists_inYear (days + 719468)
  have hbound : day < monthsFromMarch.sum := hyear.bound
  obtain ⟨length, hplace⟩ := exists_isPlace hbound
  rw [ofDays, heq]
  refine ⟨valid_ofPlace hplace hyear.leap, ?_⟩
  have hcount := hyear.count
  rw [toDays_ofPlace hplace]
  omega

end Courseware.Time.Date

namespace Courseware.Time.Instant

theorem valid_date (t : Instant) : t.date.Valid :=
  (Date.valid_and_toDays_ofDays _).1

/-- An instant is its day and the time of that day. -/
theorem seconds_eq (t : Instant) :
    t.seconds = t.date.toDays * secondsPerDay + t.clock.toSeconds := by
  rw [Instant.date, (Date.valid_and_toDays_ofDays _).2, Instant.clock, Clock.toSeconds_ofSeconds,
    secondsPerDay]
  omega

end Courseware.Time.Instant
