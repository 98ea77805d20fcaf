import Courseware.Proofs.Package.Packing
import Courseware.Proofs.Time.Calendar

/-!
# The times of entries

Every entry of an archive has the time at which the archive was made, in steps of two seconds and
with the year moved into the range that the two fields have room for. One day is lost by that: a
leap day after the last year of the range, which is no leap year.
-/

namespace Courseware.Zip.DosTime

open Time

/-! ## Times of instants -/

/-- The seconds since the start of 1970. -/
def toSeconds (t : DosTime) : Int :=
  (⟨t.year, t.month, t.day⟩ : Date).toDays * Instant.secondsPerDay +
    (⟨t.hour, t.minute, 2 * t.pair⟩ : Clock).toSeconds

/-- Whether an instant lies on a leap day that is too late to be given. -/
def OnLostDay (made : Instant) : Prop :=
  2107 < made.date.year ∧ made.date.month = 2 ∧ made.date.day = 29

/-- What the time of an entry tells of an instant. -/
structure Tells (made : Instant) (t : DosTime) : Prop where
  year : ¬ OnLostDay made → (t.year : Int) = max 1980 (min made.date.year 2107)
  month : ¬ OnLostDay made → t.month = made.date.month
  day : ¬ OnLostDay made → t.day = made.date.day
  hour : ¬ OnLostDay made → t.hour = made.clock.hours
  minute : ¬ OnLostDay made → t.minute = made.clock.minutes
  seconds : ¬ OnLostDay made → 2 * t.pair = made.clock.seconds - made.clock.seconds % 2
  lost : OnLostDay made → t = first
  decoded : 1980 ≤ made.date.year → made.date.year ≤ 2107 →
    t.toSeconds = made.seconds - made.seconds % 2

/-- The year that is given for a year. -/
theorem clampedYear_eq (year : Int) :
    (if year < 1980 then 1980 else if 2107 < year then 2107 else year) =
      max 1980 (min year 2107) := by
  omega

/-- A date also exists in the year that is given for its own unless it is a late leap day. -/
theorem valid_clamped_iff {year : Int} {month day : Nat}
    (h : (⟨year, month, day⟩ : Date).Valid) :
    (⟨max 1980 (min year 2107), month, day⟩ : Date).Valid ↔
      ¬ (2107 < year ∧ month = 2 ∧ day = 29) := by
  rw [Date.valid_mk_iff] at h ⊢
  by_cases hmonth : month = 2
  · subst hmonth
    have hfebruary : daysInMonth year 2 ≤ 29 := by
      rw [daysInMonth, if_pos rfl]
      split <;> decide
    by_cases hlate : 2107 < year
    · rw [show max 1980 (min year 2107) = 2107 by omega, show daysInMonth 2107 2 = 28 from rfl]
      omega
    · by_cases hearly : year < 1980
      · rw [show max 1980 (min year 2107) = 1980 by omega, show daysInMonth 1980 2 = 29 from rfl]
        omega
      · rw [show max 1980 (min year 2107) = year by omega]
        omega
  · rw [Date.daysInMonth_eq hmonth _ year]
    omega

theorem valid_clamped_date_iff (made : Instant) :
    (⟨max 1980 (min made.date.year 2107), made.date.month, made.date.day⟩ : Date).Valid ↔
      ¬ OnLostDay made :=
  valid_clamped_iff made.valid_date

theorem ofInstant_eq (made : Instant) (h : ¬ OnLostDay made) :
    ofInstant made =
      ⟨(max 1980 (min made.date.year 2107)).toNat, made.date.month, made.date.day,
        made.clock.hours, made.clock.minutes, made.clock.seconds / 2⟩ := by
  rw [ofInstant]
  simp only [clampedYear_eq]
  rw [if_pos ((valid_clamped_date_iff made).mpr h)]

theorem ofInstant_lost (made : Instant) (h : OnLostDay made) : ofInstant made = first := by
  rw [ofInstant]
  simp only [clampedYear_eq]
  rw [if_neg fun hvalid => (valid_clamped_date_iff made).mp hvalid h]

theorem tells_ofInstant (made : Instant) : Tells made (ofInstant made) := by
  by_cases hlost : OnLostDay made
  · have hfirst := ofInstant_lost made hlost
    refine ⟨?_, ?_, ?_, ?_, ?_, ?_, fun _ => hfirst, ?_⟩
    iterate 6 exact fun h => absurd hlost h
    · intro _ hto
      exact absurd hlost.1 (Int.not_lt.mpr hto)
  · have heq := ofInstant_eq made hlost
    rw [heq]
    refine ⟨fun _ => ?_, fun _ => rfl, fun _ => rfl, fun _ => rfl, fun _ => rfl, fun _ => ?_,
      fun h => absurd h hlost, fun hfrom hto => ?_⟩
    · simp only
      omega
    · simp only
      omega
    · have hseconds := made.seconds_eq
      have hyear : ((max 1980 (min made.date.year 2107)).toNat : Int) = made.date.year := by
        omega
      have hdate : (⟨made.date.year, made.date.month, made.date.day⟩ : Date) = made.date := rfl
      rw [Clock.toSeconds, Instant.secondsPerDay] at hseconds
      simp only [toSeconds, Clock.toSeconds, Instant.secondsPerDay, hyear, hdate]
      omega

/-- The two fields have room for every time that is given. -/
theorem ofFields_ofInstant (made : Instant) :
    ofFields (ofInstant made).dateField (ofInstant made).timeField = ofInstant made := by
  by_cases hlost : OnLostDay made
  · rw [ofInstant_lost made hlost]
    rfl
  · obtain ⟨-, hmonth, -, hday⟩ := (valid_clamped_date_iff made).mpr hlost
    have hlast := Nat.le_trans hday (daysInMonth_le _ _)
    have hday : (made.seconds % Instant.secondsPerDay).toNat < 86400 := by
      rw [Instant.secondsPerDay]
      omega
    have hclock := Clock.ofSeconds_lt hday
    rw [← Instant.clock] at hclock
    rw [ofInstant_eq made hlost, ofFields, dateField, timeField]
    simp only at *
    congr 1 <;> omega

end Courseware.Zip.DosTime

namespace Courseware.Package

open Zip

/-! ## Times in archives -/

/-- The time that a header tells. -/
def headerTime (h : Header) : DosTime :=
  .ofFields h.dateField h.timeField

theorem headerTime_packedFiles {packaging : PackagingSettings} {made : Time.Instant}
    {files : List (String × Bytes)} {e : PackedFile}
    (he : e ∈ packedFiles packaging (.ofInstant made) files) :
    headerTime e.header = .ofInstant made := by
  obtain ⟨f, -, rfl⟩ := List.mem_map.mp he
  exact DosTime.ofFields_ofInstant made

/-- What a directory says of files is in their headers. -/
theorem exists_header_of_mem_entriesFrom {files : List PackedFile} {offset : Nat} {e : Entry}
    (he : e ∈ entriesFrom offset files) : ∃ f ∈ files, e.header = f.header := by
  induction files generalizing offset with
  | nil => cases he
  | cons f files ih =>
    rcases List.mem_cons.mp he with rfl | he
    · exact ⟨f, List.mem_cons_self, rfl⟩
    · obtain ⟨g, hg, heq⟩ := ih he
      exact ⟨g, List.mem_cons_of_mem _ hg, heq⟩

/-- Files whose names are short enough are packed into an archive with an entry for each, and the
headers of all entries tell the time at which it was made. So do those that are read from the
archive when plain records can hold the files. -/
theorem packed_times {files : FileTree} (packaging : PackagingSettings) (made : Time.Instant)
    (hnames : ∀ path ∈ files.paths, (Text.utf8 path).length ≤ longestName) :
    ∃ entries, pack files packaging made = .ok (archiveOf entries) ∧
      entries.map (·.name) = files.paths.map Text.utf8 ∧
      (∀ e ∈ entries, (headerTime e.header).Tells made) ∧
      (Packable files packaging made →
        ∃ listed, readDirectory (archiveOf entries) = .ok listed ∧
          listed.map (·.name) = files.paths ∧
          ∀ e ∈ listed, (headerTime e.header).Tells made) := by
  have hfiles : ∀ f ∈ files.toList, (Text.utf8 f.1).length ≤ longestName := fun f hf =>
    hnames f.1 (List.mem_map.mpr ⟨f, hf, rfl⟩)
  have hpack : pack files packaging made =
      .ok (archiveOf (packedFiles packaging (.ofInstant made) files.toList)) :=
    pack_eq_ok_iff.mpr ⟨hfiles, rfl⟩
  have htells : ∀ e ∈ packedFiles packaging (.ofInstant made) files.toList,
      (headerTime e.header).Tells made := fun e he =>
    headerTime_packedFiles he ▸ DosTime.tells_ofInstant made
  refine ⟨_, hpack, ?_, htells, fun hfits => ?_⟩
  · change _ = (files.toList.map Prod.fst).map Text.utf8
    rw [packedFiles, List.map_map, List.map_map]
    rfl
  · refine ⟨_, readDirectory_pack hpack hfits.limits hfits.locator, names_entriesFrom _ _,
      fun e he => ?_⟩
    obtain ⟨f, hf, heq⟩ := exists_header_of_mem_entriesFrom he
    exact heq ▸ htells f hf

/-- The last second of a leap day is read of each entry as the second before it. -/
theorem packed_times_mixedFiles :
    (∀ path ∈ mixedFiles.paths, (Text.utf8 path).length ≤ longestName) ∧
      ∃ archive listed, pack mixedFiles ⟨false, 6⟩ ⟨1709251199, false⟩ = .ok archive ∧
        readDirectory archive = .ok listed ∧ listed.map (·.name) = ["b.txt", "\u00e9.txt"] ∧
        ∀ e ∈ listed, (headerTime e.header).year = 2024 ∧
          (headerTime e.header).toSeconds = 1709251198 := by
  have hfits := packable_mixedFiles ⟨1709251199, false⟩
  have hdate : (⟨1709251199, false⟩ : Time.Instant).date = ⟨2024, 2, 29⟩ := by decide
  have hkept : ¬ DosTime.OnLostDay ⟨1709251199, false⟩ := by
    rw [DosTime.OnLostDay, hdate]
    decide
  obtain ⟨entries, hpack, -, -, hread⟩ :=
    packed_times ⟨false, 6⟩ ⟨1709251199, false⟩ hfits.names
  obtain ⟨listed, hlisted, hnames, htells⟩ := hread hfits
  refine ⟨hfits.names, _, listed, hpack, hlisted, hnames.trans (by decide), fun e he => ?_⟩
  have hyear := (htells e he).year hkept
  have hseconds := (htells e he).decoded
  rw [hdate] at hyear hseconds
  exact ⟨Int.natCast_inj.mp hyear, hseconds (by decide) (by decide)⟩

/-- Noon and half an hour, with an odd second, on the first leap day that is lost. -/
def lateLeapDay : Time.Instant := ⟨4359962097, false⟩

/-- On that day the entries have the first time that can be given. -/
theorem packed_lateLeapDay :
    lateLeapDay.date = ⟨2108, 2, 29⟩ ∧ lateLeapDay.clock = ⟨12, 34, 57⟩ ∧
      ∃ entries, pack mixedFiles ⟨false, 6⟩ lateLeapDay = .ok (archiveOf entries) ∧
        entries.length = 2 ∧
        ∀ e ∈ entries, headerTime e.header = ⟨1980, 1, 1, 0, 0, 0⟩ ∧
          (headerTime e.header).year ≠ 2107 ∧
          (headerTime e.header).month ≠ lateLeapDay.date.month ∧
          (headerTime e.header).day ≠ lateLeapDay.date.day := by
  refine ⟨by decide, by decide, _, (packable_mixedFiles lateLeapDay).pack_eq, rfl, ?_⟩
  intro e he
  rw [headerTime_packedFiles he]
  decide

end Courseware.Package
