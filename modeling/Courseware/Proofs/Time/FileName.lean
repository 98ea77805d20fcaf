import Courseware.Proofs.Text.Slug
import Courseware.Proofs.Time.Duration
import Courseware.Time.Calendar

/-!
# File names

The name of a package is the slug of its title, a suffix, the date in ten characters and the
extension. It has exactly this form unless the title was cut behind a hyphen, which then stands in
front of the hyphen that separates the slug from the suffix.
-/

namespace Courseware.Time

open Text

/-! ## Dates -/

/-- Whether a text is a year of four digits, a month and a day of two digits each, with hyphens
between them. -/
def SpellsDate (date : Date) (stamp : String) : Prop :=
  ∃ year month day n, stamp.toList = year ++ '-' :: (month ++ '-' :: day) ∧
    year.length = 4 ∧ month.length = 2 ∧ day.length = 2 ∧
    number? year = some n ∧ (n : Int) = date.year ∧
    number? month = some date.month ∧ number? day = some date.day

theorem toList_fourDigits (n : Nat) :
    (Date.fourDigits n).toList =
      List.replicate (4 - (Nat.toDigits 10 n).length) '0' ++ Nat.toDigits 10 n := by
  rw [Date.fourDigits, String.toList_append, String.toList_ofList, toList_toString,
    ← String.length_toList, toList_toString]

theorem length_fourDigits {n : Nat} (h : n ≤ 9999) : (Date.fourDigits n).toList.length = 4 := by
  have hfour := Nat.length_toDigits_le_iff (b := 10) (n := n) (k := 4) (by decide) (by decide)
  rw [toList_fourDigits, List.length_append, List.length_replicate]
  omega

theorem number?_fourDigits (n : Nat) : number? (Date.fourDigits n).toList = some n := by
  rw [toList_fourDigits, number?, Nat.ofDigitChars_append, Nat.ofDigitChars_replicate_zero,
    Nat.mul_zero, Nat.ofDigitChars_ten_toDigits]
  rw [if_pos]
  refine ⟨List.append_ne_nil_of_right_ne_nil _ Nat.toDigits_ne_nil, ?_⟩
  rw [List.all_append, all_isDigit_toDigits, Bool.and_true, List.all_eq_true]
  intro c hc
  rw [List.eq_of_mem_replicate hc]
  rfl

/-- A date that exists, in a year of four digits, is written in ten characters. -/
theorem spellsDate_text {date : Date} (hdate : date.Valid) (hfrom : 0 ≤ date.year)
    (hto : date.year ≤ 9999) : SpellsDate date date.text := by
  obtain ⟨-, hmonth, -, hday⟩ := hdate
  have hdays : daysInMonth date.year date.month ≤ 31 := by
    rw [daysInMonth]
    repeat' split
    all_goals decide
  refine ⟨(Date.fourDigits date.year.toNat).toList, (twoDigits date.month).toList,
    (twoDigits date.day).toList, date.year.toNat, ?_, length_fourDigits (by omega),
    length_twoDigits (by omega), length_twoDigits (by omega), number?_fourDigits _,
    Int.toNat_of_nonneg hfrom, number?_twoDigits _, number?_twoDigits _⟩
  rw [Date.text, Date.yearText, if_pos ⟨hfrom, hto⟩]
  simp

theorem SpellsDate.length {date : Date} {stamp : String} (h : SpellsDate date stamp) :
    stamp.toList.length = 10 := by
  obtain ⟨year, month, day, n, htext, hyear, hmonth, hday, -⟩ := h
  rw [htext, List.length_append, List.length_cons, List.length_append, List.length_cons, hyear,
    hmonth, hday]

/-! ## Names -/

/-- What stands for the title in a file name. -/
def baseName (title : String) : String :=
  if title.toList.any isAlnum then slug title else "course"

/-- Whether a text is a slug with one word at least, the suffix, the date and the extension, with
hyphens and a point between them. -/
def IsFileName (suffix extension : String) (date : Date) (name : String) : Prop :=
  ∃ base stamp, IsSlug base ∧ base ≠ "" ∧ SpellsDate date stamp ∧
    name = base ++ "-" ++ suffix ++ "-" ++ stamp ++ "." ++ extension

theorem baseName_eq (title : String) :
    baseName title = if (slug title).isEmpty then "course" else slug title := by
  have hany : title.toList.any isAlnum = true ↔ slug title ≠ "" := by
    rw [Ne, slug_eq_empty_iff, List.any_eq_true]
    simp
  rw [baseName]
  by_cases hempty : slug title = ""
  · rw [if_neg (by simp [hany, hempty]), if_pos (by simp [hempty])]
  · rw [if_pos (hany.mpr hempty), if_neg (by simp [hempty])]

theorem fileName_eq (title suffix extension : String) (date : Date) :
    fileName title (some suffix) extension date =
      baseName title ++ "-" ++ suffix ++ "-" ++ date.text ++ "." ++ extension := by
  rw [fileName, baseName_eq]
  simp [String.append_assoc]

theorem isSlug_course : IsSlug "course" := by
  refine ⟨["course".toList], ?_, rfl⟩
  rw [List.forall_mem_singleton]
  exact ⟨by decide, by decide⟩

theorem baseName_ne_empty (title : String) : baseName title ≠ "" := by
  rw [baseName_eq]
  split
  · decide
  · rename_i hne
    simpa using hne

/-- The base of a name is a slug unless the title was cut behind a hyphen. -/
theorem isSlug_baseName_iff (title : String) : IsSlug (baseName title) ↔ ¬ CutAtHyphen title := by
  rw [← isSlug_slug_iff, baseName_eq]
  split
  · rename_i hempty
    rw [String.isEmpty_iff] at hempty
    rw [hempty]
    exact iff_of_true isSlug_course ⟨[], by simp, rfl⟩
  · rfl

/-- Of a name of this form the base is what stands before the known number of characters. -/
theorem isFileName_iff {base stamp suffix extension : String} {date : Date}
    (hstamp : SpellsDate date stamp) :
    IsFileName suffix extension date
        (base ++ "-" ++ suffix ++ "-" ++ stamp ++ "." ++ extension) ↔
      IsSlug base ∧ base ≠ "" := by
  constructor
  · rintro ⟨base', stamp', hslug, hne, hstamp', heq⟩
    have hchars := congrArg String.toList heq
    simp only [String.toList_append, List.append_assoc] at hchars
    have hbase := (List.append_inj' hchars
      (by simp [hstamp.length, hstamp'.length])).1
    rw [String.toList_inj] at hbase
    exact hbase ▸ ⟨hslug, hne⟩
  · rintro ⟨hslug, hne⟩
    exact ⟨base, stamp, hslug, hne, hstamp, rfl⟩

/-- A slug is the first fifty characters of the words of its title with one hyphen between them.
It has the form of a slug, and is its own slug, unless the last of the fifty is a hyphen; that
hyphen is all that the slug of the slug loses. The same decides the form of the file name. -/
theorem fileName_form (title suffix extension : String) (date : Date) (hdate : date.Valid)
    (hfrom : 0 ≤ date.year) (hto : date.year ≤ 9999) :
    (slug title).toList = (hyphenated (titleWords title.toList)).take slugLimit ∧
      (∀ w ∈ titleWords title.toList, IsSlugWord w) ∧
      (IsSlug (slug title) ↔ ¬ CutAtHyphen title) ∧
      (slug (slug title) = slug title ↔ ¬ CutAtHyphen title) ∧
      IsSlug (slug (slug title)) ∧
      slug title = slug (slug title) ++ (if CutAtHyphen title then "-" else "") ∧
      fileName title (some suffix) extension date =
        baseName title ++ "-" ++ suffix ++ "-" ++ date.text ++ "." ++ extension ∧
      SpellsDate date date.text ∧
      (IsFileName suffix extension date (fileName title (some suffix) extension date) ↔
        ¬ CutAtHyphen title) := by
  have hstamp := spellsDate_text hdate hfrom hto
  refine ⟨toList_slug title, fun w hw => isSlugWord_of_mem_titleWords hw, isSlug_slug_iff title,
    slug_slug_eq_iff title, isSlug_slug_slug title, slug_eq_append title, fileName_eq .., hstamp,
    ?_⟩
  rw [fileName_eq, isFileName_iff hstamp, isSlug_baseName_iff]
  exact and_iff_left (baseName_ne_empty title)

theorem fileName_form_course :
    (⟨2024, 5, 1⟩ : Date).Valid ∧
      IsFileName "scorm12" "zip" ⟨2024, 5, 1⟩
        (fileName "My Course!! 2024" (some "scorm12") "zip" ⟨2024, 5, 1⟩) ∧
      slug (slug "My Course!! 2024") = slug "My Course!! 2024" := by
  have hcut : ¬ CutAtHyphen "My Course!! 2024" := by decide
  obtain ⟨-, -, -, hagain, -, -, -, -, hname⟩ :=
    fileName_form "My Course!! 2024" "scorm12" "zip" ⟨2024, 5, 1⟩ (by decide) (by decide)
      (by decide)
  exact ⟨by decide, hname.mpr hcut, hagain.mpr hcut⟩

/-- A word of forty-nine letters in front of another word. -/
def cutTitle : String :=
  String.ofList (List.replicate 49 'a' ++ [' ', 'b'])

/-- The hyphen between the words is the last of the fifty characters. -/
theorem cutTitle_slug :
    slug cutTitle = String.ofList (List.replicate 49 'a' ++ ['-']) ∧
      ¬ IsSlug (slug cutTitle) ∧ slug (slug cutTitle) ≠ slug cutTitle ∧
      ¬ IsFileName "html5" "zip" ⟨2024, 5, 1⟩
        (fileName cutTitle (some "html5") "zip" ⟨2024, 5, 1⟩) := by
  have hcut : CutAtHyphen cutTitle := by decide
  have hstamp : SpellsDate ⟨2024, 5, 1⟩ (⟨2024, 5, 1⟩ : Date).text :=
    spellsDate_text (by decide) (by decide) (by decide)
  refine ⟨by decide, ?_, ?_, ?_⟩
  · rw [isSlug_slug_iff]
    exact fun h => h hcut
  · rw [Ne, slug_slug_eq_iff]
    exact fun h => h hcut
  · rw [fileName_eq, isFileName_iff hstamp, isSlug_baseName_iff]
    exact fun h => h.1 hcut

end Courseware.Time
