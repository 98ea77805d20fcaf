import Courseware.Descriptor.Outline
import Courseware.Proofs.Text.Href
import Courseware.Proofs.Time.Duration

/-!
# Identifiers of activities

An identifier is the link of a path: that of a course is the identifier of the course, and
those of its modules and lessons go on behind a slash. Two activities have one identifier
exactly when they have one path, and this does not happen as long as the identifiers of
courses have no slashes in them, nor within one course.
-/

namespace Courseware

/-- What has an identifier of its own: a course, or a module or a lesson of a course. -/
inductive ActivityKey
  | course (courseId : String)
  | courseModule (courseId id : String)
  | lesson (courseId id : String)
  deriving DecidableEq, Repr

namespace ActivityKey

def courseId : ActivityKey → String
  | course courseId => courseId
  | courseModule courseId _ => courseId
  | lesson courseId _ => courseId

/-- The identifier of an activity, below the given address. -/
def iri (start : String) : ActivityKey → String
  | course courseId => (ActivityIds.ofCourse start courseId).course
  | courseModule courseId id => (ActivityIds.ofCourse start courseId).forModule id
  | lesson courseId id => (ActivityIds.ofCourse start courseId).forLesson id

/-- What stands behind the course in the path of an activity. -/
def rest : ActivityKey → String
  | course _ => ""
  | courseModule _ id => "/modules/" ++ id
  | lesson _ id => "/lessons/" ++ id

def path (a : ActivityKey) : String := a.courseId ++ a.rest

/-! ## Paths -/

theorem iri_eq (start : String) (a : ActivityKey) :
    a.iri start = Text.trimEndOf '/' start ++ "/" ++ Text.encodeHref a.path := by
  have hempty : Text.encodeHref "" = "" := by decide
  have hmodules : Text.encodeHref "/modules/" = "/modules/" := by decide
  have hlessons : Text.encodeHref "/lessons/" = "/lessons/" := by decide
  cases a with
  | course courseId =>
    rw [path, rest, Text.encodeHref_append, hempty, String.append_empty]
    rfl
  | courseModule courseId id =>
    rw [path, rest, Text.encodeHref_append, Text.encodeHref_append, hmodules]
    simp only [iri, ActivityIds.forModule, ActivityIds.ofCourse, String.append_assoc]
    rfl
  | lesson courseId id =>
    rw [path, rest, Text.encodeHref_append, Text.encodeHref_append, hlessons]
    simp only [iri, ActivityIds.forLesson, ActivityIds.ofCourse, String.append_assoc]
    rfl

/-- Percent-encoding brings no two activities together: below one address they have one
identifier when they have one path. -/
theorem iri_eq_iff_path_eq {start : String} {a b : ActivityKey} :
    a.iri start = b.iri start ↔ a.path = b.path := by
  rw [iri_eq, iri_eq, String.append_right_inj, Text.encodeHref_inj]

theorem rest_cases (a : ActivityKey) :
    a.rest = "" ∨ ∃ cs, a.rest.toList = '/' :: cs := by
  cases a with
  | course courseId => exact Or.inl rfl
  | courseModule courseId id => exact Or.inr ⟨_, String.toList_append⟩
  | lesson courseId id => exact Or.inr ⟨_, String.toList_append⟩

theorem modules_append_ne (id other : String) : "/modules/" ++ id ≠ "/lessons/" ++ other := by
  intro h
  have hletter := congrArg (fun s => s.toList[1]?) h
  simp only [String.toList_append] at hletter
  exact absurd (Option.some.inj hletter) (by decide)

/-- What stands behind the course tells the kind of an activity and its own identifier. -/
theorem eq_of_rest_eq {a b : ActivityKey} (hcourse : a.courseId = b.courseId)
    (hrest : a.rest = b.rest) : a = b := by
  have hne (id other : String) : "/lessons/" ++ id ≠ "/modules/" ++ other :=
    (modules_append_ne other id).symm
  cases a <;> cases b <;> simp_all [courseId, rest, modules_append_ne]

/-- A path without slashes in its course is cut behind the course. -/
theorem cutAt_path {a : ActivityKey} (h : '/' ∉ a.courseId.toList) :
    (Time.cutAt '/' a.path.toList).1 = a.courseId.toList := by
  have hkept : ∀ c ∈ a.courseId.toList, (c != '/') = true := by
    intro c hc
    rw [bne_iff_ne]
    rintro rfl
    exact h hc
  rw [path, String.toList_append, Time.cutAt, List.takeWhile_append_of_pos hkept]
  rcases a.rest_cases with hrest | ⟨cs, hrest⟩ <;> simp [hrest]

/-- Within one course, and among courses without slashes in their identifiers, different
activities have different paths. -/
theorem eq_of_path_eq {a b : ActivityKey}
    (h : a.courseId = b.courseId ∨ '/' ∉ a.courseId.toList ∧ '/' ∉ b.courseId.toList)
    (hpath : a.path = b.path) : a = b := by
  have hcourse : a.courseId = b.courseId := by
    rcases h with h | ⟨ha, hb⟩
    · exact h
    · rw [← String.toList_inj, ← cutAt_path ha, ← cutAt_path hb, hpath]
  refine eq_of_rest_eq hcourse ?_
  rwa [path, path, hcourse, String.append_right_inj] at hpath

/-! ## Identifiers -/

/-- Below one address, activities of one course have one identifier only when they are the
same, and so have activities of several courses without slashes in their identifiers: courses,
modules and lessons, whatever the identifiers of modules and lessons are. -/
theorem iri_eq_iff (start : String) {a b : ActivityKey}
    (h : a.courseId = b.courseId ∨ '/' ∉ a.courseId.toList ∧ '/' ∉ b.courseId.toList) :
    a.iri start = b.iri start ↔ a = b := by
  constructor
  · intro hiri
    exact eq_of_path_eq h (iri_eq_iff_path_eq.mp hiri)
  · exact congrArg (iri start)

/-- A lesson whose identifier has a slash is told from the lesson whose identifier looks like
that slash when it is encoded. -/
theorem iri_eq_iff_encoded :
    '/' ∉ "50%".toList ∧
      ((lesson "50%" "a/b").iri "https://acts.test/" =
        (lesson "50%" "a%2Fb").iri "https://acts.test/" ↔
          lesson "50%" "a/b" = lesson "50%" "a%2Fb") := by
  have hplain : '/' ∉ "50%".toList := by decide
  exact ⟨hplain, iri_eq_iff "https://acts.test/" (Or.inr ⟨hplain, hplain⟩)⟩

/-- A slash in the identifier of a course is not encoded: such a course may have the
identifier that a module of another course has. -/
theorem not_iri_inj_slash :
    (course "a/modules/b").iri "https://acts.test" = "https://acts.test/a/modules/b" ∧
      ¬ ∀ (start : String) (a b : ActivityKey), a.iri start = b.iri start → a = b := by
  refine ⟨by decide +kernel, fun h => ?_⟩
  have heq := h "https://acts.test" (course "a/modules/b") (courseModule "a" "b")
    (iri_eq_iff_path_eq.mpr (by decide))
  exact absurd heq (by decide)

end ActivityKey

end Courseware
