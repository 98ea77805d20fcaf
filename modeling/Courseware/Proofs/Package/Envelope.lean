import Courseware.Proofs.Package.Deletion
import Courseware.Proofs.Package.Packing
import Courseware.Proofs.Reordering

/-!
# What an export answers

An export has one of three answers. A course that lacks something is turned down before it is
planned; a course that has no plan fails with the clash that the plan has; every other course
is packed, and what is counted of its package is what the archive holds.
-/

namespace Courseware

/-! ## What a course lacks -/

/-- What an export requires of a course, in the order in which it is looked for. -/
inductive Requirement
  | title
  | someModule
  | someLesson
  | identifier
  deriving DecidableEq

namespace Requirement

def all : List Requirement := [title, someModule, someLesson, identifier]

/-- How a user is told that a requirement is not met. -/
def message : Requirement → String
  | title => "Course title is required"
  | someModule => "Course must have at least one module"
  | someLesson => "Course must have at least one lesson"
  | identifier => "Course id is required for SCORM export"

/-- Whether a course does not meet a requirement of a format. Lessons are missed only where
there are modules, and the identifier only in SCORM packages. -/
def Unmet (f : Format) (c : Course) : Requirement → Prop
  | title => Text.blank c.title = true
  | someModule => c.modules = []
  | someLesson => c.modules ≠ [] ∧ ∀ m ∈ c.modules, m.lessons = []
  | identifier => (∃ version, f = .scorm version) ∧ Text.blank c.id = true

theorem isSome_scormVersion?_iff (f : Format) :
    f.scormVersion?.isSome = true ↔ ∃ version, f = .scorm version := by
  cases f <;> simp [Format.scormVersion?]

instance (f : Format) : Decidable (∃ version, f = .scorm version) :=
  decidable_of_iff _ (isSome_scormVersion?_iff f)

instance (f : Format) (c : Course) : DecidablePred (Unmet f c)
  | title => inferInstanceAs (Decidable (Text.blank c.title = true))
  | someModule => inferInstanceAs (Decidable (c.modules = []))
  | someLesson => inferInstanceAs (Decidable (c.modules ≠ [] ∧ ∀ m ∈ c.modules, m.lessons = []))
  | identifier =>
    inferInstanceAs (Decidable ((∃ version, f = .scorm version) ∧ Text.blank c.id = true))

end Requirement

/-- Whether a course lacks something that a format requires: a title, a module, a lesson, or in
SCORM packages an identifier. -/
def Course.Lacking (f : Format) (c : Course) : Prop :=
  Text.blank c.title = true ∨ c.modules = [] ∨ (∀ m ∈ c.modules, m.lessons = []) ∨
    (∃ version, f = .scorm version) ∧ Text.blank c.id = true

def Course.lackMessages (f : Format) (c : Course) : List String :=
  (Requirement.all.filter fun r => r.Unmet f c).map Requirement.message

section Lacking

variable {f : Format} {c : Course}

theorem lacking_iff : c.Lacking f ↔ ∃ r : Requirement, r.Unmet f c := by
  constructor
  · rintro (htitle | hmodules | hlessons | hidentifier)
    · exact ⟨.title, htitle⟩
    · exact ⟨.someModule, hmodules⟩
    · by_cases hmodules : c.modules = []
      · exact ⟨.someModule, hmodules⟩
      · exact ⟨.someLesson, hmodules, hlessons⟩
    · exact ⟨.identifier, hidentifier⟩
  · rintro ⟨r, hr⟩
    cases r with
    | title => exact Or.inl hr
    | someModule => exact Or.inr (Or.inl hr)
    | someLesson => exact Or.inr (Or.inr (Or.inl hr.2))
    | identifier => exact Or.inr (Or.inr (Or.inr hr))

theorem lackMessages_eq_nil_iff : c.lackMessages f = [] ↔ ¬ c.Lacking f := by
  have hall (r : Requirement) : r ∈ Requirement.all := by cases r <;> decide
  rw [lacking_iff, Course.lackMessages, List.map_eq_nil_iff, List.filter_eq_nil_iff]
  simp [hall]

theorem lessonCount_eq_zero_iff : c.lessonCount = 0 ↔ ∀ m ∈ c.modules, m.lessons = [] := by
  rw [Course.lessonCount, List.length_eq_zero_iff, List.flatMap_eq_nil_iff]

def Requirement.report (f : Format) (c : Course) (r : Requirement) : List String :=
  if r.Unmet f c then [r.message] else []

theorem lackMessages_eq (f : Format) (c : Course) :
    c.lackMessages f = Requirement.all.flatMap fun r => r.report f c := by
  rw [Course.lackMessages]
  induction Requirement.all with
  | nil => rfl
  | cons r rs ih =>
    rw [List.flatMap_cons, ← ih, Requirement.report]
    by_cases hr : r.Unmet f c
    · simp [hr]
    · simp [hr]

theorem problems_eq_reports (f : Format) (c : Course) :
    c.problems = Requirement.title.report f c ++
      (Requirement.someModule.report f c ++ Requirement.someLesson.report f c) := by
  rw [Course.problems]
  simp only [Requirement.report, Requirement.Unmet, Requirement.message, List.isEmpty_iff,
    lessonCount_eq_zero_iff]
  congr 1
  by_cases hmodules : c.modules = []
  · simp [hmodules]
  · simp [hmodules]

theorem problems_ofFormat (f : Format) (c : Course) :
    (Exporter.ofFormat f).problems c = Requirement.identifier.report f c := by
  simp only [Requirement.report, Requirement.Unmet, Requirement.message]
  cases f with
  | scorm version => simp [Exporter.ofFormat, Package.Scorm.exporter, Package.Scorm.problems]
  | xapi => simp [Exporter.ofFormat, Package.Bundle.xapi]
  | cmi5 => simp [Exporter.ofFormat, Package.Cmi5.exporter]
  | html5 => simp [Exporter.ofFormat, Package.Bundle.html5]

/-- What is wrong with a course are the messages on all that it lacks. -/
theorem courseProblems_ofFormat (f : Format) (c : Course) :
    (Exporter.ofFormat f).courseProblems c = c.lackMessages f := by
  rw [Exporter.courseProblems, problems_eq_reports f, problems_ofFormat, lackMessages_eq]
  simp [Requirement.all]

end Lacking

/-! ## The three answers -/

namespace Exporter

variable {f : Format} {ctx : ExportContext}

theorem format_ofFormat (f : Format) : (ofFormat f).format = f := by
  cases f <;> rfl

theorem exportCourse_of_lacking (h : ctx.course.Lacking f) :
    (ofFormat f).exportCourse ctx =
      .failure (.invalid (ctx.course.lackMessages f)) validationError {} := by
  have hne : (ctx.course.lackMessages f).isEmpty = false := by
    rw [List.isEmpty_eq_false_iff, ne_eq, lackMessages_eq_nil_iff]
    exact not_not.mpr h
  rw [exportCourse, courseProblems_ofFormat, hne]
  rfl

theorem exportCourse_eq_of_not_lacking (h : ¬ ctx.course.Lacking f) :
    (ofFormat f).exportCourse ctx =
      match (ofFormat f).makePackage ctx with
      | .ok package => .success package
      | .error cause => .failure cause f.errorCode {} := by
  rw [exportCourse, courseProblems_ofFormat, lackMessages_eq_nil_iff.mpr h, format_ofFormat]
  rfl

theorem exportCourse_of_clash (h : ¬ ctx.course.Lacking f) {cause : Failure}
    (hp : Plan.ofCourse ctx.course = .error cause) :
    (ofFormat f).exportCourse ctx = .failure cause f.errorCode {} := by
  rw [exportCourse_eq_of_not_lacking h, makePackage, hp]
  rfl

theorem makePackage_eq {e : Exporter} {p : Plan} {files : FileTree} {archive : Bytes}
    (hp : Plan.ofCourse ctx.course = .ok p) (hfiles : e.planFiles p ctx = .ok files)
    (hpack : Package.pack files ctx.settings.packaging ctx.made = .ok archive) :
    e.makePackage ctx = .ok
      { archive
        filename := Time.fileName ctx.course.title (some e.format.id) e.format.extension
          ctx.made.date
        mimeType := e.format.mimeType
        stats :=
          { totalItems := files.size
            totalSize := archive.length
            warningCount := (e.warnings p ctx.settings).length
            warnings := e.warnings p ctx.settings } } := by
  rw [makePackage, hp]
  change (e.planFiles p ctx >>= _) = _
  rw [hfiles]
  change (Package.pack files ctx.settings.packaging ctx.made >>= _) = _
  rw [hpack]
  rfl

end Exporter

namespace Package

open Zip

variable {f : Format} {ctx : ExportContext} {p : Plan} {files : FileTree}

/-! ## What is counted -/

def itemCount : Format → Nat → Nat
  | .scorm _, lessons => 5 + 2 * lessons
  | .cmi5, lessons => 4 + lessons
  | .xapi, lessons => 6 + lessons
  | .html5, lessons => 4 + lessons

theorem itemCount_eq (f : Format) (lessons : Nat) :
    itemCount f lessons =
      (pathScheme f).shared.length + lessons * (pathScheme f).stops.length := by
  cases f with
  | scorm version => exact congrArg (5 + ·) (Nat.mul_comm 2 lessons)
  | cmi5 => exact congrArg (4 + ·) (Nat.mul_one lessons).symm
  | xapi => exact congrArg (6 + ·) (Nat.mul_one lessons).symm
  | html5 => exact congrArg (4 + ·) (Nat.mul_one lessons).symm

theorem length_paths_pathScheme (f : Format) (p : Plan) :
    ((pathScheme f).paths p).length = itemCount f p.lessons.length := by
  rw [PathScheme.paths, List.length_append, List.length_flatMap, itemCount_eq]
  simp only [PathScheme.lessonPaths, List.length_map, List.map_const', List.sum_replicate_nat]

/-- The files of a plan are counted by its lessons: no two of them share a path. -/
theorem size_planFiles (f : Format) (hp : Plan.ofCourse ctx.course = .ok p)
    (hfiles : (Exporter.ofFormat f).planFiles p ctx = .ok files) :
    files.size = itemCount f ctx.course.lessonCount := by
  have hperm : files.paths.Perm ((pathScheme f).paths p) :=
    (List.perm_ext_iff_of_nodup files.files.nodup_keys
      ((sound_pathScheme f).nodup_paths (Plan.nodup_pathSegments hp))).mpr
      (covers_planFiles f hp hfiles)
  have hlength : files.paths.length = files.size := List.length_map _
  rw [← hlength, hperm.length_eq, length_paths_pathScheme, Plan.length_lessons hp]

/-- Within the limits of its records, the directory of the archive of a plan lists the files of
the plan. -/
theorem readDirectory_planFiles (f : Format) (hp : Plan.ofCourse ctx.course = .ok p)
    (hfiles : (Exporter.ofFormat f).planFiles p ctx = .ok files) {packaging : PackagingSettings}
    {made : Time.Instant} {archive : Bytes} (hpack : pack files packaging made = .ok archive)
    (hlimits : WithinLimits files archive) :
    ∃ entries, readDirectory archive = .ok entries ∧ entries.map (·.name) = files.paths :=
  ⟨_, readDirectory_pack hpack hlimits (noLocator_planFiles f hp hfiles packaging made),
    names_entriesFrom _ _⟩

/-- Whether what is counted of a package is what its archive holds. The warnings are those on
the plan, and behind them the remarks on the settings. -/
structure Counted (f : Format) (ctx : ExportContext) (p : Plan) (package : ExportedPackage) :
    Prop where
  totalItems : package.stats.totalItems = itemCount f ctx.course.lessonCount
  entries : ∃ entries, package.archive = archiveOf entries ∧
    entries.length = package.stats.totalItems
  listed : ∀ files, (Exporter.ofFormat f).buildFiles ctx = .ok files →
    WithinLimits files package.archive → ∃ entries,
      readDirectory package.archive = .ok entries ∧ entries.map (·.name) = files.paths ∧
        entries.length = package.stats.totalItems
  totalSize : package.stats.totalSize = package.archive.length
  warnings : package.stats.warnings =
    p.warnings.map Warning.message ++ (Exporter.ofFormat f).notes ctx.settings
  warningCount : package.stats.warningCount = package.stats.warnings.length

theorem counted_makePackage (hp : Plan.ofCourse ctx.course = .ok p)
    {package : ExportedPackage} (hmake : (Exporter.ofFormat f).makePackage ctx = .ok package) :
    Counted f ctx p package := by
  obtain ⟨p', files, hp', hfiles, hpack⟩ := Exporter.exists_of_makePackage hmake
  obtain rfl : p' = p := Except.ok.inj (hp'.symm.trans hp)
  have hpackage := Except.ok.inj (hmake.symm.trans (Exporter.makePackage_eq hp hfiles hpack))
  have htotal : package.stats.totalItems = files.size := by rw [hpackage]
  have hsize := size_planFiles f hp hfiles
  constructor
  · rw [htotal, hsize]
  · refine ⟨_, (pack_eq_ok_iff.mp hpack).2, ?_⟩
    rw [htotal]
    exact List.length_map _
  · intro files' hbuild hlimits
    obtain rfl : files' = files := by
      rw [Exporter.buildFiles_eq hp, hfiles] at hbuild
      exact (Except.ok.inj hbuild).symm
    obtain ⟨entries, hread, hnames⟩ := readDirectory_planFiles f hp hfiles hpack hlimits
    refine ⟨entries, hread, hnames, ?_⟩
    rw [htotal, ← List.length_map (·.name), hnames]
    exact List.length_map _
  · rw [hpackage]
  · rw [hpackage]
    rfl
  · rw [hpackage]

/-! ## The envelope -/

/-- What an export of a course answers. It is turned down exactly when the course lacks
something, it fails with the code of the format exactly when the course has no plan, and no
failure is of another kind or counts anything. -/
structure Envelope (f : Format) (ctx : ExportContext) (result : ExportResult) : Prop where
  lacking_iff : result =
    .failure (.invalid (ctx.course.lackMessages f)) validationError ⟨0, 0, 0, []⟩ ↔
      ctx.course.Lacking f
  clash_iff : ∀ cause, result = .failure cause f.errorCode ⟨0, 0, 0, []⟩ ↔
    ¬ ctx.course.Lacking f ∧ Plan.ofCourse ctx.course = .error cause
  success_iff : (∃ package, result = .success package) ↔
    ¬ ctx.course.Lacking f ∧ ∃ p, Plan.ofCourse ctx.course = .ok p
  failure : ∀ cause code stats, result = .failure cause code stats →
    stats = ⟨0, 0, 0, []⟩ ∧
      (code = validationError ∧ cause = .invalid (ctx.course.lackMessages f) ∨
        code = f.errorCode ∧ ∃ kind id, cause = .duplicate kind id)
  counted : ∀ package p, result = .success package → Plan.ofCourse ctx.course = .ok p →
    Counted f ctx p package

theorem errorCode_ne_validationError (f : Format) : f.errorCode ≠ validationError := by
  cases f <;> simp [Format.errorCode, validationError]

theorem envelope_lacking (h : ctx.course.Lacking f) : Envelope f ctx
    (.failure (.invalid (ctx.course.lackMessages f)) validationError ⟨0, 0, 0, []⟩) := by
  have hcode := errorCode_ne_validationError f
  constructor
  · exact iff_of_true rfl h
  · intro cause
    refine iff_of_false (fun heq => ?_) fun hnot => hnot.1 h
    exact hcode (ExportResult.failure.inj heq).2.1.symm
  · refine iff_of_false ?_ fun hnot => hnot.1 h
    rintro ⟨package, heq⟩
    cases heq
  · intro cause code stats heq
    obtain ⟨rfl, rfl, rfl⟩ := ExportResult.failure.inj heq
    exact ⟨rfl, Or.inl ⟨rfl, rfl⟩⟩
  · intro package p heq
    cases heq

theorem envelope_clash (h : ¬ ctx.course.Lacking f) {cause : Failure}
    (hp : Plan.ofCourse ctx.course = .error cause) :
    Envelope f ctx (.failure cause f.errorCode ⟨0, 0, 0, []⟩) := by
  have hcode := errorCode_ne_validationError f
  constructor
  · refine iff_of_false (fun heq => ?_) h
    exact hcode (ExportResult.failure.inj heq).2.1
  · intro cause'
    constructor
    · intro heq
      obtain ⟨rfl, -, -⟩ := ExportResult.failure.inj heq
      exact ⟨h, hp⟩
    · rintro ⟨-, hp'⟩
      obtain rfl : cause = cause' := Except.error.inj (hp.symm.trans hp')
      rfl
  · refine iff_of_false ?_ ?_
    · rintro ⟨package, heq⟩
      cases heq
    · rintro ⟨-, p, hp'⟩
      cases hp.symm.trans hp'
  · intro cause' code stats heq
    obtain ⟨rfl, rfl, rfl⟩ := ExportResult.failure.inj heq
    exact ⟨rfl, Or.inr ⟨rfl, Plan.exists_duplicate_of_error hp⟩⟩
  · intro package p heq
    cases heq

theorem envelope_success (h : ¬ ctx.course.Lacking f) (hp : Plan.ofCourse ctx.course = .ok p)
    {package : ExportedPackage} (hmake : (Exporter.ofFormat f).makePackage ctx = .ok package) :
    Envelope f ctx (.success package) := by
  constructor
  · refine iff_of_false (fun heq => ?_) h
    cases heq
  · intro cause
    refine iff_of_false (fun heq => ?_) ?_
    · cases heq
    · rintro ⟨-, hp'⟩
      cases hp.symm.trans hp'
  · exact iff_of_true ⟨package, rfl⟩ ⟨h, p, hp⟩
  · intro cause code stats heq
    cases heq
  · intro package' p' heq hp'
    obtain rfl := ExportResult.success.inj heq
    exact counted_makePackage hp' hmake

/-- Every export whose files can be packed answers within the envelope of its format. -/
theorem envelope_exportCourse (f : Format) (ctx : ExportContext)
    (hpack : ∀ files, (Exporter.ofFormat f).buildFiles ctx = .ok files →
      ∃ archive, pack files ctx.settings.packaging ctx.made = .ok archive) :
    Envelope f ctx ((Exporter.ofFormat f).exportCourse ctx) := by
  by_cases hlacking : ctx.course.Lacking f
  · rw [Exporter.exportCourse_of_lacking hlacking]
    exact envelope_lacking hlacking
  · cases hp : Plan.ofCourse ctx.course with
    | error cause =>
      rw [Exporter.exportCourse_of_clash hlacking hp]
      exact envelope_clash hlacking hp
    | ok p =>
      obtain ⟨files, hfiles⟩ := Exporter.exists_planFiles f hp
      obtain ⟨archive, hpacked⟩ := hpack files (by rw [Exporter.buildFiles_eq hp, hfiles])
      have hmake := Exporter.makePackage_eq hp hfiles hpacked
      rw [Exporter.exportCourse_eq_of_not_lacking hlacking, hmake]
      exact envelope_success hlacking hp hmake

section Dotted

/-- An export of the course to the other version of the format than is asked for. -/
def askingContext : ExportContext :=
  { dottedContext with settings := { scorm := { version := some .v2004 } } }

theorem exists_pack_asking :
    ∀ files, (Exporter.ofFormat (.scorm .v12)).buildFiles askingContext = .ok files →
      ∃ archive, pack files askingContext.settings.packaging askingContext.made = .ok archive := by
  have hplan : Plan.ofCourse askingContext.course = .ok dottedPlan := ofCourse_dottedCourse
  intro files hbuild
  rw [Exporter.buildFiles_eq hplan] at hbuild
  refine ⟨_, pack_eq_ok_iff.mpr ⟨fun file hfile => ?_, rfl⟩⟩
  have hpath : file.1 ∈ files.paths := List.mem_map_of_mem hfile
  have hfixed : ∀ path ∈ fixedPaths (.scorm .v12), (Text.utf8 path).length ≤ longestName := by
    decide
  have hlessons : ∀ l ∈ dottedPlan.lessons,
      ∀ path ∈ lessonPaths (.scorm .v12) (Text.pathSegment l.lesson.id),
        (Text.utf8 path).length ≤ longestName := by
    decide +kernel
  rcases (mem_paths_planFiles_iff _ hplan hbuild file.1).mp hpath with hmem | ⟨l, hl, hmem⟩
  · exact hfixed file.1 hmem
  · exact hlessons l hl file.1 hmem

theorem envelope_exportCourse_asking :
    ∃ package, (Exporter.ofFormat (.scorm .v12)).exportCourse askingContext = .success package ∧
      package.stats.totalItems = 11 ∧
      (∃ entries, package.archive = archiveOf entries ∧ entries.length = 11) ∧
      package.stats.totalSize = package.archive.length ∧
      package.stats.warningCount = 5 ∧
      package.stats.warnings.getLast? =
        some "Settings request SCORM 2004 but the package is SCORM 1.2" := by
  have hplan : Plan.ofCourse askingContext.course = .ok dottedPlan := ofCourse_dottedCourse
  have henvelope := envelope_exportCourse (.scorm .v12) askingContext exists_pack_asking
  have hlacking : ¬ askingContext.course.Lacking (.scorm .v12) := by
    rw [← lackMessages_eq_nil_iff]
    decide +kernel
  obtain ⟨package, hpackage⟩ := henvelope.success_iff.mpr ⟨hlacking, dottedPlan, hplan⟩
  have hcounted := henvelope.counted package dottedPlan hpackage hplan
  have hitems : package.stats.totalItems = 11 := hcounted.totalItems
  have hwarnings := hcounted.warnings
  refine ⟨package, hpackage, hitems, hitems ▸ hcounted.entries, hcounted.totalSize, ?_, ?_⟩
  · rw [hcounted.warningCount, hwarnings]
    decide +kernel
  · rw [hwarnings]
    decide +kernel

end Dotted

end Package

end Courseware
