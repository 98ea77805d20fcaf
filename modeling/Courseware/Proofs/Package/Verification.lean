import Courseware.Proofs.Package.Cmi5
import Courseware.Proofs.Package.Html5
import Courseware.Proofs.Package.Limits
import Courseware.Proofs.Package.Scorm

/-!
# Exported packages have no problems

Whatever a course holds, nothing is wrong with the package that it is exported to.
-/

namespace Courseware

variable {ctx : ExportContext} {package : ExportedPackage}

namespace Exporter

/-- Every plan has its files, in each format. -/
theorem exists_planFiles (f : Format) {p : Plan} (hp : Plan.ofCourse ctx.course = .ok p) :
    ∃ files, (ofFormat f).planFiles p ctx = .ok files := by
  cases f with
  | scorm version => exact Package.Scorm.exists_planFiles hp
  | xapi => exact Package.Bundle.Xapi.exists_planFiles hp
  | cmi5 => exact Package.Cmi5.exists_planFiles hp
  | html5 => exact Package.Bundle.Html5.exists_planFiles hp

/-- What a successful export went through. -/
theorem exportCourse_eq_success_iff {e : Exporter} :
    e.exportCourse ctx = .success package ↔
      e.courseProblems ctx.course = [] ∧ e.makePackage ctx = .ok package := by
  rw [exportCourse]
  cases hproblems : e.courseProblems ctx.course with
  | nil => cases e.makePackage ctx <;> simp
  | cons s problems => simp

/-- A package is the archive of the files of a plan. -/
theorem exists_of_makePackage {e : Exporter} (h : e.makePackage ctx = .ok package) :
    ∃ p files, Plan.ofCourse ctx.course = .ok p ∧ e.planFiles p ctx = .ok files ∧
      Package.pack files ctx.settings.packaging ctx.made = .ok package.archive := by
  obtain ⟨p, hp, h⟩ := bind_eq_ok_iff.mp h
  obtain ⟨files, hfiles, h⟩ := bind_eq_ok_iff.mp h
  obtain ⟨archive, hpack, h⟩ := bind_eq_ok_iff.mp h
  obtain rfl := Except.ok.inj h
  exact ⟨p, files, hp, hfiles, hpack⟩

theorem buildFiles_eq {e : Exporter} {p : Plan} (hp : Plan.ofCourse ctx.course = .ok p) :
    e.buildFiles ctx = e.planFiles p ctx := by
  rw [buildFiles, hp]
  rfl

end Exporter

/-- The plan of a course without problems has lessons. -/
theorem Plan.lessons_ne_nil {c : Course} {p : Plan} (hp : ofCourse c = .ok p)
    (hproblems : c.problems = []) : p.lessons ≠ [] := by
  intro hnil
  have hcount : c.lessonCount = 0 := by
    rw [← length_lessons hp, hnil]
    rfl
  rw [Course.problems, List.append_eq_nil_iff, hcount] at hproblems
  by_cases hmodules : c.modules.isEmpty = true
  · simp [hmodules] at hproblems
  · simp [hmodules] at hproblems

namespace Package

/-- Nothing is wrong with an exported package: as long as its archive stays within the
limits of its records, it is read back and verified. -/
theorem verify_exportCourse (f : Format) {files : FileTree} (hfits : ctx.course.Fits)
    (hexport : (Exporter.ofFormat f).exportCourse ctx = .success package)
    (hfiles : (Exporter.ofFormat f).buildFiles ctx = .ok files)
    (hlimits : WithinLimits files package.archive) :
    verify package.archive f = .ok [] := by
  obtain ⟨hproblems, hmake⟩ := Exporter.exportCourse_eq_success_iff.mp hexport
  obtain ⟨p, files', hp, hplan, hpack⟩ := Exporter.exists_of_makePackage hmake
  obtain rfl : files' = files := by
    rw [Exporter.buildFiles_eq hp, hplan] at hfiles
    exact Except.ok.inj hfiles
  have hlessons : p.lessons ≠ [] :=
    Plan.lessons_ne_nil hp (List.append_eq_nil_iff.mp hproblems).1
  cases f with
  | scorm version => exact Scorm.verify_of_planFiles hp hplan hpack hlimits
  | xapi => exact Bundle.Xapi.verify_of_planFiles hp hplan hpack hlimits
  | cmi5 => exact Cmi5.verify_of_planFiles hp hlessons hplan hpack hlimits
  | html5 => exact Bundle.Html5.verify_of_planFiles hp hfits hplan hpack hlimits

/-! ## A small package -/

section Sample

/-- A lesson whose title has quotes. -/
def sampleLesson : Lesson := { id := "start", title := "\"First steps\"" }

/-- A module whose title looks like a tag. -/
def sampleModule : Module := { id := "basics", title := "<Basics>", lessons := [sampleLesson] }

/-- A course with one lesson. -/
def sampleCourse : Course := { id := "tour", title := "Here & there", modules := [sampleModule] }

/-- An export that stores the files as they are. -/
def sampleContext : ExportContext :=
  ⟨sampleCourse, { packaging := { compress := false } }, ⟨0, false⟩⟩

def sampleEntry : PlannedLesson := ⟨0, sampleModule, sampleLesson, "start", [], []⟩

def samplePlan : Plan := ⟨sampleCourse, [⟨sampleModule, 0, [sampleEntry]⟩]⟩

theorem ofCourse_sampleCourse : Plan.ofCourse sampleCourse = .ok samplePlan := by
  have hmodules : sampleCourse.orderedModules = [sampleModule] := by
    simp [Course.orderedModules, sampleCourse]
  have hlessons : sampleModule.orderedLessons = [sampleLesson] := by
    simp [Module.orderedLessons, sampleModule]
  have hblocks : sampleLesson.orderedBlocks = [] := by
    simp [Lesson.orderedBlocks, sampleLesson]
  have hsegment : Text.pathSegment sampleLesson.id = "start" := by decide +kernel
  rw [Plan.ofCourse_eq_ok_iff, hmodules]
  refine ⟨?_, ?_⟩
  · rw [checkModules, hlessons]
    decide +kernel
  · have hentry : PlannedLesson.ofLesson sampleModule 0 sampleLesson = sampleEntry := by
      rw [PlannedLesson.ofLesson, hblocks, hsegment]
      rfl
    simp [planModules, PlannedModule.ofModule, hlessons, hentry, samplePlan]

section Sizes

-- Scripts and styles are read character by character.
set_option maxRecDepth 20000

theorem utf8ByteSize_ofList_of_length {cs : List Char} {bound : Nat}
    (h : cs.length ≤ bound) : (String.ofList cs).utf8ByteSize ≤ 4 * bound :=
  (utf8ByteSize_ofList_le cs).trans (Nat.mul_le_mul_left 4 h)

theorem utf8ByteSize_stylesheet : Page.stylesheet.utf8ByteSize ≤ 4 * 5000 :=
  utf8ByteSize_ofList_of_length (by decide +kernel)

theorem utf8ByteSize_navigation : Script.navigation.source.utf8ByteSize ≤ 4 * 5000 := by
  have hhead : Script.Navigation.head.utf8ByteSize ≤ 4 * 300 :=
    utf8ByteSize_ofList_of_length (by decide +kernel)
  have hprogress : Script.Navigation.progress.utf8ByteSize ≤ 4 * 2000 :=
    utf8ByteSize_ofList_of_length (by decide +kernel)
  have hchecks : Script.answerChecks.utf8ByteSize ≤ 4 * 1000 :=
    utf8ByteSize_ofList_of_length (by decide +kernel)
  have hwiring : Script.Navigation.wiring.utf8ByteSize ≤ 4 * 1500 :=
    utf8ByteSize_ofList_of_length (by decide +kernel)
  simp only [Script.navigation, String.utf8ByteSize_append]
  omega

end Sizes

/-- The files of the package are not large. -/
theorem utf8ByteSize_texts {navigation : String}
    (h : Bundle.navigationScript samplePlan sampleContext = .ok navigation) :
    ∀ f ∈ Bundle.Html5.texts navigation samplePlan sampleContext,
      f.1.utf8ByteSize ≤ 65535 ∧ f.2.utf8ByteSize ≤ 65535 := by
  have hmanifest : (Descriptor.Web.document sampleContext.metadata (Bundle.outline samplePlan)
      Bundle.indexPath).utf8ByteSize ≤ 65535 := by
    decide +kernel
  have hnavigation : navigation.utf8ByteSize ≤ 65535 := by
    rw [Bundle.navigationScript, Script.navigationScript] at h
    have hfill := Script.utf8ByteSize_fill_le h
    have hsource := utf8ByteSize_navigation
    have hconfig : (Json.object [
        ("storageKey", .string (Script.progressKey sampleContext.course.id)),
        ("trackProgress", .bool true),
        ("lessons", .strings samplePlan.lessonIds)]).pretty.utf8ByteSize ≤ 1000 := by
      decide +kernel
    omega
  have hindex : (Bundle.indexPage samplePlan sampleContext [Bundle.navigationPath]
      []).utf8ByteSize ≤ 65535 := by
    rw [Bundle.indexPage, Page.Shell.document, Markup.render, utf8ByteSize_join]
    decide +kernel
  have hlesson : (Bundle.lessonPage .html5 samplePlan sampleEntry sampleContext
      [Bundle.navigationPath] []).utf8ByteSize ≤ 65535 := by
    rw [Bundle.lessonPage, Page.Shell.document, Markup.render, utf8ByteSize_join]
    decide +kernel
  have hstyles := utf8ByteSize_stylesheet
  have hlessons : samplePlan.lessons = [sampleEntry] := rfl
  simp only [Bundle.Html5.texts, Bundle.Html5.lessonTexts, hlessons, List.flatMap_cons,
    List.flatMap_nil, List.cons_append, List.nil_append, List.append_nil, List.forall_mem_cons,
    List.not_mem_nil, false_imp_iff, implies_true, and_true]
  refine ⟨⟨by decide +kernel, hmanifest⟩, ⟨by decide +kernel, hnavigation⟩,
    ⟨by decide +kernel, by omega⟩, ⟨by decide +kernel, hindex⟩, ⟨by decide +kernel, hlesson⟩⟩

/-- The course is exported to an archive within the limits. -/
theorem exists_export_sample :
    ∃ package files, sampleContext.course.Fits ∧
      (Exporter.ofFormat .html5).exportCourse sampleContext = .success package ∧
      (Exporter.ofFormat .html5).buildFiles sampleContext = .ok files ∧
      WithinLimits files package.archive := by
  obtain ⟨files, hfiles⟩ :
      ∃ files, Bundle.html5.planFiles samplePlan sampleContext = .ok files :=
    Bundle.Html5.exists_planFiles ofCourse_sampleCourse
  obtain ⟨navigation, hnavigation, hholds⟩ := Bundle.Html5.exists_holds hfiles
  have hstored : sampleContext.settings.packaging.stored = true := by decide
  have hcount : (Bundle.Html5.texts navigation samplePlan sampleContext).length ≤ 1000 := by
    simp [Bundle.Html5.texts, Bundle.Html5.lessonTexts, samplePlan, Plan.lessons]
  obtain ⟨archive, hpack, hlimits⟩ := exists_pack hholds hstored hcount
    (utf8ByteSize_texts hnavigation) sampleContext.made
  have hmake : (Exporter.ofFormat .html5).makePackage sampleContext = .ok _ :=
    bind_eq_ok_iff.mpr ⟨samplePlan, ofCourse_sampleCourse,
      bind_eq_ok_iff.mpr ⟨files, hfiles, bind_eq_ok_iff.mpr ⟨archive, hpack, rfl⟩⟩⟩
  have hexport := Exporter.exportCourse_eq_success_iff.mpr ⟨by decide +kernel, hmake⟩
  have hfits : sampleContext.course.Fits := by
    simp [Course.Fits, Module.Fits, Lesson.Fits, sampleContext, sampleCourse, sampleModule,
      sampleLesson, Json.wholeLimit]
  have hbuild : (Exporter.ofFormat .html5).buildFiles sampleContext = .ok files := by
    rw [Exporter.buildFiles_eq ofCourse_sampleCourse]
    exact hfiles
  exact ⟨_, files, hfits, hexport, hbuild, hlimits⟩

theorem verify_exportCourse_sample :
    ∃ package, (Exporter.ofFormat .html5).exportCourse sampleContext = .success package ∧
      verify package.archive .html5 = .ok [] := by
  obtain ⟨package, files, hfits, hexport, hbuild, hlimits⟩ := exists_export_sample
  exact ⟨package, hexport, verify_exportCourse .html5 hfits hexport hbuild hlimits⟩

end Sample

end Package

end Courseware
