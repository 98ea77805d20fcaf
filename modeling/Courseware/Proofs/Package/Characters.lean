import Courseware.Proofs.Descriptor.Characters
import Courseware.Proofs.Package.Verification

/-!
# The characters of the descriptors of a package

The descriptors in XML repeat texts of the course as they are. A parser accepts the
characters of a descriptor when it accepts those of these texts.
-/

namespace Courseware

open Text (IsXmlText)

/-! ## Texts that are repeated -/

def PlannedModule.titles (m : PlannedModule) : List String :=
  m.source.title :: m.lessons.map (·.lesson.title)

/-- The titles and the descriptions of a module and its lessons. -/
def PlannedModule.descriptions (m : PlannedModule) : List String :=
  m.source.title :: m.source.description.getD "" ::
    m.lessons.flatMap fun l => [l.lesson.title, l.lesson.description.getD ""]

theorem PlannedModule.isXml_outline (launch : PlannedLesson → String)
    (files : PlannedLesson → List String) (m : PlannedModule) :
    (m.outline launch files).IsXml ↔ ∀ s ∈ m.descriptions, IsXmlText s := by
  simp only [Descriptor.OutlineModule.IsXml, PlannedModule.outline, PlannedLesson.outline,
    descriptions, List.forall_mem_map, List.forall_mem_cons, List.forall_mem_flatMap,
    List.not_mem_nil, false_imp_iff, implies_true, and_true]

/-- A course of one lesson has a plan. -/
theorem Plan.exists_ofCourse_of_single {c : Course} {m : Module} {l : Lesson}
    (hmodules : c.modules = [m]) (hlessons : m.lessons = [l]) :
    ∃ p, ofCourse c = .ok p := by
  have hordered : c.orderedModules = [m] := by rw [Course.orderedModules, hmodules]; simp
  have hlesson : m.orderedLessons = [l] := by rw [Module.orderedLessons, hlessons]; simp
  refine ⟨_, ofCourse_eq_ok_iff.mpr ⟨?_, rfl⟩⟩
  rw [hordered, checkModules, hlesson]
  rfl

namespace Package

variable {p : Plan} {ctx : ExportContext}

/-- The texts that a descriptor in XML repeats. -/
def repeatedTexts (ctx : ExportContext) (p : Plan) : Format → List String
  | .scorm _ =>
    [ctx.course.versionOrDefault, ctx.language, ctx.course.title, ctx.course.description] ++
      ctx.course.metadata.keywords ++ ctx.course.metadata.copyright.toList ++
      p.filledModules.flatMap PlannedModule.titles
  | .xapi =>
    [ctx.activityIds.course, ctx.language, ctx.course.title, ctx.course.description] ++
      p.modules.flatMap PlannedModule.descriptions
  | .cmi5 =>
    [ctx.activityIds.course, ctx.language, ctx.course.title, ctx.course.description] ++
      p.filledModules.flatMap PlannedModule.descriptions
  | .html5 => []

theorem IsPath.isXmlText {path : String} (h : IsPath path) : IsXmlText path :=
  Text.isXmlText_of_range fun c hc =>
    ⟨(isPathChar_range (h.1 c hc)).1, (isPathChar_range (h.1 c hc)).2.1⟩

theorem Scorm.isXmlText_manifest (version : ScormVersion)
    (hp : Plan.ofCourse ctx.course = .ok p) :
    IsXmlText (manifest version p ctx).document ↔
      ∀ s ∈ repeatedTexts ctx p (.scorm version), IsXmlText s := by
  have hpaths : ∀ m ∈ (p.outline launcherPath fun l => [contentPath l]).launchable,
      ∀ l ∈ m.lessons, ∀ path ∈ l.launch :: l.files, IsXmlText path := by
    intro m hm l hl
    have hlesson := List.mem_flatMap.mpr ⟨m, hm, hl⟩
    rw [Plan.lessons_outline] at hlesson
    obtain ⟨q, hq, rfl⟩ := List.mem_map.mp hlesson
    have hsound := sound_scheme.isPath (p := p)
    refine List.forall_mem_cons.mpr ⟨?_, List.forall_mem_singleton.mpr ?_⟩
    · refine (hsound _ (PathScheme.mem_paths.mpr ?_)).isXmlText
      exact Or.inr ⟨q, hq, _, List.mem_cons_self, launcherPath_eq hp hq⟩
    · refine (hsound _ (PathScheme.mem_paths.mpr ?_)).isXmlText
      exact Or.inr ⟨q, hq, _, List.mem_cons_of_mem _ List.mem_cons_self, contentPath_eq hp hq⟩
  have hshared : ∀ path ∈ [scriptPath, stylesPath], IsXmlText path := by decide
  rw [manifest, Descriptor.Scorm.isXmlText_document _ _ _ _ hpaths hshared,
    Plan.launchable_outline]
  simp only [repeatedTexts, PlannedModule.titles, PlannedModule.outline, PlannedLesson.outline,
    List.forall_mem_append, List.forall_mem_cons, List.forall_mem_map, List.forall_mem_flatMap,
    List.not_mem_nil, false_imp_iff, implies_true, and_true, ExportContext.metadata,
    Descriptor.Metadata.ofCourse, ExportContext.language, and_assoc]
  simp

theorem Bundle.isXmlText_activityList (p : Plan) (ctx : ExportContext) :
    IsXmlText (activityList p ctx).document ↔
      ∀ s ∈ repeatedTexts ctx p .xapi, IsXmlText s := by
  have hindex : IsXmlText indexPath := by decide
  have hmodules : (∀ m ∈ outline p, m.IsXml) ↔
      ∀ m ∈ p.modules, ∀ s ∈ m.descriptions, IsXmlText s := by
    change (∀ m ∈ p.modules.map (PlannedModule.outline lessonPath fun _ => []), m.IsXml) ↔ _
    rw [List.forall_mem_map]
    exact forall₂_congr fun m _ => m.isXml_outline lessonPath _
  rw [activityList, Descriptor.TinCan.isXmlText_document, hmodules]
  simp only [repeatedTexts, List.forall_mem_append, List.forall_mem_cons, List.forall_mem_flatMap,
    List.not_mem_nil, false_imp_iff, implies_true, and_true, ExportContext.metadata,
    Descriptor.Metadata.ofCourse, ExportContext.language, and_assoc, hindex, true_and]

theorem Cmi5.isXmlText_courseStructure (hp : Plan.ofCourse ctx.course = .ok p) :
    IsXmlText (courseStructure p ctx).document ↔
      ∀ s ∈ repeatedTexts ctx p .cmi5, IsXmlText s := by
  have hmodules : (∀ m ∈ (p.outline unitPath fun _ => []).launchable,
      (∀ l ∈ m.lessons, IsXmlText l.launch) ∧ m.IsXml) ↔
      ∀ m ∈ p.filledModules, ∀ s ∈ m.descriptions, IsXmlText s := by
    rw [Plan.launchable_outline, List.forall_mem_map]
    refine forall₂_congr fun m hm => ?_
    have hlaunch : ∀ l ∈ (m.outline unitPath fun _ => []).lessons, IsXmlText l.launch := by
      refine List.forall_mem_map.mpr fun l hl => ?_
      have hlesson : l ∈ p.lessons := by
        rw [← p.lessons_filledModules]
        exact List.mem_flatMap.mpr ⟨m, hm, hl⟩
      refine (sound_scheme.isPath (p := p) _ (PathScheme.mem_paths.mpr ?_)).isXmlText
      exact Or.inr ⟨l, hlesson, _, List.mem_cons_self, unitPath_eq hp hlesson⟩
    rw [PlannedModule.isXml_outline]
    exact and_iff_right hlaunch
  rw [courseStructure, Descriptor.Cmi5.isXmlText_document, hmodules]
  simp only [repeatedTexts, List.forall_mem_append, List.forall_mem_cons, List.forall_mem_flatMap,
    List.not_mem_nil, false_imp_iff, implies_true, and_true, ExportContext.metadata,
    Descriptor.Metadata.ofCourse, ExportContext.language, and_assoc]

/-- In each format with a descriptor in XML, a course that has a plan has a package whose
descriptor has only characters that XML allows, provided that the texts that it repeats
have no others. One such character in one of these texts stands in the descriptor. -/
theorem isXmlText_descriptor (format : Format) (hformat : format ≠ .html5)
    (hp : Plan.ofCourse ctx.course = .ok p) :
    ∃ files document, (Exporter.ofFormat format).buildFiles ctx = .ok files ∧
      files.get? (descriptorPath format) = some (Text.utf8 document) ∧
      (IsXmlText document ↔ ∀ s ∈ repeatedTexts ctx p format, IsXmlText s) := by
  obtain ⟨files, hfiles⟩ := Exporter.exists_planFiles format hp
  have hbuild : (Exporter.ofFormat format).buildFiles ctx = .ok files := by
    rw [Exporter.buildFiles_eq hp, hfiles]
  cases format with
  | scorm version =>
    obtain ⟨script, hholds⟩ := Scorm.exists_holds hfiles
    exact ⟨files, _, hbuild, hholds.get?_eq (by simp [Scorm.texts, descriptorPath]),
      Scorm.isXmlText_manifest version hp⟩
  | xapi =>
    obtain ⟨wrapper, navigation, -, -, hholds⟩ := Bundle.Xapi.exists_holds hfiles
    exact ⟨files, _, hbuild, hholds.get?_eq (by simp [Bundle.Xapi.texts, descriptorPath]),
      Bundle.isXmlText_activityList p ctx⟩
  | cmi5 =>
    obtain ⟨script, hholds⟩ := Cmi5.exists_holds hfiles
    exact ⟨files, _, hbuild, hholds.get?_eq (by simp [Cmi5.texts, descriptorPath]),
      Cmi5.isXmlText_courseStructure hp⟩
  | html5 => exact absurd rfl hformat

theorem isXmlText_descriptor_sample :
    ∃ files document, (Exporter.ofFormat (.scorm .v12)).buildFiles sampleContext = .ok files ∧
      files.get? "imsmanifest.xml" = some (Text.utf8 document) ∧ IsXmlText document := by
  have hplan : Plan.ofCourse sampleContext.course = .ok samplePlan := ofCourse_sampleCourse
  obtain ⟨files, document, hbuild, hget, hiff⟩ :=
    isXmlText_descriptor (.scorm .v12) (by decide) hplan
  exact ⟨files, document, hbuild, hget, hiff.mpr (by decide +kernel)⟩

/-! ## A control character in a title -/

section Stray

/-- A course whose title has a control character. -/
def strayCourse : Course where
  id := "c"
  title := "A\u0001B"
  modules := [{ id := "m", title := "M", lessons := [{ id := "l", title := "L" }] }]

def strayContext : ExportContext := ⟨strayCourse, {}, ⟨0, false⟩⟩

/-- The descriptor of an exported course has a control character. -/
theorem exists_descriptor_not_isXmlText :
    ∃ files document, (Exporter.ofFormat .xapi).buildFiles strayContext = .ok files ∧
      files.get? "tincan.xml" = some (Text.utf8 document) ∧ ¬ IsXmlText document := by
  obtain ⟨p, hp⟩ : ∃ p, Plan.ofCourse strayContext.course = .ok p :=
    Plan.exists_ofCourse_of_single rfl rfl
  obtain ⟨files, hfiles⟩ := Exporter.exists_planFiles .xapi hp
  obtain ⟨wrapper, navigation, -, -, hholds⟩ := Bundle.Xapi.exists_holds hfiles
  refine ⟨files, _, ?_, hholds.get?_eq (List.mem_append_left _ List.mem_cons_self), ?_⟩
  · rw [Exporter.buildFiles_eq hp, hfiles]
  · rw [Bundle.isXmlText_activityList]
    intro hall
    exact absurd (hall strayCourse.title (by simp [repeatedTexts, strayContext])) (by decide)

end Stray

end Package

end Courseware
