import Courseware.Proofs.Descriptor.TinCan
import Courseware.Proofs.Package.Checks
import Courseware.Proofs.Script.Slot

/-!
# Packages that send statements have no problems

The descriptor of an xAPI package starts the course at its index.
-/

namespace Courseware.Package.Bundle

variable {p : Plan} {ctx : ExportContext} {files : FileTree} {wrapper navigation : String}

theorem lessonPath_eq (hp : Plan.ofCourse ctx.course = .ok p) {l : PlannedLesson}
    (hl : l ∈ p.lessons) : lessonPath l = segmentPath "lessons/" l.lesson.id ".html" := by
  rw [lessonPath, pageName, Plan.segment_eq hp hl, segmentPath, String.append_assoc]

namespace Xapi

def lessonTexts (p : Plan) (ctx : ExportContext) (l : PlannedLesson) : List TextFile :=
  [(lessonPath l, lessonPage .xapi p l ctx [templatesPath, navigationPath, wrapperPath]
    (completeButton l.lesson.id))]

/-- The files of a package with the given scripts. -/
def texts (wrapper navigation : String) (p : Plan) (ctx : ExportContext) : List TextFile :=
  [(tincanPath, (activityList p ctx).document), (wrapperPath, wrapper),
    (templatesPath, Script.statementTemplates ctx.activityIds ctx.course.title
      (p.lessons.map (lessonActivity ctx.activityIds))),
    (navigationPath, navigation), (stylesPath, Page.stylesheet),
    (indexPath, indexPage p ctx [templatesPath, navigationPath, wrapperPath] finishButton)] ++
    p.lessons.flatMap (lessonTexts p ctx)

def scheme : PathScheme where
  shared := [tincanPath, wrapperPath, templatesPath, navigationPath, stylesPath, indexPath]
  start := "lessons/"
  stops := [".html"]
  last := tincanPath

theorem sound_scheme : scheme.Sound where
  isPath_shared := by
    simp only [scheme, List.forall_mem_cons, List.not_mem_nil, false_imp_iff, implies_true,
      and_true]
    refine ⟨?_, ?_, ?_, ?_, ?_, ?_⟩ <;> exact isPath_ofList ⟨by decide, _, rfl, by decide⟩
  isPath_stop := List.forall_mem_singleton.mpr (isPath_ofList ⟨by decide, _, rfl, by decide⟩)
  start_chars := by decide
  nodup_shared := by decide
  nodup_stops := by decide
  last_mem := by decide
  last_max := by decide
  ending := Or.inl (by decide)
  separated := Or.inl ⟨_, rfl⟩
  first := ⟨'l', _, rfl, by decide, 't', _, rfl, by decide⟩

theorem map_fst_texts (hp : Plan.ofCourse ctx.course = .ok p) :
    (texts wrapper navigation p ctx).map Prod.fst = scheme.paths p := by
  refine PathScheme.map_fst_texts rfl fun l hl => ?_
  simp [lessonTexts, PathScheme.lessonPaths, scheme, lessonPath_eq hp hl]

theorem exists_packageFiles {files : List TextFile} (h : xapiPackageFiles p ctx = .ok files) :
    ∃ wrapper navigation,
      Script.xapiScript ctx.settings.xapi ctx.activityIds ctx.language = .ok wrapper ∧
      navigationScript p ctx = .ok navigation ∧
      files ++ p.lessons.flatMap (lessonTexts p ctx) = texts wrapper navigation p ctx := by
  obtain ⟨wrapper, hwrapper, h⟩ := bind_eq_ok_iff.mp h
  obtain ⟨navigation, hnavigation, hreturn⟩ := bind_eq_ok_iff.mp h
  exact ⟨wrapper, navigation, hwrapper, hnavigation, by rw [← Except.ok.inj hreturn]; rfl⟩

theorem exists_holds (h : xapi.planFiles p ctx = .ok files) :
    ∃ wrapper navigation,
      Script.xapiScript ctx.settings.xapi ctx.activityIds ctx.language = .ok wrapper ∧
      navigationScript p ctx = .ok navigation ∧
      FileTree.empty.Holds files
        ((texts wrapper navigation p ctx).map fun f => (f.1, Text.utf8 f.2)) := by
  obtain ⟨shared, hshared, -⟩ := bind_eq_ok_iff.mp h
  obtain ⟨wrapper, navigation, hwrapper, hnavigation, htexts⟩ := exists_packageFiles hshared
  refine ⟨wrapper, navigation, hwrapper, hnavigation, ?_⟩
  rw [← htexts]
  exact Exporter.holds_of_planFiles h hshared fun l _ => rfl

/-- Every plan has its files. -/
theorem exists_planFiles (hp : Plan.ofCourse ctx.course = .ok p) :
    ∃ files, xapi.planFiles p ctx = .ok files := by
  obtain ⟨wrapper, hwrapper⟩ :=
    Script.exists_xapiScript ctx.settings.xapi ctx.activityIds ctx.language
  obtain ⟨navigation, hnavigation⟩ := Script.exists_navigationScript ctx.course.id p.lessonIds
  obtain ⟨shared, hshared⟩ : ∃ shared, xapi.packageFiles p ctx = .ok shared :=
    ⟨_, bind_eq_ok_iff.mpr ⟨_, hwrapper, bind_eq_ok_iff.mpr ⟨_, hnavigation, rfl⟩⟩⟩
  obtain ⟨wrapper, navigation, -, -, htexts⟩ := exists_packageFiles hshared
  have hpaths : (texts wrapper navigation p ctx).map Prod.fst = scheme.paths p := map_fst_texts hp
  rw [← htexts] at hpaths
  exact sound_scheme.exists_planFiles hp hshared (fun _ _ => rfl) hpaths

theorem isPath_indexPath : IsPath indexPath :=
  isPath_ofList ⟨by decide, _, rfl, by decide⟩

/-- Only the course starts at a page, the index. -/
theorem flatMap_launch_activityList (p : Plan) (ctx : ExportContext) :
    ((activityList p ctx).activities.flatMap fun a => a.launch.toList) = [indexPath] := by
  have hmodules : ∀ (ids : ActivityIds) (ms : Descriptor.Outline),
      ((ms.flatMap (Descriptor.TinCan.moduleActivities ids)).flatMap
        fun a => a.launch.toList) = [] := by
    intro ids ms
    apply List.flatMap_eq_nil_iff.mpr
    intro a ha
    obtain ⟨m, -, ha⟩ := List.mem_flatMap.mp ha
    rcases List.mem_cons.mp ha with rfl | ha
    · rfl
    · obtain ⟨l, -, rfl⟩ := List.mem_map.mp ha
      rfl
  rw [activityList, Descriptor.TinCan.ActivityList.ofOutline, List.flatMap_cons, hmodules]
  rfl

theorem isPhrase_launch (p : Plan) (ctx : ExportContext) {a : Descriptor.TinCan.Activity}
    (ha : a ∈ (activityList p ctx).activities) {place : String}
    (hplace : a.launch = some place) : Package.IsPhrase place := by
  have hmem : place ∈ [indexPath] := by
    rw [← flatMap_launch_activityList p ctx]
    exact List.mem_flatMap.mpr ⟨a, ha, by simp [hplace]⟩
  rw [List.mem_singleton.mp hmem]
  exact isPath_indexPath.isPhrase

/-- The descriptor refers to the index. -/
theorem isDescribed (hp : Plan.ofCourse ctx.course = .ok p)
    (hholds : FileTree.empty.Holds files
      ((texts wrapper navigation p ctx).map fun f => (f.1, Text.utf8 f.2))) :
    IsDescribed .xapi files [indexPath] := by
  have hcovers := PathScheme.covers_of_holds hholds (map_fst_texts hp)
  have hshared : ∀ path ∈ scheme.shared, path ∈ files.paths := fun path hpath =>
    (hcovers path).mpr (PathScheme.mem_paths.mpr (Or.inl hpath))
  refine ⟨?_, ⟨_, hholds.get?_eq List.mem_cons_self, fun q => ?_⟩, by simp, ?_⟩
  · have hrequired : requiredPaths .xapi ⊆ scheme.shared := by decide
    exact fun path hpath => hshared path (hrequired hpath)
  · rw [← flatMap_launch_activityList p ctx]
    exact Descriptor.TinCan.references_document
      (fun a ha _ hplace => isPhrase_launch p ctx ha hplace) q
  · exact List.forall_mem_singleton.mpr (hshared _ (by decide))

/-- Packages are verified. -/
theorem verify_of_planFiles (hp : Plan.ofCourse ctx.course = .ok p)
    (hfiles : xapi.planFiles p ctx = .ok files) {archive : Bytes}
    (hpack : pack files ctx.settings.packaging ctx.made = .ok archive)
    (hlimits : WithinLimits files archive) : verify archive .xapi = .ok [] := by
  obtain ⟨wrapper, navigation, -, -, hholds⟩ := exists_holds hfiles
  exact verify_pack sound_scheme (PathScheme.covers_of_holds hholds (map_fst_texts hp)) hpack
    hlimits (isDescribed hp hholds).problems_eq_nil

end Xapi

end Courseware.Package.Bundle
