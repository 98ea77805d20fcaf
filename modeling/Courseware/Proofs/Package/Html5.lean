import Courseware.Proofs.Course
import Courseware.Proofs.Package.Xapi

/-!
# Packages for the open web have no problems

The descriptor of a package for the open web starts the course at its index and names
the page of each lesson.
-/

namespace Courseware.Package.Bundle.Html5

variable {p : Plan} {ctx : ExportContext} {files : FileTree} {navigation : String}

def lessonTexts (p : Plan) (ctx : ExportContext) (l : PlannedLesson) : List TextFile :=
  [(lessonPath l, lessonPage .html5 p l ctx [navigationPath] [])]

/-- The files of a package with the given script. -/
def texts (navigation : String) (p : Plan) (ctx : ExportContext) : List TextFile :=
  [(manifestPath, Descriptor.Web.document ctx.metadata (outline p) indexPath),
    (navigationPath, navigation), (stylesPath, Page.stylesheet),
    (indexPath, indexPage p ctx [navigationPath] [])] ++ p.lessons.flatMap (lessonTexts p ctx)

def scheme : PathScheme where
  shared := [manifestPath, navigationPath, stylesPath, indexPath]
  start := "lessons/"
  stops := [".html"]
  last := manifestPath

theorem sound_scheme : scheme.Sound where
  isPath_shared := by
    simp only [scheme, List.forall_mem_cons, List.not_mem_nil, false_imp_iff, implies_true,
      and_true]
    refine ⟨?_, ?_, ?_, ?_⟩ <;> exact isPath_ofList ⟨by decide, _, rfl, by decide⟩
  isPath_stop := List.forall_mem_singleton.mpr (isPath_ofList ⟨by decide, _, rfl, by decide⟩)
  start_chars := by decide
  nodup_shared := by decide
  nodup_stops := by decide
  last_mem := by decide
  last_max := by decide
  ending := Or.inl (by decide)
  separated := Or.inl ⟨_, rfl⟩
  first := ⟨'l', _, rfl, by decide, 'm', _, rfl, by decide⟩

theorem map_fst_texts (hp : Plan.ofCourse ctx.course = .ok p) :
    (texts navigation p ctx).map Prod.fst = scheme.paths p := by
  refine PathScheme.map_fst_texts rfl fun l hl => ?_
  simp [lessonTexts, PathScheme.lessonPaths, scheme, lessonPath_eq hp hl]

theorem exists_packageFiles {files : List TextFile}
    (h : html5PackageFiles p ctx = .ok files) :
    ∃ navigation, navigationScript p ctx = .ok navigation ∧
      files ++ p.lessons.flatMap (lessonTexts p ctx) = texts navigation p ctx := by
  obtain ⟨navigation, hnavigation, hreturn⟩ := bind_eq_ok_iff.mp h
  exact ⟨navigation, hnavigation, by rw [← Except.ok.inj hreturn]; rfl⟩

theorem exists_holds (h : html5.planFiles p ctx = .ok files) :
    ∃ navigation, navigationScript p ctx = .ok navigation ∧
      FileTree.empty.Holds files
        ((texts navigation p ctx).map fun f => (f.1, Text.utf8 f.2)) := by
  obtain ⟨shared, hshared, -⟩ := bind_eq_ok_iff.mp h
  obtain ⟨navigation, hnavigation, htexts⟩ := exists_packageFiles hshared
  refine ⟨navigation, hnavigation, ?_⟩
  rw [← htexts]
  exact Exporter.holds_of_planFiles h hshared fun l _ => rfl

/-- Every plan has its files. -/
theorem exists_planFiles (hp : Plan.ofCourse ctx.course = .ok p) :
    ∃ files, html5.planFiles p ctx = .ok files := by
  obtain ⟨navigation, hnavigation⟩ := Script.exists_navigationScript ctx.course.id p.lessonIds
  obtain ⟨shared, hshared⟩ : ∃ shared, html5.packageFiles p ctx = .ok shared :=
    ⟨_, bind_eq_ok_iff.mpr ⟨_, hnavigation, rfl⟩⟩
  obtain ⟨navigation, -, htexts⟩ := exists_packageFiles hshared
  have hpaths : (texts navigation p ctx).map Prod.fst = scheme.paths p := map_fst_texts hp
  rw [← htexts] at hpaths
  exact sound_scheme.exists_planFiles hp hshared (fun _ _ => rfl) hpaths

/-- The pages that the descriptor refers to, behind the index. -/
theorem flatMap_launch_outline (p : Plan) :
    ((outline p).flatMap fun m => m.lessons.map (·.launch)) = p.lessons.map lessonPath := by
  rw [outline, Plan.outline, List.flatMap_map, Plan.lessons, List.map_flatMap]
  refine List.flatMap_congr fun m _ => ?_
  rw [List.map_map]
  rfl

/-- The descriptor refers to the index and to the pages of the lessons. -/
theorem isDescribed (hp : Plan.ofCourse ctx.course = .ok p) (hfits : ctx.course.Fits)
    (hholds : FileTree.empty.Holds files
      ((texts navigation p ctx).map fun f => (f.1, Text.utf8 f.2))) :
    IsDescribed .html5 files (indexPath :: p.lessons.map lessonPath) := by
  have hcovers := PathScheme.covers_of_holds hholds (map_fst_texts hp)
  have hshared : ∀ path ∈ scheme.shared, path ∈ files.paths := fun path hpath =>
    (hcovers path).mpr (PathScheme.mem_paths.mpr (Or.inl hpath))
  refine ⟨?_, ⟨_, hholds.get?_eq List.mem_cons_self, fun q => ?_⟩, by simp, ?_⟩
  · have hrequired : requiredPaths .html5 ⊆ scheme.shared := by decide
    exact fun path hpath => hshared path (hrequired hpath)
  · have hread := Descriptor.Web.ofText_document ctx.metadata indexPath
      (Plan.fits_outline hp hfits lessonPath fun _ => [])
    rw [references, outline, hread]
    change Except.ok ([], webPaths _) = _
    rw [Descriptor.Web.webPaths_manifest]
    change Except.ok (([] : List Problem), indexPath :: (outline p).flatMap _) = _
    rw [flatMap_launch_outline]
  · refine List.forall_mem_cons.mpr ⟨hshared _ (by decide), ?_⟩
    refine List.forall_mem_map.mpr fun l hl => (hcovers _).mpr (PathScheme.mem_paths.mpr ?_)
    exact Or.inr ⟨l, hl, ".html", by decide, lessonPath_eq hp hl⟩

/-- Packages are verified. -/
theorem verify_of_planFiles (hp : Plan.ofCourse ctx.course = .ok p) (hfits : ctx.course.Fits)
    (hfiles : html5.planFiles p ctx = .ok files) {archive : Bytes}
    (hpack : pack files ctx.settings.packaging ctx.made = .ok archive)
    (hlimits : WithinLimits files archive) : verify archive .html5 = .ok [] := by
  obtain ⟨navigation, -, hholds⟩ := exists_holds hfiles
  exact verify_pack sound_scheme (PathScheme.covers_of_holds hholds (map_fst_texts hp)) hpack
    hlimits (isDescribed hp hfits hholds).problems_eq_nil

end Courseware.Package.Bundle.Html5
