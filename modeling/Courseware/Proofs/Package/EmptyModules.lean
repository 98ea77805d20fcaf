import Courseware.Proofs.EmptyModules
import Courseware.Proofs.Package.Dependence
import Courseware.Proofs.Package.Listing

/-!
# What empty modules leave in packages

A module without lessons is skipped: no page, no script and no text of a package knows of it,
and the descriptors of SCORM and cmi5 packages do not list it. The other two descriptors list
it all the same, without lessons, and so they alone tell the package of a course from that of
the course without its empty modules.
-/

namespace Courseware

/-- An export of the course without its modules that have no lessons. -/
def ExportContext.filled (ctx : ExportContext) : ExportContext :=
  { ctx with course := ctx.course.filled }

namespace Package

/-! ## Pages and texts -/

section Pages

variable (p : Plan) (l : PlannedLesson) (ctx : ExportContext)

theorem readme_filled (format : Format) (steps : String) :
    readme p.filled ctx.filled format steps = readme p ctx format steps := by
  rw [readme, Plan.filledModules_filled]
  rfl

theorem Bundle.indexPage_filled (scripts : List String) (footer : List Markup.Token) :
    Bundle.indexPage p.filled ctx.filled scripts footer =
      Bundle.indexPage p ctx scripts footer := by
  rw [Bundle.indexPage, Page.courseIndex, Plan.filledModules_filled]
  rfl

theorem Bundle.lessonPage_filled (format : Format) (scripts : List String)
    (between : List Markup.Token) :
    Bundle.lessonPage format p.filled l ctx.filled scripts between =
      Bundle.lessonPage format p l ctx scripts between := by
  rw [Bundle.lessonPage, Page.lessonLinks, Plan.previous?_filled, Plan.next?_filled]
  rfl

theorem Bundle.navigationScript_filled :
    Bundle.navigationScript p.filled ctx.filled = Bundle.navigationScript p ctx := by
  rw [Bundle.navigationScript, Plan.lessonIds_filled]
  rfl

end Pages

/-! ## Descriptors -/

open Descriptor (Listing)

/-- Whether the descriptors of a format list the modules that have no lessons. -/
def ListsEmptyModules (f : Format) : Prop := f = .xapi ∨ f = .html5

/-- What the descriptor of a package lists. -/
def listingAt? (f : Format) (files : FileTree) : Option Listing :=
  (textAt? files (descriptorPath f)).bind (listing? f)

variable {p : Plan} {ctx : ExportContext} {files files' : FileTree}

theorem listingAt?_eq {f : Format} {text : String}
    (h : textAt? files (descriptorPath f) = some text) : listingAt? f files = listing? f text := by
  rw [listingAt?, h, Option.bind_some]

/-- A descriptor that lists modules without lessons lists all modules of the plan. -/
theorem listingAt?_planFiles {f : Format} (hf : ListsEmptyModules f)
    (hp : Plan.ofCourse ctx.course = .ok p) (hfits : ctx.course.Fits)
    (hfiles : (Exporter.ofFormat f).planFiles p ctx = .ok files) :
    listingAt? f files =
      some (p.modules.map (listedModule (naming ctx.activityIds f) (launchPath f))) := by
  rcases hf with rfl | rfl
  · obtain ⟨wrapper, navigation, -, -, hholds⟩ := Bundle.Xapi.exists_holds hfiles
    have hread := Descriptor.TinCan.listing?_document ctx.metadata (Bundle.outline p)
      ctx.activityIds Bundle.indexPath
    rw [Bundle.outline, map_module_outline] at hread
    have htext := textAt?_eq (hholds.get?_eq List.mem_cons_self)
    exact (listingAt?_eq (f := .xapi) htext).trans hread
  · obtain ⟨navigation, -, hholds⟩ := Bundle.Html5.exists_holds hfiles
    have hread := Descriptor.Web.listing?_document ctx.metadata Bundle.indexPath
      (Plan.fits_outline hp hfits Bundle.lessonPath fun _ => [])
    rw [map_module_outline] at hread
    have htext := textAt?_eq (hholds.get?_eq List.mem_cons_self)
    exact (listingAt?_eq (f := .html5) htext).trans hread

/-! ## Files -/

/-- Whether two packages differ only in what their descriptors list: one all modules of a
plan, the other those that have lessons. -/
structure DifferInListing (f : Format) (p : Plan) (ids : ActivityIds) (files files' : FileTree) :
    Prop where
  paths : files'.paths = files.paths
  rest : ∀ path, path ≠ descriptorPath f → files'.get? path = files.get? path
  all : listingAt? f files = some (p.modules.map (listedModule (naming ids f) (launchPath f)))
  filled : listingAt? f files' = some (planListing (naming ids f) (launchPath f) p)

section Exporters

variable (p ctx)

theorem Scorm.packageFiles_filled (version : ScormVersion) :
    packageFiles version p.filled ctx.filled = packageFiles version p ctx := by
  have hmanifest : manifest version p.filled ctx.filled = manifest version p ctx := by
    rw [manifest, Descriptor.Scorm.Manifest.ofOutline, Plan.launchable_outline_filled]
    rfl
  rw [packageFiles, hmanifest, readme_filled]
  rfl

theorem Cmi5.packageFiles_filled : packageFiles p.filled ctx.filled = packageFiles p ctx := by
  have hstructure : courseStructure p.filled ctx.filled = courseStructure p ctx := by
    rw [courseStructure, Descriptor.Cmi5.CourseStructure.ofOutline,
      Plan.launchable_outline_filled]
    rfl
  rw [packageFiles, hstructure, readme_filled]
  rfl

/-- An exporter that does not tell a plan from that without empty modules makes the same tree of
both. -/
theorem planFiles_filled {e : Exporter}
    (hpackage : e.packageFiles p.filled ctx.filled = e.packageFiles p ctx)
    (hlesson : ∀ l, e.lessonFiles p.filled l ctx.filled = e.lessonFiles p l ctx) :
    e.planFiles p.filled ctx.filled = e.planFiles p ctx := by
  have hadd : e.addLesson p.filled ctx.filled = e.addLesson p ctx := by
    funext files l
    rw [Exporter.addLesson, Exporter.addLesson, hlesson]
  rw [Exporter.planFiles, Exporter.planFiles, hpackage, Plan.lessons_filled, hadd]

/-- SCORM and cmi5 packages are made of the modules that have lessons. -/
theorem planFiles_filled_of_skips {f : Format} (hf : ¬ ListsEmptyModules f) :
    (Exporter.ofFormat f).planFiles p.filled ctx.filled =
      (Exporter.ofFormat f).planFiles p ctx := by
  cases f with
  | scorm version =>
    exact planFiles_filled p ctx (Scorm.packageFiles_filled p ctx version) fun _ => rfl
  | cmi5 => exact planFiles_filled p ctx (Cmi5.packageFiles_filled p ctx) fun _ => rfl
  | xapi => exact absurd (Or.inl rfl) hf
  | html5 => exact absurd (Or.inr rfl) hf

theorem Bundle.exists_xapiPackageFiles_filled : ∃ after,
    xapiPackageFiles p ctx = .ok ((tincanPath, (activityList p ctx).document) :: after) ∧
    xapiPackageFiles p.filled ctx.filled =
      .ok ((tincanPath, (activityList p.filled ctx.filled).document) :: after) := by
  obtain ⟨wrapper, hwrapper⟩ :=
    Script.exists_xapiScript ctx.settings.xapi ctx.activityIds ctx.language
  obtain ⟨navigation, hnavigation⟩ := Script.exists_navigationScript ctx.course.id p.lessonIds
  refine ⟨_, bind_eq_ok_iff.mpr ⟨wrapper, hwrapper,
    bind_eq_ok_iff.mpr ⟨navigation, hnavigation, rfl⟩⟩, ?_⟩
  rw [xapiPackageFiles, navigationScript_filled, Plan.lessons_filled, indexPage_filled]
  exact bind_eq_ok_iff.mpr ⟨wrapper, hwrapper,
    bind_eq_ok_iff.mpr ⟨navigation, hnavigation, rfl⟩⟩

theorem Bundle.exists_html5PackageFiles_filled : ∃ after,
    html5PackageFiles p ctx = .ok ((manifestPath,
      Descriptor.Web.document ctx.metadata (outline p) indexPath) :: after) ∧
    html5PackageFiles p.filled ctx.filled = .ok ((manifestPath,
      Descriptor.Web.document ctx.filled.metadata (outline p.filled) indexPath) :: after) := by
  obtain ⟨navigation, hnavigation⟩ := Script.exists_navigationScript ctx.course.id p.lessonIds
  refine ⟨_, bind_eq_ok_iff.mpr ⟨navigation, hnavigation, rfl⟩, ?_⟩
  rw [html5PackageFiles, navigationScript_filled, indexPage_filled]
  exact bind_eq_ok_iff.mpr ⟨navigation, hnavigation, rfl⟩

end Exporters

theorem fits_filled {c : Course} (h : c.Fits) : c.filled.Fits := by
  intro m hm
  exact h m (List.mem_of_mem_filter hm)

/-- Packages whose descriptors list all modules differ nowhere else. -/
theorem sameBut_filled {f : Format} (hf : ListsEmptyModules f)
    (hfiles : (Exporter.ofFormat f).planFiles p ctx = .ok files)
    (hfiles' : (Exporter.ofFormat f).planFiles p.filled ctx.filled = .ok files') :
    files.SameBut (fun path _ _ => path = descriptorPath f) files' := by
  rcases hf with rfl | rfl
  · obtain ⟨after, hpackage, hpackage'⟩ := Bundle.exists_xapiPackageFiles_filled p ctx
    refine Exporter.sameBut_planFiles [] p.lessons_filled hfiles hfiles' hpackage hpackage'
      (fun l _ => rfl) (fun l _ => ?_) rfl
    change Except.ok [(_, Bundle.lessonPage .xapi p.filled l ctx.filled _ _)] = _
    rw [Bundle.lessonPage_filled]
  · obtain ⟨after, hpackage, hpackage'⟩ := Bundle.exists_html5PackageFiles_filled p ctx
    refine Exporter.sameBut_planFiles [] p.lessons_filled hfiles hfiles' hpackage hpackage'
      (fun l _ => rfl) (fun l _ => ?_) rfl
    change Except.ok [(_, Bundle.lessonPage .html5 p.filled l ctx.filled _ _)] = _
    rw [Bundle.lessonPage_filled]

theorem differInListing_filled {f : Format} (hf : ListsEmptyModules f)
    (hp : Plan.ofCourse ctx.course = .ok p) (hfits : ctx.course.Fits)
    (hfiles : (Exporter.ofFormat f).planFiles p ctx = .ok files)
    (hfiles' : (Exporter.ofFormat f).planFiles p.filled ctx.filled = .ok files') :
    DifferInListing f p ctx.activityIds files files' := by
  have hsame := sameBut_filled hf hfiles hfiles'
  refine ⟨hsame.paths, fun path hpath => ?_, listingAt?_planFiles hf hp hfits hfiles,
    listingAt?_planFiles hf (Plan.ofCourse_filled hp) (fits_filled hfits) hfiles'⟩
  rcases hsame.files path with heq | ⟨_, _, -, -, hdescriptor⟩
  · exact heq
  · exact absurd hdescriptor hpath

/-- Such packages are the same only when the plan has no empty module. -/
theorem DifferInListing.filledModules_eq {f : Format} {ids : ActivityIds}
    (h : DifferInListing f p ids files files') (heq : files' = files) :
    p.filledModules = p.modules := by
  have hlistings := Option.some.inj (h.all.symm.trans (heq ▸ h.filled))
  have hlength := congrArg List.length hlistings
  rw [planListing, List.length_map, List.length_map] at hlength
  exact List.filter_sublist.eq_of_length hlength.symm

/-! ## Packages -/

/-- What a package shows of the modules without lessons. The plan says that they are skipped,
and the package of the course without them has the same files, but for a descriptor of xAPI
packages or of those for the open web: that lists them as well. So the two packages are the
same exactly when there are no such modules or the format lists none. -/
theorem buildFiles_filled (f : Format) (hp : Plan.ofCourse ctx.course = .ok p)
    (hfits : ctx.course.Fits) :
    (∀ m ∈ ctx.course.modules, m.lessons = [] → .emptyModule m.title ∈ p.warnings) ∧
      ∃ files files', (Exporter.ofFormat f).buildFiles ctx = .ok files ∧
        (Exporter.ofFormat f).buildFiles ctx.filled = .ok files' ∧
        (¬ ListsEmptyModules f → files' = files) ∧
        (ListsEmptyModules f → DifferInListing f p ctx.activityIds files files') ∧
        (files' = files ↔ (ListsEmptyModules f → ∀ m ∈ ctx.course.modules, m.lessons ≠ [])) := by
  have hp' : Plan.ofCourse ctx.filled.course = .ok p.filled := Plan.ofCourse_filled hp
  obtain ⟨files, hfiles⟩ := Exporter.exists_planFiles f hp
  obtain ⟨files', hfiles'⟩ := Exporter.exists_planFiles f hp'
  have hbuild : (Exporter.ofFormat f).buildFiles ctx = .ok files := by
    rw [Exporter.buildFiles_eq hp, hfiles]
  have hbuild' : (Exporter.ofFormat f).buildFiles ctx.filled = .ok files' := by
    rw [Exporter.buildFiles_eq hp', hfiles']
  have hskips (hf : ¬ ListsEmptyModules f) : files' = files := Except.ok.inj <| by
    rw [← hfiles, ← hfiles', planFiles_filled_of_skips p ctx hf]
  have hlists (hf : ListsEmptyModules f) : DifferInListing f p ctx.activityIds files files' :=
    differInListing_filled hf hp hfits hfiles hfiles'
  refine ⟨fun m hm => Plan.emptyModule_mem_warnings hp hm, files, files', hbuild, hbuild', hskips,
    hlists, fun heq hf => ?_, fun hfilled => ?_⟩
  · exact Plan.forall_filled_of_filledModules_eq hp ((hlists hf).filledModules_eq heq)
  -- A course without empty modules is its own filled course.
  · by_cases hf : ListsEmptyModules f
    · have hcontext : ctx.filled = ctx := by
        rw [ExportContext.filled, filled_eq_self (hfilled hf)]
      rw [hcontext, hbuild] at hbuild'
      exact (Except.ok.inj hbuild').symm
    · exact hskips hf

section Dotted

theorem fits_dottedCourse : dottedContext.course.Fits := by
  simp [Course.Fits, Module.Fits, Lesson.Fits, dottedContext, dottedCourse, dottedModule,
    emptyModule, lastModule, dottedLesson, namelessLesson, lastLesson, Json.wholeLimit]

theorem buildFiles_filled_dotted :
    ∃ files files', (Exporter.ofFormat .html5).buildFiles dottedContext = .ok files ∧
      (Exporter.ofFormat .html5).buildFiles dottedContext.filled = .ok files' ∧
      files'.paths = files.paths ∧
      listingAt? .html5 files = some [
        ⟨"opening", "", [⟨"../start", "Start & go", some "lessons/.._start.html"⟩,
          ⟨"", "Rest", some "lessons/_.html"⟩]⟩,
        ⟨"break", "", []⟩,
        ⟨"closing", "", [⟨"end", "<End>", some "lessons/end.html"⟩]⟩] ∧
      listingAt? .html5 files' = some [
        ⟨"opening", "", [⟨"../start", "Start & go", some "lessons/.._start.html"⟩,
          ⟨"", "Rest", some "lessons/_.html"⟩]⟩,
        ⟨"closing", "", [⟨"end", "<End>", some "lessons/end.html"⟩]⟩] := by
  have hplan : Plan.ofCourse dottedContext.course = .ok dottedPlan := ofCourse_dottedCourse
  obtain ⟨-, files, files', hbuild, hbuild', -, hlists, -⟩ :=
    buildFiles_filled .html5 hplan fits_dottedCourse
  have hdiffer := hlists (Or.inr rfl)
  refine ⟨files, files', hbuild, hbuild', hdiffer.paths, hdiffer.all.trans ?_,
    hdiffer.filled.trans ?_⟩
  · decide +kernel
  · decide +kernel

/-- The module that the plan of the course skips is listed in its xAPI package, so that the
package of the course without it is another one. -/
theorem buildFiles_dotted_ne_filled :
    Plan.ofCourse dottedCourse = .ok dottedPlan ∧ .emptyModule "" ∈ dottedPlan.warnings ∧
      ∃ files files', (Exporter.ofFormat .xapi).buildFiles dottedContext = .ok files ∧
        (Exporter.ofFormat .xapi).buildFiles dottedContext.filled = .ok files' ∧
        files' ≠ files := by
  have hplan : Plan.ofCourse dottedContext.course = .ok dottedPlan := ofCourse_dottedCourse
  have hplan' : Plan.ofCourse dottedContext.filled.course = .ok dottedPlan.filled :=
    Plan.ofCourse_filled hplan
  have hwarning : .emptyModule "" ∈ dottedPlan.warnings :=
    Plan.emptyModule_mem_warnings (m := emptyModule) hplan (by simp [dottedContext, dottedCourse])
      rfl
  obtain ⟨files, hfiles⟩ := Exporter.exists_planFiles .xapi hplan
  obtain ⟨files', hfiles'⟩ := Exporter.exists_planFiles .xapi hplan'
  refine ⟨ofCourse_dottedCourse, hwarning, files, files', ?_, ?_, fun heq => ?_⟩
  · rw [Exporter.buildFiles_eq hplan, hfiles]
  · rw [Exporter.buildFiles_eq hplan', hfiles']
  · have hdiffer := differInListing_filled (Or.inl rfl) hplan fits_dottedCourse hfiles hfiles'
    have hlength : dottedPlan.filledModules.length = dottedPlan.modules.length := by
      rw [hdiffer.filledModules_eq heq]
    exact absurd hlength (by decide)

end Dotted

end Package

end Courseware
