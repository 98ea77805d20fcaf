import Courseware.Package.Export
import Courseware.Proofs.Rewriting

/-!
# What exporters read of a plan

The blocks of a lesson are shown on the page with its content. Everything else in a package is
made of the plan without blocks, and of the course without the lists that the plan holds
already.
-/

namespace Courseware

/-! ## Plans without blocks -/

def PlannedLesson.core (l : PlannedLesson) : PlannedLesson :=
  { l with
    container := { l.container with lessons := [] }
    lesson := { l.lesson with blocks := [] } }

/-- A planned lesson as the files of other lessons see it. -/
def PlannedLesson.outer (l : PlannedLesson) : PlannedLesson := { l.core with blocks := [] }

def PlannedModule.outer (m : PlannedModule) : PlannedModule :=
  { m with
    source := { m.source with lessons := [] }
    lessons := m.lessons.map PlannedLesson.outer }

def Plan.outer (p : Plan) : Plan :=
  ⟨{ p.course with modules := [] }, p.modules.map PlannedModule.outer⟩

/-- An export as files see it that show no blocks. -/
def ExportContext.outer (ctx : ExportContext) : ExportContext :=
  { ctx with course := { ctx.course with modules := [] } }

namespace Plan

variable (p : Plan) (l : PlannedLesson)

theorem lessons_outer : p.outer.lessons = p.lessons.map PlannedLesson.outer := by
  rw [lessons, lessons, outer, List.flatMap_map, List.map_flatMap]
  rfl

theorem filledModules_outer : p.outer.filledModules = p.filledModules.map PlannedModule.outer := by
  have hempty : ((fun m : PlannedModule => !m.lessons.isEmpty) ∘ PlannedModule.outer) =
      fun m => !m.lessons.isEmpty := by
    funext m
    simp [PlannedModule.outer]
  rw [filledModules, outer, List.filter_map, hempty]
  rfl

theorem lessonIds_outer : p.outer.lessonIds = p.lessonIds := by
  rw [lessonIds, lessons_outer, List.map_map]
  rfl

theorem previous?_outer : p.outer.previous? l.core = (p.previous? l).map PlannedLesson.outer := by
  rw [previous?, previous?, lessons_outer, List.getElem?_map]
  change (if l.index = 0 then none else _) = _
  split <;> rfl

theorem next?_outer : p.outer.next? l.core = (p.next? l).map PlannedLesson.outer := by
  rw [next?, next?, lessons_outer, List.getElem?_map]
  rfl

/-- An outline does not tell blocks, as long as paths do not. -/
theorem outline_outer {launch : PlannedLesson → String} {files : PlannedLesson → List String}
    (hlaunch : ∀ q, launch q.outer = launch q) (hfiles : ∀ q, files q.outer = files q) :
    p.outer.outline launch files = p.outline launch files := by
  rw [outline, outer, List.map_map]
  refine List.map_congr_left fun m _ => ?_
  have hlessons : (m.lessons.map PlannedLesson.outer).map (PlannedLesson.outline launch files) =
      m.lessons.map (PlannedLesson.outline launch files) := by
    rw [List.map_map]
    refine List.map_congr_left fun l _ => ?_
    rw [Function.comp_apply, PlannedLesson.outline, hlaunch, hfiles]
    rfl
  exact congrArg (fun lessons => ({ id := m.source.id, title := m.source.title
                                    description := m.source.description
                                    lessons := lessons } : Descriptor.OutlineModule)) hlessons

/-- A rewriting of blocks and of the lists of modules leaves the modules of a plan as they are
without blocks. -/
theorem map_outer_rewriting (r : Rewriting)
    (hmodule : ∀ m, { r.onModule m with lessons := [] } = { m with lessons := [] })
    (hplanned : ∀ q, (r.onPlanned q).outer = q.outer) :
    (p.modules.map r.onPlannedModule).map PlannedModule.outer =
      p.modules.map PlannedModule.outer := by
  rw [List.map_map]
  refine List.map_congr_left fun m _ => ?_
  have hlessons : (m.lessons.map r.onPlanned).map PlannedLesson.outer =
      m.lessons.map PlannedLesson.outer := by
    rw [List.map_map]
    exact List.map_congr_left fun q _ => hplanned q
  rw [Function.comp_apply, PlannedModule.outer, Rewriting.onPlannedModule, hlessons, hmodule]
  rfl

end Plan

/-! ## Pages and texts -/

namespace Page

variable {href : PlannedLesson → String}

theorem lessonLinks_outer (p : Plan) (l : PlannedLesson) (index : String)
    (hhref : ∀ q, href q.outer = href q) :
    lessonLinks p.outer l.core index href = lessonLinks p l index href := by
  rw [lessonLinks, lessonLinks, Plan.previous?_outer, Plan.next?_outer]
  cases p.previous? l <;> cases p.next? l <;> simp [hhref] <;> rfl

theorem indexModule_outer (m : PlannedModule) (hhref : ∀ q, href q.outer = href q) :
    indexModule href m.outer = indexModule href m := by
  have hlessons : m.outer.lessons.flatMap (indexLesson href) =
      m.lessons.flatMap (indexLesson href) := by
    rw [PlannedModule.outer, List.flatMap_map]
    refine List.flatMap_congr fun l _ => ?_
    rw [indexLesson, hhref]
    rfl
  rw [indexModule, hlessons]
  rfl

theorem courseIndex_outer (p : Plan) (footer : List Markup.Token)
    (hhref : ∀ q, href q.outer = href q) :
    courseIndex p.outer href footer = courseIndex p href footer := by
  have hmodules : p.outer.filledModules.flatMap (indexModule href) =
      p.filledModules.flatMap (indexModule href) := by
    rw [Plan.filledModules_outer, List.flatMap_map]
    exact List.flatMap_congr fun m _ => indexModule_outer m hhref
  rw [courseIndex, hmodules]
  rfl

end Page

namespace Package

theorem readme_outer (p : Plan) (ctx : ExportContext) (format : Format) (steps : String) :
    readme p.outer ctx.outer format steps = readme p ctx format steps := by
  have hlines (number : Nat) (m : PlannedModule) :
      moduleLines number m.outer = moduleLines number m := by
    have hlessons : (m.outer.lessons.mapIdx fun i l => lessonLine number (i + 1) l.lesson) =
        m.lessons.mapIdx fun i l => lessonLine number (i + 1) l.lesson := by
      apply List.ext_getElem
      · simp [PlannedModule.outer]
      · intro i _ _
        simp [PlannedModule.outer]
        rfl
    rw [moduleLines, hlessons]
    rfl
  have hmodules : (p.outer.filledModules.mapIdx fun i m => moduleLines (i + 1) m) =
      p.filledModules.mapIdx fun i m => moduleLines (i + 1) m := by
    rw [Plan.filledModules_outer]
    apply List.ext_getElem
    · simp
    · intro i _ _
      simp [hlines]
  rw [readme, hmodules]
  rfl

end Package

/-! ## Exporters -/

namespace Exporter

/-- Whether an exporter reads no blocks but those of the lesson that it makes the files of. -/
structure ReadsOuter (e : Exporter) : Prop where
  packageFiles : ∀ p ctx, e.packageFiles p.outer ctx.outer = e.packageFiles p ctx
  lessonFiles : ∀ p l ctx, e.lessonFiles p.outer l.core ctx.outer = e.lessonFiles p l ctx

theorem readsOuter_scorm (version : ScormVersion) :
    (Package.Scorm.exporter version).ReadsOuter where
  packageFiles p ctx := by
    have hmanifest : Package.Scorm.manifest version p.outer ctx.outer =
        Package.Scorm.manifest version p ctx := by
      rw [Package.Scorm.manifest, p.outline_outer (fun _ => rfl) fun _ => rfl]
      rfl
    change Package.Scorm.packageFiles version p.outer ctx.outer =
      Package.Scorm.packageFiles version p ctx
    rw [Package.Scorm.packageFiles, hmanifest, Package.readme_outer]
    rfl
  lessonFiles _ _ _ := rfl

theorem readsOuter_cmi5 : Package.Cmi5.exporter.ReadsOuter where
  packageFiles p ctx := by
    have hstructure : Package.Cmi5.courseStructure p.outer ctx.outer =
        Package.Cmi5.courseStructure p ctx := by
      rw [Package.Cmi5.courseStructure, p.outline_outer (fun _ => rfl) fun _ => rfl]
      rfl
    change Package.Cmi5.packageFiles p.outer ctx.outer = Package.Cmi5.packageFiles p ctx
    rw [Package.Cmi5.packageFiles, hstructure, Package.readme_outer]
    rfl
  lessonFiles _ _ _ := rfl

section Bundle

open Package.Bundle

variable (p : Plan) (l : PlannedLesson) (ctx : ExportContext)

theorem indexPage_outer (scripts : List String) (footer : List Markup.Token) :
    indexPage p.outer ctx.outer scripts footer = indexPage p ctx scripts footer := by
  rw [indexPage, Page.courseIndex_outer p footer fun _ => rfl]
  rfl

theorem lessonPage_outer (format : Format) (scripts : List String)
    (between : List Markup.Token) :
    lessonPage format p.outer l.core ctx.outer scripts between =
      lessonPage format p l ctx scripts between := by
  rw [lessonPage, Page.lessonLinks_outer p l _ fun _ => rfl]
  rfl

theorem bundleOutline_outer : outline p.outer = outline p :=
  p.outline_outer (fun _ => rfl) fun _ => rfl

theorem bundleNavigation_outer :
    navigationScript p.outer ctx.outer = navigationScript p ctx := by
  rw [navigationScript, Plan.lessonIds_outer]
  rfl

end Bundle

theorem readsOuter_xapi : Package.Bundle.xapi.ReadsOuter where
  packageFiles p ctx := by
    have hactivities : Package.Bundle.activityList p.outer ctx.outer =
        Package.Bundle.activityList p ctx := by
      rw [Package.Bundle.activityList, bundleOutline_outer]
      rfl
    have hlessons (ids : ActivityIds) : p.outer.lessons.map (Package.Bundle.lessonActivity ids) =
        p.lessons.map (Package.Bundle.lessonActivity ids) := by
      rw [Plan.lessons_outer, List.map_map]
      rfl
    change Package.Bundle.xapiPackageFiles p.outer ctx.outer =
      Package.Bundle.xapiPackageFiles p ctx
    rw [Package.Bundle.xapiPackageFiles, bundleNavigation_outer, hactivities, hlessons,
      indexPage_outer]
    rfl
  lessonFiles p l ctx := by
    change Except.ok [(_, Package.Bundle.lessonPage .xapi p.outer l.core ctx.outer _ _)] = _
    rw [lessonPage_outer]
    rfl

theorem readsOuter_html5 : Package.Bundle.html5.ReadsOuter where
  packageFiles p ctx := by
    change Package.Bundle.html5PackageFiles p.outer ctx.outer =
      Package.Bundle.html5PackageFiles p ctx
    rw [Package.Bundle.html5PackageFiles, bundleNavigation_outer, bundleOutline_outer,
      indexPage_outer]
    rfl
  lessonFiles p l ctx := by
    change Except.ok [(_, Package.Bundle.lessonPage .html5 p.outer l.core ctx.outer _ _)] = _
    rw [lessonPage_outer]
    rfl

theorem readsOuter_ofFormat (f : Format) : (ofFormat f).ReadsOuter := by
  cases f with
  | scorm version => exact readsOuter_scorm version
  | xapi => exact readsOuter_xapi
  | cmi5 => exact readsOuter_cmi5
  | html5 => exact readsOuter_html5

/-- Files of a package are the same for plans and contexts that are the same without blocks. -/
theorem ReadsOuter.packageFiles_eq {e : Exporter} (he : e.ReadsOuter) {p p' : Plan}
    {ctx ctx' : ExportContext} (hplan : p'.outer = p.outer) (hcontext : ctx'.outer = ctx.outer) :
    e.packageFiles p' ctx' = e.packageFiles p ctx := by
  rw [← he.packageFiles p', hplan, hcontext, he.packageFiles]

/-- The files of a lesson are the same if moreover the lesson has the same blocks. -/
theorem ReadsOuter.lessonFiles_eq {e : Exporter} (he : e.ReadsOuter) {p p' : Plan}
    {l l' : PlannedLesson} {ctx ctx' : ExportContext} (hplan : p'.outer = p.outer)
    (hlesson : l'.core = l.core) (hcontext : ctx'.outer = ctx.outer) :
    e.lessonFiles p' l' ctx' = e.lessonFiles p l ctx := by
  rw [← he.lessonFiles p', hplan, hlesson, hcontext, he.lessonFiles]

end Exporter

end Courseware
