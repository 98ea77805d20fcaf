import Courseware.Proofs.Clashes
import Courseware.Proofs.Package.Layout
import Courseware.Proofs.Package.Tabs
import Courseware.Proofs.Page.Resources
import Courseware.Proofs.Warnings

/-!
# Resources in packages

Each resource of a course that says where it is has its link in the page of its lesson, and its
entry in the descriptor of a package for the open web. For any other resource there is a
warning, and so there is for all else that a package leaves out.
-/

namespace Courseware

/-! ## Descriptors for the open web -/

namespace Descriptor.Web

/-- The size that a value gives, when it gives one. -/
def size? : Json → Option (Option Nat)
  | .null => some none
  | v => v.nat?.map some

def resource? (v : Json) : Option Resource := do
  let id ← (v.get "id").string?
  let kind ← (v.get "type").string?
  let url ← (v.get "url").string?
  let mimeType ← (v.get "mimeType").string?
  let size ← size? (v.get "size")
  let filename ← (v.get "filename").string?
  return { id, kind, url, mimeType, size, filename }

/-- The identifier of the lesson that a value describes, with the resources of the lesson. -/
def lessonResources? (v : Json) : Option (String × List Resource) := do
  let id ← (v.get "id").string?
  let resources ← (v.get "resources").items.mapM resource?
  return (id, resources)

/-- The lessons of all modules in a document, each with its resources. -/
def resources? (s : String) : Option (List (String × List Resource)) :=
  match Json.ofText s with
  | .ok v => ((v.get "modules").items.flatMap fun m => (m.get "lessons").items).mapM
      lessonResources?
  | .error _ => none

theorem resource?_resourceJson (r : Resource) : resource? (resourceJson r).sorted = some r := by
  have hget (name : String) :
      (resourceJson r).sorted.get name = ((resourceJson r).get name).sorted := by
    refine Json.get_sorted_object ?_ name
    cases r.size <;> simp
  obtain ⟨id, kind, url, mimeType, size, filename⟩ := r
  simp only [resource?, hget]
  cases size <;> rfl

theorem lessonResources?_lessonJson (l : OutlineLesson) :
    lessonResources? (lessonJson l).sorted = some (l.id, l.resources) := by
  have hresources : ((lessonJson l).sorted.get "resources").items =
      l.resources.map fun r => (resourceJson r).sorted := by
    have hget : (lessonJson l).get "resources" = .array (l.resources.map resourceJson) := rfl
    rw [get_lessonJson, hget, Json.items_sorted_array, List.map_map]
    rfl
  have hread : (l.resources.map fun r => (resourceJson r).sorted).mapM resource? =
      some (l.resources.map id) := by
    rw [List.mapM_map]
    exact mapM_eq_some fun r _ => resource?_resourceJson r
  have hid : ((lessonJson l).sorted.get "id").string? = some l.id := by
    rw [get_lessonJson]
    rfl
  simp [lessonResources?, hid, hresources, hread]

/-- The resources of all lessons are read back. -/
theorem resources?_document (info : Metadata) {o : Outline} (start : String) (h : o.Fits) :
    resources? (document info o start) =
      some ((o.flatMap (·.lessons)).map fun l => (l.id, l.resources)) := by
  have hlessons : (o.flatMap fun m => ((moduleJson m).sorted.get "lessons").items) =
      (o.flatMap (·.lessons)).map fun l => (lessonJson l).sorted := by
    rw [List.map_flatMap]
    exact List.flatMap_congr fun m _ => lessons_moduleJson m
  rw [resources?, ofText_document info start h]
  dsimp only
  rw [modules_manifest, List.flatMap_map, hlessons, List.mapM_map]
  exact mapM_eq_some fun l _ => lessonResources?_lessonJson l

end Descriptor.Web

namespace Package

open Page (resources? resourceLists elementsIn)
open Markup (root?)

/-! ## Pages -/

/-- Whether a page has the resources of a lesson in one list, or no list when there are none. -/
def ShowsResources (l : PlannedLesson) (page : String) : Prop :=
  ∃ root, root? .html page = some root ∧
    (elementsIn root).filterMap resources? = resourceLists l.resources

/-- In each format the page of a lesson shows the resources of the lesson. -/
theorem showsResources_pageOf (p : Plan) (ctx : ExportContext) (l : PlannedLesson)
    (f : Format) : ShowsResources l (pageOf p ctx l f) := by
  obtain ⟨s, behind, hlegible, hnames, hbehind, hpage⟩ := framesLesson_pageOf p ctx l f
  obtain ⟨ns, hns, hresources⟩ := (Page.offers_lessonBody f l).append hbehind.offersNone
  obtain ⟨root, hroot, hread⟩ := Page.exists_root?_of_spells hlegible hnames hns
  refine ⟨root, hpage ▸ hroot, ?_⟩
  rw [hread _ fun e he => Page.resources?_of_isFrame he, hresources, List.append_nil]

variable {p : Plan} {ctx : ExportContext} {files : FileTree}

/-! ## Packages -/

/-- The descriptor of a package for the open web has the resources of each lesson. -/
theorem Bundle.resources?_manifest (hp : Plan.ofCourse ctx.course = .ok p)
    (hfits : ctx.course.Fits)
    (hfiles : (Exporter.ofFormat .html5).planFiles p ctx = .ok files) :
    (textAt? files manifestPath).bind Descriptor.Web.resources? =
      some (p.lessons.map fun l => (l.lesson.id, l.resources)) := by
  obtain ⟨navigation, -, hholds⟩ := Html5.exists_holds hfiles
  have htext := textAt?_eq (hholds.get?_eq List.mem_cons_self)
  have hread := Descriptor.Web.resources?_document ctx.metadata indexPath
    (Plan.fits_outline hp hfits lessonPath fun _ => [])
  have hlessons : (p.outline lessonPath fun _ => []).flatMap (·.lessons) =
      p.lessons.map (PlannedLesson.outline lessonPath fun _ => []) := by
    rw [Plan.outline, List.flatMap_map, Plan.lessons, List.map_flatMap]
  rw [htext, Option.bind_some, outline, hread, hlessons, List.map_map]
  rfl

/-- Nothing is left out of a package in silence. The warnings of a plan tell what is left out of
its modules and lessons, and nothing else; each resource of the course is kept in the plan or
counts for one of them. What is kept is shown in the page of the lesson, and a descriptor for the
open web tells it as well. -/
theorem warnings_buildFiles (f : Format) (hp : Plan.ofCourse ctx.course = .ok p) :
    ((p.modules.map fun m => (m.source, m.lessons.map (·.lesson))) =
        ctx.course.orderedModules.map fun m => (m, m.orderedLessons)) ∧
      (∀ ws, p.Reports ws ↔ ws = p.warnings) ∧
      p.warnings.countP Warning.isAbsentResource + (p.lessons.flatMap (·.resources)).length =
        ((ctx.course.modules.flatMap (·.lessons)).flatMap (·.resources)).length ∧
      ∃ files, (Exporter.ofFormat f).buildFiles ctx = .ok files ∧
        (∀ l ∈ p.lessons, ∃ page, files.get? (contentPath f l) = some (Text.utf8 page) ∧
          ShowsResources l page) ∧
        (f = .html5 → ctx.course.Fits →
          (textAt? files "manifest.json").bind Descriptor.Web.resources? =
            some (p.lessons.map fun l => (l.lesson.id, l.resources))) := by
  obtain ⟨files, hbuild, hfiles⟩ := exists_buildFiles f hp
  refine ⟨Plan.map_modules hp, fun ws => Plan.reports_iff hp, Plan.countP_warnings_add hp,
    files, hbuild, fun l hl => ?_, ?_⟩
  · exact ⟨_, get?_contentPath f hfiles hl, showsResources_pageOf p ctx l f⟩
  · rintro rfl hfits
    exact Bundle.resources?_manifest hp hfits hfiles

/-- A lesson with one unknown tag in two blocks, and with two resources, of which one does not
say where it is. -/
def markedLesson : Lesson where
  id := "l"
  title := "L"
  blocks := [⟨"b1", 0, .unknown "poll" []⟩, ⟨"b2", 1, .unknown "poll" []⟩]
  resources := [{ id := "r1" }, { id := "r2", filename := "a b.pdf" }]

def blankLesson : Lesson := { id := "blank", title := "Blank" }

/-- A module with this lesson behind one without blocks. -/
def markedModule : Module := { id := "m", lessons := [blankLesson, markedLesson] }

def lonelyModule : Module := { id := "empty", title := "Empty" }

/-- An export of a course with this module behind one without lessons. -/
def markedContext : ExportContext :=
  ⟨{ id := "c", modules := [lonelyModule, markedModule] }, {}, ⟨0, false⟩⟩

def markedEntries : List PlannedLesson :=
  [⟨0, markedModule, blankLesson, "blank", [], []⟩,
    ⟨1, markedModule, markedLesson, "l", markedLesson.blocks,
      [{ id := "r2", filename := "a b.pdf" }]⟩]

def markedPlan : Plan :=
  ⟨markedContext.course, [⟨lonelyModule, 0, []⟩, ⟨markedModule, 0, markedEntries⟩]⟩

theorem ofCourse_markedContext : Plan.ofCourse markedContext.course = .ok markedPlan := by
  obtain ⟨p, hp⟩ : ∃ p, Plan.ofCourse markedContext.course = .ok p := by
    rw [Plan.exists_ofCourse_iff, pairwise_visits_iff]
    decide +kernel
  have hmodules : markedContext.course.orderedModules = [lonelyModule, markedModule] :=
    List.mergeSort_of_pairwise (by decide)
  have hblocks : markedLesson.orderedBlocks = markedLesson.blocks :=
    List.mergeSort_of_pairwise (by decide)
  have hsegments : Text.pathSegment blankLesson.id = "blank" ∧
      Text.pathSegment markedLesson.id = "l" := by
    decide +kernel
  have hkept : markedLesson.resources.filter Resource.isPresent =
      [{ id := "r2", filename := "a b.pdf" }] := by
    have hleft : ({ id := "r1" } : Resource).isPresent = false := by decide +kernel
    have hright : ({ id := "r2", filename := "a b.pdf" } : Resource).isPresent = true := by
      decide +kernel
    simp [markedLesson, hleft, hright]
  have hempty : PlannedModule.ofModule 0 lonelyModule = ⟨lonelyModule, 0, []⟩ :=
    ofModule_of_pairwise 0 (by decide)
  have hmarked : PlannedModule.ofModule 0 markedModule = ⟨markedModule, 0, markedEntries⟩ := by
    have hentry : PlannedLesson.ofLesson markedModule 1 markedLesson =
        ⟨1, markedModule, markedLesson, "l", markedLesson.blocks,
          [{ id := "r2", filename := "a b.pdf" }]⟩ := by
      rw [PlannedLesson.ofLesson, hsegments.2, hblocks, hkept]
    rw [ofModule_of_pairwise 0 (by decide), markedEntries, ← hentry, ← hsegments.1,
      ← ofLesson_of_nil markedModule 0 rfl rfl]
    rfl
  rw [hp, (Plan.ofCourse_eq_ok_iff.mp hp).2, hmodules]
  simp [planModules, hempty, hmarked, PlannedModule.stop, markedPlan]

theorem warnings_buildFiles_marked :
    ∃ files page root, markedPlan.Reports markedPlan.warnings ∧
      markedPlan.warnings.map Warning.message =
        ["Module \"Empty\" has no lessons and was skipped",
          "Lesson \"Blank\" has no content blocks",
          "Lesson \"L\": unsupported block type \"poll\" rendered as a placeholder",
          "Lesson \"L\": resource \"r1\" has no file name or URL and was skipped"] ∧
      (Exporter.ofFormat .html5).buildFiles markedContext = .ok files ∧
      files.get? "lessons/l.html" = some (Text.utf8 page) ∧ root? .html page = some root ∧
      (elementsIn root).filterMap resources? = [some [("a%20b.pdf", "a b.pdf")]] ∧
      (textAt? files "manifest.json").bind Descriptor.Web.resources? =
        some [("blank", []), ("l", [{ id := "r2", filename := "a b.pdf" }])] := by
  have hplan : Plan.ofCourse markedContext.course = .ok markedPlan := ofCourse_markedContext
  have hfits : markedContext.course.Fits := by
    simp [Course.Fits, Module.Fits, Lesson.Fits, Resource.Fits, markedContext, lonelyModule,
      markedModule, blankLesson, markedLesson, Json.wholeLimit]
  obtain ⟨-, hreports, -, files, hfiles, hpages, hmanifest⟩ := warnings_buildFiles .html5 hplan
  obtain ⟨page, hpage, root, hroot, hread⟩ := hpages _
    (List.mem_cons_of_mem _ List.mem_cons_self : _ ∈ markedPlan.lessons)
  refine ⟨files, page, root, (hreports _).mpr rfl, by decide +kernel, hfiles, hpage, hroot,
    hread.trans ?_, hmanifest rfl hfits⟩
  decide +kernel

end Package

end Courseware
