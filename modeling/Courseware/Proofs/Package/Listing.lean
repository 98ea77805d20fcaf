import Courseware.Proofs.Descriptor.Cmi5Reader
import Courseware.Proofs.Descriptor.ScormListing
import Courseware.Proofs.Descriptor.TinCanReader
import Courseware.Proofs.Package.Layout
import Courseware.Proofs.Package.PageParts

/-!
# What the descriptors of packages list

The descriptor of a package is read back as the modules of the plan that have lessons, each
with its own lessons. Where a format has a page for each lesson to start with, the page is
the one that names the lesson.
-/

namespace Courseware.Package

open Descriptor (Listing ListedLesson ListedModule Naming)
open Page (Part)

/-! ## Listings of plans -/

/-- What a descriptor of a format lists. -/
def listing? : Format → String → Option Listing
  | .scorm _ => Descriptor.Scorm.listing?
  | .xapi => Descriptor.TinCan.listing?
  | .cmi5 => Descriptor.Cmi5.listing?
  | .html5 => Descriptor.Web.listing?

/-- How a descriptor of a format names modules and lessons. -/
def naming (ids : ActivityIds) : Format → Naming
  | .scorm _ => Descriptor.Scorm.naming
  | .xapi => Descriptor.TinCan.naming ids
  | .cmi5 => ⟨ids.forModule, ids.forLesson, true⟩
  | .html5 => Descriptor.Web.naming

def launchPath : Format → PlannedLesson → String
  | .scorm _ => Scorm.launcherPath
  | .xapi => Bundle.lessonPath
  | .cmi5 => Cmi5.unitPath
  | .html5 => Bundle.lessonPath

def listedLesson (n : Naming) (launch : PlannedLesson → String) (l : PlannedLesson) :
    ListedLesson where
  name := n.lessonName l.lesson.id
  title := l.lesson.title
  launch := if n.launches then some (launch l) else none

def listedModule (n : Naming) (launch : PlannedLesson → String) (m : PlannedModule) :
    ListedModule where
  name := n.moduleName m.source.id
  title := m.source.title
  lessons := m.lessons.map (listedLesson n launch)

/-- What is listed of a plan. -/
def planListing (n : Naming) (launch : PlannedLesson → String) (p : Plan) : Listing :=
  p.filledModules.map (listedModule n launch)

section Outline

variable (n : Naming) (launch : PlannedLesson → String) (files : PlannedLesson → List String)
  (p : Plan)

theorem module_outline (m : PlannedModule) :
    n.module (m.outline launch files) = listedModule n launch m := by
  simp [Naming.module, PlannedModule.outline, listedModule, Naming.lesson, PlannedLesson.outline,
    listedLesson]

theorem map_module_outline :
    (p.outline launch files).map n.module = p.modules.map (listedModule n launch) := by
  rw [Plan.outline, List.map_map]
  exact List.map_congr_left fun m _ => module_outline n launch files m

theorem map_module_launchable :
    (p.outline launch files).launchable.map n.module = planListing n launch p := by
  rw [p.launchable_outline, List.map_map, planListing]
  exact List.map_congr_left fun m _ => module_outline n launch files m

theorem lessons_planListing :
    (planListing n launch p).flatMap (·.lessons) = p.lessons.map (listedLesson n launch) := by
  rw [planListing, List.flatMap_map, ← p.lessons_filledModules, List.map_flatMap]
  rfl

theorem filled_planListing : (planListing n launch p).filled = planListing n launch p := by
  rw [← map_module_launchable n launch (fun _ => []) p, Descriptor.filled_launchable]

theorem filled_map_outline :
    Listing.filled ((p.outline launch files).map n.module) = planListing n launch p := by
  rw [n.filled_map, map_module_launchable]

end Outline

/-! ## Each format -/

variable {p : Plan} {ctx : ExportContext} {files : FileTree} {l : PlannedLesson}

/-- The path segments of the lessons that a descriptor lists are different. -/
theorem Scorm.nodup_lessonSegments (hp : Plan.ofCourse ctx.course = .ok p) :
    (Descriptor.Scorm.lessonSegments
      (p.outline launcherPath fun l => [contentPath l]).launchable).Nodup := by
  rw [Descriptor.Scorm.lessonSegments, p.lessons_outline, List.map_map]
  have hmap : p.lessons.map ((fun l => Text.pathSegment l.id) ∘
      PlannedLesson.outline launcherPath fun l => [contentPath l]) =
        p.lessons.map (·.segment) :=
    List.map_congr_left fun l hl => (Plan.segment_eq hp hl).symm
  rw [hmap]
  exact Plan.nodup_segments hp

theorem Scorm.listing?_manifest (version : ScormVersion)
    (hp : Plan.ofCourse ctx.course = .ok p) :
    listing? (.scorm version) (manifest version p ctx).document =
      some (planListing Descriptor.Scorm.naming launcherPath p) := by
  have hread := @Descriptor.Scorm.listing?_document ctx.metadata _ version
    { masteryScore := some ctx.settings.scorm.masteryPercent
      timeLimitMinutes := ctx.settings.scorm.timeLimit
      sharedFiles := [scriptPath, stylesPath] } (nodup_lessonSegments hp)
  rw [map_module_launchable] at hread
  exact hread

/-- What has to happen before the learner may move on is told as it is. -/
theorem Cmi5.isPlainValue_moveOn {b : Descriptor.Cmi5.UnitBlock}
    (hb : b ∈ (courseStructure p ctx).blocks) :
    ∀ u ∈ b.units, Markup.Reader.IsPlainValue u.moveOn := by
  intro u hu
  obtain ⟨m, -, rfl⟩ := List.mem_map.mp hb
  obtain ⟨l, -, rfl⟩ := List.mem_map.mp hu
  exact Descriptor.Cmi5.isPlainValue_moveOnFor _

theorem Cmi5.listing?_structure (p : Plan) (ctx : ExportContext) :
    listing? .cmi5 (courseStructure p ctx).document =
      some (planListing (naming ctx.activityIds .cmi5) unitPath p) := by
  have hblocks : (courseStructure p ctx).blocks.map Descriptor.Cmi5.UnitBlock.listed =
      (p.outline unitPath fun _ => []).launchable.map
        (naming ctx.activityIds .cmi5).module := by
    rw [courseStructure, Descriptor.Cmi5.CourseStructure.ofOutline, List.map_map]
    refine List.map_congr_left fun m _ => ?_
    simp only [Function.comp_apply, Descriptor.Cmi5.UnitBlock.listed,
      Descriptor.Cmi5.UnitBlock.ofModule, List.map_map, Naming.module]
    rfl
  rw [listing?, Descriptor.Cmi5.listing?_document fun _ => isPlainValue_moveOn, hblocks,
    map_module_launchable]

theorem Bundle.listing?_activityList (p : Plan) (ctx : ExportContext) :
    (listing? .xapi (activityList p ctx).document).map Listing.filled =
      some (planListing (Descriptor.TinCan.naming ctx.activityIds) lessonPath p) := by
  have hread := Descriptor.TinCan.listing?_document ctx.metadata (outline p) ctx.activityIds
    indexPath
  rw [listing?, activityList, hread, Option.map_some, outline, filled_map_outline]

theorem Bundle.listing?_manifest (hp : Plan.ofCourse ctx.course = .ok p)
    (hfits : ctx.course.Fits) :
    (listing? .html5 (Descriptor.Web.document ctx.metadata (outline p) indexPath)).map
        Listing.filled = some (planListing Descriptor.Web.naming lessonPath p) := by
  have hread := Descriptor.Web.listing?_document ctx.metadata indexPath
    (Plan.fits_outline hp hfits lessonPath fun _ => [])
  rw [listing?, outline, hread, Option.map_some, filled_map_outline]

/-! ## Packages -/

/-- The descriptor of a package lists what the plan lists. -/
theorem exists_descriptor (f : Format) (hp : Plan.ofCourse ctx.course = .ok p)
    (hfits : ctx.course.Fits) (hfiles : (Exporter.ofFormat f).planFiles p ctx = .ok files) :
    ∃ text, textAt? files (descriptorPath f) = some text ∧
      (listing? f text).map Listing.filled =
        some (planListing (naming ctx.activityIds f) (launchPath f) p) := by
  cases f with
  | scorm version =>
    obtain ⟨script, hholds⟩ := Scorm.exists_holds hfiles
    refine ⟨_, textAt?_eq (hholds.get?_eq List.mem_cons_self), ?_⟩
    rw [Scorm.listing?_manifest version hp, Option.map_some, filled_planListing]
    rfl
  | cmi5 =>
    obtain ⟨script, hholds⟩ := Cmi5.exists_holds hfiles
    refine ⟨_, textAt?_eq (hholds.get?_eq List.mem_cons_self), ?_⟩
    rw [Cmi5.listing?_structure p ctx, Option.map_some, filled_planListing]
    rfl
  | xapi =>
    obtain ⟨wrapper, navigation, -, -, hholds⟩ := Bundle.Xapi.exists_holds hfiles
    exact ⟨_, textAt?_eq (hholds.get?_eq List.mem_cons_self),
      Bundle.listing?_activityList p ctx⟩
  | html5 =>
    obtain ⟨navigation, -, hholds⟩ := Bundle.Html5.exists_holds hfiles
    exact ⟨_, textAt?_eq (hholds.get?_eq List.mem_cons_self),
      Bundle.listing?_manifest hp hfits⟩

theorem nodup_launchPaths (f : Format) (hp : Plan.ofCourse ctx.course = .ok p) :
    (p.lessons.map (launchPath f)).Nodup := by
  cases f with
  | scorm version => exact nodup_map_segment hp "content/" "/index.html" fun l => rfl
  | xapi => exact nodup_contentPaths .xapi hp
  | cmi5 => exact nodup_contentPaths .cmi5 hp
  | html5 => exact nodup_contentPaths .html5 hp

/-- The page that a lesson starts with names it. -/
theorem exists_launch_page (f : Format) (hl : l ∈ p.lessons) :
    ∃ parts, (launchPath f l, parts) ∈ pages p ctx f ∧
      lessonIdOf parts = some l.lesson.id := by
  cases f with
  | scorm version =>
    exact ⟨_, List.mem_flatMap.mpr ⟨l, hl, List.mem_cons_self⟩, rfl⟩
  | cmi5 => exact ⟨_, List.mem_flatMap.mpr ⟨l, hl, List.mem_cons_self⟩, rfl⟩
  | xapi =>
    exact ⟨_, List.mem_cons_of_mem _ (List.mem_flatMap.mpr ⟨l, hl, List.mem_cons_self⟩), rfl⟩
  | html5 =>
    exact ⟨_, List.mem_cons_of_mem _ (List.mem_flatMap.mpr ⟨l, hl, List.mem_cons_self⟩), rfl⟩

/-- In a package of an accepted course, the descriptor is read back as the modules of the
plan that have lessons, in order, each with exactly its own lessons in order, under their
titles. The page that a lesson starts with is a file of its own, which names the lesson. -/
theorem listing_buildFiles (f : Format) (hp : Plan.ofCourse ctx.course = .ok p)
    (hfits : ctx.course.Fits) :
    ∃ files, (Exporter.ofFormat f).buildFiles ctx = .ok files ∧
      (∃ text listing, textAt? files (descriptorPath f) = some text ∧
        listing? f text = some listing ∧
        listing.filled = planListing (naming ctx.activityIds f) (launchPath f) p) ∧
      ((p.modules.map fun m => (m.source, m.lessons.map (·.lesson))) =
        ctx.course.orderedModules.map fun m => (m, m.orderedLessons)) ∧
      (p.lessons.map (launchPath f)).Nodup ∧
      ∀ l ∈ p.lessons, ∃ parts, pageAt? files (launchPath f l) = some parts ∧
        lessonIdOf parts = some l.lesson.id := by
  obtain ⟨files, hfiles⟩ := Exporter.exists_planFiles f hp
  obtain ⟨text, htext, hlisting⟩ := exists_descriptor f hp hfits hfiles
  obtain ⟨listing, hread, hfilled⟩ := Option.map_eq_some_iff.mp hlisting
  refine ⟨files, by rw [Exporter.buildFiles_eq hp, hfiles], ⟨text, listing, htext, hread, hfilled⟩,
    Plan.map_modules hp, nodup_launchPaths f hp, fun l hl => ?_⟩
  obtain ⟨parts, hparts, hid⟩ := exists_launch_page f hl
  exact ⟨parts, pageAt?_eq f hfiles hparts, hid⟩

theorem listing_buildFiles_dotted :
    ∃ files, (Exporter.ofFormat .html5).buildFiles dottedContext = .ok files ∧
      ∃ text listing, textAt? files "manifest.json" = some text ∧
        Descriptor.Web.listing? text = some listing ∧
        listing.filled = [
          ⟨"opening", "", [⟨"../start", "Start & go", some "lessons/.._start.html"⟩,
            ⟨"", "Rest", some "lessons/_.html"⟩]⟩,
          ⟨"closing", "", [⟨"end", "<End>", some "lessons/end.html"⟩]⟩] := by
  have hplan : Plan.ofCourse dottedContext.course = .ok dottedPlan := ofCourse_dottedCourse
  have hfits : dottedContext.course.Fits := by
    simp [Course.Fits, Module.Fits, Lesson.Fits, dottedContext, dottedCourse, dottedModule,
      emptyModule, lastModule, dottedLesson, namelessLesson, lastLesson, Json.wholeLimit]
  obtain ⟨files, hfiles, ⟨text, listing, htext, hread, hfilled⟩, -⟩ :=
    listing_buildFiles .html5 hplan hfits
  refine ⟨files, hfiles, text, listing, htext, hread, hfilled.trans ?_⟩
  decide +kernel

end Courseware.Package
