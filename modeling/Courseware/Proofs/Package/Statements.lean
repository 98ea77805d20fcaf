import Courseware.Proofs.Json.Numerals
import Courseware.Proofs.Package.Listing
import Courseware.Proofs.Script.Data

/-!
# The lessons and activities that a package names

The files of an xAPI package name its lessons in several places: in the links of the index,
in two scripts and in the descriptor. They all name the same lessons in the same order, with
the same identifiers. A unit of a cmi5 package reports on the activity under which it is
listed.
-/

namespace Courseware.Package

open Page (Part)
open Script (LessonActivity config? templates? lessonActivity? launchRecord?)
open Descriptor.TinCan (Activity)

/-! ## Places -/

variable (files : FileTree)

/-- Where a link to a lesson leads, and which lesson it names. -/
def lessonLink? (part : Part) : Option (String × String) := do
  let href ← part.attributes.lookup "href"
  let id ← part.attributes.lookup "data-lesson-id"
  return (href, id)

/-- The links to lessons in the index. -/
def indexLessons? : Option (List (String × String)) :=
  (pageAt? files Bundle.indexPath).map fun parts => parts.filterMap lessonLink?

/-- What the statement templates declare about the lessons. -/
def templateLessons? : Option (List LessonActivity) :=
  ((textAt? files Bundle.templatesPath).bind templates?).bind fun data =>
    data.2.items.mapM lessonActivity?

/-- The activity of the course that the statement templates declare. -/
def templateCourse? : Option String :=
  ((textAt? files Bundle.templatesPath).bind templates?).bind fun data =>
    (data.1.get "id").string?

/-- The lessons in the configuration of the script that keeps progress. -/
def progressLessons? : Option (List String) :=
  ((textAt? files Bundle.navigationPath).bind config?).bind fun config =>
    (config.get "lessons").items.mapM Json.string?

/-- The activity of the course in the configuration of the script that sends statements. -/
def wrapperCourse? : Option String :=
  ((textAt? files Bundle.wrapperPath).bind config?).bind fun config =>
    (config.get "courseActivityId").string?

def activities? : Option (List Activity) :=
  (textAt? files Bundle.tincanPath).bind Descriptor.TinCan.activities?

/-- The identifiers and names of the activities of lessons in the descriptor. -/
def activityLessons? : Option (List (String × String)) :=
  (activities? files).map fun as =>
    (as.filter fun a => a.type = .lesson).map fun a => (a.id, a.name)

/-- The identifiers of the activities of courses in the descriptor. -/
def activityCourses? : Option (List String) :=
  (activities? files).map fun as => (as.filter fun a => a.type = .course).map (·.id)

/-- The launch record in the scripts of a page. -/
def recordAt? (path : String) : Option Json :=
  (pageAt? files path).bind fun parts =>
    (parts.filter fun part => part.name == "script").findSome? fun part =>
      launchRecord? part.code

variable {files} in
/-- The record is read from the first script of a page. -/
theorem recordAt?_eq {path : String} {parts scripts : List Part} {code : String} {record : Json}
    (hpage : pageAt? files path = some parts)
    (hscripts : parts.filter (fun part => part.name == "script") =
      Page.codePart code :: scripts)
    (hrecord : launchRecord? ("\n" ++ code ++ "\n") = some record) :
    recordAt? files path = some record := by
  have hfirst : launchRecord? (Page.codePart code).code = some record := hrecord
  rw [recordAt?, hpage, Option.bind_some, hscripts,
    List.findSome?_cons_of_isSome (by rw [hfirst]; rfl), hfirst]

/-! ## xAPI -/

variable {files} {p : Plan} {ctx : ExportContext}

namespace Bundle

theorem filterMap_indexParts (scripts : List String) (p : Plan) :
    (indexParts scripts p).filterMap lessonLink? =
      p.lessons.map fun l => (lessonPath l, l.lesson.id) := by
  have hlesson (l : PlannedLesson) :
      lessonLink? (Page.indexPart lessonPath l) = some (lessonPath l, l.lesson.id) := rfl
  have hscript (src : String) : lessonLink? (Page.scriptPart src) = none := rfl
  have hstyles : lessonLink? (Page.stylesheetPart stylesPath) = none := rfl
  simp [indexParts, List.filterMap_map, hlesson, hscript, hstyles]

def activityOf (ids : ActivityIds) (l : PlannedLesson) : Activity where
  id := ids.forLesson l.lesson.id
  type := .lesson
  name := l.lesson.title
  description := l.lesson.description.getD ""
  launch := none

theorem activities_activityList (p : Plan) (ctx : ExportContext) :
    (activityList p ctx).activities =
      ⟨ctx.activityIds.course, .course, ctx.metadata.title, ctx.metadata.description,
        some indexPath⟩ ::
      p.modules.flatMap fun m =>
        ⟨ctx.activityIds.forModule m.source.id, .courseModule, m.source.title,
          m.source.description.getD "", none⟩ :: m.lessons.map (activityOf ctx.activityIds) := by
  rw [activityList, Descriptor.TinCan.ActivityList.ofOutline, outline, Plan.outline,
    List.flatMap_map]
  simp only [Descriptor.TinCan.moduleActivities, List.map_map]
  rfl

theorem filter_activities_lesson (p : Plan) (ctx : ExportContext) :
    ((activityList p ctx).activities.filter fun a => a.type = .lesson) =
      p.lessons.map (activityOf ctx.activityIds) := by
  have hmodule (ls : List PlannedLesson) :
      ((ls.map (activityOf ctx.activityIds)).filter fun a => a.type = .lesson) =
        ls.map (activityOf ctx.activityIds) :=
    List.filter_eq_self.mpr (List.forall_mem_map.mpr fun l _ => by simp [activityOf])
  rw [activities_activityList, Plan.lessons, List.map_flatMap]
  simp [List.filter_flatMap, hmodule]

theorem filter_activities_course (p : Plan) (ctx : ExportContext) :
    (((activityList p ctx).activities.filter fun a => a.type = .course).map (·.id)) =
      [ctx.activityIds.course] := by
  have hmodule (ls : List PlannedLesson) :
      ((ls.map (activityOf ctx.activityIds)).filter fun a => a.type = .course) = [] :=
    List.filter_eq_nil_iff.mpr (List.forall_mem_map.mpr fun l _ => by simp [activityOf])
  rw [activities_activityList]
  simp [List.filter_flatMap, hmodule]

/-- The files of an xAPI package agree on its lessons and on its course. -/
structure Agrees (files : FileTree) (p : Plan) (ids : ActivityIds) : Prop where
  index : indexLessons? files = some (p.lessons.map fun l => (lessonPath l, l.lesson.id))
  templates : templateLessons? files = some (p.lessons.map (lessonActivity ids))
  progress : progressLessons? files = some (p.lessons.map (·.lesson.id))
  activities : activityLessons? files =
    some (p.lessons.map fun l => (ids.forLesson l.lesson.id, l.lesson.title))
  pages : ∀ l ∈ p.lessons, ∃ parts, pageAt? files (lessonPath l) = some parts ∧
    lessonIdOf parts = some l.lesson.id
  activityCourses : activityCourses? files = some [ids.course]
  templateCourse : templateCourse? files = some ids.course
  wrapperCourse : wrapperCourse? files = some ids.course

theorem agrees_planFiles (hfiles : (Exporter.ofFormat .xapi).planFiles p ctx = .ok files) :
    Agrees files p ctx.activityIds := by
  obtain ⟨wrapper, navigation, hwrapper, hnavigation, hholds⟩ := Xapi.exists_holds hfiles
  have htext {path text : String} (h : (path, text) ∈ Xapi.texts wrapper navigation p ctx) :
      textAt? files path = some text := textAt?_eq (hholds.get?_eq h)
  have htincan : activities? files = some (activityList p ctx).activities := by
    rw [activities?, htext List.mem_cons_self, Option.bind_some,
      Descriptor.TinCan.activities?_document]
  have htemplates : textAt? files templatesPath = some (Script.statementTemplates
      ctx.activityIds ctx.course.title (p.lessons.map (lessonActivity ctx.activityIds))) :=
    htext (by simp [Xapi.texts])
  have hnavigationText : textAt? files navigationPath = some navigation :=
    htext (by simp [Xapi.texts])
  have hwrapperText : textAt? files wrapperPath = some wrapper := htext (by simp [Xapi.texts])
  refine ⟨?_, ?_, ?_, ?_, fun l hl => ?_, ?_, ?_, ?_⟩
  · have hindex : pageAt? files indexPath = some (indexParts xapiScripts p) :=
      pageAt?_eq .xapi hfiles List.mem_cons_self
    rw [indexLessons?, hindex, Option.map_some, filterMap_indexParts]
  · rw [templateLessons?, htemplates, Option.bind_some, Script.templates?_statementTemplates,
      Option.bind_some, Json.items_sorted_array, List.map_map, List.mapM_map]
    exact (Descriptor.mapM_eq_some fun a _ => Script.lessonActivity?_json a).trans
      (congrArg some (List.map_id _))
  · have hconfig := Script.lessons_navigationScript hnavigation
    obtain ⟨config, hread, hlessons⟩ := Option.map_eq_some_iff.mp hconfig
    rw [progressLessons?, hnavigationText, Option.bind_some, hread, Option.bind_some, hlessons]
    change ((p.lessonIds.map Json.string).mapM Json.string?) = _
    rw [List.mapM_map]
    exact (Descriptor.mapM_eq_some fun s _ => rfl).trans (congrArg some (List.map_id _))
  · rw [activityLessons?, htincan, Option.map_some, filter_activities_lesson, List.map_map]
    rfl
  · obtain ⟨parts, hparts, hid⟩ := exists_launch_page .xapi hl
    exact ⟨parts, pageAt?_eq .xapi hfiles hparts, hid⟩
  · rw [activityCourses?, htincan, Option.map_some, filter_activities_course]
  · rw [templateCourse?, htemplates, Option.bind_some, Script.templates?_statementTemplates,
      Option.bind_some, Script.courseJson, Json.get_sorted_object (by simp)]
    rfl
  · have hconfig := Script.course_xapiScript hwrapper
    obtain ⟨config, hread, hcourse⟩ := Option.map_eq_some_iff.mp hconfig
    rw [wrapperCourse?, hwrapperText, Option.bind_some, hread, Option.bind_some, hcourse]
    rfl

end Bundle

/-! ## cmi5 -/

namespace Cmi5

variable {l : PlannedLesson}

theorem legible_mastery (s : Settings) :
    ∀ x ∈ mastery s, (Json.Number.decimal x).Legible := by
  intro x hx
  rw [mastery] at hx
  split at hx
  · obtain rfl := Option.some.inj hx
    exact Json.legible_ofPercent (Nat.min_le_right _ _)
  · cases hx

/-- The record of a unit is read from its page. -/
theorem recordAt?_unit (hfiles : (Exporter.ofFormat .cmi5).planFiles p ctx = .ok files)
    (hl : l ∈ p.lessons) :
    recordAt? files (unitPath l) = some (launchRecord ctx l).sorted := by
  have hpage : pageAt? files (unitPath l) = some (unitParts ctx l) :=
    pageAt?_eq .cmi5 hfiles (List.mem_flatMap.mpr ⟨l, hl, List.mem_cons_self⟩)
  exact recordAt?_eq hpage rfl (Script.launchRecord?_cmi5Launch _ _ (legible_mastery _))

/-- The page of a unit reports on the activity of its lesson. -/
theorem exists_recordAt?_unit (hfiles : (Exporter.ofFormat .cmi5).planFiles p ctx = .ok files)
    (hl : l ∈ p.lessons) : ∃ record, recordAt? files (unitPath l) = some record ∧
      record.get "activityId" = .string (ctx.activityIds.forLesson l.lesson.id) := by
  have hactivity := Script.member?_cmi5Launch (ctx.activityIds.forLesson l.lesson.id) l.lesson.id
    (mastery ctx.settings) "activityId"
  exact ⟨_, recordAt?_unit hfiles hl, congrArg (·.getD .null) hactivity⟩

end Cmi5

/-! ## Packages -/

end Courseware.Package
