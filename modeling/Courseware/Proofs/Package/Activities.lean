import Courseware.Proofs.Clashes
import Courseware.Proofs.Descriptor.Activities
import Courseware.Proofs.Descriptor.RoundTrip
import Courseware.Proofs.EmptyModules
import Courseware.Proofs.Package.Identifiers
import Courseware.Proofs.Package.Statements

/-!
# Activities in descriptors

A descriptor of units and one of activities name the course, the modules and the lessons by
their activities. A course has a plan only if its modules are apart, and its lessons: no two
of these activities are the same, and within one course different activities have different
identifiers, whatever characters they are made of.
-/

namespace Courseware

open Descriptor.Scorm (attributesNamed attributesNamed_eventsFrom)
open Markup (Event eventsFrom whenSome)
open Markup.Xml (fixed)
open Package (keyValues keyValues_cons)

/-! ## Activities of courses -/

/-- The activity of a module or a lesson that is met in a course. -/
def Visit.activity (courseId : String) (v : Visit) : ActivityKey :=
  match v.kind with
  | .courseModule => .courseModule courseId v.id
  | .lesson => .lesson courseId v.id

/-- The activities of a course: that of the course first, and then those of its modules, each
in front of the activities of its lessons. -/
def Course.activities (c : Course) : List ActivityKey :=
  .course c.id :: c.visits.map (Visit.activity c.id)

theorem Visit.courseId_activity (courseId : String) (v : Visit) :
    (v.activity courseId).courseId = courseId := by
  obtain ⟨kind, id⟩ := v
  cases kind <;> rfl

theorem Visit.activity_ne_course (courseId : String) (v : Visit) :
    v.activity courseId ≠ .course courseId := by
  obtain ⟨kind, id⟩ := v
  cases kind <;> exact ActivityKey.noConfusion

/-- An activity tells what is met. -/
theorem Visit.activity_injective (courseId : String) :
    Function.Injective (Visit.activity courseId) := by
  rintro ⟨kind, id⟩ ⟨kind', id'⟩ h
  cases kind <;> cases kind' <;> simp_all [Visit.activity]

namespace Course

variable {c : Course}

theorem courseId_of_mem_activities {a : ActivityKey} (ha : a ∈ c.activities) :
    a.courseId = c.id := by
  rcases List.mem_cons.mp ha with rfl | ha
  · rfl
  · obtain ⟨v, -, rfl⟩ := List.mem_map.mp ha
    exact v.courseId_activity c.id

theorem nodup_activities (h : c.visits.Pairwise Visit.Apart) : c.activities.Nodup := by
  have hvisits : c.visits.Nodup := by
    refine h.imp fun {v w} hapart heq => hapart ?_
    rw [heq]
    exact ⟨rfl, rfl⟩
  refine List.nodup_cons.mpr ⟨fun hcourse => ?_, hvisits.map (Visit.activity_injective c.id)⟩
  obtain ⟨v, -, hv⟩ := List.mem_map.mp hcourse
  exact v.activity_ne_course c.id hv

/-- Below any address, the activities of a course have different identifiers. -/
theorem nodup_iris (h : c.visits.Pairwise Visit.Apart) (start : String) :
    (c.activities.map (ActivityKey.iri start)).Nodup := by
  refine List.Nodup.map_on (fun a ha b hb hiri => ?_) (nodup_activities h)
  have hcourse : a.courseId = b.courseId := by
    rw [courseId_of_mem_activities ha, courseId_of_mem_activities hb]
  exact ActivityKey.eq_of_path_eq (Or.inl hcourse) (ActivityKey.iri_eq_iff_path_eq.mp hiri)

end Course

namespace Plan

variable {c : Course} {p : Plan}

/-- The modules and lessons of a plan are those that are met in its course. -/
theorem visits_eq (hp : ofCourse c = .ok p) :
    c.visits = p.modules.flatMap fun m =>
      .ofModule m.source :: m.lessons.map fun l => .ofLesson l.lesson := by
  have hmodules := congrArg
    (List.flatMap fun m : Module × List Lesson => .ofModule m.1 :: m.2.map Visit.ofLesson)
    (map_modules hp)
  rw [List.flatMap_map, List.flatMap_map] at hmodules
  simp only [List.map_map] at hmodules
  exact hmodules.symm

theorem iris_eq (hp : ofCourse c = .ok p) (start : String) :
    c.activities.map (ActivityKey.iri start) =
      (ActivityIds.ofCourse start c.id).course :: p.modules.flatMap fun m =>
        (ActivityIds.ofCourse start c.id).forModule m.source.id ::
          m.lessons.map fun l => (ActivityIds.ofCourse start c.id).forLesson l.lesson.id := by
  rw [Course.activities, visits_eq hp, List.map_cons, List.map_map, List.map_flatMap]
  simp only [List.map_cons, List.map_map]
  rfl

end Plan

/-! ## Identifiers in documents -/

namespace Descriptor

variable {pending : List Char}

namespace Cmi5

/-- The identifiers in a structure, in order. -/
def CourseStructure.ids (s : CourseStructure) : List String :=
  s.courseId :: s.blocks.flatMap fun b => b.id :: b.units.map (·.id)

theorem gather_id_naming (level : Nat) (language title description : String) :
    Package.gather (fun _ => keyValues "id") (naming level language title description) = [] := by
  simp [naming, langString, keyValues_cons]

theorem gather_id_unit (language : String) (u : AssignableUnit) :
    Package.gather (fun _ => keyValues "id") (unitTokens language u) = [u.id] := by
  have hscore : keyValues "id"
      (whenSome u.masteryScore fun x => [fixed "masteryScore" (Decimal.plainText x)]) = [] := by
    cases u.masteryScore with
    | none => rfl
    | some x => exact keyValues_cons _ _ _
  simp [unitTokens, gather_id_naming, keyValues_cons, hscore]

/-- All attributes in a document that are named so are the identifiers of its structure. -/
theorem attributesNamed_id (s : CourseStructure) :
    attributesNamed "id" (eventsFrom pending s.body) = s.ids := by
  rw [attributesNamed_eventsFrom, CourseStructure.body, CourseStructure.ids]
  simp [blockTokens, gather_id_naming, gather_id_unit, keyValues_cons, ← List.map_eq_flatMap]

end Cmi5

namespace TinCan

/-- All attributes in a document that are named so are the identifiers of its activities. -/
theorem attributesNamed_id (l : ActivityList) :
    attributesNamed "id" (eventsFrom pending l.body) = l.activities.map (·.id) := by
  have hactivity (a : Activity) :
      Package.gather (fun _ => keyValues "id") (activityTokens l.language a) = [a.id] := by
    cases hlaunch : a.launch <;> simp [activityTokens, langText, keyValues_cons, hlaunch]
  rw [attributesNamed_eventsFrom, ActivityList.body]
  simp [hactivity, keyValues_cons, ← List.map_eq_flatMap]

end TinCan

end Descriptor

/-! ## Packages -/

namespace Package

variable {p : Plan} {ctx : ExportContext}

theorem Cmi5.ids_courseStructure (hp : Plan.ofCourse ctx.course = .ok p) :
    (courseStructure p ctx).ids =
      ctx.course.filled.activities.map (ActivityKey.iri ctx.settings.xapi.activityPrefix) := by
  have hiris := Plan.iris_eq (Plan.ofCourse_filled hp) ctx.settings.xapi.activityPrefix
  have hblocks : (courseStructure p ctx).blocks = p.filledModules.map fun m =>
      .ofModule ctx.activityIds (mastery ctx.settings)
        (m.outline unitPath fun _ => []) := by
    rw [courseStructure, Descriptor.Cmi5.CourseStructure.ofOutline, p.launchable_outline,
      List.map_map]
    rfl
  rw [hiris, Descriptor.Cmi5.CourseStructure.ids, hblocks, List.flatMap_map]
  simp only [Descriptor.Cmi5.UnitBlock.ofModule, PlannedModule.outline, List.map_map]
  rfl

theorem Bundle.ids_activityList (hp : Plan.ofCourse ctx.course = .ok p) :
    (activityList p ctx).activities.map (·.id) =
      ctx.course.activities.map (ActivityKey.iri ctx.settings.xapi.activityPrefix) := by
  rw [Plan.iris_eq hp, activities_activityList, List.map_cons, List.map_flatMap]
  simp only [List.map_cons, List.map_map]
  rfl

/-- The scores to pass with are percentages. -/
theorem Cmi5.exists_percent_courseStructure :
    ∀ b ∈ (courseStructure p ctx).blocks, ∀ u ∈ b.units, ∀ x ∈ u.masteryScore,
      ∃ percent, x = .ofPercent percent := by
  intro b hb u hu x hx
  obtain ⟨m, -, rfl⟩ := List.mem_map.mp hb
  obtain ⟨l, -, rfl⟩ := List.mem_map.mp hu
  change x ∈ mastery ctx.settings at hx
  rw [mastery] at hx
  split at hx
  · exact ⟨_, (Option.some.inj hx).symm⟩
  · cases hx

/-- The values of all attributes that are named "id" in the tags of a file. -/
def idsAt? (files : FileTree) (path : String) : Option (List String) :=
  (textAt? files path).bind fun text =>
    (Event.ofDocument text).toOption.map (attributesNamed "id")

theorem idsAt?_eq {files : FileTree} {path text : String} {events : List Event}
    (htext : textAt? files path = some text) (hevents : Event.ofDocument text = .ok events) :
    idsAt? files path = some (attributesNamed "id" events) := by
  rw [idsAt?, htext, Option.bind_some, hevents]
  rfl

theorem Cmi5.exists_structure (hp : Plan.ofCourse ctx.course = .ok p) :
    ∃ files, (Exporter.ofFormat .cmi5).buildFiles ctx = .ok files ∧
      (textAt? files structurePath).bind Descriptor.Cmi5.ofDocument? =
        some (courseStructure p ctx) ∧
      idsAt? files structurePath = some (courseStructure p ctx).ids := by
  obtain ⟨files, hfiles⟩ := Exporter.exists_planFiles .cmi5 hp
  obtain ⟨script, hholds⟩ := exists_holds hfiles
  have htext : textAt? files structurePath = some (courseStructure p ctx).document :=
    textAt?_eq (hholds.get?_eq List.mem_cons_self)
  have hmoveOn := fun b hb => @isPlainValue_moveOn p ctx b hb
  have hbody := Descriptor.Cmi5.CourseStructure.balanced_body
    fun b hb u hu c hc => (hmoveOn b hb u hu c hc).1
  have hevents := hbody.ofDocument_eq Descriptor.Cmi5.legible_declaration
  refine ⟨files, by rw [Exporter.buildFiles_eq hp, hfiles], ?_, ?_⟩
  · rw [htext, Option.bind_some]
    exact Descriptor.Cmi5.ofDocument?_document hmoveOn exists_percent_courseStructure
  · rw [idsAt?_eq htext hevents, Descriptor.Cmi5.attributesNamed_id]

theorem Bundle.exists_activities (hp : Plan.ofCourse ctx.course = .ok p) :
    ∃ files, (Exporter.ofFormat .xapi).buildFiles ctx = .ok files ∧
      activities? files = some (activityList p ctx).activities ∧
      idsAt? files tincanPath = some ((activityList p ctx).activities.map (·.id)) := by
  obtain ⟨files, hfiles⟩ := Exporter.exists_planFiles .xapi hp
  obtain ⟨wrapper, navigation, -, -, hholds⟩ := Xapi.exists_holds hfiles
  have htext : textAt? files tincanPath = some (activityList p ctx).document :=
    textAt?_eq (hholds.get?_eq List.mem_cons_self)
  have hevents := (activityList p ctx).balanced_body.ofDocument_eq
    Descriptor.TinCan.legible_declaration
  refine ⟨files, by rw [Exporter.buildFiles_eq hp, hfiles], ?_, ?_⟩
  · rw [activities?, htext, Option.bind_some, Descriptor.TinCan.activities?_document]
  · rw [idsAt?_eq htext hevents, Descriptor.TinCan.attributesNamed_id]

/-- In the descriptors of an accepted course, all identifiers are those of its activities in
order, and no two are the same. A descriptor of units has no place for modules without
lessons. -/
theorem nodup_ids_buildFiles (hp : Plan.ofCourse ctx.course = .ok p) :
    (∃ files s, (Exporter.ofFormat .cmi5).buildFiles ctx = .ok files ∧
      (textAt? files Cmi5.structurePath).bind Descriptor.Cmi5.ofDocument? = some s ∧
      idsAt? files Cmi5.structurePath = some s.ids ∧
      s.ids = ctx.course.filled.activities.map
        (ActivityKey.iri ctx.settings.xapi.activityPrefix) ∧
      s.ids.Nodup) ∧
    ∃ files as, (Exporter.ofFormat .xapi).buildFiles ctx = .ok files ∧
      activities? files = some as ∧
      idsAt? files Bundle.tincanPath = some (as.map (·.id)) ∧
      as.map (·.id) = ctx.course.activities.map
        (ActivityKey.iri ctx.settings.xapi.activityPrefix) ∧
      (as.map (·.id)).Nodup := by
  have hcmi5 := Cmi5.ids_courseStructure hp
  have hxapi := Bundle.ids_activityList hp
  -- An accepted course has no clash among its visits, and from these the identifiers are made.
  have hvisits := Plan.exists_ofCourse_iff.mp ⟨p, hp⟩
  have hfilled := Plan.exists_ofCourse_iff.mp ⟨p.filled, Plan.ofCourse_filled hp⟩
  obtain ⟨cmi5Files, hcmi5Files, hstructure, hids⟩ := Cmi5.exists_structure hp
  obtain ⟨xapiFiles, hxapiFiles, hactivities, hactivityIds⟩ := Bundle.exists_activities hp
  refine ⟨⟨cmi5Files, _, hcmi5Files, hstructure, hids, hcmi5, ?_⟩,
    xapiFiles, _, hxapiFiles, hactivities, hactivityIds, hxapi, ?_⟩
  · rw [hcmi5]
    exact Course.nodup_iris hfilled _
  · rw [hxapi]
    exact Course.nodup_iris hvisits _

/-- What is in order already is met as it stands. -/
theorem visits_of_pairwise {c : Course} (hmodules : c.modules.Pairwise fun a b => a.order ≤ b.order)
    (hlessons : ∀ m ∈ c.modules, m.lessons.Pairwise fun a b => a.order ≤ b.order) :
    c.visits = c.modules.flatMap fun m => .ofModule m :: m.lessons.map .ofLesson := by
  have hordered : c.orderedModules = c.modules :=
    List.mergeSort_of_pairwise (hmodules.imp decide_eq_true)
  rw [Course.visits, hordered]
  refine List.flatMap_congr fun m hm => ?_
  rw [Module.visits, orderedLessons_of_pairwise (hlessons m hm)]

/-- A course with slashes and percent signs in its identifiers, in which a module and a lesson
share one. -/
def slashedCourse : Course where
  id := "a/b"
  modules :=
    [{ id := "modules", lessons := [{ id := "lessons/x" }, { id := "modules" }] },
      { id := "lessons", lessons := [{ id := "lessons%2Fx" }] }, { id := "" }]

def slashedContext : ExportContext :=
  ⟨slashedCourse, { xapi := { activityIdPrefix := "https://acts.test" } }, ⟨0, false⟩⟩

theorem nodup_ids_buildFiles_slashed :
    ∃ p files as, Plan.ofCourse slashedContext.course = .ok p ∧
      (Exporter.ofFormat .xapi).buildFiles slashedContext = .ok files ∧
      activities? files = some as ∧ idsAt? files "tincan.xml" = some (as.map (·.id)) ∧
      as.map (·.id) = [
        "https://acts.test/a/b", "https://acts.test/a/b/modules/modules",
        "https://acts.test/a/b/lessons/lessons/x", "https://acts.test/a/b/lessons/modules",
        "https://acts.test/a/b/modules/lessons",
        "https://acts.test/a/b/lessons/lessons%252Fx", "https://acts.test/a/b/modules/"] ∧
      (as.map (·.id)).Nodup := by
  obtain ⟨p, hp⟩ : ∃ p, Plan.ofCourse slashedContext.course = .ok p := by
    rw [Plan.exists_ofCourse_iff, pairwise_visits_iff]
    decide +kernel
  obtain ⟨-, files, as, hfiles, hread, hids, hiris, hnodup⟩ := nodup_ids_buildFiles hp
  refine ⟨p, files, as, hp, hfiles, hread, hids, hiris.trans ?_, hnodup⟩
  rw [Course.activities, visits_of_pairwise (by decide) (by decide)]
  decide +kernel

end Package

end Courseware
