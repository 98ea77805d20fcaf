import Courseware.Proofs.Plan

/-!
# Plans of rewritten courses

A course may be rewritten lesson by lesson. As long as the identifiers stay, and the lessons
of a module are shown in the order in which they were, the plan of the rewritten course is the
plan of the course, rewritten: a course is checked by its identifiers alone.
-/

namespace Courseware

/-- A way to rewrite lessons, the modules that hold them, and their places in plans. -/
structure Rewriting where
  onLesson : Lesson → Lesson
  onModule : Module → Module
  onPlanned : PlannedLesson → PlannedLesson
  id_onLesson : ∀ l, (onLesson l).id = l.id
  id_onModule : ∀ m, (onModule m).id = m.id
  orderedLessons : ∀ m, (onModule m).orderedLessons = m.orderedLessons.map onLesson
  ofLesson : ∀ m index l, PlannedLesson.ofLesson (onModule m) index (onLesson l) =
    onPlanned (PlannedLesson.ofLesson m index l)

namespace Rewriting

variable (r : Rewriting)

def onPlannedModule (m : PlannedModule) : PlannedModule :=
  { m with source := r.onModule m.source, lessons := m.lessons.map r.onPlanned }

theorem checkLessons_map (seen : List String) (ls : List Lesson) :
    checkLessons seen (ls.map r.onLesson) = checkLessons seen ls := by
  induction ls generalizing seen with
  | nil => rfl
  | cons l ls ih => rw [List.map_cons, checkLessons, checkLessons, ih, r.id_onLesson]

theorem checkModules_map (seenModules seenLessons : List String) (ms : List Module) :
    checkModules seenModules seenLessons (ms.map r.onModule) =
      checkModules seenModules seenLessons ms := by
  induction ms generalizing seenModules seenLessons with
  | nil => rfl
  | cons m ms ih =>
    simp only [List.map_cons, checkModules, r.id_onModule, r.orderedLessons, r.checkLessons_map,
      ih]

theorem ofModule_eq (start : Nat) (m : Module) :
    PlannedModule.ofModule start (r.onModule m) =
      r.onPlannedModule (PlannedModule.ofModule start m) := by
  have hlessons : ((m.orderedLessons.map r.onLesson).mapIdx fun i l =>
      PlannedLesson.ofLesson (r.onModule m) (start + i) l) =
        (m.orderedLessons.mapIdx fun i l => PlannedLesson.ofLesson m (start + i) l).map
          r.onPlanned := by
    apply List.ext_getElem
    · simp
    · intro i _ _
      simp [r.ofLesson]
  rw [PlannedModule.ofModule, r.orderedLessons, hlessons]
  rfl

theorem planModules_map (start : Nat) (ms : List Module) :
    planModules start (ms.map r.onModule) = (planModules start ms).map r.onPlannedModule := by
  induction ms generalizing start with
  | nil => rfl
  | cons m ms ih =>
    have hstop : (r.onPlannedModule (PlannedModule.ofModule start m)).stop =
        (PlannedModule.ofModule start m).stop := by
      simp [PlannedModule.stop, onPlannedModule]
    simp only [List.map_cons, planModules, r.ofModule_eq, hstop, ih]

theorem flatMap_lessons (p : Plan) :
    (p.modules.map r.onPlannedModule).flatMap (·.lessons) = p.lessons.map r.onPlanned := by
  rw [Plan.lessons, List.flatMap_map, List.map_flatMap]
  rfl

/-- The plan of a course whose modules in order are those of another, rewritten. -/
theorem ofCourse_eq {c c' : Course} (h : c'.orderedModules = c.orderedModules.map r.onModule) :
    Plan.ofCourse c' =
      (Plan.ofCourse c).map fun p => ⟨c', p.modules.map r.onPlannedModule⟩ := by
  rw [Plan.ofCourse, Plan.ofCourse, h, r.checkModules_map, r.planModules_map]
  cases checkModules [] [] c.orderedModules <;> rfl

end Rewriting

end Courseware
