import Courseware.Plan
import Mathlib.Data.List.Nodup
import Mathlib.Data.List.Perm.Basic

/-!
# What a plan holds

A plan holds the lessons of its course in order, and the path segments of its lessons
are different.
-/

namespace Courseware

open Text (pathSegment)

theorem bind_eq_ok_iff {ε α β : Type} {x : Except ε α} {f : α → Except ε β} {b : β} :
    x >>= f = .ok b ↔ ∃ a, x = .ok a ∧ f a = .ok b := by
  cases x with
  | error e => simp [bind, Except.bind]
  | ok a => simp [bind, Except.bind]

/-! ## Unique identifiers -/

theorem checkUnique_eq_ok_iff {kind pathKind : UniqueId} {noun : String}
    {seen : List String} {id : String} :
    checkUnique kind pathKind noun seen id = .ok () ↔
      pathSegment id ∉ seen.map pathSegment := by
  rw [checkUnique]
  split
  · rename_i hseen
    have hmem : pathSegment id ∈ seen.map pathSegment :=
      List.mem_map.mpr ⟨id, List.contains_iff_mem.mp hseen, rfl⟩
    simp [hmem]
  · dsimp only
    split
    · rename_i other hfind
      have heq := List.find?_some hfind
      have hmem : pathSegment id ∈ seen.map pathSegment :=
        List.mem_map.mpr ⟨other, List.mem_of_find?_eq_some hfind, eq_of_beq heq⟩
      simp [hmem]
    · rename_i hfind
      have hnone := List.find?_eq_none.mp hfind
      have hnot : pathSegment id ∉ seen.map pathSegment := by
        intro hmem
        obtain ⟨other, hother, heq⟩ := List.mem_map.mp hmem
        exact hnone other hother (beq_iff_eq.mpr heq)
      simp [hnot]

def segments (ls : List Lesson) : List String :=
  ls.map fun l => pathSegment l.id

theorem checkLessons_eq_ok {seen all : List String} {ls : List Lesson}
    (h : checkLessons seen ls = .ok all) :
    all = (ls.map (·.id)).reverse ++ seen ∧ (segments ls).Nodup ∧
      ∀ s ∈ segments ls, s ∉ seen.map pathSegment := by
  induction ls generalizing seen with
  | nil =>
    cases h
    simp [segments]
  | cons l ls ih =>
    obtain ⟨_, hunique, hrest⟩ := bind_eq_ok_iff.mp h
    have hnew := checkUnique_eq_ok_iff.mp hunique
    obtain ⟨rfl, hnodup, hfresh⟩ := ih hrest
    refine ⟨by simp, List.nodup_cons.mpr ⟨?_, hnodup⟩, ?_⟩
    · exact fun hmem => hfresh _ hmem (by simp)
    · intro s hs
      rcases List.mem_cons.mp hs with rfl | hs
      · exact hnew
      · exact fun hmem => hfresh s hs (by simp [List.mem_map.mp hmem])

/-- The lessons of checked modules have different path segments, and so have the
modules. -/
theorem checkModules_eq_ok {seenModules seenLessons : List String} {ms : List Module}
    (h : checkModules seenModules seenLessons ms = .ok ()) :
    (segments (ms.flatMap Module.orderedLessons)).Nodup ∧
      (∀ s ∈ segments (ms.flatMap Module.orderedLessons), s ∉ seenLessons.map pathSegment) := by
  induction ms generalizing seenModules seenLessons with
  | nil => simp [segments]
  | cons m ms ih =>
    obtain ⟨_, -, h⟩ := bind_eq_ok_iff.mp h
    obtain ⟨all, hlessons, hrest⟩ := bind_eq_ok_iff.mp h
    obtain ⟨rfl, hnodup, hfresh⟩ := checkLessons_eq_ok hlessons
    obtain ⟨hnodupRest, hfreshRest⟩ := ih hrest
    have hsplit : segments ((m :: ms).flatMap Module.orderedLessons) =
        segments m.orderedLessons ++ segments (ms.flatMap Module.orderedLessons) := by
      simp [segments]
    rw [hsplit]
    refine ⟨List.nodup_append.mpr ⟨hnodup, hnodupRest, ?_⟩, ?_⟩
    · rintro s hs t ht rfl
      apply hfreshRest s ht
      simp only [segments, List.mem_map] at hs
      obtain ⟨l, hl, rfl⟩ := hs
      exact List.mem_map.mpr ⟨l.id, by simp; exact Or.inl ⟨l, hl, rfl⟩, rfl⟩
    · intro s hs
      rcases List.mem_append.mp hs with hs | hs
      · exact hfresh s hs
      · exact fun hmem => hfreshRest s hs (by
          rw [List.map_append]
          exact List.mem_append_right _ hmem)

/-! ## Lessons -/

theorem lessons_ofModule (start : Nat) (m : Module) :
    (PlannedModule.ofModule start m).lessons.map (·.lesson) = m.orderedLessons := by
  apply List.ext_getElem
  · simp [PlannedModule.ofModule]
  · intro i hi hi'
    simp [PlannedModule.ofModule, PlannedLesson.ofLesson]

/-- Every planned lesson is a lesson of a module. -/
theorem exists_ofLesson_of_mem_planModules {start : Nat} {ms : List Module} {l : PlannedLesson}
    (h : l ∈ (planModules start ms).flatMap (·.lessons)) :
    ∃ m index lesson, l = PlannedLesson.ofLesson m index lesson := by
  induction ms generalizing start with
  | nil => simp [planModules] at h
  | cons m ms ih =>
    rw [planModules, List.flatMap_cons] at h
    rcases List.mem_append.mp h with h | h
    · obtain ⟨i, hi, rfl⟩ := List.mem_mapIdx.mp h
      exact ⟨m, start + i, _, rfl⟩
    · exact ih h

theorem lessons_planModules (start : Nat) (ms : List Module) :
    ((planModules start ms).flatMap (·.lessons)).map (·.lesson) =
      ms.flatMap Module.orderedLessons := by
  induction ms generalizing start with
  | nil => rfl
  | cons m ms ih =>
    simp only [planModules, List.flatMap_cons, List.map_append, lessons_ofModule, ih]

theorem map_planModules (start : Nat) (ms : List Module) :
    ((planModules start ms).map fun m => (m.source, m.lessons.map (·.lesson))) =
      ms.map fun m => (m, m.orderedLessons) := by
  induction ms generalizing start with
  | nil => rfl
  | cons m ms ih =>
    rw [planModules, List.map_cons, ih, lessons_ofModule]
    rfl

/-- The places of planned lessons are counted through all modules. -/
theorem index_planModules {start i : Nat} {ms : List Module} {l : PlannedLesson}
    (h : ((planModules start ms).flatMap (·.lessons))[i]? = some l) : l.index = start + i := by
  induction ms generalizing start i with
  | nil => simp [planModules] at h
  | cons m ms ih =>
    rw [planModules, List.flatMap_cons, List.getElem?_append] at h
    split at h
    · rw [PlannedModule.ofModule, List.getElem?_mapIdx] at h
      obtain ⟨lesson, -, rfl⟩ := Option.map_eq_some_iff.mp h
      rfl
    · rename_i hlength
      have hstop : (PlannedModule.ofModule start m).stop =
          start + (PlannedModule.ofModule start m).lessons.length := rfl
      rw [ih h, hstop]
      omega

namespace Plan

variable {c : Course} {p : Plan}

theorem ofCourse_eq_ok_iff :
    ofCourse c = .ok p ↔
      checkModules [] [] c.orderedModules = .ok () ∧
        p = ⟨c, planModules 0 c.orderedModules⟩ := by
  rw [ofCourse, bind_eq_ok_iff]
  constructor
  · rintro ⟨_, hcheck, h⟩
    exact ⟨hcheck, (Except.ok.inj h).symm⟩
  · rintro ⟨hcheck, rfl⟩
    exact ⟨(), hcheck, rfl⟩

theorem segment_eq (h : ofCourse c = .ok p) {l : PlannedLesson} (hl : l ∈ p.lessons) :
    l.segment = pathSegment l.lesson.id := by
  obtain ⟨-, rfl⟩ := ofCourse_eq_ok_iff.mp h
  obtain ⟨m, index, lesson, rfl⟩ := exists_ofLesson_of_mem_planModules hl
  rfl

/-- The blocks of a planned lesson are those of the lesson in order. -/
theorem blocks_eq (h : ofCourse c = .ok p) {l : PlannedLesson} (hl : l ∈ p.lessons) :
    l.blocks = l.lesson.orderedBlocks := by
  obtain ⟨-, rfl⟩ := ofCourse_eq_ok_iff.mp h
  obtain ⟨m, index, lesson, rfl⟩ := exists_ofLesson_of_mem_planModules hl
  rfl

theorem map_lesson (h : ofCourse c = .ok p) :
    p.lessons.map (·.lesson) = c.orderedModules.flatMap Module.orderedLessons := by
  obtain ⟨-, rfl⟩ := ofCourse_eq_ok_iff.mp h
  exact lessons_planModules 0 _

/-- The modules of a plan are those of its course in order, each with its own lessons in
order. -/
theorem map_modules (h : ofCourse c = .ok p) :
    (p.modules.map fun m => (m.source, m.lessons.map (·.lesson))) =
      c.orderedModules.map fun m => (m, m.orderedLessons) := by
  obtain ⟨-, rfl⟩ := ofCourse_eq_ok_iff.mp h
  exact map_planModules 0 _

/-- The lessons of a plan have different path segments. -/
theorem nodup_segments (h : ofCourse c = .ok p) :
    (p.lessons.map (·.segment)).Nodup := by
  obtain ⟨hcheck, -⟩ := ofCourse_eq_ok_iff.mp h
  have hsegments : p.lessons.map (·.segment) =
      segments (c.orderedModules.flatMap Module.orderedLessons) := by
    rw [← map_lesson h, segments, List.map_map]
    exact List.map_congr_left fun l hl => segment_eq h hl
  rw [hsegments]
  exact (checkModules_eq_ok hcheck).1

theorem nodup_pathSegments (h : ofCourse c = .ok p) :
    (p.lessons.map fun l => Text.pathSegment l.lesson.id).Nodup := by
  have hnodup := nodup_segments h
  rwa [List.map_congr_left fun l hl => segment_eq h hl] at hnodup

theorem index_eq (h : ofCourse c = .ok p) {i : Nat} {l : PlannedLesson}
    (hl : p.lessons[i]? = some l) : l.index = i := by
  obtain ⟨-, rfl⟩ := ofCourse_eq_ok_iff.mp h
  rw [index_planModules hl, Nat.zero_add]

/-- A plan holds each lesson of its course once. -/
theorem perm_lessons (h : ofCourse c = .ok p) :
    (p.lessons.map (·.lesson)).Perm (c.modules.flatMap fun m => m.lessons) := by
  rw [map_lesson h]
  exact (List.mergeSort_perm _ _).flatMap fun m _ => List.mergeSort_perm _ _

/-- A plan has as many lessons as its course. -/
theorem length_lessons (h : ofCourse c = .ok p) : p.lessons.length = c.lessonCount := by
  rw [← List.length_map (·.lesson), (perm_lessons h).length_eq, Course.lessonCount]

end Plan

/-! ## Outlines -/

def PlannedModule.outline (launch : PlannedLesson → String)
    (files : PlannedLesson → List String) (m : PlannedModule) :
    Descriptor.OutlineModule where
  id := m.source.id
  title := m.source.title
  description := m.source.description
  lessons := m.lessons.map (PlannedLesson.outline launch files)

namespace Plan

variable (p : Plan) (launch : PlannedLesson → String) (files : PlannedLesson → List String)

/-- The launchable modules of an outline are those that have lessons. -/
theorem launchable_outline :
    (p.outline launch files).launchable =
      p.filledModules.map (PlannedModule.outline launch files) := by
  have hempty : ((fun m : Descriptor.OutlineModule => !m.lessons.isEmpty) ∘
      PlannedModule.outline launch files) = fun m => !m.lessons.isEmpty := by
    funext m
    simp [PlannedModule.outline]
  change (p.modules.map (PlannedModule.outline launch files)).filter _ = _
  rw [List.filter_map, hempty]
  rfl

/-- Modules without lessons do not count for the lessons. -/
theorem lessons_filledModules : p.filledModules.flatMap (·.lessons) = p.lessons := by
  rw [filledModules, lessons]
  induction p.modules with
  | nil => rfl
  | cons m ms ih =>
    cases hlessons : m.lessons <;> simp [hlessons, ih]

theorem lessons_outline :
    (p.outline launch files).launchable.flatMap (·.lessons) =
      p.lessons.map (PlannedLesson.outline launch files) := by
  rw [launchable_outline, List.flatMap_map, ← lessons_filledModules, List.map_flatMap]
  rfl

end Plan

end Courseware
