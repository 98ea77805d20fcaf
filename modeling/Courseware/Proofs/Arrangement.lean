import Courseware.Proofs.Order
import Courseware.Proofs.Plan

/-!
# The places of lessons in a plan

A plan counts its lessons through all modules. Each module takes up the places between
those of the modules around it, and at these places stand its own lessons in order.
-/

namespace Courseware

/-! ## Stretches of a list -/

/-- The members at the places from `start` up to `stop`, if a list has these places. -/
def stretch? {α : Type} (xs : List α) (start stop : Nat) : Option (List α) :=
  if start ≤ stop ∧ stop ≤ xs.length then some ((xs.drop start).take (stop - start)) else none

theorem stretch?_append {α : Type} (front xs back : List α) :
    stretch? (front ++ (xs ++ back)) front.length (front.length + xs.length) = some xs := by
  have hplaces :
      front.length ≤ front.length + xs.length ∧
        front.length + xs.length ≤ (front ++ (xs ++ back)).length := by
    simp only [List.length_append]
    omega
  rw [stretch?, if_pos hplaces, List.drop_left, Nat.add_sub_cancel_left, List.take_left]

/-- Whether modules divide the places from `start` up to `stop` among themselves: each has
those that follow the places of the module before it. -/
def Divide : (start : Nat) → List PlannedModule → (stop : Nat) → Prop
  | start, [], stop => start = stop
  | start, m :: ms, stop => m.start = start ∧ Divide m.stop ms stop

theorem divide_planModules (start : Nat) (ms : List Module) :
    Divide start (planModules start ms)
      (start + ((planModules start ms).flatMap (·.lessons)).length) := by
  induction ms generalizing start with
  | nil => rfl
  | cons m ms ih =>
    have hrest := ih (PlannedModule.ofModule start m).stop
    have hstop :
        (PlannedModule.ofModule start m).stop =
          start + (PlannedModule.ofModule start m).lessons.length := rfl
    refine ⟨rfl, ?_⟩
    rw [planModules, List.flatMap_cons, List.length_append, ← Nat.add_assoc, ← hstop]
    exact hrest

/-- The lessons of a module stand behind those of the modules before it. -/
theorem exists_split_of_mem_planModules {start : Nat} {ms : List Module} {m : PlannedModule}
    (h : m ∈ planModules start ms) :
    ∃ front back, (planModules start ms).flatMap (·.lessons) = front ++ (m.lessons ++ back) ∧
      m.start = start + front.length := by
  induction ms generalizing start with
  | nil => cases h
  | cons first ms ih =>
    rw [planModules, List.flatMap_cons]
    rcases List.mem_cons.mp h with rfl | hmem
    · exact ⟨[], _, rfl, rfl⟩
    · obtain ⟨front, back, hlessons, hstart⟩ := ih hmem
      refine ⟨(PlannedModule.ofModule start first).lessons ++ front, back, ?_, ?_⟩
      · rw [hlessons, List.append_assoc]
      · rw [hstart, PlannedModule.stop, List.length_append, ← Nat.add_assoc]
        rfl

theorem exists_ofModule_of_mem_planModules {start : Nat} {ms : List Module} {m : PlannedModule}
    (h : m ∈ planModules start ms) :
    ∃ place source, m = PlannedModule.ofModule place source := by
  induction ms generalizing start with
  | nil => cases h
  | cons first ms ih =>
    rcases List.mem_cons.mp h with rfl | hmem
    · exact ⟨start, first, rfl⟩
    · exact ih hmem

theorem container_ofModule {place : Nat} {source : Module} :
    ∀ l ∈ (PlannedModule.ofModule place source).lessons, l.container = source := by
  intro l hl
  obtain ⟨i, hi, rfl⟩ := List.mem_mapIdx.mp hl
  rfl

theorem map_source_planModules (start : Nat) (ms : List Module) :
    (planModules start ms).map (·.source) = ms := by
  have hsources := congrArg (List.map Prod.fst) (map_planModules start ms)
  simpa [Function.comp_def] using hsources

namespace Plan

variable {c : Course} {p : Plan} {l q : PlannedLesson}

/-! ## Neighbours -/

/-- Each lesson of a plan stands at its own place. -/
theorem getElem?_index (hp : ofCourse c = .ok p) (hl : l ∈ p.lessons) :
    p.lessons[l.index]? = some l := by
  obtain ⟨i, hi⟩ := List.getElem?_of_mem hl
  rwa [index_eq hp hi]

theorem previous?_eq_some_iff (hp : ofCourse c = .ok p) :
    p.previous? l = some q ↔ q ∈ p.lessons ∧ q.index + 1 = l.index := by
  rw [previous?]
  by_cases hfirst : l.index = 0
  · rw [if_pos hfirst]
    constructor
    · intro h
      cases h
    · rintro ⟨-, hindex⟩
      omega
  · rw [if_neg hfirst]
    constructor
    · intro h
      have hindex := index_eq hp h
      exact ⟨List.mem_of_getElem? h, by omega⟩
    · rintro ⟨hq, hindex⟩
      have hplace : l.index - 1 = q.index := by omega
      rw [hplace]
      exact getElem?_index hp hq

theorem next?_eq_some_iff (hp : ofCourse c = .ok p) :
    p.next? l = some q ↔ q ∈ p.lessons ∧ q.index = l.index + 1 := by
  rw [next?]
  constructor
  · intro h
    exact ⟨List.mem_of_getElem? h, index_eq hp h⟩
  · rintro ⟨hq, hindex⟩
    rw [← hindex]
    exact getElem?_index hp hq

theorem previous?_eq_none_iff (hp : ofCourse c = .ok p) (hl : l ∈ p.lessons) :
    p.previous? l = none ↔ p.lessons.head? = some l := by
  have hplace := getElem?_index hp hl
  have hlength := (List.getElem?_eq_some_iff.mp hplace).1
  rw [previous?, List.head?_eq_getElem?]
  by_cases hfirst : l.index = 0
  · rw [if_pos hfirst, ← hfirst]
    exact iff_of_true rfl hplace
  · rw [if_neg hfirst, List.getElem?_eq_none_iff]
    constructor
    · intro hshort
      omega
    · intro hhead
      exact absurd (index_eq hp hhead) hfirst

theorem next?_eq_none_iff (hp : ofCourse c = .ok p) (hl : l ∈ p.lessons) :
    p.next? l = none ↔ p.lessons.getLast? = some l := by
  have hplace := getElem?_index hp hl
  have hlength := (List.getElem?_eq_some_iff.mp hplace).1
  rw [next?, List.getLast?_eq_getElem?, List.getElem?_eq_none_iff]
  constructor
  · intro hshort
    have hlast : p.lessons.length - 1 = l.index := by omega
    rw [hlast]
    exact hplace
  · intro hlast
    have hindex := index_eq hp hlast
    omega

/-! ## Arrangements -/

/-- Whether a plan arranges what is in a course: nothing is lost or doubled, all lists are
in order, and the modules share the places of the lessons among themselves. -/
structure Arranges (p : Plan) (c : Course) : Prop where
  modules : IsStableOrder Module.order c.modules (p.modules.map (·.source))
  divide : Divide 0 p.modules p.lessons.length
  stretch : ∀ m ∈ p.modules, stretch? p.lessons m.start m.stop = some m.lessons
  lessons : ∀ m ∈ p.modules,
    IsStableOrder Lesson.order m.source.lessons (m.lessons.map (·.lesson))
  container : ∀ m ∈ p.modules, ∀ l ∈ m.lessons, l.container = m.source
  index : ∀ (i : Nat) (l : PlannedLesson), p.lessons[i]? = some l → l.index = i
  blocks : ∀ l ∈ p.lessons, IsStableOrder Block.order l.lesson.blocks l.blocks
  resources : ∀ l ∈ p.lessons, l.resources = l.lesson.resources.filter Resource.isPresent

theorem arranges_of_ofCourse (hp : ofCourse c = .ok p) : p.Arranges c := by
  have hindex : ∀ (i : Nat) (l : PlannedLesson), p.lessons[i]? = some l → l.index = i :=
    fun _ _ => index_eq hp
  obtain ⟨-, rfl⟩ := ofCourse_eq_ok_iff.mp hp
  refine ⟨?modules, ?divide, ?stretch, ?lessons, ?container, hindex, ?blocks, ?resources⟩
  case modules =>
    rw [map_source_planModules]
    exact isStableOrder_mergeSort Module.order c.modules
  case divide =>
    have hdivide := divide_planModules 0 c.orderedModules
    rwa [Nat.zero_add] at hdivide
  case stretch =>
    intro m hm
    -- The lessons of a module are a stretch of all lessons, behind those of earlier modules.
    obtain ⟨front, back, hlessons, hstart⟩ := exists_split_of_mem_planModules hm
    rw [Nat.zero_add] at hstart
    rw [PlannedModule.stop, hstart, Plan.lessons, hlessons]
    exact stretch?_append front m.lessons back
  case lessons =>
    intro m hm
    obtain ⟨place, source, rfl⟩ := exists_ofModule_of_mem_planModules hm
    rw [lessons_ofModule]
    exact isStableOrder_mergeSort Lesson.order source.lessons
  case container =>
    intro m hm
    obtain ⟨place, source, rfl⟩ := exists_ofModule_of_mem_planModules hm
    exact container_ofModule
  case blocks =>
    intro l hl
    obtain ⟨m, index, lesson, rfl⟩ := exists_ofLesson_of_mem_planModules hl
    exact isStableOrder_orderedBlocks lesson
  case resources =>
    intro l hl
    obtain ⟨m, index, lesson, rfl⟩ := exists_ofLesson_of_mem_planModules hl
    rfl

/-- A plan arranges its course. The lessons before and behind a lesson lead back to it, and
only the first and the last lesson of the course lack one of them. -/
theorem arrangement_ofCourse (hp : ofCourse c = .ok p) :
    p.Arranges c ∧
      ∀ l ∈ p.lessons,
        (∀ q, p.previous? l = some q → p.next? q = some l) ∧
        (∀ q, p.next? l = some q → p.previous? q = some l) ∧
        (p.previous? l = none ↔ p.lessons.head? = some l) ∧
        (p.next? l = none ↔ p.lessons.getLast? = some l) := by
  refine ⟨arranges_of_ofCourse hp, fun l hl => ⟨?_, ?_, ?_, ?_⟩⟩
  · intro q hq
    obtain ⟨-, hindex⟩ := (previous?_eq_some_iff hp).mp hq
    exact (next?_eq_some_iff hp).mpr ⟨hl, hindex.symm⟩
  · intro q hq
    obtain ⟨-, hindex⟩ := (next?_eq_some_iff hp).mp hq
    exact (previous?_eq_some_iff hp).mpr ⟨hl, hindex.symm⟩
  · exact previous?_eq_none_iff hp hl
  · exact next?_eq_none_iff hp hl

/-! ## A course out of order -/

section Unsorted

/-- A lesson that is shown after the other of its module. -/
def secondLesson : Lesson := { id := "second", order := 5 }

def firstLesson : Lesson := { id := "first", order := 1 }

def thirdLesson : Lesson := { id := "third", order := 1 }

/-- A module whose lessons stand in the wrong order. -/
def frontModule : Module := { id := "front", order := 1, lessons := [secondLesson, firstLesson] }

def backModule : Module := { id := "back", order := 2, lessons := [thirdLesson] }

/-- A course whose modules stand in the wrong order, too. -/
def unsortedCourse : Course := { id := "c", modules := [backModule, frontModule] }

theorem orderedModules_unsortedCourse :
    unsortedCourse.orderedModules = [frontModule, backModule] := by
  simp [Course.orderedModules, unsortedCourse, frontModule, backModule, List.mergeSort,
    List.MergeSort.Internal.splitInTwo]

theorem orderedLessons_frontModule :
    frontModule.orderedLessons = [firstLesson, secondLesson] := by
  simp [Module.orderedLessons, frontModule, firstLesson, secondLesson, List.mergeSort,
    List.MergeSort.Internal.splitInTwo]

theorem orderedLessons_backModule : backModule.orderedLessons = [thirdLesson] := by
  simp [Module.orderedLessons, backModule]

theorem checkModules_unsortedCourse :
    checkModules [] [] unsortedCourse.orderedModules = .ok () := by
  rw [orderedModules_unsortedCourse]
  simp only [checkModules, orderedLessons_frontModule, orderedLessons_backModule]
  decide +kernel

theorem map_id_unsortedCourse (hp : ofCourse unsortedCourse = .ok p) :
    p.lessons.map (·.lesson.id) = ["first", "second", "third"] := by
  have hlessons := congrArg (List.map Lesson.id) (map_lesson hp)
  rw [List.map_map, orderedModules_unsortedCourse, List.flatMap_cons, List.flatMap_singleton,
    orderedLessons_frontModule, orderedLessons_backModule] at hlessons
  exact hlessons

theorem arrangement_ofCourse_unsorted :
    ∃ p l q r, ofCourse unsortedCourse = .ok p ∧ p.Arranges unsortedCourse ∧
      p.lessons = [l, q, r] ∧ [l, q, r].map (·.lesson.id) = ["first", "second", "third"] ∧
      p.previous? l = none ∧ p.next? l = some q ∧ p.previous? q = some l ∧ p.next? r = none := by
  obtain ⟨p, hp⟩ : ∃ p, ofCourse unsortedCourse = .ok p :=
    ⟨_, ofCourse_eq_ok_iff.mpr ⟨checkModules_unsortedCourse, rfl⟩⟩
  obtain ⟨harranges, hneighbours⟩ := arrangement_ofCourse hp
  have hids := map_id_unsortedCourse hp
  obtain ⟨l, q, r, hlessons⟩ : ∃ l q r, p.lessons = [l, q, r] := by
    apply List.length_eq_three.mp
    simpa using congrArg List.length hids
  rw [hlessons] at hids hneighbours
  have hindex : l.index = 0 := harranges.index 0 l (by rw [hlessons]; rfl)
  have hnext : p.next? l = some q := by
    rw [next?, hindex, hlessons]
    rfl
  obtain ⟨-, hback, hfirst, -⟩ := hneighbours l (by simp)
  obtain ⟨-, -, -, hlast⟩ := hneighbours r (by simp)
  exact ⟨p, l, q, r, hp, harranges, hlessons, hids, hfirst.mpr rfl, hnext, hback q hnext,
    hlast.mpr rfl⟩

end Unsorted

end Plan

end Courseware
