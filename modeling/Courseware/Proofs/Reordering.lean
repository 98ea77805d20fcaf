import Courseware.Proofs.Order
import Courseware.Proofs.Rewriting

/-!
# Courses with their lists in another order

The lists of a course may be permuted as long as members with one order keep their places
among each other: the course in order stays the same. The plan of a course and that of the
course in order hold the same.
-/

namespace Courseware

/-! ## Lists in another order -/

/-- Whether two lists have the same members, and those with one key in the same order. -/
structure StablyPermuted {α : Type} (key : α → Int) (xs ys : List α) : Prop where
  perm : xs.Perm ys
  stable : ∀ k, (xs.filter fun a => key a = k) = ys.filter fun a => key a = k

section Sorting

variable {α : Type} {key : α → Int} {xs ys : List α}

theorem mem_iff_of_filter
    (h : ∀ k, (xs.filter fun a => key a = k) = ys.filter fun a => key a = k) (a : α) :
    a ∈ xs ↔ a ∈ ys := by
  have hkey : (a ∈ xs.filter fun b => key b = key a) ↔ a ∈ ys.filter fun b => key b = key a := by
    rw [h (key a)]
  simpa using hkey

/-- A list in order is determined by its members with each key. -/
theorem eq_of_pairwise_of_filter (hxs : xs.Pairwise fun a b => key a ≤ key b)
    (hys : ys.Pairwise fun a b => key a ≤ key b)
    (h : ∀ k, (xs.filter fun a => key a = k) = ys.filter fun a => key a = k) : xs = ys := by
  induction xs generalizing ys with
  | nil =>
    exact (List.eq_nil_iff_forall_not_mem.mpr fun a ha =>
      List.not_mem_nil ((mem_iff_of_filter h a).mpr ha)).symm
  | cons a xs ih =>
    cases ys with
    | nil => exact absurd ((mem_iff_of_filter h a).mp List.mem_cons_self) List.not_mem_nil
    | cons b ys =>
      -- The first members are least, so they have one key, and each is the first with it.
      have hle : key a ≤ key b := by
        rcases List.mem_cons.mp ((mem_iff_of_filter h b).mpr List.mem_cons_self) with rfl | hb
        · exact Int.le_refl _
        · exact List.rel_of_pairwise_cons hxs hb
      have hge : key b ≤ key a := by
        rcases List.mem_cons.mp ((mem_iff_of_filter h a).mp List.mem_cons_self) with rfl | ha
        · exact Int.le_refl _
        · exact List.rel_of_pairwise_cons hys ha
      have hkey : key b = key a := Int.le_antisymm hge hle
      have hfirst := h (key a)
      simp only [List.filter_cons, hkey, decide_true, if_true, List.cons.injEq] at hfirst
      obtain ⟨rfl, -⟩ := hfirst
      have hrest : ∀ k, (xs.filter fun a => key a = k) = ys.filter fun a => key a = k := by
        intro k
        have hk := h k
        by_cases heq : key a = k
        · simpa [heq] using hk
        · simpa [heq] using hk
      rw [ih hxs.of_cons hys.of_cons hrest]

/-- Sorting forgets the order in which a list was given, except among equals. -/
theorem StablyPermuted.mergeSort_eq (h : StablyPermuted key xs ys) :
    (xs.mergeSort fun a b => key a ≤ key b) = ys.mergeSort fun a b => key a ≤ key b := by
  have hxs := isStableOrder_mergeSort key xs
  have hys := isStableOrder_mergeSort key ys
  refine eq_of_pairwise_of_filter hxs.sorted hys.sorted fun k => ?_
  rw [hxs.stable, hys.stable, h.stable]

theorem pairwise_mergeSort_key (key : α → Int) (xs : List α) :
    (xs.mergeSort fun a b => key a ≤ key b).Pairwise
      fun a b => decide (key a ≤ key b) = true :=
  (isStableOrder_mergeSort key xs).sorted.imp decide_eq_true

/-- A sorted list whose members are changed without their keys stays sorted. -/
theorem mergeSort_map_mergeSort (key : α → Int) (f : α → α) (hf : ∀ a, key (f a) = key a)
    (xs : List α) :
    (((xs.mergeSort fun a b => key a ≤ key b).map f).mergeSort fun a b => key a ≤ key b) =
      (xs.mergeSort fun a b => key a ≤ key b).map f := by
  apply List.mergeSort_of_pairwise
  rw [List.pairwise_map]
  simpa only [hf] using pairwise_mergeSort_key key xs

/-- Sorting forgets how a list was permuted also when its members were changed, as long as
`f` forgets these changes. -/
theorem StablyPermuted.map_mergeSort_eq {related : α → α → Prop} {f : α → α} {zs : List α}
    (h : StablyPermuted key zs ys) (hxs : List.Forall₂ related xs zs)
    (hf : ∀ a b, related a b → f a = f b) (hkey : ∀ a, key (f a) = key a) :
    (xs.mergeSort fun a b => key a ≤ key b).map f =
      (ys.mergeSort fun a b => key a ≤ key b).map f := by
  have hsort (zs : List α) : (zs.mergeSort fun a b => key a ≤ key b).map f =
      (zs.map f).mergeSort fun a b => key a ≤ key b :=
    List.map_mergeSort fun a _ b _ => by rw [hkey, hkey]
  have hmap : xs.map f = zs.map f := by
    clear h
    induction hxs with
    | nil => rfl
    | cons hab _ ih => rw [List.map_cons, List.map_cons, hf _ _ hab, ih]
  rw [hsort, hmap, ← hsort, h.mergeSort_eq]

end Sorting

/-! ## Courses in order -/

/-- A lesson whose blocks stand in the order in which they are shown. -/
def Lesson.inOrder (l : Lesson) : Lesson := { l with blocks := l.orderedBlocks }

/-- A module whose lessons stand in the order in which they are shown. -/
def Module.inOrder (m : Module) : Module :=
  { m with lessons := m.orderedLessons.map Lesson.inOrder }

/-- A course whose modules stand in the order in which they are shown. -/
def Course.inOrder (c : Course) : Course :=
  { c with modules := c.orderedModules.map Module.inOrder }

/-- Whether two lessons differ at most in the order of their blocks. -/
structure Lesson.Reordered (l l' : Lesson) : Prop where
  blocks : StablyPermuted Block.order l.blocks l'.blocks
  rest : { l with blocks := [] } = { l' with blocks := [] }

/-- Whether two modules differ at most in the order of their lessons and of the blocks of
these. -/
structure Module.Reordered (m m' : Module) : Prop where
  lessons : ∃ ls, List.Forall₂ Lesson.Reordered m.lessons ls ∧
    StablyPermuted Lesson.order ls m'.lessons
  rest : { m with lessons := [] } = { m' with lessons := [] }

/-- Whether two courses differ at most in the order of their modules, of the lessons of
these and of the blocks of those. -/
structure Course.Reordered (c c' : Course) : Prop where
  modules : ∃ ms, List.Forall₂ Module.Reordered c.modules ms ∧
    StablyPermuted Module.order ms c'.modules
  rest : { c with modules := [] } = { c' with modules := [] }

theorem Lesson.Reordered.inOrder_eq {l l' : Lesson} (h : l.Reordered l') :
    l.inOrder = l'.inOrder := by
  have hblocks : l.orderedBlocks = l'.orderedBlocks := h.blocks.mergeSort_eq
  have hrest := congrArg (fun x : Lesson => { x with blocks := l.orderedBlocks }) h.rest
  rw [Lesson.inOrder, Lesson.inOrder, ← hblocks]
  exact hrest

theorem Module.Reordered.inOrder_eq {m m' : Module} (h : m.Reordered m') :
    m.inOrder = m'.inOrder := by
  obtain ⟨ls, hrelated, hpermuted⟩ := h.lessons
  have hlessons : m.orderedLessons.map Lesson.inOrder = m'.orderedLessons.map Lesson.inOrder :=
    hpermuted.map_mergeSort_eq hrelated (fun _ _ => Lesson.Reordered.inOrder_eq) fun _ => rfl
  have hrest := congrArg
    (fun x : Module => { x with lessons := m.orderedLessons.map Lesson.inOrder }) h.rest
  rw [Module.inOrder, Module.inOrder, ← hlessons]
  exact hrest

/-- Courses that differ only in the order of their lists are the same in order. -/
theorem Course.Reordered.inOrder_eq {c c' : Course} (h : c.Reordered c') :
    c.inOrder = c'.inOrder := by
  obtain ⟨ms, hrelated, hpermuted⟩ := h.modules
  have hmodules : c.orderedModules.map Module.inOrder = c'.orderedModules.map Module.inOrder :=
    hpermuted.map_mergeSort_eq hrelated (fun _ _ => Module.Reordered.inOrder_eq) fun _ => rfl
  have hrest := congrArg
    (fun x : Course => { x with modules := c.orderedModules.map Module.inOrder }) h.rest
  rw [Course.inOrder, Course.inOrder, ← hmodules]
  exact hrest

theorem orderedBlocks_inOrder (l : Lesson) : l.inOrder.orderedBlocks = l.orderedBlocks :=
  List.mergeSort_of_pairwise (pairwise_mergeSort_key Block.order l.blocks)

theorem orderedLessons_inOrder (m : Module) :
    m.inOrder.orderedLessons = m.orderedLessons.map Lesson.inOrder :=
  mergeSort_map_mergeSort Lesson.order Lesson.inOrder (fun _ => rfl) m.lessons

theorem orderedModules_inOrder (c : Course) :
    c.inOrder.orderedModules = c.orderedModules.map Module.inOrder :=
  mergeSort_map_mergeSort Module.order Module.inOrder (fun _ => rfl) c.modules

theorem length_lessons_inOrder (m : Module) : m.inOrder.lessons.length = m.lessons.length := by
  rw [Module.inOrder, List.length_map, Module.orderedLessons, List.length_mergeSort]

theorem length_modules_inOrder (c : Course) : c.inOrder.modules.length = c.modules.length := by
  rw [Course.inOrder, List.length_map, Course.orderedModules, List.length_mergeSort]

theorem lessonCount_inOrder (c : Course) : c.inOrder.lessonCount = c.lessonCount := by
  have hperm : c.orderedModules.Perm c.modules := List.mergeSort_perm _ _
  simp only [Course.lessonCount, Course.inOrder, List.length_flatMap, List.map_map,
    Function.comp_def, length_lessons_inOrder]
  exact (hperm.map _).sum_nat

/-! ## Plans in order -/

/-- A planned lesson of a course in order. -/
def PlannedLesson.inOrder (l : PlannedLesson) : PlannedLesson :=
  { l with container := l.container.inOrder, lesson := l.lesson.inOrder }

/-- A planned module of a course in order. -/
def PlannedModule.inOrder (m : PlannedModule) : PlannedModule :=
  { m with source := m.source.inOrder, lessons := m.lessons.map PlannedLesson.inOrder }

/-- The plan of a course in order. -/
def Plan.inOrder (p : Plan) : Plan :=
  ⟨p.course.inOrder, p.modules.map PlannedModule.inOrder⟩

theorem ofLesson_inOrder (m : Module) (index : Nat) (l : Lesson) :
    PlannedLesson.ofLesson m.inOrder index l.inOrder =
      (PlannedLesson.ofLesson m index l).inOrder := by
  rw [PlannedLesson.ofLesson, orderedBlocks_inOrder]
  rfl

/-- Bringing the lists of modules and lessons in order. -/
def Rewriting.inOrder : Rewriting where
  onLesson := Lesson.inOrder
  onModule := Module.inOrder
  onPlanned := PlannedLesson.inOrder
  id_onLesson _ := rfl
  id_onModule _ := rfl
  orderedLessons := orderedLessons_inOrder
  ofLesson := ofLesson_inOrder

/-! Only clashes of identifiers are errors. -/

theorem exists_duplicate_of_checkUnique {kind pathKind : UniqueId} {noun : String}
    {seen : List String} {id : String} {cause : Failure}
    (h : checkUnique kind pathKind noun seen id = .error cause) :
    ∃ kind id, cause = .duplicate kind id := by
  rw [checkUnique] at h
  split at h
  · exact ⟨_, _, (Except.error.inj h).symm⟩
  · dsimp only at h
    split at h
    · exact ⟨_, _, (Except.error.inj h).symm⟩
    · cases h

theorem exists_duplicate_of_checkLessons {seen : List String} {ls : List Lesson}
    {cause : Failure} (h : checkLessons seen ls = .error cause) :
    ∃ kind id, cause = .duplicate kind id := by
  induction ls generalizing seen with
  | nil => cases h
  | cons l ls ih =>
    rw [checkLessons] at h
    cases hunique : checkUnique .lessonId .lessonPath "lessons" seen l.id with
    | error e =>
      rw [hunique] at h
      obtain rfl : e = cause := Except.error.inj h
      exact exists_duplicate_of_checkUnique hunique
    | ok _ =>
      rw [hunique] at h
      exact ih h

theorem exists_duplicate_of_checkModules {seenModules seenLessons : List String}
    {ms : List Module} {cause : Failure}
    (h : checkModules seenModules seenLessons ms = .error cause) :
    ∃ kind id, cause = .duplicate kind id := by
  induction ms generalizing seenModules seenLessons with
  | nil => cases h
  | cons m ms ih =>
    rw [checkModules] at h
    cases hunique : checkUnique .moduleId .modulePath "modules" seenModules m.id with
    | error e =>
      rw [hunique] at h
      obtain rfl : e = cause := Except.error.inj h
      exact exists_duplicate_of_checkUnique hunique
    | ok _ =>
      rw [hunique] at h
      cases hlessons : checkLessons seenLessons m.orderedLessons with
      | error e =>
        simp only [hlessons] at h
        obtain rfl : e = cause := Except.error.inj h
        exact exists_duplicate_of_checkLessons hlessons
      | ok seen =>
        simp only [hlessons] at h
        exact ih h

namespace Plan

/-- A course has no plan only because of a clash of identifiers. -/
theorem exists_duplicate_of_error {c : Course} {cause : Failure}
    (h : ofCourse c = .error cause) : ∃ kind id, cause = .duplicate kind id := by
  rw [ofCourse] at h
  cases hcheck : checkModules [] [] c.orderedModules with
  | error e =>
    rw [hcheck] at h
    obtain rfl : e = cause := Except.error.inj h
    exact exists_duplicate_of_checkModules hcheck
  | ok _ =>
    rw [hcheck] at h
    cases h

/-- The plan of a course in order is the plan of the course, in order. -/
theorem ofCourse_inOrder (c : Course) : ofCourse c.inOrder = (ofCourse c).map inOrder := by
  rw [Rewriting.inOrder.ofCourse_eq (orderedModules_inOrder c), ofCourse]
  cases checkModules [] [] c.orderedModules <;> rfl

theorem lessons_inOrder (p : Plan) : p.inOrder.lessons = p.lessons.map PlannedLesson.inOrder :=
  Rewriting.inOrder.flatMap_lessons p

/-- A plan leaves the same out when its course is in order. -/
theorem warnings_inOrder (p : Plan) : p.inOrder.warnings = p.warnings := by
  have hmodule (m : PlannedModule) : m.inOrder.warnings = m.warnings := by
    have hempty : m.inOrder.source.lessons.isEmpty = m.source.lessons.isEmpty := by
      have hlength := length_lessons_inOrder m.source
      rw [Bool.eq_iff_iff, List.isEmpty_iff_length_eq_zero, List.isEmpty_iff_length_eq_zero]
      exact hlength ▸ Iff.rfl
    have hlessons : m.inOrder.lessons.flatMap PlannedLesson.warnings =
        m.lessons.flatMap PlannedLesson.warnings := List.flatMap_map ..
    rw [PlannedModule.warnings, hempty, hlessons]
    rfl
  rw [warnings, inOrder, List.flatMap_map]
  exact List.flatMap_congr fun m _ => hmodule m

end Plan

end Courseware
