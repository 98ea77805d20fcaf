import Courseware.Proofs.Reordering

/-!
# Courses without their empty modules

A plan keeps the modules of its course that have no lessons, and warns that they are skipped.
The plan of the course without them has the same lessons at the same places, and no other
modules.
-/

namespace Courseware

/-- Some members of a list in order are those members, in order. -/
theorem mergeSort_filter {α : Type} (key : α → Int) (keep : α → Bool) (xs : List α) :
    ((xs.filter keep).mergeSort fun a b => key a ≤ key b) =
      (xs.mergeSort fun a b => key a ≤ key b).filter keep := by
  have hall := isStableOrder_mergeSort key xs
  have hkept := isStableOrder_mergeSort key (xs.filter keep)
  refine eq_of_pairwise_of_filter hkept.sorted (hall.sorted.filter keep) fun k => ?_
  rw [hkept.stable, List.filter_comm, ← hall.stable, List.filter_comm]

/-! ## Courses -/

/-- Whether a module has lessons. -/
def Module.isFilled (m : Module) : Bool := !m.lessons.isEmpty

/-- A course without its modules that have no lessons. -/
def Course.filled (c : Course) : Course :=
  { c with modules := c.modules.filter Module.isFilled }

theorem Module.isFilled_eq_true_iff {m : Module} : m.isFilled = true ↔ m.lessons ≠ [] := by
  simp [Module.isFilled]

theorem filled_eq_self {c : Course} (h : ∀ m ∈ c.modules, m.lessons ≠ []) : c.filled = c := by
  rw [Course.filled, List.filter_eq_self.mpr fun m hm => Module.isFilled_eq_true_iff.mpr (h m hm)]

theorem orderedModules_filled (c : Course) :
    c.filled.orderedModules = c.orderedModules.filter Module.isFilled :=
  mergeSort_filter Module.order Module.isFilled c.modules

theorem isEmpty_orderedLessons (m : Module) : m.orderedLessons.isEmpty = m.lessons.isEmpty := by
  have hlength : m.orderedLessons.length = m.lessons.length := List.length_mergeSort m.lessons
  rw [Bool.eq_iff_iff, List.isEmpty_iff_length_eq_zero, List.isEmpty_iff_length_eq_zero, hlength]

theorem orderedLessons_eq_nil {m : Module} (h : m.isFilled = false) : m.orderedLessons = [] := by
  rw [← List.isEmpty_iff, isEmpty_orderedLessons]
  simpa [Module.isFilled] using h

/-! ## Plans -/

/-- An identifier that is new among others is new among some of them. -/
theorem checkUnique_of_subset {kind pathKind : UniqueId} {noun id : String}
    {seen fewer : List String} (h : checkUnique kind pathKind noun seen id = .ok ())
    (hfewer : fewer ⊆ seen) : checkUnique kind pathKind noun fewer id = .ok () := by
  rw [checkUnique_eq_ok_iff] at h ⊢
  exact fun hmem => h (List.map_subset _ hfewer hmem)

/-- Modules without lessons have no part in what clashes among the others. -/
theorem checkModules_filter {seenModules fewer seenLessons : List String} {ms : List Module}
    (h : checkModules seenModules seenLessons ms = .ok ()) (hfewer : fewer ⊆ seenModules) :
    checkModules fewer seenLessons (ms.filter Module.isFilled) = .ok () := by
  induction ms generalizing seenModules fewer seenLessons with
  | nil => rfl
  | cons m ms ih =>
    obtain ⟨_, hunique, h⟩ := bind_eq_ok_iff.mp h
    obtain ⟨all, hlessons, hrest⟩ := bind_eq_ok_iff.mp h
    cases hfilled : m.isFilled with
    | true =>
      rw [List.filter_cons_of_pos hfilled]
      exact bind_eq_ok_iff.mpr ⟨(), checkUnique_of_subset hunique hfewer,
        bind_eq_ok_iff.mpr ⟨all, hlessons, ih hrest (List.cons_subset_cons m.id hfewer)⟩⟩
    | false =>
      rw [orderedLessons_eq_nil hfilled] at hlessons
      obtain rfl : seenLessons = all := Except.ok.inj hlessons
      rw [List.filter_cons_of_neg (by simp [hfilled])]
      exact ih hrest (List.subset_cons_of_subset m.id hfewer)

theorem isEmpty_lessons_ofModule (start : Nat) (m : Module) :
    (PlannedModule.ofModule start m).lessons.isEmpty = m.lessons.isEmpty := by
  rw [← isEmpty_orderedLessons, ← lessons_ofModule start m, List.isEmpty_map]

/-- A module without lessons leaves the next module at its own place. -/
theorem stop_ofModule (start : Nat) {m : Module} (h : m.isFilled = false) :
    (PlannedModule.ofModule start m).stop = start := by
  have hlessons : (PlannedModule.ofModule start m).lessons = [] := by
    rw [PlannedModule.ofModule, orderedLessons_eq_nil h, List.mapIdx_nil]
  rw [PlannedModule.stop, hlessons]
  rfl

theorem filter_planModules (start : Nat) (ms : List Module) :
    ((planModules start ms).filter fun m => !m.lessons.isEmpty) =
      planModules start (ms.filter Module.isFilled) := by
  induction ms generalizing start with
  | nil => rfl
  | cons m ms ih =>
    have hplanned : (!(PlannedModule.ofModule start m).lessons.isEmpty) = m.isFilled := by
      rw [isEmpty_lessons_ofModule, Module.isFilled]
    rw [planModules, List.filter_cons, hplanned]
    cases hfilled : m.isFilled with
    | true => rw [List.filter_cons_of_pos hfilled, planModules, ← ih, if_pos rfl]
    | false =>
      rw [List.filter_cons_of_neg (by simp [hfilled]), if_neg Bool.false_ne_true, ih,
        stop_ofModule start hfilled]

namespace Plan

/-- The plan of a course without its modules that have no lessons. -/
def filled (p : Plan) : Plan := ⟨p.course.filled, p.filledModules⟩

variable {c : Course} {p : Plan}

/-- A course with a plan has one without its empty modules as well. -/
theorem ofCourse_filled (hp : ofCourse c = .ok p) : ofCourse c.filled = .ok p.filled := by
  obtain ⟨hcheck, rfl⟩ := ofCourse_eq_ok_iff.mp hp
  rw [ofCourse_eq_ok_iff, orderedModules_filled, ← filter_planModules]
  exact ⟨checkModules_filter hcheck (List.Subset.refl []), rfl⟩

variable (p : Plan)

theorem lessons_filled : p.filled.lessons = p.lessons := p.lessons_filledModules

theorem lessonIds_filled : p.filled.lessonIds = p.lessonIds := by
  rw [lessonIds, lessonIds, lessons_filled]

theorem previous?_filled (l : PlannedLesson) : p.filled.previous? l = p.previous? l := by
  rw [previous?, previous?, lessons_filled]

theorem next?_filled (l : PlannedLesson) : p.filled.next? l = p.next? l := by
  rw [next?, next?, lessons_filled]

theorem filledModules_filled : p.filled.filledModules = p.filledModules := by
  change p.filledModules.filter _ = p.filledModules
  rw [filledModules, List.filter_filter]
  simp only [Bool.and_self]

theorem launchable_outline_filled (launch : PlannedLesson → String)
    (files : PlannedLesson → List String) :
    (p.filled.outline launch files).launchable = (p.outline launch files).launchable := by
  rw [launchable_outline, launchable_outline, filledModules_filled]

variable {p}

/-- A module of a plan is empty when it is empty in the course. -/
theorem exists_planned_of_mem (hp : ofCourse c = .ok p) {m : Module} (hm : m ∈ c.modules) :
    ∃ q ∈ p.modules, q.source = m ∧ q.lessons.map (·.lesson) = m.orderedLessons := by
  have hordered : m ∈ c.orderedModules := List.mem_mergeSort.mpr hm
  have hpair : (m, m.orderedLessons) ∈
      p.modules.map fun q => (q.source, q.lessons.map (·.lesson)) := by
    rw [map_modules hp]
    exact List.mem_map.mpr ⟨m, hordered, rfl⟩
  obtain ⟨q, hq, heq⟩ := List.mem_map.mp hpair
  exact ⟨q, hq, congrArg Prod.fst heq, congrArg Prod.snd heq⟩

/-- A plan says of the modules without lessons that they are skipped. -/
theorem emptyModule_mem_warnings (hp : ofCourse c = .ok p) {m : Module} (hm : m ∈ c.modules)
    (hempty : m.lessons = []) : .emptyModule m.title ∈ p.warnings := by
  obtain ⟨q, hq, rfl, -⟩ := exists_planned_of_mem hp hm
  refine List.mem_flatMap.mpr ⟨q, hq, ?_⟩
  simp [PlannedModule.warnings, hempty]

/-- A plan whose modules all have lessons is that of a course whose modules do. -/
theorem forall_filled_of_filledModules_eq (hp : ofCourse c = .ok p)
    (h : p.filledModules = p.modules) : ∀ m ∈ c.modules, m.lessons ≠ [] := by
  intro m hm hempty
  obtain ⟨q, hq, -, hlessons⟩ := exists_planned_of_mem hp hm
  rw [← h, filledModules] at hq
  have hnone : q.lessons = [] := List.map_eq_nil_iff.mp <| by
    rw [hlessons]
    exact orderedLessons_eq_nil (by simp [Module.isFilled, hempty])
  simp [hnone] at hq

end Plan

end Courseware
