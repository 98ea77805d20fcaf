import Courseware.Proofs.Package.Layout
import Courseware.Proofs.Package.Outer
import Courseware.Proofs.Package.Pages
import Courseware.Proofs.Reordering

/-!
# Packages do not depend on the order of the document

Two courses that differ only in how their lists are permuted have the same package: all
that an exporter reads of a plan is the same in the plan of the course in order.
-/

namespace Courseware

/-- An export of the course in order. -/
def ExportContext.inOrder (ctx : ExportContext) : ExportContext :=
  { ctx with course := ctx.course.inOrder }

/-- The plan of a course in order is the same without blocks. -/
theorem Plan.outer_inOrder (p : Plan) : p.inOrder.outer = p.outer := by
  have hmodules := p.map_outer_rewriting Rewriting.inOrder (fun _ => rfl) fun _ => rfl
  rw [Plan.outer, Plan.outer, ← hmodules]
  rfl

/-! ## Exporters -/

namespace Exporter

/-- Whether an exporter makes the same files of a course in order. -/
structure IgnoresOrder (e : Exporter) : Prop where
  problems : ∀ c : Course, e.problems c.inOrder = e.problems c
  packageFiles : ∀ p ctx, e.packageFiles p.inOrder ctx.inOrder = e.packageFiles p ctx
  lessonFiles : ∀ p l ctx,
    e.lessonFiles p.inOrder l.inOrder ctx.inOrder = e.lessonFiles p l ctx

theorem ignoresOrder_ofFormat (f : Format) : (ofFormat f).IgnoresOrder where
  problems c := by cases f <;> rfl
  packageFiles p _ := (readsOuter_ofFormat f).packageFiles_eq p.outer_inOrder rfl
  lessonFiles p _ _ := (readsOuter_ofFormat f).lessonFiles_eq p.outer_inOrder rfl rfl

variable {e : Exporter} {p : Plan} {ctx : ExportContext}

theorem IgnoresOrder.planFiles (he : e.IgnoresOrder) (p : Plan) (ctx : ExportContext) :
    e.planFiles p.inOrder ctx.inOrder = e.planFiles p ctx := by
  have hadd (files : FileTree) (l : PlannedLesson) :
      e.addLesson p.inOrder ctx.inOrder files l.inOrder = e.addLesson p ctx files l := by
    rw [addLesson, he.lessonFiles]
    rfl
  have hfold (files : FileTree) :
      p.inOrder.lessons.foldlM (e.addLesson p.inOrder ctx.inOrder) files =
        p.lessons.foldlM (e.addLesson p ctx) files := by
    rw [Plan.lessons_inOrder, List.foldlM_map]
    simp only [hadd]
  simp only [Exporter.planFiles, he.packageFiles, hfold]

theorem warnings_inOrder (e : Exporter) (p : Plan) (s : Settings) :
    e.warnings p.inOrder s = e.warnings p s := by
  rw [Exporter.warnings, Plan.warnings_inOrder]
  rfl

theorem IgnoresOrder.courseProblems (he : e.IgnoresOrder) (c : Course) :
    e.courseProblems c.inOrder = e.courseProblems c := by
  have hempty : c.inOrder.modules.isEmpty = c.modules.isEmpty := by
    rw [Bool.eq_iff_iff, List.isEmpty_iff_length_eq_zero, List.isEmpty_iff_length_eq_zero,
      length_modules_inOrder]
  have hproblems : c.inOrder.problems = c.problems := by
    rw [Course.problems, Course.problems, hempty, lessonCount_inOrder]
    rfl
  rw [Exporter.courseProblems, Exporter.courseProblems, hproblems, he.problems]

theorem IgnoresOrder.makePackage (he : e.IgnoresOrder) (ctx : ExportContext) :
    e.makePackage ctx.inOrder = e.makePackage ctx := by
  have hplan : Plan.ofCourse ctx.inOrder.course = (Plan.ofCourse ctx.course).map Plan.inOrder :=
    Plan.ofCourse_inOrder ctx.course
  rw [Exporter.makePackage, Exporter.makePackage, hplan]
  cases Plan.ofCourse ctx.course with
  | error cause => rfl
  | ok p =>
    change (e.planFiles p.inOrder ctx.inOrder >>= _) = (e.planFiles p ctx >>= _)
    rw [he.planFiles]
    congr 1
    funext files
    rw [warnings_inOrder]
    rfl

/-- The result of an export is that for the course in order. -/
theorem IgnoresOrder.exportCourse (he : e.IgnoresOrder) (ctx : ExportContext) :
    e.exportCourse ctx.inOrder = e.exportCourse ctx := by
  have hproblems : e.courseProblems ctx.inOrder.course = e.courseProblems ctx.course :=
    he.courseProblems ctx.course
  rw [Exporter.exportCourse, Exporter.exportCourse, hproblems, he.makePackage]

end Exporter

/-- Courses that differ only in the order of their lists have the same packages: either
both have no plan, for the same clash of identifiers, or the files and the warnings are the
same; and in any case the results of their exports are. -/
theorem exportCourse_reordered (f : Format) {c c' : Course} (h : c.Reordered c')
    (s : Settings) (made : Time.Instant) :
    ((∃ kind id, Plan.ofCourse c = .error (.duplicate kind id) ∧
        Plan.ofCourse c' = .error (.duplicate kind id)) ∨
      ∃ p p' files, Plan.ofCourse c = .ok p ∧ Plan.ofCourse c' = .ok p' ∧
        (Exporter.ofFormat f).planFiles p ⟨c, s, made⟩ = .ok files ∧
        (Exporter.ofFormat f).planFiles p' ⟨c', s, made⟩ = .ok files ∧
        (Exporter.ofFormat f).warnings p s = (Exporter.ofFormat f).warnings p' s) ∧
    (Exporter.ofFormat f).exportCourse ⟨c, s, made⟩ =
      (Exporter.ofFormat f).exportCourse ⟨c', s, made⟩ := by
  have he := Exporter.ignoresOrder_ofFormat f
  -- An export reads a course through its sorted lists, which are the same for both.
  have hcontext : ExportContext.inOrder ⟨c, s, made⟩ = ExportContext.inOrder ⟨c', s, made⟩ := by
    rw [ExportContext.inOrder, ExportContext.inOrder, h.inOrder_eq]
  have hplan : (Plan.ofCourse c).map Plan.inOrder = (Plan.ofCourse c').map Plan.inOrder := by
    rw [← Plan.ofCourse_inOrder, ← Plan.ofCourse_inOrder, h.inOrder_eq]
  refine ⟨?_, by rw [← he.exportCourse, hcontext, he.exportCourse]⟩
  cases hp : Plan.ofCourse c with
  | error cause =>
    rw [hp] at hplan
    cases hp' : Plan.ofCourse c' with
    | ok p' =>
      rw [hp'] at hplan
      cases hplan
    | error cause' =>
      rw [hp'] at hplan
      obtain rfl : cause = cause' := Except.error.inj hplan
      obtain ⟨kind, id, rfl⟩ := Plan.exists_duplicate_of_error hp
      exact Or.inl ⟨kind, id, rfl, rfl⟩
  | ok p =>
    rw [hp] at hplan
    cases hp' : Plan.ofCourse c' with
    | error cause =>
      rw [hp'] at hplan
      cases hplan
    | ok p' =>
      rw [hp'] at hplan
      have hinOrder : p.inOrder = p'.inOrder := Except.ok.inj hplan
      obtain ⟨files, hfiles⟩ := @Exporter.exists_planFiles ⟨c, s, made⟩ f _ hp
      refine Or.inr ⟨p, p', files, rfl, rfl, hfiles, ?_, ?_⟩
      · rw [← he.planFiles, ← hinOrder, ← hcontext, he.planFiles, hfiles]
      · rw [← Exporter.warnings_inOrder, hinOrder, Exporter.warnings_inOrder]

/-! ## A course from back to front -/

section Shuffled

open Package

/-- A module that is shown behind another. -/
def laterModule : Module := { id := "later", order := 1 }

/-- The lesson with its blocks as they are shown. -/
def forwardLesson : Lesson := { forgedLesson with blocks := [earlyBlock, lateBlock] }

def forwardModule : Module := { forgedModule with lessons := [forwardLesson] }

/-- A course whose second module is shown first. -/
def backwardCourse : Course :=
  { id := "c", title := "C", modules := [laterModule, forgedModule] }

/-- The same course with its modules, and the blocks of its lesson, as they are shown. -/
def forwardCourse : Course :=
  { id := "c", title := "C", modules := [forwardModule, laterModule] }

theorem stablyPermuted_refl {α : Type} (key : α → Int) (xs : List α) :
    StablyPermuted key xs xs :=
  ⟨.refl xs, fun _ => rfl⟩

/-- Two members with different keys may change places. -/
theorem stablyPermuted_swap {α : Type} {key : α → Int} {a b : α} (h : key a ≠ key b) :
    StablyPermuted key [a, b] [b, a] where
  perm := .swap b a []
  stable k := by
    by_cases ha : key a = k
    · have hb : key b ≠ k := fun hb => h (ha.trans hb.symm)
      simp [ha, hb]
    · simp [List.filter_cons, ha]

theorem reordered_backwardCourse : backwardCourse.Reordered forwardCourse := by
  have hlesson : forgedLesson.Reordered forwardLesson :=
    ⟨stablyPermuted_swap (by decide), rfl⟩
  have hmodule : forgedModule.Reordered forwardModule :=
    ⟨⟨_, .cons hlesson .nil, stablyPermuted_refl _ _⟩, rfl⟩
  have hlater : laterModule.Reordered laterModule :=
    ⟨⟨[], .nil, stablyPermuted_refl _ _⟩, rfl⟩
  exact ⟨⟨_, .cons hlater (.cons hmodule .nil), stablyPermuted_swap (by decide)⟩, rfl⟩

theorem exists_ofCourse_forwardCourse : ∃ p, Plan.ofCourse forwardCourse = .ok p := by
  have hmodules : forwardCourse.orderedModules = [forwardModule, laterModule] :=
    List.mergeSort_of_pairwise (by decide)
  refine ⟨_, Plan.ofCourse_eq_ok_iff.mpr ⟨?_, rfl⟩⟩
  simp only [hmodules, checkModules, orderedLessons_of_pairwise (m := forwardModule) (by decide),
    orderedLessons_of_pairwise (m := laterModule) (by decide)]
  decide +kernel

theorem exportCourse_reordered_backwardCourse :
    (∃ p p' files, Plan.ofCourse backwardCourse = .ok p ∧ Plan.ofCourse forwardCourse = .ok p' ∧
      (Exporter.ofFormat .xapi).planFiles p ⟨backwardCourse, {}, ⟨0, false⟩⟩ = .ok files ∧
      (Exporter.ofFormat .xapi).planFiles p' ⟨forwardCourse, {}, ⟨0, false⟩⟩ = .ok files) ∧
    (Exporter.ofFormat .xapi).exportCourse ⟨backwardCourse, {}, ⟨0, false⟩⟩ =
      (Exporter.ofFormat .xapi).exportCourse ⟨forwardCourse, {}, ⟨0, false⟩⟩ := by
  obtain ⟨hplans, hexport⟩ :=
    exportCourse_reordered .xapi reordered_backwardCourse {} ⟨0, false⟩
  refine ⟨?_, hexport⟩
  rcases hplans with ⟨kind, id, -, hclash⟩ | ⟨p, p', files, hp, hp', hfiles, hfiles', -⟩
  · obtain ⟨p, hp⟩ := exists_ofCourse_forwardCourse
    rw [hp] at hclash
    cases hclash
  · exact ⟨p, p', files, hp, hp', hfiles, hfiles'⟩

end Shuffled

end Courseware
