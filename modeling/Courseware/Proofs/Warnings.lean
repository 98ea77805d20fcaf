import Courseware.Proofs.Plan
import Mathlib.Data.List.Induction
import Mathlib.Data.List.Nodup

/-!
# Warnings of plans

A plan warns of all that it leaves out, and of nothing else: of modules without lessons, of
lessons without blocks, of each unknown tag in a lesson where it occurs first, and of the
resources that do not say where they are. All other resources of a lesson are kept.
-/

namespace Courseware

/-! ## First occurrences -/

/-- Whether a list has the members of another once each, in the order in which they occur
first. -/
structure IsFirstOccurrences {α : Type} [BEq α] (all once : List α) : Prop where
  nodup : once.Nodup
  mem_iff : ∀ a, a ∈ once ↔ a ∈ all
  order : once.Pairwise fun a b => all.idxOf a < all.idxOf b

namespace IsFirstOccurrences

variable {α : Type} [BEq α] {all once : List α} {a : α}

theorem nil : IsFirstOccurrences ([] : List α) [] := ⟨List.nodup_nil, fun _ => Iff.rfl, .nil⟩

/-- Only one list has the members of another in this order. -/
theorem unique {once' : List α} (h : IsFirstOccurrences all once)
    (h' : IsFirstOccurrences all once') : once = once' := by
  have hperm : once.Perm once' := (List.perm_ext_iff_of_nodup h.nodup h'.nodup).mpr fun a => by
    rw [h.mem_iff, h'.mem_iff]
  refine List.Perm.eq_of_pairwise (fun a b _ _ hab hba => ?_) h.order h'.order hperm
  exact absurd hab (Nat.lt_asymm hba)

variable [LawfulBEq α]

theorem order_append (h : IsFirstOccurrences all once) (rest : List α) :
    once.Pairwise fun a b => (all ++ rest).idxOf a < (all ++ rest).idxOf b := by
  refine h.order.imp_of_mem fun {a b} ha hb hlt => ?_
  rw [List.idxOf_append_of_mem ((h.mem_iff a).mp ha),
    List.idxOf_append_of_mem ((h.mem_iff b).mp hb)]
  exact hlt

theorem concat_of_mem (h : IsFirstOccurrences all once) (ha : a ∈ all) :
    IsFirstOccurrences (all ++ [a]) once where
  nodup := h.nodup
  mem_iff b := by
    rw [h.mem_iff, List.mem_append, List.mem_singleton]
    constructor
    · exact Or.inl
    · rintro (hb | rfl)
      · exact hb
      · exact ha
  order := h.order_append [a]

theorem concat_of_notMem (h : IsFirstOccurrences all once) (ha : a ∉ all) :
    IsFirstOccurrences (all ++ [a]) (once ++ [a]) where
  nodup := by
    have hnew : a ∉ once := fun hmem => ha ((h.mem_iff a).mp hmem)
    exact List.concat_eq_append ▸ h.nodup.concat hnew
  mem_iff b := by rw [List.mem_append, List.mem_append, h.mem_iff]
  order := by
    refine List.pairwise_append.mpr ⟨h.order_append [a], List.pairwise_singleton _ _, ?_⟩
    intro b hb c hc
    obtain rfl := List.mem_singleton.mp hc
    have hmem : b ∈ all := (h.mem_iff b).mp hb
    rw [List.idxOf_append_of_mem hmem, List.idxOf_append_of_notMem ha]
    exact Nat.lt_add_right _ (List.idxOf_lt_length_of_mem hmem)

/-- Members that have occurred before are passed over. -/
theorem eraseDups (all : List α) : IsFirstOccurrences all all.eraseDups := by
  -- What comes behind changes nothing before it, so the list is taken from its end.
  induction all using List.reverseRecOn with
  | nil => exact nil
  | append_singleton before a ih =>
    rw [List.eraseDups_append]
    by_cases ha : a ∈ before
    · have hnone : [a].removeAll before = [] := by simp [List.removeAll, ha]
      rw [hnone, List.eraseDups_nil, List.append_nil]
      exact ih.concat_of_mem ha
    · have hnew : [a].removeAll before = [a] := by simp [List.removeAll, ha]
      rw [hnew, List.eraseDups_cons, List.filter_nil, List.eraseDups_nil]
      exact ih.concat_of_notMem ha

end IsFirstOccurrences

/-! ## Resources -/

/-- Whether each of some resources is either kept or left out, in their order: it is kept when
it says where it is. -/
structure Divides (all kept left : List Resource) : Prop where
  kept_sublist : kept.Sublist all
  left_sublist : left.Sublist all
  perm : (kept ++ left).Perm all
  present : ∀ r ∈ kept, r.isPresent = true
  absent : ∀ r ∈ left, r.isPresent = false

theorem divides_filter (all : List Resource) :
    Divides all (all.filter Resource.isPresent) (all.filter fun r => !r.isPresent) where
  kept_sublist := List.filter_sublist
  left_sublist := List.filter_sublist
  perm := List.filter_append_perm _ _
  present _ hr := (List.mem_filter.mp hr).2
  absent r hr := by simpa using (List.mem_filter.mp hr).2

theorem Divides.left_eq {all kept left : List Resource} (h : Divides all kept left) :
    left = all.filter fun r => !r.isPresent := by
  have hall : (left.filter fun r => !r.isPresent) = left :=
    List.filter_eq_self.mpr fun r hr => by rw [h.absent r hr, Bool.not_false]
  have hnone : (kept.filter fun r => !r.isPresent) = [] :=
    List.filter_eq_nil_iff.mpr fun r hr => by simp [h.present r hr]
  have hsublist := h.left_sublist.filter fun r => !r.isPresent
  have hperm := h.perm.filter fun r => !r.isPresent
  rw [List.filter_append, hnone, List.nil_append, hall] at hperm
  rw [hall] at hsublist
  exact hsublist.eq_of_length hperm.length_eq

/-! ## Lessons -/

/-- The tags of the blocks of a lesson that are not known, in the order of the blocks. -/
def Lesson.unknownTags (l : Lesson) : List String :=
  l.orderedBlocks.filterMap fun b => b.content.unknownTag?

theorem Lesson.isEmpty_orderedBlocks (l : Lesson) : l.orderedBlocks.isEmpty = l.blocks.isEmpty := by
  rw [Bool.eq_iff_iff, List.isEmpty_iff_length_eq_zero, List.isEmpty_iff_length_eq_zero,
    orderedBlocks, List.length_mergeSort]

/-- Whether a warning is on a resource that does not say where it is. -/
def Warning.isAbsentResource : Warning → Bool
  | absentResource _ _ => true
  | _ => false

namespace PlannedLesson

/-- Whether some warnings tell what is left out of a lesson: that it has no blocks, each unknown
tag once, and each resource that is not kept. -/
def Reports (l : PlannedLesson) (warnings : List Warning) : Prop :=
  ∃ tags left, IsFirstOccurrences l.lesson.unknownTags tags ∧
    Divides l.lesson.resources l.resources left ∧
    warnings = (if l.lesson.blocks = [] then [.emptyLesson l.lesson.title] else []) ++
      tags.map (.unknownBlock l.lesson.title) ++
      left.map fun r => .absentResource l.lesson.title r.id

variable {l : PlannedLesson}

theorem Reports.unique {ws ws' : List Warning} (h : l.Reports ws) (h' : l.Reports ws') :
    ws = ws' := by
  obtain ⟨tags, left, htags, hleft, rfl⟩ := h
  obtain ⟨tags', left', htags', hleft', rfl⟩ := h'
  rw [htags.unique htags', hleft.left_eq, hleft'.left_eq]

end PlannedLesson

/-! ## Plans -/

namespace Plan

/-- Whether some warnings tell what is left out of the modules of a plan, one after the other:
that a module has no lessons, and what is left out of its lessons in order. -/
def Reports (p : Plan) (warnings : List Warning) : Prop :=
  ∃ report : PlannedLesson → List Warning, (∀ l ∈ p.lessons, l.Reports (report l)) ∧
    warnings = p.modules.flatMap fun m =>
      (if m.source.lessons = [] then [.emptyModule m.source.title] else []) ++
        m.lessons.flatMap report

variable {c : Course} {p : Plan}

theorem resources_eq (hp : ofCourse c = .ok p) {l : PlannedLesson} (hl : l ∈ p.lessons) :
    l.resources = l.lesson.resources.filter Resource.isPresent := by
  obtain ⟨-, rfl⟩ := ofCourse_eq_ok_iff.mp hp
  obtain ⟨m, index, lesson, rfl⟩ := exists_ofLesson_of_mem_planModules hl
  rfl

theorem reports_warnings_lesson (hp : ofCourse c = .ok p) {l : PlannedLesson}
    (hl : l ∈ p.lessons) : l.Reports l.warnings := by
  refine ⟨_, l.lesson.resources.filter fun r => !r.isPresent, .eraseDups _, ?_, ?_⟩
  · rw [resources_eq hp hl]
    exact divides_filter _
  · rw [PlannedLesson.warnings, blocks_eq hp hl, Lesson.isEmpty_orderedBlocks]
    simp only [List.isEmpty_iff, Lesson.unknownTags]

/-- A plan warns of what it leaves out, and of nothing else. -/
theorem reports_iff (hp : ofCourse c = .ok p) {ws : List Warning} :
    p.Reports ws ↔ ws = p.warnings := by
  have hlessons := fun l hl => reports_warnings_lesson hp (l := l) hl
  constructor
  · rintro ⟨report, hreport, rfl⟩
    refine List.flatMap_congr fun m hm => ?_
    rw [PlannedModule.warnings]
    simp only [List.isEmpty_iff]
    refine congrArg _ (List.flatMap_congr fun l hl => ?_)
    have hmem : l ∈ p.lessons := List.mem_flatMap.mpr ⟨m, hm, hl⟩
    exact (hreport l hmem).unique (hlessons l hmem)
  · rintro rfl
    refine ⟨PlannedLesson.warnings, hlessons, ?_⟩
    refine List.flatMap_congr fun m _ => ?_
    rw [PlannedModule.warnings]
    simp only [List.isEmpty_iff]

/-- The warnings on resources tell, lesson by lesson, of those that are not kept. -/
theorem filter_warnings_absent (p : Plan) :
    p.warnings.filter Warning.isAbsentResource = p.lessons.flatMap fun l =>
      (l.lesson.resources.filter fun r => !r.isPresent).map fun r =>
        .absentResource l.lesson.title r.id := by
  have hlesson (l : PlannedLesson) : l.warnings.filter Warning.isAbsentResource =
      (l.lesson.resources.filter fun r => !r.isPresent).map fun r =>
        .absentResource l.lesson.title r.id := by
    have hempty : (if l.blocks.isEmpty then [Warning.emptyLesson l.lesson.title] else []).filter
        Warning.isAbsentResource = [] := by
      split <;> rfl
    have htags (tags : List String) :
        (tags.map (Warning.unknownBlock l.lesson.title)).filter Warning.isAbsentResource = [] :=
      List.filter_eq_nil_iff.mpr (List.forall_mem_map.mpr fun _ _ => Bool.false_ne_true)
    have hleft (rs : List Resource) :
        (rs.map fun r => Warning.absentResource l.lesson.title r.id).filter
          Warning.isAbsentResource = rs.map fun r => .absentResource l.lesson.title r.id :=
      List.filter_eq_self.mpr (List.forall_mem_map.mpr fun _ _ => rfl)
    rw [PlannedLesson.warnings, List.filter_append, List.filter_append, hempty, htags, hleft]
    rfl
  -- Modules add only warnings of their own, so those of the lessons are left in order.
  have hmodule (m : PlannedModule) : m.warnings.filter Warning.isAbsentResource =
      m.lessons.flatMap fun l => l.warnings.filter Warning.isAbsentResource := by
    have hempty : (if m.source.lessons.isEmpty then [Warning.emptyModule m.source.title]
        else []).filter Warning.isAbsentResource = [] := by
      split <;> rfl
    rw [PlannedModule.warnings, List.filter_append, hempty, List.nil_append, List.filter_flatMap]
  rw [warnings, lessons, List.filter_flatMap, List.flatMap_assoc]
  simp only [hmodule, hlesson]

/-- Each resource of a course is either kept in its plan or counts for one warning. -/
theorem countP_warnings_add (hp : ofCourse c = .ok p) :
    p.warnings.countP Warning.isAbsentResource + (p.lessons.flatMap (·.resources)).length =
      ((c.modules.flatMap (·.lessons)).flatMap (·.resources)).length := by
  have hleft : p.warnings.countP Warning.isAbsentResource =
      (p.lessons.flatMap fun l => l.lesson.resources.filter fun r => !r.isPresent).length := by
    rw [List.countP_eq_length_filter, filter_warnings_absent]
    simp only [List.length_flatMap, List.length_map]
  have hkept : p.lessons.flatMap (·.resources) =
      p.lessons.flatMap fun l => l.lesson.resources.filter Resource.isPresent :=
    List.flatMap_congr fun l hl => resources_eq hp hl
  have hdivided := List.flatMap_append_perm p.lessons
    (fun l => l.lesson.resources.filter Resource.isPresent)
    (fun l => l.lesson.resources.filter fun r => !r.isPresent)
  have hlessons : (p.lessons.flatMap fun l => l.lesson.resources.filter Resource.isPresent ++
      l.lesson.resources.filter fun r => !r.isPresent).Perm
        (p.lessons.flatMap (·.lesson.resources)) :=
    List.Perm.flatMap_left _ fun l _ => (divides_filter _).perm
  have hcourse := (perm_lessons hp).flatMap_right fun l : Lesson => l.resources
  rw [List.flatMap_map] at hcourse
  have hlength := ((hdivided.trans hlessons).trans hcourse).length_eq
  rw [List.length_append] at hlength
  rw [hleft, hkept, Nat.add_comm]
  exact hlength

end Plan

end Courseware
