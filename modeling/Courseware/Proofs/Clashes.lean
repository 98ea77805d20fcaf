import Courseware.Proofs.Order
import Courseware.Proofs.Plan
import Mathlib.Data.List.Pairwise

/-!
# Clashes of identifiers

Modules and lessons are met one after the other: the modules in order, each before its own
lessons in order. A course has a plan unless one of them clashes with an earlier one of the same
kind, and the first that does is what the failure tells.
-/

namespace Courseware

open Text (pathSegment)

/-! ## What is met -/

/-- What has an identifier of its own. -/
inductive Kind
  | courseModule
  | lesson
  deriving DecidableEq

namespace Kind

def sameId : Kind → UniqueId
  | courseModule => .moduleId
  | lesson => .lessonId

/-- An identifier whose path segment has occurred before. -/
def samePath : Kind → UniqueId
  | courseModule => .modulePath
  | lesson => .lessonPath

def noun : Kind → String
  | courseModule => "modules"
  | lesson => "lessons"

end Kind

/-- A module or a lesson as it is met. -/
structure Visit where
  kind : Kind
  id : String
  deriving DecidableEq

namespace Visit

def ofModule (m : Module) : Visit := ⟨.courseModule, m.id⟩

def ofLesson (l : Lesson) : Visit := ⟨.lesson, l.id⟩

/-- Whether two visits could not be told apart by the kind and the path segment. -/
def Collide (v w : Visit) : Prop :=
  v.kind = w.kind ∧ pathSegment v.id = pathSegment w.id

/-- Whether two visits have different kinds or path segments. -/
def Apart (v w : Visit) : Prop := ¬ v.Collide w

theorem Apart.symm {v w : Visit} (h : v.Apart w) : w.Apart v :=
  fun hcollide => h ⟨hcollide.1.symm, hcollide.2.symm⟩

instance : Std.Symm Apart := ⟨fun _ _ => Apart.symm⟩

def idsOf (kind : Kind) (visits : List Visit) : List String :=
  (visits.filter fun v => v.kind = kind).map (·.id)

theorem mem_idsOf_iff {kind : Kind} {visits : List Visit} {id : String} :
    id ∈ idsOf kind visits ↔ ⟨kind, id⟩ ∈ visits := by
  simp only [idsOf, List.mem_map, List.mem_filter, decide_eq_true_eq]
  constructor
  · rintro ⟨v, ⟨hv, rfl⟩, rfl⟩
    exact hv
  · intro h
    exact ⟨_, ⟨h, rfl⟩, rfl⟩

/-- How a visit clashes with earlier ones: an equal one counts before one that only has the same
path segment, and of the latter the failure names both identifiers. -/
inductive Clash (earlier : List Visit) (v : Visit) : Failure → Prop
  | sameId (h : v ∈ earlier) : Clash earlier v (.duplicate v.kind.sameId v.id)
  | samePath (other : Visit) (hnew : v ∉ earlier) (hother : other ∈ earlier)
      (hcollide : other.Collide v) :
      Clash earlier v (.duplicate v.kind.samePath
        (pathSegment v.id ++ " (" ++ v.kind.noun ++ " \"" ++ other.id ++ "\" and \"" ++ v.id ++
          "\")"))

/-- For a clash it does not matter in which order the earlier visits were made. -/
theorem Clash.of_mem_iff {earlier earlier' : List Visit} {v : Visit} {cause : Failure}
    (hmem : ∀ w, w ∈ earlier ↔ w ∈ earlier') (h : Clash earlier v cause) :
    Clash earlier' v cause := by
  cases h with
  | sameId hv => exact .sameId ((hmem v).mp hv)
  | samePath other hnew hother hcollide =>
    exact .samePath other (fun hv => hnew ((hmem v).mpr hv)) ((hmem other).mp hother) hcollide

end Visit

def Module.visits (m : Module) : List Visit :=
  .ofModule m :: m.orderedLessons.map .ofLesson

/-- The modules and lessons of a course as they are met. -/
def Course.visits (c : Course) : List Visit :=
  c.orderedModules.flatMap Module.visits

/-! ## One check for both kinds -/

namespace Visit

def check (seen : List Visit) (v : Visit) : Except Failure Unit :=
  checkUnique v.kind.sameId v.kind.samePath v.kind.noun (idsOf v.kind seen) v.id

/-- Checks visits after those that have been seen, the last of which stands first. -/
def checkAll (seen : List Visit) : List Visit → Except Failure Unit
  | [] => .ok ()
  | v :: vs => do
    check seen v
    checkAll (v :: seen) vs

variable {seen : List Visit} {v : Visit} {vs : List Visit} {cause : Failure}

theorem check_eq_ok_iff : check seen v = .ok () ↔ ∀ w ∈ seen, w.Apart v := by
  rw [check, checkUnique_eq_ok_iff]
  constructor
  · rintro h w hw ⟨hkind, hpath⟩
    apply h
    rw [← hpath]
    apply List.mem_map_of_mem
    rw [mem_idsOf_iff, ← hkind]
    exact hw
  · intro h hmem
    obtain ⟨id, hid, hpath⟩ := List.mem_map.mp hmem
    exact h ⟨v.kind, id⟩ (mem_idsOf_iff.mp hid) ⟨rfl, hpath⟩

/-- Among visits that are apart at most one collides with another. -/
theorem eq_of_collide {w w' : Visit} (hseen : seen.Pairwise Apart) (hw : w ∈ seen)
    (hw' : w' ∈ seen) (hcollide : w.Collide v) (hcollide' : w'.Collide v) : w = w' := by
  by_contra hne
  have hapart : w.Apart w' := hseen.forall hw hw' hne
  exact hapart ⟨hcollide.1.trans hcollide'.1.symm, hcollide.2.trans hcollide'.2.symm⟩

theorem check_eq_error_iff (hseen : seen.Pairwise Apart) :
    check seen v = .error cause ↔ Clash seen v cause := by
  rw [check, checkUnique]
  by_cases hmem : v ∈ seen
  · have hcontains : (idsOf v.kind seen).contains v.id = true :=
      List.contains_iff_mem.mpr (mem_idsOf_iff.mpr hmem)
    rw [if_pos hcontains]
    constructor
    · intro h
      rw [← Except.error.inj h]
      exact .sameId hmem
    · rintro (h | ⟨_, hnew, _, _⟩)
      · rfl
      · exact absurd hmem hnew
  · have hcontains : ¬ (idsOf v.kind seen).contains v.id = true :=
      fun h => hmem (mem_idsOf_iff.mp (List.contains_iff_mem.mp h))
    rw [if_neg hcontains]
    dsimp only
    cases hfind : (idsOf v.kind seen).find? fun other =>
        pathSegment other == pathSegment v.id with
    | some id =>
      -- At most one earlier visit collides, so the one that is found is the one of the clash.
      have hid : (⟨v.kind, id⟩ : Visit) ∈ seen :=
        mem_idsOf_iff.mp (List.mem_of_find?_eq_some hfind)
      have hcollide : (⟨v.kind, id⟩ : Visit).Collide v :=
        ⟨rfl, beq_iff_eq.mp (List.find?_some hfind :)⟩
      constructor
      · intro h
        rw [← Except.error.inj h]
        exact .samePath ⟨v.kind, id⟩ hmem hid hcollide
      · rintro (h | ⟨other, -, hother, hcollide'⟩)
        · exact absurd h hmem
        · rw [← eq_of_collide hseen hid hother hcollide hcollide']
    | none =>
      constructor
      · intro h
        cases h
      · rintro (h | ⟨other, -, hother, hkind, hpath⟩)
        · exact absurd h hmem
        · have hid : other.id ∈ idsOf v.kind seen := mem_idsOf_iff.mpr (hkind ▸ hother)
          exact absurd (beq_iff_eq.mpr hpath) (List.find?_eq_none.mp hfind _ hid)

theorem checkAll_eq_ok_iff :
    checkAll seen vs = .ok () ↔ (∀ v ∈ vs, ∀ w ∈ seen, w.Apart v) ∧ vs.Pairwise Apart := by
  induction vs generalizing seen with
  | nil => simp [checkAll]
  | cons v vs ih =>
    rw [checkAll, bind_eq_ok_iff, List.pairwise_cons, List.forall_mem_cons]
    simp only [ih, List.forall_mem_cons]
    constructor
    · rintro ⟨_, hcheck, hvs, hpairwise⟩
      exact ⟨⟨check_eq_ok_iff.mp hcheck, fun w hw => (hvs w hw).2⟩,
        fun w hw => (hvs w hw).1, hpairwise⟩
    · rintro ⟨⟨hv, hvs⟩, hfirst, hpairwise⟩
      exact ⟨(), check_eq_ok_iff.mpr hv, fun w hw => ⟨hfirst w hw, hvs w hw⟩, hpairwise⟩

/-- A first clash is the clash of the head, or one that comes first behind it. -/
theorem exists_first_clash_cons_iff (hseen : seen.Pairwise Apart) :
    (∃ before w after, v :: vs = before ++ w :: after ∧
        (before.reverse ++ seen).Pairwise Apart ∧ Clash (before.reverse ++ seen) w cause) ↔
      Clash seen v cause ∨
        ∃ before w after, vs = before ++ w :: after ∧
          (before.reverse ++ v :: seen).Pairwise Apart ∧
          Clash (before.reverse ++ v :: seen) w cause := by
  constructor
  · rintro ⟨before, w, after, hsplit, hrest, hclash⟩
    cases before with
    | nil =>
      obtain ⟨rfl, rfl⟩ := List.cons.inj hsplit
      exact Or.inl hclash
    | cons first before =>
      obtain ⟨rfl, hvs⟩ := List.cons.inj hsplit
      rw [List.reverse_cons, List.append_assoc] at hrest hclash
      exact Or.inr ⟨before, w, after, hvs, hrest, hclash⟩
  · rintro (hclash | ⟨before, w, after, rfl, hrest, hclash⟩)
    · exact ⟨[], v, vs, rfl, hseen, hclash⟩
    · refine ⟨v :: before, w, after, rfl, ?_⟩
      rw [List.reverse_cons, List.append_assoc]
      exact ⟨hrest, hclash⟩

/-- The check fails with the first clash, if there is one. -/
theorem checkAll_eq_error_iff (hseen : seen.Pairwise Apart) :
    checkAll seen vs = .error cause ↔
      ∃ before v after, vs = before ++ v :: after ∧ (before.reverse ++ seen).Pairwise Apart ∧
        Clash (before.reverse ++ seen) v cause := by
  -- The visits that have been seen grow by the head, and remain apart as long as none clashes.
  induction vs generalizing seen with
  | nil => simp [checkAll]
  | cons v vs ih =>
    rw [exists_first_clash_cons_iff hseen, ← check_eq_error_iff hseen, checkAll]
    cases hcheck : check seen v with
    | error e =>
      refine ⟨fun h => Or.inl h, ?_⟩
      rintro (h | ⟨before, w, after, rfl, hrest, -⟩)
      · exact h
      · have hfirst := List.pairwise_cons.mp (List.pairwise_append.mp hrest).2.1
        rw [check_eq_ok_iff.mpr fun w hw => (hfirst.1 w hw).symm] at hcheck
        cases hcheck
    | ok _ =>
      have hapart : ∀ w ∈ seen, w.Apart v := check_eq_ok_iff.mp hcheck
      have hgrown : (v :: seen).Pairwise Apart :=
        List.pairwise_cons.mpr ⟨fun w hw => (hapart w hw).symm, hseen⟩
      change checkAll (v :: seen) vs = .error cause ↔ _
      rw [ih hgrown]
      simp

theorem checkAll_nil_eq_ok_iff : checkAll [] vs = .ok () ↔ vs.Pairwise Apart := by
  rw [checkAll_eq_ok_iff]
  simp

theorem checkAll_nil_eq_error_iff :
    checkAll [] vs = .error cause ↔
      ∃ before v after, vs = before ++ v :: after ∧ before.Pairwise Apart ∧
        Clash before v cause := by
  have hmem : ∀ before w, w ∈ before.reverse ++ [] ↔ w ∈ (before : List Visit) := by simp
  have hpairwise : ∀ before : List Visit,
      (before.reverse ++ []).Pairwise Apart ↔ before.Pairwise Apart := by
    intro before
    rw [List.append_nil]
    exact (List.reverse_perm before).pairwise_iff Apart.symm
  rw [checkAll_eq_error_iff .nil]
  constructor
  · rintro ⟨before, v, after, hsplit, hapart, hclash⟩
    exact ⟨before, v, after, hsplit, (hpairwise before).mp hapart, hclash.of_mem_iff (hmem before)⟩
  · rintro ⟨before, v, after, hsplit, hapart, hclash⟩
    exact ⟨before, v, after, hsplit, (hpairwise before).mpr hapart,
      hclash.of_mem_iff fun w => (hmem before w).symm⟩

end Visit

/-! ## The two checks of a plan -/

section Modules

variable (seen : List Visit)

theorem checkAll_cons_module (m : Module) (vs : List Visit) :
    Visit.checkAll seen (.ofModule m :: vs) =
      (checkUnique .moduleId .modulePath "modules" (Visit.idsOf .courseModule seen) m.id >>=
        fun _ => Visit.checkAll (.ofModule m :: seen) vs) := rfl

theorem checkAll_lessons (ls : List Lesson) (vs : List Visit) :
    Visit.checkAll seen (ls.map .ofLesson ++ vs) =
      (checkLessons (Visit.idsOf .lesson seen) ls >>=
        fun _ => Visit.checkAll ((ls.map .ofLesson).reverse ++ seen) vs) := by
  induction ls generalizing seen with
  | nil => rfl
  | cons l ls ih =>
    have hids : Visit.idsOf .lesson (.ofLesson l :: seen) = l.id :: Visit.idsOf .lesson seen := rfl
    rw [List.map_cons, List.cons_append, Visit.checkAll, checkLessons, bind_assoc, ih, hids,
      List.reverse_cons, List.append_assoc, List.singleton_append]
    rfl

theorem idsOf_courseModule_lessons (ls : List Lesson) :
    Visit.idsOf .courseModule ((ls.map .ofLesson).reverse ++ seen) =
      Visit.idsOf .courseModule seen := by
  have hnone : (ls.map Visit.ofLesson).reverse.filter (fun v => v.kind = .courseModule) = [] := by
    simp [Visit.ofLesson]
  rw [Visit.idsOf, List.filter_append, hnone]
  rfl

theorem idsOf_lesson_lessons (ls : List Lesson) :
    Visit.idsOf .lesson ((ls.map .ofLesson).reverse ++ seen) =
      (ls.map (·.id)).reverse ++ Visit.idsOf .lesson seen := by
  have hall : (ls.map Visit.ofLesson).reverse.filter (fun v => v.kind = .lesson) =
      (ls.map Visit.ofLesson).reverse := by
    simp [Visit.ofLesson]
  rw [Visit.idsOf, List.filter_append, hall, List.map_append, List.map_reverse, List.map_map]
  rfl

/-- A plan checks modules and lessons as they are met. -/
theorem checkModules_eq_checkAll (ms : List Module) :
    checkModules (Visit.idsOf .courseModule seen) (Visit.idsOf .lesson seen) ms =
      Visit.checkAll seen (ms.flatMap Module.visits) := by
  induction ms generalizing seen with
  | nil => rfl
  | cons m ms ih =>
    rw [List.flatMap_cons, Module.visits, List.cons_append, checkAll_cons_module,
      checkAll_lessons, checkModules]
    refine congrArg _ (funext fun _ => ?_)
    cases hlessons : checkLessons (Visit.idsOf .lesson seen) m.orderedLessons with
    | error e =>
      have hids : Visit.idsOf .lesson (.ofModule m :: seen) = Visit.idsOf .lesson seen := rfl
      rw [hids, hlessons]
      rfl
    | ok all =>
      obtain ⟨rfl, -, -⟩ := checkLessons_eq_ok hlessons
      have hmodules : Visit.idsOf .courseModule
          ((m.orderedLessons.map .ofLesson).reverse ++ .ofModule m :: seen) =
            m.id :: Visit.idsOf .courseModule seen :=
        idsOf_courseModule_lessons _ _
      have hids : Visit.idsOf .lesson
          ((m.orderedLessons.map .ofLesson).reverse ++ .ofModule m :: seen) =
            (m.orderedLessons.map (·.id)).reverse ++ Visit.idsOf .lesson seen :=
        idsOf_lesson_lessons _ _
      have hseen : Visit.idsOf .lesson (.ofModule m :: seen) = Visit.idsOf .lesson seen := rfl
      rw [hseen, hlessons, ← hids, ← hmodules]
      exact ih _

end Modules

/-! ## Courses -/

/-- Visits of one kind are apart when their path segments are different. -/
theorem pairwise_apart_map_iff {α : Type} (kind : Kind) (id : α → String) (as : List α) :
    (as.map fun a => (⟨kind, id a⟩ : Visit)).Pairwise Visit.Apart ↔
      (as.map fun a => pathSegment (id a)).Nodup := by
  rw [List.Nodup, List.pairwise_map, List.pairwise_map]
  simp [Visit.Apart, Visit.Collide]

theorem perm_visits (c : Course) :
    c.visits.Perm (c.modules.map .ofModule ++ (c.modules.flatMap (·.lessons)).map .ofLesson) := by
  have hmodules : c.orderedModules.Perm c.modules := List.mergeSort_perm _ _
  have hlessons : (c.orderedModules.flatMap Module.orderedLessons).Perm
      (c.modules.flatMap (·.lessons)) :=
    hmodules.flatMap fun m _ => List.mergeSort_perm _ _
  have hsplit := List.map_append_flatMap_perm c.orderedModules Visit.ofModule
    fun m => m.orderedLessons.map Visit.ofLesson
  rw [← List.map_flatMap] at hsplit
  exact hsplit.symm.trans ((hmodules.map _).append (hlessons.map _))

/-- All that is met is apart when modules and lessons, each among themselves, have different
path segments. -/
theorem pairwise_visits_iff (c : Course) :
    c.visits.Pairwise Visit.Apart ↔
      (c.modules.map fun m => pathSegment m.id).Nodup ∧
        ((c.modules.flatMap (·.lessons)).map fun l => pathSegment l.id).Nodup := by
  have hkinds : ∀ v ∈ c.modules.map Visit.ofModule,
      ∀ w ∈ (c.modules.flatMap (·.lessons)).map Visit.ofLesson, v.Apart w := by
    intro v hv w hw hcollide
    obtain ⟨m, -, rfl⟩ := List.mem_map.mp hv
    obtain ⟨l, -, rfl⟩ := List.mem_map.mp hw
    cases hcollide.1
  rw [(perm_visits c).pairwise_iff Visit.Apart.symm, List.pairwise_append,
    ← pairwise_apart_map_iff .courseModule, ← pairwise_apart_map_iff .lesson]
  exact ⟨fun h => ⟨h.1, h.2.1⟩, fun h => ⟨h.1, h.2, hkinds⟩⟩

/-- A course has a plan when no module and no lesson clashes with an earlier one. -/
theorem Plan.exists_ofCourse_iff {c : Course} :
    (∃ p, ofCourse c = .ok p) ↔ c.visits.Pairwise Visit.Apart := by
  have hcheck : checkModules [] [] c.orderedModules = Visit.checkAll [] c.visits :=
    checkModules_eq_checkAll [] c.orderedModules
  rw [← Visit.checkAll_nil_eq_ok_iff, ← hcheck]
  constructor
  · rintro ⟨p, hp⟩
    exact (ofCourse_eq_ok_iff.mp hp).1
  · intro hok
    exact ⟨_, ofCourse_eq_ok_iff.mpr ⟨hok, rfl⟩⟩

theorem Plan.ofCourse_eq_error_iff {c : Course} {cause : Failure} :
    ofCourse c = .error cause ↔ checkModules [] [] c.orderedModules = .error cause := by
  rw [ofCourse]
  cases checkModules [] [] c.orderedModules with
  | error e =>
    constructor
    · intro h
      rw [Except.error.inj h]
    · intro h
      rw [← Except.error.inj h]
      rfl
  | ok _ =>
    constructor
    · intro h
      cases h
    · intro h
      cases h

/-- The modules and lessons of a course are met in stable order, and it has a plan if, and only
if, the path segments of its modules are different and those of its lessons are: a module and a
lesson may share one. Otherwise the failure is the first clash that is met, and no other. -/
theorem Plan.ofCourse_first_clash (c : Course) :
    (IsStableOrder Module.order c.modules c.orderedModules ∧
      ∀ m ∈ c.modules, IsStableOrder Lesson.order m.lessons m.orderedLessons) ∧
    ((∃ p, ofCourse c = .ok p) ↔
      (c.modules.map fun m => pathSegment m.id).Nodup ∧
        ((c.modules.flatMap (·.lessons)).map fun l => pathSegment l.id).Nodup) ∧
    ∀ cause, ofCourse c = .error cause ↔
      ∃ before v after, c.visits = before ++ v :: after ∧ before.Pairwise Visit.Apart ∧
        Visit.Clash before v cause := by
  have hcheck : checkModules [] [] c.orderedModules = Visit.checkAll [] c.visits :=
    checkModules_eq_checkAll [] c.orderedModules
  refine ⟨⟨isStableOrder_mergeSort _ _, fun m _ => isStableOrder_mergeSort _ _⟩, ?_, ?_⟩
  · rw [← pairwise_visits_iff, ← Visit.checkAll_nil_eq_ok_iff, ← hcheck]
    constructor
    · rintro ⟨p, hp⟩
      exact (ofCourse_eq_ok_iff.mp hp).1
    · intro hok
      exact ⟨_, ofCourse_eq_ok_iff.mpr ⟨hok, rfl⟩⟩
  · intro cause
    rw [← Visit.checkAll_nil_eq_error_iff, ← hcheck, ofCourse_eq_error_iff]

end Courseware
