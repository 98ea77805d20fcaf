import Courseware.Proofs.Descriptor.Web
import Courseware.Proofs.Json.Decoding

/-!
# Courses whose numbers fit

Durations and sizes are numbers of at most 64 bits. Every course that was decoded is
such a course.
-/

namespace Courseware

open Json (wholeLimit)

/-- Whether the size of a resource has at most 64 bits. -/
def Resource.Fits (r : Resource) : Prop := ∀ n ∈ r.size, n < wholeLimit

/-- Whether the numbers that belong to a lesson have at most 64 bits. -/
def Lesson.Fits (l : Lesson) : Prop := l.duration < wholeLimit ∧ ∀ r ∈ l.resources, r.Fits

/-- Whether the numbers of all lessons have at most 64 bits. -/
def Module.Fits (m : Module) : Prop := ∀ l ∈ m.lessons, l.Fits

/-- Whether the numbers in a course have at most 64 bits. -/
def Course.Fits (c : Course) : Prop := ∀ m ∈ c.modules, m.Fits

/-! ## Decoded courses -/

open Json.Decoder

theorem Resource.fits_of_decoder {room : Nat} {d : Json.Draft} {r : Resource}
    (h : Resource.decoder room d = .ok r) : r.Fits := by
  refine record_keeps (by simp [Fits]) ?_ h
  simp only [List.forall_mem_cons, List.not_mem_nil, false_imp_iff, implies_true, and_true]
  refine ⟨?_, ?_, ?_, ?_, ?_, ?_⟩
  case refine_5 =>
    refine Field.keeps_of fun room x size hsize s _ n hn => ?_
    obtain rfl := Option.mem_def.mp hn
    exact natural_lt (exists_of_option hsize)
  all_goals exact Field.keeps_other fun _ _ hs => hs

theorem Lesson.fits_of_decoder {room : Nat} {d : Json.Draft} {l : Lesson}
    (h : Lesson.decoder room d = .ok l) : l.Fits := by
  refine record_keeps ⟨by decide, by simp⟩ ?_ h
  simp only [List.forall_mem_cons, List.not_mem_nil, false_imp_iff, implies_true, and_true]
  refine ⟨?_, ?_, ?_, ?_, ?_, ?_, ?_, ?_⟩
  case refine_5 =>
    refine Field.keeps_of fun room x n hn s hs => ⟨?_, hs.2⟩
    exact Nat.lt_of_lt_of_le (natural_lt hn) (by decide)
  case refine_8 =>
    refine Field.keeps_of fun room x rs hrs s hs => ⟨hs.1, fun r hr => ?_⟩
    obtain ⟨_, _, hread⟩ := exists_of_mem_list hrs hr
    exact Resource.fits_of_decoder hread
  all_goals exact Field.keeps_other fun _ _ hs => hs

theorem Module.fits_of_decoder {room : Nat} {d : Json.Draft} {m : Module}
    (h : Module.decoder room d = .ok m) : m.Fits := by
  refine record_keeps (by simp [Fits]) ?_ h
  simp only [List.forall_mem_cons, List.not_mem_nil, false_imp_iff, implies_true, and_true]
  refine ⟨?_, ?_, ?_, ?_, ?_⟩
  case refine_5 =>
    refine Field.keeps_of fun room x ls hls s _ l hl => ?_
    obtain ⟨_, _, hread⟩ := exists_of_mem_list hls hl
    exact Lesson.fits_of_decoder hread
  all_goals exact Field.keeps_other fun _ _ hs => hs

/-- Every course that was decoded fits. -/
theorem Course.fits_of_decoder {room : Nat} {d : Json.Draft} {c : Course}
    (h : Course.decoder room d = .ok c) : c.Fits := by
  refine record_keeps (by simp [Fits]) ?_ h
  simp only [List.forall_mem_cons, List.not_mem_nil, false_imp_iff, implies_true, and_true]
  refine ⟨?_, ?_, ?_, ?_, ?_, ?_, ?_, ?_, ?_, ?_⟩
  case refine_8 =>
    refine Field.keeps_of fun room x ms hms s _ m hm => ?_
    obtain ⟨_, _, hread⟩ := exists_of_mem_list hms hm
    exact Module.fits_of_decoder hread
  all_goals exact Field.keeps_other fun _ _ hs => hs

/-! ## Plans -/

variable {c : Course} {p : Plan}

theorem fits_planModules {start : Nat} {ms : List Module} (h : ∀ m ∈ ms, m.Fits) :
    ∀ m ∈ planModules start ms, ∀ l ∈ m.lessons,
      l.lesson.Fits ∧ ∀ r ∈ l.resources, r.Fits := by
  induction ms generalizing start with
  | nil => simp [planModules]
  | cons m ms ih =>
    obtain ⟨hm, hms⟩ := List.forall_mem_cons.mp h
    refine List.forall_mem_cons.mpr ⟨?_, ih hms⟩
    intro l hl
    obtain ⟨i, hi, rfl⟩ := List.mem_mapIdx.mp hl
    have hlesson := hm _ (List.mem_mergeSort.mp (List.getElem_mem hi))
    exact ⟨hlesson, fun r hr => hlesson.2 r (List.mem_of_mem_filter hr)⟩

/-- The outline of a course that fits fits. -/
theorem Plan.fits_outline (hp : ofCourse c = .ok p) (h : c.Fits)
    (launch : PlannedLesson → String) (files : PlannedLesson → List String) :
    (p.outline launch files).Fits := by
  obtain ⟨-, rfl⟩ := ofCourse_eq_ok_iff.mp hp
  have hmodules : ∀ m ∈ c.orderedModules, m.Fits :=
    fun m hm => h m (List.mem_mergeSort.mp hm)
  intro _ hmodule _ houtlined
  obtain ⟨m, hm, rfl⟩ := List.mem_map.mp hmodule
  obtain ⟨l, hl, rfl⟩ := List.mem_map.mp houtlined
  obtain ⟨hlesson, hresources⟩ := fits_planModules hmodules m hm l hl
  exact ⟨hlesson.1, hresources⟩

end Courseware
