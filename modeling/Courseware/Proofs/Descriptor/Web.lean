import Courseware.Descriptor.Web
import Courseware.Package.Problem
import Courseware.Proofs.Descriptor.Listing
import Courseware.Proofs.Json.RoundTrip

/-!
# Descriptors for the open web are read back

The descriptor is read as the value that was written, and its modules and lessons are
found in it.
-/

namespace Courseware.Descriptor

open Json

/-! ## Numbers -/

/-- Whether the numbers that belong to a lesson have at most 64 bits. -/
def OutlineLesson.Fits (l : OutlineLesson) : Prop :=
  l.durationMinutes < wholeLimit ∧ ∀ r ∈ l.resources, ∀ n ∈ r.size, n < wholeLimit

/-- Whether the numbers in an outline have at most 64 bits. -/
def Outline.Fits (o : Outline) : Prop := ∀ m ∈ o, ∀ l ∈ m.lessons, l.Fits

namespace Web

variable {info : Metadata} {o : Outline} {start : String}

theorem legible_nat {n : Nat} (h : n < wholeLimit) : (Json.nat n).Legible :=
  Json.legible_nat h

theorem legible_resourceJson {r : Resource} (h : ∀ n ∈ r.size, n < wholeLimit) :
    (resourceJson r).Legible := by
  rw [resourceJson, legible_object, List.forall_mem_append]
  refine ⟨by simp, ?_⟩
  cases hsize : r.size with
  | none => simp
  | some n => exact List.forall_mem_singleton.mpr (legible_nat (h n hsize))

theorem legible_lessonJson {l : OutlineLesson} (h : l.Fits) : (lessonJson l).Legible := by
  have hresources : (array (l.resources.map resourceJson)).Legible :=
    legible_array.mpr (List.forall_mem_map.mpr fun r hr => legible_resourceJson (h.2 r hr))
  rw [lessonJson, legible_object]
  simp [legible_nat h.1, hresources]

theorem legible_moduleJson {m : OutlineModule} (h : ∀ l ∈ m.lessons, l.Fits) :
    (moduleJson m).Legible := by
  have hlessons : (array (m.lessons.map lessonJson)).Legible :=
    legible_array.mpr (List.forall_mem_map.mpr fun l hl => legible_lessonJson (h l hl))
  rw [moduleJson, legible_object]
  simp [hlessons]

theorem legible_manifest (h : o.Fits) : (manifest info o start).Legible := by
  have hmodules : (array (o.map moduleJson)).Legible :=
    legible_array.mpr (List.forall_mem_map.mpr fun m hm => legible_moduleJson (h m hm))
  rw [manifest, legible_object]
  cases info.author <;> simp [hmodules]

/-! ## Depth -/

theorem depth_resourceJson (r : Resource) : (resourceJson r).depth ≤ 1 := by
  refine depth_object_le ?_
  cases r.size <;> simp [depth, Json.nat]

theorem depth_lessonJson (l : OutlineLesson) : (lessonJson l).depth ≤ 3 := by
  have hresources := depth_array_le fun r (_ : r ∈ l.resources) => depth_resourceJson r
  refine depth_object_le ?_
  simp [depth, Json.nat] at hresources ⊢
  exact hresources

theorem depth_moduleJson (m : OutlineModule) : (moduleJson m).depth ≤ 5 := by
  have hlessons := depth_array_le fun l (_ : l ∈ m.lessons) => depth_lessonJson l
  refine depth_object_le ?_
  simp [depth] at hlessons ⊢
  exact hlessons

theorem depth_manifest (info : Metadata) (o : Outline) (start : String) :
    (manifest info o start).depth ≤ 7 := by
  have hmodules := depth_array_le fun m (_ : m ∈ o) => depth_moduleJson m
  refine depth_object_le ?_
  cases info.author <;> (simp [depth] at hmodules ⊢; exact hmodules)

/-- The descriptor is read as the value that was written. -/
theorem ofText_document (info : Metadata) (start : String) (h : o.Fits) :
    Json.ofText (document info o start) = .ok (manifest info o start).sorted :=
  ofText_pretty (legible_manifest h)
    (Nat.le_trans (depth_manifest info o start) (by decide))

/-! ## Members -/

theorem get_lessonJson (l : OutlineLesson) (name : String) :
    (lessonJson l).sorted.get name = ((lessonJson l).get name).sorted :=
  get_sorted_object (by simp) name

theorem get_moduleJson (m : OutlineModule) (name : String) :
    (moduleJson m).sorted.get name = ((moduleJson m).get name).sorted :=
  get_sorted_object (by simp) name

theorem get_manifest (info : Metadata) (o : Outline) (start name : String) :
    (manifest info o start).sorted.get name = ((manifest info o start).get name).sorted := by
  refine get_sorted_object ?_ name
  cases info.author <;> simp

theorem modules_manifest (info : Metadata) (o : Outline) (start : String) :
    ((manifest info o start).sorted.get "modules").items =
      o.map fun m => (moduleJson m).sorted := by
  have hget : (manifest info o start).get "modules" = array (o.map moduleJson) := by
    rw [manifest]
    cases info.author <;> rfl
  rw [get_manifest, hget, items_sorted_array, List.map_map]
  rfl

theorem lessons_moduleJson (m : OutlineModule) :
    ((moduleJson m).sorted.get "lessons").items =
      m.lessons.map fun l => (lessonJson l).sorted := by
  have hget : (moduleJson m).get "lessons" = array (m.lessons.map lessonJson) := rfl
  rw [get_moduleJson, hget, items_sorted_array, List.map_map]
  rfl

theorem startUrl_manifest (info : Metadata) (o : Outline) (start : String) :
    (manifest info o start).sorted.get "startUrl" = string start := by
  have hget : (manifest info o start).get "startUrl" = string start := by
    rw [manifest]
    cases info.author <;> rfl
  rw [get_manifest, hget, sorted_string]

/-- The paths that the descriptor refers to. -/
theorem webPaths_manifest (info : Metadata) (o : Outline) (start : String) :
    Package.webPaths (manifest info o start).sorted =
      start :: o.flatMap fun m => m.lessons.map (·.launch) := by
  have hlesson : ∀ l : OutlineLesson,
      ((lessonJson l).sorted.get "href").string? = some l.launch := by
    intro l
    rw [get_lessonJson]
    rfl
  rw [Package.webPaths, startUrl_manifest, modules_manifest, List.flatMap_map]
  simp only [lessons_moduleJson, List.filterMap_map, Function.comp_def, hlesson,
    List.filterMap_eq_map']
  rfl

/-! ## Listings -/

def lesson? (v : Json) : Option ListedLesson := do
  let name ← (v.get "id").string?
  let title ← (v.get "title").string?
  let launch ← (v.get "href").string?
  return ⟨name, title, some launch⟩

def module? (v : Json) : Option ListedModule := do
  let name ← (v.get "id").string?
  let title ← (v.get "title").string?
  let lessons ← (v.get "lessons").items.mapM lesson?
  return ⟨name, title, lessons⟩

/-- What a document lists. -/
def listing? (s : String) : Option Listing :=
  match Json.ofText s with
  | .ok v => (v.get "modules").items.mapM module?
  | .error _ => none

/-- Modules and lessons keep their identifiers. -/
def naming : Naming := ⟨id, id, true⟩

theorem lesson?_lessonJson (l : OutlineLesson) :
    lesson? (lessonJson l).sorted = some (naming.lesson l) := by
  simp only [lesson?, get_lessonJson]
  rfl

theorem module?_moduleJson (m : OutlineModule) :
    module? (moduleJson m).sorted = some (naming.module m) := by
  have hlessons : ((m.lessons.map fun l => (lessonJson l).sorted).mapM lesson?) =
      some (m.lessons.map naming.lesson) := by
    rw [List.mapM_map]
    exact mapM_eq_some fun l _ => lesson?_lessonJson l
  rw [module?, lessons_moduleJson, hlessons]
  simp only [get_moduleJson]
  rfl

/-- The descriptor lists its outline. -/
theorem listing?_document (info : Metadata) (start : String) (h : o.Fits) :
    listing? (document info o start) = some (o.map naming.module) := by
  rw [listing?, ofText_document info start h]
  dsimp only
  rw [modules_manifest, List.mapM_map]
  exact mapM_eq_some fun m _ => module?_moduleJson m

end Web

end Courseware.Descriptor
