import Courseware.Proofs.Descriptor.Listing
import Courseware.Proofs.Descriptor.ScormRoundTrip
import Mathlib.Data.List.Nodup

/-!
# What SCORM descriptors list

Modules are items with items in them, and these are the lessons: each of them refers to
a resource by its identifier, and the resource has the page that the lesson starts with.
-/

namespace Courseware.Descriptor.Scorm

open Text (pathSegment)

/-! ## Reading -/

/-- The page of the resource with an identifier. -/
def Manifest.page? (m : Manifest) (reference : String) : Option String :=
  (m.resources.find? fun r => r.identifier == reference).bind (·.href)

/-- The lesson that an item without items in it describes. -/
def Manifest.lesson? (m : Manifest) : Item → Option ListedLesson
  | .node identifier title (some reference) _ _ [] =>
    (m.page? reference).map fun page => ⟨identifier, title, some page⟩
  | _ => none

/-- The module that an item describes. -/
def Manifest.module? (m : Manifest) : Item → Option ListedModule
  | .node identifier title _ _ _ children =>
    (children.mapM m.lesson?).map fun lessons => ⟨identifier, title, lessons⟩

/-- What a document lists. -/
def listing? (s : String) : Option Listing :=
  (ofDocument? s).bind fun m => m.organization.items.mapM m.module?

/-! ## Writing -/

/-- Modules and lessons are named by the path segments of their identifiers. -/
def naming : Naming where
  moduleName id := "MODULE-" ++ pathSegment id
  lessonName id := "ITEM-" ++ pathSegment id
  launches := true

def lessonSegments (o : Outline) : List String :=
  (o.flatMap (·.lessons)).map fun l => pathSegment l.id

theorem toldItems_eq_map (items : List Item) : toldItems items = items.map Item.told := by
  induction items with
  | nil => rfl
  | cons i items ih => rw [toldItems, ih, List.map_cons]

/-- The only member with a key is found by it. -/
theorem find?_eq_some_of_nodup {α : Type} {key : α → String} {as : List α}
    (h : (as.map key).Nodup) {a : α} (ha : a ∈ as) :
    as.find? (fun x => key x == key a) = some a := by
  induction as with
  | nil => cases ha
  | cons x as ih =>
    obtain ⟨hnew, hrest⟩ := List.nodup_cons.mp (List.map_cons ▸ h)
    rcases List.mem_cons.mp ha with rfl | ha
    · simp
    · have hne : key x ≠ key a := fun heq => hnew (heq ▸ List.mem_map_of_mem ha)
      rw [List.find?_cons_of_neg (by simpa using hne), ih hrest ha]

section Outline

variable {info : Metadata} {o : Outline} {version : ScormVersion} {options : Options}

/-- The page of each lesson is found by the reference to its resource. -/
theorem page?_told (h : (lessonSegments o.launchable).Nodup) {l : OutlineLesson}
    (hl : l ∈ o.launchable.flatMap (·.lessons)) :
    (Manifest.ofOutline info o version options).told.page? (resourceId l.id) =
      some l.launch := by
  have hresources : (Manifest.ofOutline info o version options).told.resources =
      (o.launchable.flatMap (·.lessons)).map (lessonResource options) ++
        sharedResource options := by
    rw [List.map_flatMap]
    rfl
  have hnodup : (((o.launchable.flatMap (·.lessons)).map (lessonResource options)).map
      (·.identifier)).Nodup := by
    have hkeys : ((o.launchable.flatMap (·.lessons)).map (lessonResource options)).map
        (·.identifier) = (lessonSegments o.launchable).map ("RES-" ++ ·) := by
      simp [lessonSegments, lessonResource, resourceId, Function.comp_def]
    rw [hkeys]
    exact h.map fun s t heq => String.append_right_inj _ |>.mp heq
  have hfind : ((o.launchable.flatMap (·.lessons)).map (lessonResource options)).find?
      (fun r => r.identifier == resourceId l.id) = some (lessonResource options l) :=
    find?_eq_some_of_nodup hnodup (List.mem_map_of_mem hl)
  rw [Manifest.page?, hresources, List.find?_append, hfind]
  rfl

/-- A descriptor lists the modules of its outline that have lessons. -/
theorem listing?_document (h : (lessonSegments o.launchable).Nodup) :
    listing? (Manifest.ofOutline info o version options).document =
      some (o.launchable.map naming.module) := by
  have hlesson : ∀ l ∈ o.launchable.flatMap (·.lessons),
      (Manifest.ofOutline info o version options).told.lesson?
        (lessonItem options l).told = some (naming.lesson l) := by
    intro l hl
    have hpage : (Manifest.ofOutline info o version options).told.page? (resourceId l.id) =
        some l.launch := page?_told h hl
    simp only [lessonItem, Item.told, toldItems, Manifest.lesson?, hpage]
    rfl
  have hmodule : ∀ m ∈ o.launchable,
      (Manifest.ofOutline info o version options).told.module?
        (moduleItem options m).told = some (naming.module m) := by
    intro m hm
    have hlessons : ((m.lessons.map (lessonItem options)).map Item.told).mapM
        (Manifest.ofOutline info o version options).told.lesson? =
          some (m.lessons.map naming.lesson) := by
      rw [List.map_map, List.mapM_map]
      exact mapM_eq_some fun l hl => hlesson l (List.mem_flatMap.mpr ⟨m, hm, hl⟩)
    simp only [moduleItem, Item.told, toldItems_eq_map, Manifest.module?, hlessons]
    rfl
  have hitems : (Manifest.ofOutline info o version options).told.organization.items =
      (o.launchable.map (moduleItem options)).map Item.told := toldItems_eq_map _
  rw [listing?, ofDocument?_document, Option.bind_some, hitems, List.map_map, List.mapM_map]
  exact mapM_eq_some hmodule

end Outline

end Courseware.Descriptor.Scorm
