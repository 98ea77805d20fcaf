import Courseware.Proofs.Descriptor.ScormListing
import Courseware.Proofs.Descriptor.ScormReferences
import Courseware.Proofs.Package.Paths

/-!
# The identifiers in SCORM descriptors

The identifiers in a descriptor come in families: each starts with the mark of its family, and
behind it stands a path segment. As no mark starts another one, identifiers are different as
long as the segments within each family are.
-/

namespace Courseware.Descriptor.Scorm

open Markup Markup.Xml
open Package (gather gather_append gather_flatMap valuesIn tagValues tagValues_eq keyValues
  namesIn opened)
open Text (pathSegment isSegmentChar)

/-! ## Reading -/

/-- All attributes of a name in the tags among some events, whatever the tags are. -/
def attributesNamed (key : String) : List Event → List String :=
  opened fun _ attributes => (attributes.filter fun a => a.1 == key).map Prod.snd

theorem attributesNamed_eventsFrom (key : String) (pending : List Char) (tokens : List Token) :
    attributesNamed key (eventsFrom pending tokens) = gather (fun _ => keyValues key) tokens :=
  Package.opened_eventsFrom _ pending tokens

/-- When no element is left out, all attributes of a name count. -/
theorem gather_keyValues_eq (key : String) {elements : List String} {tokens : List Token}
    (h : namesIn tokens ⊆ elements) :
    gather (fun _ => keyValues key) tokens = valuesIn elements key tokens := by
  refine List.flatMap_congr fun t ht => ?_
  have hname : ∀ name attributes, t = .start name attributes ∨ t = .empty name attributes →
      elements.contains (Event.localName name) = true := by
    intro name attributes hopens
    refine List.contains_iff_mem.mpr (h (List.mem_flatMap.mpr ⟨t, ht, ?_⟩))
    rcases hopens with rfl | rfl <;> exact List.mem_cons_self
  cases t with
  | text w => rfl
  | start name attributes =>
    exact (if_pos (hname name attributes (Or.inl rfl))).symm
  | empty name attributes =>
    exact (if_pos (hname name attributes (Or.inr rfl))).symm
  | stop name => rfl
  | raw w => rfl

mutual

/-- The identifiers of an item and the items in it, in order. -/
def Item.identifiers : Item → List String
  | .node identifier _ _ _ _ children => identifier :: itemsIdentifiers children

def itemsIdentifiers : List Item → List String
  | [] => []
  | i :: is => i.identifiers ++ itemsIdentifiers is

end

mutual

theorem Item.identifiers_told : ∀ i : Item, i.told.identifiers = i.identifiers
  | .node identifier _ _ _ _ children => by
    rw [Item.told, Item.identifiers, Item.identifiers, identifiers_toldItems children]

/-- The identifiers are told as they are. -/
theorem identifiers_toldItems :
    ∀ is : List Item, itemsIdentifiers (toldItems is) = itemsIdentifiers is
  | [] => rfl
  | i :: is => by
    rw [toldItems, itemsIdentifiers, itemsIdentifiers, i.identifiers_told,
      identifiers_toldItems is]

end

mutual

theorem identifiers_item {elements : List String} (h : "item" ∈ elements)
    (version : ScormVersion) (level : Nat) :
    ∀ i : Item, valuesIn elements "identifier" (itemTokens version level i) = i.identifiers
  | .node identifier title resourceRef masteryScore timeLimitMinutes children => by
    have hlimits := valuesIn_limits elements (by decide : "identifier" ∉ _)
      version (level + 1) identifier masteryScore timeLimitMinutes
    rw [Item.identifiers, ← identifiers_items h version (level + 1) children]
    simp [itemTokens_node, hlimits, tagValues_eq, localName_item, keyValues_item, h]

theorem identifiers_items {elements : List String} (h : "item" ∈ elements)
    (version : ScormVersion) (level : Nat) :
    ∀ is : List Item,
      valuesIn elements "identifier" (itemsTokens version level is) = itemsIdentifiers is
  | [] => rfl
  | i :: is => by
    simp only [itemsTokens, gather_append, identifiers_item h version level i,
      identifiers_items h version level is, itemsIdentifiers]

end

theorem identifier_manifestAttributes (m : Manifest) :
    keyValues "identifier" (manifestAttributes m) = [m.identifier] := by
  have hnone : ((namespacePairs (profile m.version)).filter fun e => e.1 == "identifier") = [] := by
    refine List.filter_eq_nil_iff.mpr fun e he hkey => ?_
    have hnodup := (List.nodup_cons.mp (nodup_manifestAttributes m.version)).1
    exact hnodup (List.mem_cons_of_mem _ (List.mem_map.mpr ⟨e, he, beq_iff_eq.mp hkey⟩))
  rw [manifestAttributes_eq, Package.keyValues_cons, Package.keyValues_cons,
    keyValues_onLine (namespacePairs_plain m.version), hnone]
  simp

theorem identifier_resourceTokens {elements : List String} (h : "resource" ∈ elements)
    (version : ScormVersion) (r : FileGroup) :
    valuesIn elements "identifier" (resourceTokens version r) = [r.identifier] := by
  rw [valuesIn_resource, tagValues_eq, localName_resource,
    keyValues_resource version (by decide)]
  simp [tagValues_eq, Package.keyValues_cons, h]

def Manifest.identifiers (m : Manifest) : List String :=
  m.identifier :: m.organization.identifier ::
    itemsIdentifiers m.organization.items ++ m.resources.map (·.identifier)

theorem Manifest.identifiers_told (m : Manifest) : m.told.identifiers = m.identifiers := by
  have hitems : itemsIdentifiers m.told.organization.items =
      itemsIdentifiers m.organization.items := identifiers_toldItems _
  rw [identifiers, hitems]
  rfl

/-- All attributes in a document that are named so are the identifiers of its manifest. -/
theorem Manifest.attributesNamed_identifier (m : Manifest) (pending : List Char) :
    attributesNamed "identifier" (eventsFrom pending m.body) = m.identifiers := by
  have hsubset : namesIn m.body ⊆
      ["manifest", "organization", "item", "resource"] ++ namesIn m.body :=
    List.subset_append_right _ _
  rw [attributesNamed_eventsFrom, gather_keyValues_eq "identifier" hsubset,
    m.valuesIn_body _ (by decide), identifiers_items (by simp), Manifest.identifiers]
  simp [tagValues_eq, localName_manifest, localName_organization, Package.keyValues_cons,
    identifier_manifestAttributes, identifier_resourceTokens, ← List.map_eq_flatMap]

/-! ## Families of identifiers -/

/-- Whether a text starts with a letter and has only characters that are kept in path
segments. -/
def IsIdentifier (s : String) : Prop :=
  (∃ c, s.toList.head? = some c ∧ c.isAlpha = true) ∧
    ∀ c ∈ s.toList, isSegmentChar c = true

instance decidableStartsWithLetter (s : String) :
    Decidable (∃ c, s.toList.head? = some c ∧ c.isAlpha = true) :=
  match h : s.toList.head? with
  | none => isFalse (by simp)
  | some c => decidable_of_iff (c.isAlpha = true) (by simp)

instance (s : String) : Decidable (IsIdentifier s) :=
  inferInstanceAs (Decidable (_ ∧ _))

/-- Identifiers with a mark in front of segments. -/
structure Family where
  mark : String
  segments : List String

def Family.identifiers (f : Family) : List String := f.segments.map (f.mark ++ ·)

/-- Whether neither of two marks starts the other one. -/
def Family.Apart (f g : Family) : Prop :=
  ¬ f.mark.toList <+: g.mark.toList ∧ ¬ g.mark.toList <+: f.mark.toList

theorem Family.disjoint_identifiers {f g : Family} (h : f.Apart g) :
    f.identifiers.Disjoint g.identifiers := by
  intro s hf hg
  obtain ⟨t, -, rfl⟩ := List.mem_map.mp hf
  obtain ⟨u, -, heq⟩ := List.mem_map.mp hg
  have hleft : f.mark.toList <+: (f.mark ++ t).toList := by simp
  have hright : g.mark.toList <+: (f.mark ++ t).toList := by
    rw [← heq]
    simp
  exact (List.prefix_or_prefix_of_prefix hleft hright).elim h.1 h.2

/-- Identifiers of several families are different when those within each family are. -/
theorem nodup_flatMap_identifiers {families : List Family}
    (hnodup : ∀ f ∈ families, f.segments.Nodup) (hapart : families.Pairwise Family.Apart) :
    (families.flatMap Family.identifiers).Nodup := by
  refine List.nodup_flatMap.mpr ⟨fun f hf => ?_, hapart.imp Family.disjoint_identifiers⟩
  exact (hnodup f hf).map fun s t heq => String.append_right_inj _ |>.mp heq

theorem Family.isIdentifier {f : Family} (hmark : IsIdentifier f.mark)
    (hsegments : ∀ s ∈ f.segments, ∀ c ∈ s.toList, isSegmentChar c = true) :
    ∀ s ∈ f.identifiers, IsIdentifier s := by
  intro s hs
  obtain ⟨t, ht, rfl⟩ := List.mem_map.mp hs
  obtain ⟨⟨c, hc, halpha⟩, hchars⟩ := hmark
  refine ⟨⟨c, ?_, halpha⟩, ?_⟩
  · rw [String.toList_append, List.head?_append, hc, Option.some_or]
  · rw [String.toList_append]
    exact List.forall_mem_append.mpr ⟨hchars, hsegments t ht⟩

/-! ## Descriptors of outlines -/

def moduleSegments (o : Outline) : List String := o.map fun m => pathSegment m.id

/-- What stands behind the mark of the shared files, when there are some. -/
def sharedSegments (options : Options) : List String :=
  if options.sharedFiles.isEmpty then [] else ["ASSETS"]

/-- The families of identifiers in a descriptor: of the manifest, the organization, the modules,
the lessons, their resources and the shared files. -/
def families (info : Metadata) (o : Outline) (options : Options) : List Family :=
  [⟨"MANIFEST-", [pathSegment info.identifier]⟩, ⟨"ORG-", [pathSegment info.identifier]⟩,
    ⟨"MODULE-", moduleSegments o.launchable⟩, ⟨"ITEM-", lessonSegments o.launchable⟩,
    ⟨"RES-", lessonSegments o.launchable⟩,
    ⟨"SHARED-", sharedSegments options⟩]

theorem pairwise_apart_families (info : Metadata) (o : Outline) (options : Options) :
    (families info o options).Pairwise Family.Apart := by
  simp only [families, List.pairwise_cons, List.forall_mem_cons, Family.Apart]
  simp

section Outline

variable {info : Metadata} {o : Outline} {version : ScormVersion} {options : Options}

theorem nodup_families (hmodules : (moduleSegments o.launchable).Nodup)
    (hlessons : (lessonSegments o.launchable).Nodup) :
    ∀ f ∈ families info o options, f.segments.Nodup := by
  have hshared : (sharedSegments options).Nodup := by
    rw [sharedSegments]
    split <;> simp
  simp [families, hmodules, hlessons, hshared]

theorem isIdentifier_of_mem_families :
    ∀ s ∈ (families info o options).flatMap Family.identifiers, IsIdentifier s := by
  have hsegment : ∀ id : String, ∀ c ∈ (pathSegment id).toList, isSegmentChar c = true :=
    fun _ _ => Text.isSegmentChar_of_mem_pathSegment
  have hmodules : ∀ s ∈ moduleSegments o.launchable, ∀ c ∈ s.toList, isSegmentChar c = true :=
    List.forall_mem_map.mpr fun m _ => hsegment m.id
  have hlessons : ∀ s ∈ lessonSegments o.launchable, ∀ c ∈ s.toList, isSegmentChar c = true :=
    List.forall_mem_map.mpr fun l _ => hsegment l.id
  have hkey : ∀ s ∈ [pathSegment info.identifier], ∀ c ∈ s.toList, isSegmentChar c = true :=
    List.forall_mem_singleton.mpr (hsegment _)
  have hshared : ∀ s ∈ sharedSegments options, ∀ c ∈ s.toList, isSegmentChar c = true := by
    rw [sharedSegments]
    split
    · simp
    · decide
  have hmarks : ∀ mark ∈ (families info o options).map (·.mark), IsIdentifier mark := by
    change ∀ mark ∈ ["MANIFEST-", "ORG-", "MODULE-", "ITEM-", "RES-", "SHARED-"],
      IsIdentifier mark
    decide
  intro s hs
  obtain ⟨f, hf, hs⟩ := List.mem_flatMap.mp hs
  refine Family.isIdentifier (hmarks _ (List.mem_map_of_mem hf)) ?_ s hs
  · simp only [families, List.mem_cons, List.not_mem_nil, or_false] at hf
    rcases hf with rfl | rfl | rfl | rfl | rfl | rfl <;> assumption

theorem itemsIdentifiers_lessons (ls : List OutlineLesson) :
    itemsIdentifiers (ls.map (lessonItem options)) =
      ls.map fun l => "ITEM-" ++ pathSegment l.id := by
  induction ls with
  | nil => rfl
  | cons l ls ih =>
    rw [List.map_cons, itemsIdentifiers, ih]
    rfl

theorem itemsIdentifiers_modules (ms : Outline) :
    itemsIdentifiers (ms.map (moduleItem options)) =
      ms.flatMap fun m => ["MODULE-" ++ pathSegment m.id] ++
        m.lessons.map fun l => "ITEM-" ++ pathSegment l.id := by
  induction ms with
  | nil => rfl
  | cons m ms ih =>
    rw [List.map_cons, itemsIdentifiers, ih, moduleItem, Item.identifiers,
      itemsIdentifiers_lessons]
    rfl

theorem resources_ofOutline :
    (Manifest.ofOutline info o version options).resources =
      (o.launchable.flatMap (·.lessons)).map (lessonResource options) ++
        sharedResource options := by
  rw [List.map_flatMap]
  rfl

theorem identifiers_resources :
    (Manifest.ofOutline info o version options).resources.map (·.identifier) =
      (lessonSegments o.launchable).map ("RES-" ++ ·) ++
        (sharedSegments options).map ("SHARED-" ++ ·) := by
  have hlessons : ((o.launchable.flatMap (·.lessons)).map (lessonResource options)).map
      (·.identifier) = (lessonSegments o.launchable).map ("RES-" ++ ·) := by
    simp [lessonSegments, lessonResource, resourceId, Function.comp_def]
  have hshared : (sharedResource options).map (·.identifier) =
      (sharedSegments options).map ("SHARED-" ++ ·) := by
    rw [sharedResource, sharedSegments]
    split <;> rfl
  rw [resources_ofOutline, List.map_append, hlessons, hshared]

/-- The identifiers in a manifest are those of the families. -/
theorem perm_identifiers : (Manifest.ofOutline info o version options).identifiers.Perm
    ((families info o options).flatMap Family.identifiers) := by
  have hitems : (itemsIdentifiers (o.launchable.map (moduleItem options))).Perm
      ((moduleSegments o.launchable).map ("MODULE-" ++ ·) ++
        (lessonSegments o.launchable).map ("ITEM-" ++ ·)) := by
    rw [itemsIdentifiers_modules]
    refine (List.flatMap_append_perm _ _ _).symm.trans (List.Perm.of_eq ?_)
    simp [moduleSegments, lessonSegments, List.map_flatMap, Function.comp_def,
      ← List.map_eq_flatMap]
  rw [Manifest.identifiers, identifiers_resources]
  have hall := (hitems.append_right ((lessonSegments o.launchable).map ("RES-" ++ ·) ++
    (sharedSegments options).map ("SHARED-" ++ ·))).cons
      ("ORG-" ++ pathSegment info.identifier) |>.cons ("MANIFEST-" ++ pathSegment info.identifier)
  refine hall.trans (List.Perm.of_eq ?_)
  simp [families, Family.identifiers]

theorem isIdentifier_of_mem_identifiers :
    ∀ s ∈ (Manifest.ofOutline info o version options).identifiers, IsIdentifier s :=
  fun s hs => isIdentifier_of_mem_families s (perm_identifiers.mem_iff.mp hs)

theorem nodup_identifiers (hmodules : (moduleSegments o.launchable).Nodup)
    (hlessons : (lessonSegments o.launchable).Nodup) :
    (Manifest.ofOutline info o version options).identifiers.Nodup := by
  rw [perm_identifiers.nodup_iff]
  exact nodup_flatMap_identifiers (nodup_families hmodules hlessons)
    (pairwise_apart_families info o options)

theorem nodup_identifiers_resources (hmodules : (moduleSegments o.launchable).Nodup)
    (hlessons : (lessonSegments o.launchable).Nodup) :
    ((Manifest.ofOutline info o version options).resources.map (·.identifier)).Nodup :=
  (nodup_identifiers hmodules hlessons).of_append_right

end Outline

/-! ## References -/

/-- The only member with a text in its list, when no text stands twice in all lists. -/
theorem filter_contains_eq_singleton {α : Type} {as : List α} {f : α → List String}
    (h : (as.flatMap f).Nodup) {a : α} (ha : a ∈ as) {s : String} (hs : s ∈ f a) :
    (as.filter fun x => (f x).contains s) = [a] := by
  induction as with
  | nil => cases ha
  | cons x as ih =>
    rw [List.flatMap_cons, List.nodup_append] at h
    obtain ⟨-, hrest, hdisjoint⟩ := h
    rcases List.mem_cons.mp ha with rfl | ha
    · have hnone : (as.filter fun x => (f x).contains s) = [] := by
        refine List.filter_eq_nil_iff.mpr fun y hy hmem => ?_
        exact hdisjoint s hs s
          (List.mem_flatMap.mpr ⟨y, hy, List.contains_iff_mem.mp hmem⟩) rfl
      rw [List.filter_cons, if_pos (List.contains_iff_mem.mpr hs), hnone]
    · have hnot : ¬ (f x).contains s = true := fun hmem =>
        hdisjoint s (List.contains_iff_mem.mp hmem) s
          (List.mem_flatMap.mpr ⟨a, ha, hs⟩) rfl
      rw [List.filter_cons, if_neg hnot, ih hrest ha]

/-- The only member with a key, when no two have the same. -/
theorem filter_key_eq_singleton {α : Type} {as : List α} {key : α → String}
    (h : (as.map key).Nodup) {a : α} (ha : a ∈ as) :
    (as.filter fun x => key x == key a) = [a] := by
  rw [List.map_eq_flatMap] at h
  rw [← filter_contains_eq_singleton h ha List.mem_cons_self]
  refine List.filter_congr fun x _ => ?_
  simp [eq_comm, Bool.beq_eq_decide_eq]

def Item.identifier : Item → String
  | .node identifier _ _ _ _ _ => identifier

def Item.reference? : Item → Option String
  | .node _ _ reference _ _ _ => reference

def Item.children : Item → List Item
  | .node _ _ _ _ _ children => children

/-- The items of lessons: those in the items of modules. -/
def Manifest.lessonItems (m : Manifest) : List Item := m.organization.items.flatMap Item.children

/-- Whether an item with an identifier refers to one resource alone, which starts with a
page. -/
def Manifest.Launches (m : Manifest) (identifier page : String) (i : Item) : Prop :=
  i.identifier = identifier ∧ ∃ reference r, i.reference? = some reference ∧
    (m.resources.filter fun r => r.identifier == reference) = [r] ∧ r.href = some page

section Outline

variable {info : Metadata} {o : Outline} {version : ScormVersion} {options : Options}

theorem lessonItems_told :
    (Manifest.ofOutline info o version options).told.lessonItems =
      (o.launchable.flatMap (·.lessons)).map fun l => (lessonItem options l).told := by
  have hitems : (Manifest.ofOutline info o version options).told.organization.items =
      (o.launchable.map (moduleItem options)).map Item.told := toldItems_eq_map _
  rw [Manifest.lessonItems, hitems, List.map_map, List.flatMap_map, List.map_flatMap]
  refine List.flatMap_congr fun m _ => ?_
  change toldItems (m.lessons.map (lessonItem options)) = _
  rw [toldItems_eq_map, List.map_map]
  rfl

/-- The item of each lesson leads to the page of the lesson. -/
theorem forall₂_launches_told (hmodules : (moduleSegments o.launchable).Nodup)
    (hlessons : (lessonSegments o.launchable).Nodup) :
    List.Forall₂ (fun i l => (Manifest.ofOutline info o version options).told.Launches
        ("ITEM-" ++ pathSegment l.id) l.launch i)
      (Manifest.ofOutline info o version options).told.lessonItems
      (o.launchable.flatMap (·.lessons)) := by
  rw [lessonItems_told, List.forall₂_map_left_iff, List.forall₂_same]
  intro l hl
  have hresource : lessonResource options l ∈
      (Manifest.ofOutline info o version options).resources := by
    rw [resources_ofOutline]
    exact List.mem_append_left _ (List.mem_map_of_mem hl)
  exact ⟨rfl, resourceId l.id, lessonResource options l, rfl,
    filter_key_eq_singleton (nodup_identifiers_resources hmodules hlessons) hresource, rfl⟩

/-- The files of the resources are those of the lessons and the shared ones. -/
theorem files_ofOutline :
    (Manifest.ofOutline info o version options).resources.flatMap (·.files) =
      ((o.launchable.flatMap (·.lessons)).flatMap fun l => l.launch :: l.files) ++
        options.sharedFiles := by
  have hshared : (sharedResource options).flatMap (·.files) = options.sharedFiles := by
    rw [sharedResource]
    split
    · rename_i hempty
      rw [List.isEmpty_iff.mp hempty]
      rfl
    · simp
  rw [resources_ofOutline, List.flatMap_append, hshared, List.flatMap_map]
  rfl

end Outline

end Courseware.Descriptor.Scorm
