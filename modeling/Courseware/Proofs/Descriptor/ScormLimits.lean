import Courseware.Proofs.Decimal.Value
import Courseware.Proofs.Descriptor.ScormListing

/-!
# The limits of lessons in SCORM descriptors

The element of a lesson tells the score to pass with and the time limit, each version of the
schema in its own form. What a document is read back as says what its elements tell.
-/

namespace Courseware.Descriptor.Scorm

open Markup

/-! ## Reading -/

/-- The elements of the lessons in a document: the items in items. -/
def lessonNodes (root : Node) : List Node :=
  Node.select ["organizations", "organization", "item", "item"] root.children

/-- The page that the element of a lesson leads to. -/
def page? (root n : Node) : Option String := do
  let m ← manifest? root
  m.page? (← n.attribute? "identifierref")

/-- The score to pass a lesson with in percent, when its element tells one. Version 2004 tells
it as a part of one. -/
def passingScore? : ScormVersion → Node → Option (Option ℚ)
  | .v12, n => Node.optional? (fun s => Decimal.value? s.content)
      (Node.select ["adlcp:masteryscore"] n.children)
  | .v2004, n => Node.optional? (fun s => (Decimal.value? s.content).map (100 * ·))
      (Node.select ["imsss:sequencing", "imsss:objectives", "imsss:primaryObjective",
        "imsss:minNormalizedMeasure"] n.children)

/-- The time limit of a lesson in seconds, when its element tells one. -/
def timeLimit? : ScormVersion → Node → Option (Option Nat)
  | .v12, n => Node.optional? (fun t => Time.secondsOfTimespan? t.content)
      (Node.select ["adlcp:maxtimeallowed"] n.children)
  | .v2004, n => Node.optional?
      (fun t => (t.attribute? "attemptAbsoluteDurationLimit").bind Time.secondsOfIso8601?)
      (Node.select ["imsss:sequencing", "imsss:limitConditions"] n.children)

/-! ## Numbers -/

theorem eq_of_minutes? {seconds minutes : Nat} (h : minutes? seconds = some minutes) :
    seconds = minutes * 60 := by
  rw [minutes?] at h
  split at h
  · obtain rfl := Option.some.inj h
    omega
  · cases h

/-- A percentage that a decimal tells is a hundred times its number. -/
theorem value?_of_percent? {s : String} {percent : Nat} (h : percent? s = some percent) :
    (Decimal.value? s).map (100 * ·) = some (percent : ℚ) := by
  rw [percent?] at h
  rw [Decimal.value?]
  generalize Time.cutAt '.' s.toList = parts at h ⊢
  obtain ⟨whole, places⟩ := parts
  simp only at h ⊢
  split at h
  · rename_i hlength
    obtain ⟨k, hk⟩ := Nat.exists_eq_add_of_le hlength
    have hpadded : (places ++ List.replicate 2 '0').take 2 = places ++ List.replicate k '0' := by
      rw [List.take_append, List.take_of_length_le hlength, List.take_replicate]
      congr 2
      omega
    rw [show ['0', '0'] = List.replicate 2 '0' from rfl, hpadded] at h
    obtain ⟨n, rest, hn, hrest, rfl⟩ := Decimal.digits?_append (Decimal.digits?_of_number? h)
    obtain ⟨m, z, hm, hzeros, rfl⟩ := Decimal.digits?_append hrest
    obtain rfl := Option.some.inj ((Decimal.digits?_zeros k).symm.trans hzeros)
    have hvalue := Decimal.hundred_mul_eq (n := n) (m := m) hk
    simp only [hn, hm, bind, Option.bind_some, pure, Option.map_some, hvalue, List.length_append,
      List.length_replicate, Nat.add_zero]
  · cases h

/-! ## Elements -/

variable {version : ScormVersion}

/-- The limits that an element is read with, as its own elements tell them. -/
theorem limits_of_limits? {n : Node} {score time : Option Nat}
    (h : limits? version n.children = some (score, time)) :
    passingScore? version n = some (score.map (↑)) ∧
      timeLimit? version n = some (time.map (· * 60)) := by
  cases version with
  | v12 =>
    simp only [limits?, bind, Option.bind_eq_some_iff] at h
    obtain ⟨_, hscore, _, htime, hpair⟩ := h
    obtain ⟨rfl, rfl⟩ := Prod.mk.inj (Option.some.inj hpair)
    refine ⟨Node.optional?_eq_some (fun n a ha => Decimal.value?_of_number? ha) hscore,
      Node.optional?_eq_some (fun n a ha => ?_) htime⟩
    obtain ⟨seconds, hseconds, hminutes⟩ := Option.bind_eq_some_iff.mp ha
    rw [hseconds, eq_of_minutes? hminutes]
  | v2004 =>
    simp only [limits?, bind, Option.bind_eq_some_iff] at h
    obtain ⟨_, hscore, _, htime, hpair⟩ := h
    obtain ⟨rfl, rfl⟩ := Prod.mk.inj (Option.some.inj hpair)
    refine ⟨Node.optional?_eq_some (fun n a ha => value?_of_percent? ha) hscore,
      Node.optional?_eq_some (fun n a ha => ?_) htime⟩
    obtain ⟨limit, hlimit, hread⟩ := Option.bind_eq_some_iff.mp ha
    obtain ⟨seconds, hseconds, hminutes⟩ := Option.bind_eq_some_iff.mp hread
    rw [hlimit, Option.bind_some, hseconds, eq_of_minutes? hminutes]

theorem items?_eq_mapM (version : ScormVersion) (nodes : List Node) :
    items? version nodes = (Node.named "item" nodes).mapM (item? version) := by
  induction nodes with
  | nil => rfl
  | cons n ns ih =>
    rw [items?, Node.named_cons]
    split
    · rw [List.mapM_cons, ih]
      
    · exact ih
theorem forall₂_of_items? {nodes : List Node} {is : List Item}
    (h : items? version nodes = some is) :
    List.Forall₂ (fun m i => item? version m = some i)
      (Node.named "item" (Node.elements nodes)) is := by
  rw [← items?_elements, items?_eq_mapM] at h
  exact Node.forall₂_of_mapM h

theorem of_item? {n : Node} {identifier title : String} {reference : Option String}
    {score time : Option Nat} {children : List Item}
    (h : item? version n = some (.node identifier title reference score time children)) :
    n.attribute? "identifierref" = reference ∧ limits? version n.children = some (score, time) ∧
      List.Forall₂ (fun m i => item? version m = some i) (Node.named "item" n.children)
        children := by
  cases n with
  | character c => cases h
  | element name attributes nodes =>
    rw [item?] at h
    split at h
    · cases h
    · simp only [bind, Option.bind_eq_some_iff] at h
      obtain ⟨_, _, _, _, ⟨_, _⟩, hlimits, _, hitems, hnode⟩ := h
      obtain ⟨rfl, rfl, rfl, rfl, rfl, rfl⟩ := Item.node.inj (Option.some.inj hnode)
      exact ⟨rfl, hlimits, forall₂_of_items? hitems⟩

/-- The elements of the items at the top of a document, and those in them. -/
theorem lessonNodes_eq {root n : Node}
    (h : Node.select ["organizations", "organization"] root.children = [n]) :
    lessonNodes root =
      (Node.named "item" n.children).flatMap fun m => Node.named "item" m.children := by
  have hitems : lessonNodes root = Node.named "item" ((Node.named "item"
      ((Node.select ["organizations", "organization"] root.children).flatMap
        Node.children)).flatMap Node.children) := rfl
  rw [hitems, h, List.flatMap_singleton, Node.named, List.filter_flatMap]
  rfl

theorem of_organization? {n : Node} {organization : Organization}
    (h : organization? version n = some organization) :
    List.Forall₂ (fun m i => item? version m = some i) (Node.named "item" n.children)
      organization.items := by
  cases n with
  | character c => cases h
  | element name attributes nodes =>
    simp only [organization?, bind, pure, Option.bind_eq_some_iff, Option.some.injEq] at h
    obtain ⟨_, _, _, _, items, hitems, rfl⟩ := h
    exact forall₂_of_items? hitems

theorem of_manifest? {root : Node} {m : Manifest} (h : manifest? root = some m) :
    ∃ n, Node.select ["organizations", "organization"] root.children = [n] ∧
      organization? m.version n = some m.organization := by
  simp only [manifest?, bind, pure, Option.bind_eq_some_iff, Option.some.injEq] at h
  obtain ⟨_, _, _, _, _, _, _, _, n, honly, _, horganization, _, _, rfl⟩ := h
  exact ⟨n, Node.eq_singleton_of_only? honly, horganization⟩

/-- What the element of a lesson tells: its page, its score and its time limit. -/
structure TellsLesson (version : ScormVersion) (root : Node) (page : String)
    (score time : Option Nat) (n : Node) : Prop where
  page : page? root n = some page
  passingScore : passingScore? version n = some (score.map (↑))
  timeLimit : timeLimit? version n = some (time.map (· * 60))

variable {info : Metadata} {o : Outline} {options : Options}

/-- The elements of the lessons in a document are read as the items of the lessons. -/
theorem forall₂_lessonNodes {root : Node}
    (h : manifest? root = some (Manifest.ofOutline info o version options).told) :
    List.Forall₂ (fun l n => item? version n = some (lessonItem options l).told)
      (o.launchable.flatMap (·.lessons)) (lessonNodes root) := by
  obtain ⟨n, hselect, horganization⟩ := of_manifest? h
  have htold : (Manifest.ofOutline info o version options).told.organization.items =
      o.launchable.map fun m => (moduleItem options m).told :=
    (toldItems_eq_map _).trans List.map_map
  have hmodules := of_organization? horganization
  rw [htold, List.forall₂_map_right_iff] at hmodules
  rw [lessonNodes_eq hselect]
  refine List.rel_flatMap hmodules.flip fun m n hmodule => ?_
  obtain ⟨-, -, hlessons⟩ := of_item? hmodule
  rw [toldItems_eq_map, List.map_map, List.forall₂_map_right_iff] at hlessons
  exact hlessons.flip

/-- The element of each lesson tells the page of the lesson, and the score and the time limit
that hold for all lessons. -/
theorem exists_lessonNodes (h : (lessonSegments o.launchable).Nodup) :
    ∃ root, root? .xml (Manifest.ofOutline info o version options).document = some root ∧
      List.Forall₂ (fun l n => TellsLesson version root l.launch
          (options.masteryScore.map (min · 100)) options.timeLimitMinutes n)
        (o.launchable.flatMap (·.lessons)) (lessonNodes root) := by
  obtain ⟨root, hroot, hnamed⟩ := Option.bind_eq_some_iff.mp
    (ofDocument?_document (Manifest.ofOutline info o version options))
  have hmanifest : manifest? root = some (Manifest.ofOutline info o version options).told := by
    split at hnamed
    · exact hnamed
    · cases hnamed
  refine ⟨root, hroot, forall₂_imp_of_mem (forall₂_lessonNodes hmanifest)
    fun l hl n hitem => ?_⟩
  have hpage : (Manifest.ofOutline info o version options).told.page? (resourceId l.id) =
      some l.launch := page?_told h hl
  obtain ⟨hreference, hlimits, -⟩ := of_item? hitem
  obtain ⟨hscore, htime⟩ := limits_of_limits? hlimits
  refine ⟨?_, hscore, htime⟩
  simp only [page?, hmanifest, hreference, hpage, bind, Option.bind_some]

end Courseware.Descriptor.Scorm
