import Courseware.Proofs.Descriptor.Listing
import Courseware.Proofs.Descriptor.TinCan
import Courseware.Proofs.Markup.Layout

/-!
# A reader of xAPI descriptors

The reader recovers the activities of a descriptor. They are listed as the lessons of
the modules that they follow.
-/

namespace Courseware.Descriptor.TinCan

open Markup Markup.Reader Markup.Xml

/-! ## Reading -/

/-- The kind of activity that an address stands for. -/
def type? (iri : String) : Option ActivityType :=
  [.course, .courseModule, .lesson, .interaction, .question].find? fun t =>
    ActivityType.iri t == iri

def activity? (n : Node) : Option Activity := do
  let id ← n.attribute? "id"
  let type ← (n.attribute? "type").bind type?
  let name ← Node.only? (Node.named "name" n.children)
  let description ← Node.only? (Node.named "description" n.children)
  let launch ← Node.optional? (fun n => some n.content) (Node.named "launch" n.children)
  return ⟨id, type, name.content, description.content, launch⟩

/-- The activities that a document describes. -/
def activities? (s : String) : Option (List Activity) :=
  (root? .xml s).bind fun n =>
    if n.name? = some "tincan" then
      (Node.select ["activities", "activity"] n.children).mapM activity?
    else none

/-- The language of the texts in an element, which all of them have. -/
def language? (n : Node) : Option String := do
  let name ← Node.only? (Node.named "name" n.children)
  let language ← name.attribute? "lang"
  if n.children.all (fun m => m.attribute? "lang" == some language) then language else none

/-- The activities that a document describes, each with the language of its texts. -/
def spoken? (s : String) : Option (List (String × Activity)) :=
  (root? .xml s).bind fun n =>
    if n.name? = some "tincan" then
      (Node.select ["activities", "activity"] n.children).mapM fun m => do
        return (← language? m, ← activity? m)
    else none

/-- The lessons that stand first among some activities, and the modules behind them. -/
def gather : List Activity → List ListedLesson × Listing
  | [] => ([], [])
  | a :: as =>
    let (lessons, modules) := gather as
    if a.type = .courseModule then ([], ⟨a.id, a.name, lessons⟩ :: modules)
    else (⟨a.id, a.name, a.launch⟩ :: lessons, modules)

/-- What a document lists: behind the course the modules, each with the lessons that
follow it. -/
def listing? (s : String) : Option Listing :=
  (activities? s).bind fun
    | [] => none
    | course :: rest =>
      if course.type = .course ∧
          rest.all (fun a => a.type = .courseModule ∨ a.type = .lesson) = true then
        match gather rest with
        | ([], modules) => some modules
        | _ => none
      else none

/-! ## Writing -/

theorem type?_iri (type : ActivityType) : type? type.iri = some type := by
  cases type <;> decide

def saidNode (language name s : String) : Node :=
  .element name [("lang", language)] (Node.ofText s)

@[simp] theorem name?_saidNode (language name s : String) :
    (saidNode language name s).name? = some name := rfl

@[simp] theorem content_saidNode (language name s : String) :
    (saidNode language name s).content = s :=
  Node.content_ofText ..

theorem lays_langText {name : String} (hname : IsName name) (language s : String) :
    Lays .xml (langText name language s) [saidNode language name s] :=
  Lays.leaf hname (.cons (spellsAttribute_ofText (isName_ofList (by decide)) language) .nil) 3 s

/-- Whether an element is that of an activity. -/
structure WritesActivity (language : String) (a : Activity) (n : Node) : Prop where
  name : n.name? = some "activity"
  id : n.attribute? "id" = some a.id
  type : n.attribute? "type" = some a.type.iri
  children : n.children =
    [saidNode language "name" a.name, saidNode language "description" a.description] ++
      a.launch.toList.map (saidNode language "launch")

theorem exists_activity (language : String) (a : Activity) :
    ∃ n, Lays .xml (activityTokens language a) [n] ∧ WritesActivity language a n := by
  have hattributes : List.Forall₂ (SpellsAttribute .xml)
      [attr "id" a.id, fixed "type" a.type.iri] [("id", a.id), ("type", a.type.iri)] :=
    .cons (spellsAttribute_ofText (isName_ofList (by decide)) a.id)
      (.cons (spellsAttribute_literal (isName_ofList (by decide)) (isPlainValue_iri a.type)) .nil)
  have hlaunch : Lays .xml (whenSome a.launch fun l => langText "launch" language l)
      (a.launch.toList.map (saidNode language "launch")) := by
    cases a.launch with
    | none => exact Lays.nil
    | some l => exact lays_langText (isName_ofList (by decide)) language l
  obtain ⟨nodes, hlays, hnodes⟩ := Lays.exists_blockElement
    (isName_ofList (by decide) : IsName "activity") (isContainer_xml _) hattributes
    (((lays_langText (isName_ofList (by decide) : IsName "name") language a.name).append
      (lays_langText (isName_ofList (by decide) : IsName "description") language
        a.description)).append hlaunch) 2
  exact ⟨_, hlays, rfl, rfl, rfl, hnodes⟩

variable {language : String} {a : Activity} {n : Node}

theorem WritesActivity.activity?_eq (h : WritesActivity language a n) :
    activity? n = some a := by
  have htype : (n.attribute? "type").bind type? = some a.type := by
    rw [h.type]
    exact type?_iri a.type
  have hname : Node.named "name" n.children = [saidNode language "name" a.name] := by
    rw [h.children]
    cases a.launch <;> simp
  have hdescription : Node.named "description" n.children =
      [saidNode language "description" a.description] := by
    rw [h.children]
    cases a.launch <;> simp
  have hplace : Node.optional? (fun n => some n.content) (Node.named "launch" n.children) =
      some a.launch := by
    rw [h.children]
    cases a.launch <;> simp [Node.optional?]
  simp [activity?, h.id, htype, hname, hdescription, hplace, Node.only?]

/-- The texts of an activity are in one language. -/
theorem WritesActivity.language?_eq (h : WritesActivity language a n) :
    language? n = some language := by
  rw [language?, h.children]
  cases a.launch <;> simp [saidNode, Node.only?]

/-- The document of a list has one element, with the elements of the activities in it. -/
theorem exists_activityNodes (l : ActivityList) :
    ∃ root, root? .xml l.document = some root ∧ root.name? = some "tincan" ∧
      List.Forall₂ (WritesActivity l.language) l.activities
        (Node.select ["activities", "activity"] root.children) := by
  obtain ⟨activities, hactivities, hwrites⟩ := Lays.exists_flatMap
    fun a (_ : a ∈ l.activities) => exists_activity l.language a
  obtain ⟨inner, hinner, hinside⟩ := Lays.exists_blockElement
    (isName_ofList (by decide) : IsName "activities") (isContainer_xml _) .nil hactivities 1
  obtain ⟨nodes, hlays, hnodes⟩ := Lays.exists_blockElement
    (isName_ofList (by decide) : IsName "tincan") (isContainer_xml _)
    (.cons (spellsAttribute_literal (isName_ofList (by decide) : IsName "xmlns")
      (isPlainValue_ofList (by decide) :
        IsPlainValue "http://projecttincan.com/tincan.xsd")) .nil) hinner 0
  have hdeclaration : Lays .xml
      (declaration "<?xml version=\"1.0\" encoding=\"utf-8\" ?>") [] :=
    Lays.declaration (by decide)
  have hnames : ∀ n ∈ activities, n.name? = some "activity" :=
    Node.forall_of_forall₂ (hwrites.imp fun _ _ h => h.name)
  refine ⟨_, (hdeclaration.append hlays).root?_eq, rfl, ?_⟩
  simpa [hnodes, hinside, Node.select, Node.named_eq_self hnames] using hwrites

/-- The activities of a document are read back. -/
theorem activities?_document (l : ActivityList) :
    activities? l.document = some l.activities := by
  obtain ⟨root, hroot, hname, hwrites⟩ := exists_activityNodes l
  have hread := Node.mapM_of_forall₂ (f := activity?) (g := id)
    (hwrites.imp fun _ _ h => h.activity?_eq)
  rw [activities?, hroot, Option.bind_some, if_pos hname, hread, List.map_id]

/-- The activities of a document are read back, each with the language of the list. -/
theorem spoken?_document (l : ActivityList) :
    spoken? l.document = some (l.activities.map fun a => (l.language, a)) := by
  obtain ⟨root, hroot, hname, hwrites⟩ := exists_activityNodes l
  rw [spoken?, hroot, Option.bind_some, if_pos hname]
  apply Node.mapM_of_forall₂
  refine hwrites.imp fun _ _ h => ?_
  simp [h.language?_eq, h.activity?_eq]

/-! ## Outlines -/

/-- Modules and lessons are named by the identifiers of their activities. -/
def naming (ids : ActivityIds) : Naming := ⟨ids.forModule, ids.forLesson, false⟩

theorem gather_outline (ids : ActivityIds) (o : Outline) :
    gather (o.flatMap (moduleActivities ids)) = ([], o.map (naming ids).module) := by
  have hlessons : ∀ (ls : List OutlineLesson) (as : List Activity),
      gather ((ls.map fun l => ⟨ids.forLesson l.id, .lesson, l.title,
        l.description.getD "", none⟩) ++ as) =
          (ls.map (naming ids).lesson ++ (gather as).1, (gather as).2) := by
    intro ls as
    induction ls with
    | nil => rfl
    | cons l ls ih =>
      rw [List.map_cons, List.cons_append, gather, ih]
      rfl
  induction o with
  | nil => rfl
  | cons m ms ih =>
    rw [List.flatMap_cons, moduleActivities, List.cons_append, gather, hlessons, ih]
    simp [naming, Naming.module]

/-- A descriptor lists all modules of its outline. -/
theorem listing?_document (info : Metadata) (o : Outline) (ids : ActivityIds)
    (start : String) :
    listing? (ActivityList.ofOutline info o ids start).document =
      some (o.map (naming ids).module) := by
  have htypes : ∀ a ∈ o.flatMap (moduleActivities ids),
      a.type = .courseModule ∨ a.type = .lesson := by
    intro a ha
    obtain ⟨m, -, ha⟩ := List.mem_flatMap.mp ha
    rcases List.mem_cons.mp ha with rfl | ha
    · exact Or.inl rfl
    · obtain ⟨l, -, rfl⟩ := List.mem_map.mp ha
      exact Or.inr rfl
  have hall : ((o.flatMap (moduleActivities ids)).all fun a =>
      a.type = .courseModule ∨ a.type = .lesson) = true :=
    List.all_eq_true.mpr fun a ha => decide_eq_true (htypes a ha)
  rw [listing?, activities?_document, ActivityList.ofOutline, Option.bind_some]
  simp only [hall, and_self, if_true, gather_outline]

end Courseware.Descriptor.TinCan
