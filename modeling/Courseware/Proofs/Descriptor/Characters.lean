import Courseware.Descriptor.TinCan
import Courseware.Proofs.Decimal.Numeral
import Courseware.Proofs.Markup.Characters
import Courseware.Proofs.Package.Scorm
import Courseware.Proofs.Time.Duration

/-!
# The characters of descriptors

A descriptor in XML is made of characters that XML allows when the texts that it repeats
are, and only then.
-/

namespace Courseware

open Text (IsXmlText)
open Markup (IsXml)

/-! ## Numbers, identifiers and kinds -/

theorem isXmlText_of_isNumeral {s : String} (h : Decimal.IsNumeral s.toList) :
    IsXmlText s := by
  refine Text.isXmlText_of_range fun c hc => ?_
  have hchar := h c hc
  rw [Decimal.isNumeralChar, Bool.or_eq_true] at hchar
  rcases hchar with hdigit | hsign
  · have hrange := Char.isDigit_iff_toNat.mp hdigit
    have hzero : '0'.toNat = 48 := rfl
    have hnine : '9'.toNat = 57 := rfl
    omega
  · simp only [List.contains_iff_mem, List.mem_cons, List.not_mem_nil, or_false] at hsign
    rcases hsign with rfl | rfl | rfl | rfl <;> decide

@[simp] theorem isXmlText_repr (n : Nat) : IsXmlText n.repr := by
  refine isXmlText_of_isNumeral ?_
  rw [show n.repr = toString n from rfl, Time.toList_toString]
  exact Decimal.isNumeral_digits n

namespace Time

theorem isXmlText_timespan (seconds : Nat) : IsXmlText (timespan seconds) := by
  have hpair : ∀ n, IsXmlText (twoDigits n) := by
    intro n
    have hzero : IsXmlText "0" := by decide
    rw [twoDigits]
    split <;> simp [hzero]
  have hcolon : IsXmlText ":" := by decide
  simp [timespan, hpair, hcolon]

theorem isXmlText_iso8601 (seconds : Nat) : IsXmlText (iso8601 seconds) := by
  have hcomponent : ∀ n mark, IsXmlText mark → IsXmlText (component n mark) := by
    intro n mark hmark
    rw [component]
    split
    · decide
    · simp [hmark]
  have hstart : IsXmlText "PT" := by decide
  rw [iso8601]
  split
  · decide
  · simp [hstart, hcomponent _ "H" (by decide), hcomponent _ "M" (by decide),
      hcomponent _ "S" (by decide)]

end Time

namespace ActivityIds

@[simp] theorem isXmlText_forModule (ids : ActivityIds) (id : String) :
    IsXmlText (ids.forModule id) ↔ IsXmlText ids.course := by
  have hfixed : IsXmlText "/modules/" := by decide
  simp [forModule, hfixed]

@[simp] theorem isXmlText_forLesson (ids : ActivityIds) (id : String) :
    IsXmlText (ids.forLesson id) ↔ IsXmlText ids.course := by
  have hfixed : IsXmlText "/lessons/" := by decide
  simp [forLesson, hfixed]

end ActivityIds

@[simp] theorem ActivityType.isXmlText_iri (type : ActivityType) : IsXmlText type.iri := by
  cases type <;> decide

namespace Descriptor

variable (info : Metadata) (o : Outline) (ids : ActivityIds)

/-- Whether what is said of the lessons of a module may stand in a document. -/
def OutlineModule.IsXml (m : OutlineModule) : Prop :=
  IsXmlText m.title ∧ IsXmlText (m.description.getD "") ∧
    ∀ l ∈ m.lessons, IsXmlText l.title ∧ IsXmlText (l.description.getD "")

/-! ## Activities -/

namespace TinCan

theorem isXml_langText {name : String} (hname : IsXmlText name) (language s : String) :
    IsXml (langText name language s) ↔ IsXmlText language ∧ IsXmlText s := by
  simp (disch := first | exact hname | decide) [langText]

theorem isXml_activity (language : String) (a : Activity) :
    IsXml (activityTokens language a) ↔
      IsXmlText a.id ∧ IsXmlText language ∧ IsXmlText a.name ∧ IsXmlText a.description ∧
        ∀ s ∈ a.launch, IsXmlText s := by
  have hlaunch : (∀ s ∈ a.launch, IsXml (langText "launch" language s)) ↔
      ∀ s ∈ a.launch, IsXmlText language ∧ IsXmlText s :=
    forall₂_congr fun s _ => isXml_langText (by decide) language s
  have hname := isXml_langText (by decide : IsXmlText "name") language a.name
  have hdescription :=
    isXml_langText (by decide : IsXmlText "description") language a.description
  have hid : (Markup.Xml.attr "id" a.id).IsXml ↔ IsXmlText a.id := by simp (disch := decide)
  have htype : (Markup.Xml.fixed "type" a.type.iri).IsXml := by simp (disch := decide)
  rw [activityTokens, Markup.isXml_blockElement 2 (by decide), Markup.isXml_append,
    Markup.isXml_append, Markup.isXml_whenSome, hname, hdescription, hlaunch]
  grind

theorem isXml_moduleActivities (language : String) (m : OutlineModule) :
    IsXml ((moduleActivities ids m).flatMap (activityTokens language)) ↔
      IsXmlText ids.course ∧ IsXmlText language ∧ m.IsXml := by
  have hlessons : IsXml ((m.lessons.map fun l =>
      (⟨ids.forLesson l.id, .lesson, l.title, l.description.getD "", none⟩ : Activity)).flatMap
        (activityTokens language)) ↔ ∀ l ∈ m.lessons, IsXmlText ids.course ∧
          IsXmlText language ∧ IsXmlText l.title ∧ IsXmlText (l.description.getD "") := by
    simp [isXml_activity]
  rw [moduleActivities, List.flatMap_cons, Markup.isXml_append, hlessons, isXml_activity,
    OutlineModule.IsXml, ActivityIds.isXmlText_forModule]
  grind

/-- The texts that decide whether a document of activities has only characters that it may
have. -/
theorem isXmlText_document (launch : String) :
    IsXmlText (ActivityList.ofOutline info o ids launch).document ↔
      IsXmlText ids.course ∧ IsXmlText info.language ∧ IsXmlText info.title ∧
        IsXmlText info.description ∧ IsXmlText launch ∧ ∀ m ∈ o, m.IsXml := by
  have hmodules : IsXml ((o.flatMap (moduleActivities ids)).flatMap
      (activityTokens info.language)) ↔ ∀ m ∈ o, IsXmlText ids.course ∧
        IsXmlText info.language ∧ m.IsXml := by
    rw [List.flatMap_assoc, Markup.isXml_flatMap]
    exact forall₂_congr fun m _ => isXml_moduleActivities ids info.language m
  have hspace : (Markup.Xml.fixed "xmlns" "http://projecttincan.com/tincan.xsd").IsXml :=
    (Markup.Attribute.isXml_fixed (by decide) _).mpr (by decide)
  have hdeclaration :
      IsXml (Markup.Xml.declaration "<?xml version=\"1.0\" encoding=\"utf-8\" ?>") :=
    Markup.isXml_declaration (by decide)
  rw [ActivityList.document, Markup.isXmlText_render, ActivityList.tokens, Markup.isXml_append,
    Markup.isXml_blockElement 0 (by decide), Markup.isXml_blockElement 1 (by decide),
    ActivityList.ofOutline, List.flatMap_cons, Markup.isXml_append, hmodules, isXml_activity]
  grind

end TinCan

/-! ## Units -/

namespace Cmi5

variable (masteryScore : Option Decimal.Binary64)

theorem isXml_naming (level : Nat) (language title description : String) :
    IsXml (naming level language title description) ↔
      IsXmlText language ∧ IsXmlText title ∧ IsXmlText description := by
  simp (disch := decide) only [naming, langString, Markup.isXml_append, Markup.isXml_elementLine,
    Markup.isXml_element, Markup.isXml_cons, Markup.isXml_nil, Markup.isXmlText_text,
    List.forall_mem_singleton, Markup.Attribute.isXml_attr]
  grind

theorem isXml_unit (language : String) (l : OutlineLesson) :
    IsXml (unitTokens language (.ofLesson ids masteryScore l)) ↔
      IsXmlText ids.course ∧ IsXmlText language ∧ IsXmlText l.launch ∧ IsXmlText l.title ∧
        IsXmlText (l.description.getD "") := by
  have hmoveOn : IsXmlText (moveOnFor masteryScore) := by
    rw [moveOnFor]
    split <;> decide
  have hscore : ∀ a ∈ Markup.whenSome masteryScore fun x =>
      [Markup.Xml.fixed "masteryScore" (Decimal.plainText x)], a.IsXml := by
    cases masteryScore with
    | none => exact fun a ha => absurd ha List.not_mem_nil
    | some x =>
      refine List.forall_mem_singleton.mpr ?_
      exact (Markup.Attribute.isXml_fixed (by decide) _).mpr
        (isXmlText_of_isNumeral (Decimal.isNumeral_plainText x))
  have hid : (Markup.Xml.attr "id" (ids.forLesson l.id)).IsXml ↔ IsXmlText ids.course := by
    rw [Markup.Attribute.isXml_attr (by decide), ActivityIds.isXmlText_forLesson]
  have hfixed : ∀ a ∈ [Markup.Xml.fixed "moveOn" (moveOnFor masteryScore),
      Markup.Xml.fixed "launchMethod" "AnyWindow",
      Markup.Xml.fixed "activityType" ActivityType.lesson.iri], a.IsXml := by
    simp only [List.forall_mem_cons, List.not_mem_nil, false_imp_iff, implies_true, and_true]
    exact ⟨(Markup.Attribute.isXml_fixed (by decide) _).mpr hmoveOn,
      (Markup.Attribute.isXml_fixed (by decide) _).mpr (by decide),
      (Markup.Attribute.isXml_fixed (by decide) _).mpr (by decide)⟩
  have hurl := Markup.isXml_leaf 3 (by decide : IsXmlText "url") l.launch
  rw [unitTokens, Markup.isXml_blockElement 2 (by decide), Markup.isXml_append, isXml_naming,
    List.cons_append, List.forall_mem_cons, List.forall_mem_append]
  simp only [AssignableUnit.ofLesson]
  grind

theorem isXml_block (language : String) (m : OutlineModule) :
    IsXml (blockTokens language (.ofModule ids masteryScore m)) ↔
      IsXmlText ids.course ∧ IsXmlText language ∧ (∀ l ∈ m.lessons, IsXmlText l.launch) ∧
        m.IsXml := by
  have hid : (Markup.Xml.attr "id" (ids.forModule m.id)).IsXml ↔ IsXmlText ids.course := by
    rw [Markup.Attribute.isXml_attr (by decide), ActivityIds.isXmlText_forModule]
  have hunits : IsXml ((m.lessons.map (AssignableUnit.ofLesson ids masteryScore)).flatMap
      (unitTokens language)) ↔ ∀ l ∈ m.lessons, IsXmlText ids.course ∧ IsXmlText language ∧
        IsXmlText l.launch ∧ IsXmlText l.title ∧ IsXmlText (l.description.getD "") := by
    rw [List.flatMap_map, Markup.isXml_flatMap]
    exact forall₂_congr fun l _ => isXml_unit ids masteryScore language l
  rw [blockTokens, Markup.isXml_blockElement 1 (by decide), Markup.isXml_append, isXml_naming,
    List.forall_mem_singleton, OutlineModule.IsXml]
  simp only [UnitBlock.ofModule]
  rw [hid, hunits]
  grind

/-- The texts that decide whether a document of units has only characters that it may
have. -/
theorem isXmlText_document :
    IsXmlText (CourseStructure.ofOutline info o ids masteryScore).document ↔
      IsXmlText ids.course ∧ IsXmlText info.language ∧ IsXmlText info.title ∧
        IsXmlText info.description ∧
        ∀ m ∈ o.launchable, (∀ l ∈ m.lessons, IsXmlText l.launch) ∧ m.IsXml := by
  have hspace : (Markup.Xml.fixed "xmlns"
      "https://w3id.org/xapi/profiles/cmi5/v1/CourseStructure.xsd").IsXml :=
    (Markup.Attribute.isXml_fixed (by decide) _).mpr (by decide)
  have hdeclaration :
      IsXml (Markup.Xml.declaration "<?xml version=\"1.0\" encoding=\"utf-8\"?>") :=
    Markup.isXml_declaration (by decide)
  have hid : (Markup.Xml.attr "id" ids.course).IsXml ↔ IsXmlText ids.course :=
    Markup.Attribute.isXml_attr (by decide) _
  have hblocks : IsXml ((o.launchable.map (UnitBlock.ofModule ids masteryScore)).flatMap
      (blockTokens info.language)) ↔ ∀ m ∈ o.launchable, IsXmlText ids.course ∧
        IsXmlText info.language ∧ (∀ l ∈ m.lessons, IsXmlText l.launch) ∧ m.IsXml := by
    rw [List.flatMap_map, Markup.isXml_flatMap]
    exact forall₂_congr fun m _ => isXml_block ids masteryScore info.language m
  rw [CourseStructure.document, Markup.isXmlText_render, CourseStructure.tokens,
    Markup.isXml_append, Markup.isXml_blockElement 0 (by decide), Markup.isXml_append,
    Markup.isXml_blockElement 1 (by decide), isXml_naming, List.forall_mem_singleton,
    List.forall_mem_singleton]
  simp only [CourseStructure.ofOutline]
  rw [hid, hblocks]
  grind

end Cmi5

/-! ## Manifests -/

namespace Scorm

variable (version : ScormVersion) (options : Options)

theorem isXml_said (language s : String) :
    IsXml (langString version language s) ↔ IsXmlText language ∧ IsXmlText s := by
  cases version <;>
    simp (disch := decide) only [langString, Markup.isXml_element, Markup.isXml_cons,
      Markup.isXml_nil, Markup.isXmlText_text, List.forall_mem_singleton,
      Markup.Attribute.isXml_attr, and_true]

theorem isXml_saidLine {name : String} (hname : IsXmlText name) (language s : String) :
    IsXml (Markup.Xml.elementLine 4 name [] (langString version language s)) ↔
      IsXmlText language ∧ IsXmlText s := by
  simp [Markup.isXml_elementLine 4 hname, isXml_said]

/-- A description that is left out is empty, and has no characters. -/
theorem isXml_description (language s : String) :
    IsXml (if s.isEmpty then []
        else Markup.Xml.elementLine 4 "description" [] (langString version language s)) ↔
      s.isEmpty = true ∨ (IsXmlText language ∧ IsXmlText s) := by
  split
  · simp_all
  · rw [isXml_saidLine version (by decide)]
    simp_all

theorem isXml_keywords (language : String) (keywords : List String) :
    IsXml (keywords.flatMap fun k =>
        Markup.Xml.elementLine 4 "keyword" [] (langString version language k)) ↔
      ∀ k ∈ keywords, IsXmlText language ∧ IsXmlText k := by
  rw [Markup.isXml_flatMap]
  exact forall₂_congr fun k _ => isXml_saidLine version (by decide) language k

theorem isXml_rights (language : String) (copyright : Option String) :
    IsXml (Markup.whenSome copyright fun c =>
        Markup.blockElement 3 "rights" [] (Markup.Xml.elementLine 4 "description" []
          (langString version language c))) ↔
      ∀ c ∈ copyright, IsXmlText language ∧ IsXmlText c := by
  rw [Markup.isXml_whenSome]
  refine forall₂_congr fun c _ => ?_
  rw [Markup.isXml_blockElement 3 (by decide), isXml_saidLine version (by decide)]
  simp

theorem isXml_metadata :
    IsXml (metadataTokens version info) ↔
      IsXmlText info.language ∧ IsXmlText info.title ∧ IsXmlText info.description ∧
        (∀ k ∈ info.keywords, IsXmlText k) ∧ ∀ c ∈ info.copyright, IsXmlText c := by
  have hempty : info.description.isEmpty = true → IsXmlText info.description := by
    intro h
    rw [String.isEmpty_iff.mp h]
    decide
  have hschema : IsXmlText "ADL SCORM" := by decide
  have hversion : IsXmlText version.schemaVersion := by cases version <;> decide
  have hspace : (Markup.Xml.fixed "xmlns" (profile version).lom).IsXml := by
    refine (Markup.Attribute.isXml_fixed (by decide) _).mpr ?_
    cases version <;> decide
  simp only [metadataTokens]
  rw [Markup.isXml_blockElement 1 (by decide), Markup.isXml_append, Markup.isXml_append,
    Markup.isXml_blockElement 2 (by decide), Markup.isXml_append,
    Markup.isXml_blockElement 3 (by decide), Markup.isXml_append, Markup.isXml_append,
    Markup.isXml_append, isXml_saidLine version (by decide), isXml_description,
    isXml_keywords, isXml_rights, Markup.isXml_leaf 2 (by decide),
    Markup.isXml_leaf 2 (by decide), Markup.isXml_leaf 4 (by decide)]
  grind

theorem isXml_objectives (level : Nat) {identifier : String}
    (hidentifier : IsXmlText identifier) (score : Nat) :
    IsXml (Markup.blockElement level "imsss:objectives" []
      (Markup.blockElement (level + 1) "imsss:primaryObjective"
        [Markup.Xml.attr "objectiveID" ("PRIMARYOBJ-" ++ identifier),
          Markup.Xml.fixed "satisfiedByMeasure" "true"]
        (Markup.Xml.elementLine (level + 2) "imsss:minNormalizedMeasure" []
          [Markup.Xml.text (Decimal.plainText (.ofPercent score))]))) := by
  have hobjective : ∀ a ∈ [Markup.Xml.attr "objectiveID" ("PRIMARYOBJ-" ++ identifier),
      Markup.Xml.fixed "satisfiedByMeasure" "true"], a.IsXml := by
    refine List.forall_mem_cons.mpr ⟨?_, List.forall_mem_singleton.mpr ?_⟩
    · exact (Markup.Attribute.isXml_attr (by decide) _).mpr
        (Text.isXmlText_append.mpr ⟨by decide, hidentifier⟩)
    · exact (Markup.Attribute.isXml_fixed (by decide) _).mpr (by decide)
  refine (Markup.isXml_blockElement _ (by decide)).mpr ⟨List.forall_mem_nil _, ?_⟩
  refine (Markup.isXml_blockElement _ (by decide)).mpr ⟨hobjective, ?_⟩
  exact (Markup.isXml_leaf _ (by decide) _).mpr
    (isXmlText_of_isNumeral (Decimal.isNumeral_plainText _))

theorem isXml_limits (level : Nat) {identifier : String} (hidentifier : IsXmlText identifier)
    (masteryScore timeLimitMinutes : Option Nat) :
    IsXml (limitTokens version level identifier masteryScore timeLimitMinutes) := by
  cases version with
  | v12 =>
    refine Markup.isXml_append.mpr ⟨Markup.isXml_whenSome.mpr fun minutes _ => ?_,
      Markup.isXml_whenSome.mpr fun score _ => ?_⟩
    · exact Markup.isXml_append.mpr
        ⟨(Markup.isXml_leaf _ (by decide) _).mpr (Time.isXmlText_timespan _),
          (Markup.isXml_leaf _ (by decide) _).mpr (by decide)⟩
    · exact (Markup.isXml_leaf _ (by decide) _).mpr (isXmlText_repr _)
  | v2004 =>
    rw [limitTokens, limits2004]
    split
    · exact Markup.isXml_nil
    · refine (Markup.isXml_blockElement _ (by decide)).mpr ⟨List.forall_mem_nil _, ?_⟩
      refine Markup.isXml_append.mpr ⟨Markup.isXml_whenSome.mpr fun minutes _ => ?_,
        Markup.isXml_whenSome.mpr fun score _ => ?_⟩
      · exact (Markup.isXml_reference _ (by decide) (by decide) _).mpr
          (Time.isXmlText_iso8601 _)
      · exact isXml_objectives _ hidentifier _

theorem isXml_items (level : Nat) (items : List Item) :
    IsXml (itemsTokens version level items) ↔
      ∀ i ∈ items, IsXml (itemTokens version level i) := by
  induction items with
  | nil => simp [itemsTokens]
  | cons i items ih => rw [itemsTokens, Markup.isXml_append, ih, List.forall_mem_cons]

/-- Of an item whose identifiers are made of path segments, the title decides. -/
theorem isXml_item (level : Nat) {identifier title : String} {resourceRef : Option String}
    (hidentifier : IsXmlText identifier) (href : ∀ r ∈ resourceRef, IsXmlText r)
    (masteryScore timeLimitMinutes : Option Nat) (children : List Item) :
    IsXml (itemTokens version level
        (.node identifier title resourceRef masteryScore timeLimitMinutes children)) ↔
      IsXmlText title ∧ ∀ i ∈ children, IsXml (itemTokens version (level + 1) i) := by
  have hattributes : ∀ a ∈ Markup.Xml.attr "identifier" identifier ::
      Markup.whenSome resourceRef fun r => [Markup.Xml.attr "identifierref" r], a.IsXml := by
    refine List.forall_mem_cons.mpr
      ⟨(Markup.Attribute.isXml_attr (by decide) _).mpr hidentifier, ?_⟩
    cases resourceRef with
    | none => exact List.forall_mem_nil _
    | some r =>
      exact List.forall_mem_singleton.mpr
        ((Markup.Attribute.isXml_attr (by decide) _).mpr (href r rfl))
  have hlimits := isXml_limits version (level + 1) hidentifier masteryScore timeLimitMinutes
  rw [itemTokens_node, Markup.isXml_blockElement _ (by decide), Markup.isXml_append,
    Markup.isXml_append, Markup.isXml_leaf _ (by decide), isXml_items]
  grind

theorem isXml_lessonItem (level : Nat) (l : OutlineLesson) :
    IsXml (itemTokens version level (lessonItem options l)) ↔ IsXmlText l.title := by
  have hitem : IsXmlText ("ITEM-" ++ Text.pathSegment l.id) :=
    Text.isXmlText_append.mpr ⟨by decide, Text.isXmlText_pathSegment _⟩
  have href : ∀ r ∈ some (resourceId l.id), IsXmlText r := by
    rintro r ⟨⟩
    exact Text.isXmlText_append.mpr ⟨by decide, Text.isXmlText_pathSegment _⟩
  rw [lessonItem, isXml_item version level hitem href]
  simp

theorem isXml_moduleItem (level : Nat) (m : OutlineModule) :
    IsXml (itemTokens version level (moduleItem options m)) ↔
      IsXmlText m.title ∧ ∀ l ∈ m.lessons, IsXmlText l.title := by
  have hitem : IsXmlText ("MODULE-" ++ Text.pathSegment m.id) :=
    Text.isXmlText_append.mpr ⟨by decide, Text.isXmlText_pathSegment _⟩
  rw [moduleItem, isXml_item version level hitem (by simp), List.forall_mem_map]
  simp only [isXml_lessonItem]

/-- Whether what a group of files is referred to by may stand in a document. -/
structure FileGroup.IsXml (r : FileGroup) : Prop where
  identifier : IsXmlText r.identifier
  href : ∀ h ∈ r.href, IsXmlText h
  files : ∀ f ∈ r.files, IsXmlText f
  dependencies : ∀ d ∈ r.dependencies, IsXmlText d

theorem isXml_resource {r : FileGroup} (h : r.IsXml) : IsXml (resourceTokens version r) := by
  have hattributes : ∀ a ∈ [Markup.Xml.attr "identifier" r.identifier,
      Markup.Xml.fixed "type" "webcontent",
      Markup.Xml.fixed (profile version).kindAttribute r.kind.name] ++
        Markup.whenSome r.href fun h => [Markup.Xml.attr "href" h], a.IsXml := by
    refine List.forall_mem_append.mpr ⟨?_, ?_⟩
    · simp only [List.forall_mem_cons, List.not_mem_nil, false_imp_iff, implies_true, and_true]
      refine ⟨(Markup.Attribute.isXml_attr (by decide) _).mpr h.identifier,
        (Markup.Attribute.isXml_fixed (by decide) _).mpr (by decide), ?_⟩
      have hkey : IsXmlText (profile version).kindAttribute := by cases version <;> decide
      refine (Markup.Attribute.isXml_fixed hkey _).mpr ?_
      cases r.kind <;> decide
    · have hhref := h.href
      cases hr : r.href with
      | none => exact List.forall_mem_nil _
      | some place =>
        exact List.forall_mem_singleton.mpr
          ((Markup.Attribute.isXml_attr (by decide) _).mpr (hhref place hr))
  refine (Markup.isXml_blockElement 2 (by decide)).mpr ⟨hattributes, ?_⟩
  refine Markup.isXml_append.mpr ⟨Markup.isXml_flatMap.mpr fun f hf => ?_,
    Markup.isXml_flatMap.mpr fun d hd => ?_⟩
  · exact (Markup.isXml_reference _ (by decide) (by decide) _).mpr (h.files f hf)
  · exact (Markup.isXml_reference _ (by decide) (by decide) _).mpr (h.dependencies d hd)

/-- Names and addresses of schemas may stand in a document. -/
theorem isXmlText_profile :
    (IsXmlText (profile version).space ∧ IsXmlText (profile version).adlcp) ∧
      (∀ e ∈ (profile version).more, IsXmlText e.1 ∧ IsXmlText e.2) ∧
      ∀ s ∈ (profile version).schemas, IsXmlText s.space ∧ IsXmlText s.location := by
  cases version <;> decide +kernel

theorem isXmlText_namespacePairs :
    ∀ e ∈ namespacePairs (profile version), IsXmlText e.1 ∧ IsXmlText e.2 := by
  obtain ⟨⟨hspace, hadlcp⟩, hmore, hschemas⟩ := isXmlText_profile version
  intro e he
  simp only [namespacePairs, List.mem_append, List.mem_cons, List.mem_map, List.not_mem_nil,
    or_false] at he
  rcases he with ((rfl | rfl) | ⟨x, hx, rfl⟩) | rfl | rfl
  · exact ⟨(by decide : IsXmlText "xmlns"), hspace⟩
  · exact ⟨(by decide : IsXmlText "xmlns:adlcp"), hadlcp⟩
  · exact ⟨Text.isXmlText_append.mpr ⟨by decide, (hmore x hx).1⟩, (hmore x hx).2⟩
  · exact ⟨by decide, by decide⟩
  · refine ⟨(by decide : IsXmlText "xsi:schemaLocation"),
      Text.isXmlText_intercalate (by decide) ?_⟩
    intro t ht
    obtain ⟨s, hs, rfl⟩ := List.mem_map.mp ht
    obtain ⟨hname, hlocation⟩ := hschemas s hs
    simp only [Text.isXmlText_append]
    exact ⟨⟨hname, by decide⟩, hlocation⟩

theorem isXml_manifestAttributes (m : Manifest) (hidentifier : IsXmlText m.identifier) :
    (∀ a ∈ manifestAttributes m, a.IsXml) ↔ IsXmlText m.metadata.version := by
  have hspaces : ∀ a ∈ (namespacePairs (profile m.version)).map
      fun e => Markup.Attribute.onLine e.1 e.2, a.IsXml := by
    refine List.forall_mem_map.mpr fun e he => ?_
    obtain ⟨hname, hvalue⟩ := isXmlText_namespacePairs m.version e he
    exact Markup.Attribute.isXml_onLine hname hvalue
  have hid : (Markup.Xml.attr "identifier" m.identifier).IsXml :=
    (Markup.Attribute.isXml_attr (by decide) _).mpr hidentifier
  have hversion : (Markup.Xml.attr "version" m.metadata.version).IsXml ↔
      IsXmlText m.metadata.version := Markup.Attribute.isXml_attr (by decide) _
  rw [manifestAttributes_eq, List.forall_mem_cons, List.forall_mem_cons, hversion]
  exact ⟨fun h => h.2.1, fun h => ⟨hid, h, hspaces⟩⟩

theorem isXml_sequencing : IsXml (sequencing version) := by
  cases version with
  | v12 => exact Markup.isXml_nil
  | v2004 =>
    refine (Markup.isXml_blockElement 3 (by decide)).mpr ⟨List.forall_mem_nil _, ?_⟩
    refine (Markup.isXml_indented _).mpr (Markup.isXml_cons.mpr ⟨?_, Markup.isXml_nil⟩)
    refine (Markup.isXmlText_empty (by decide)).mpr (List.forall_mem_cons.mpr ⟨?_, ?_⟩)
    · exact (Markup.Attribute.isXml_fixed (by decide) _).mpr (by decide)
    · exact List.forall_mem_singleton.mpr
        ((Markup.Attribute.isXml_fixed (by decide) _).mpr (by decide))

theorem isXml_resources
    (hpaths : ∀ m ∈ o.launchable, ∀ l ∈ m.lessons, ∀ path ∈ l.launch :: l.files,
      IsXmlText path)
    (hshared : ∀ path ∈ options.sharedFiles, IsXmlText path) :
    ∀ r ∈ (Manifest.ofOutline info o version options).resources, r.IsXml := by
  have hid : IsXmlText sharedId := by decide
  intro r hr
  rcases (mem_resources_ofOutline info o version options).mp hr with ⟨m, hm, l, hl, rfl⟩ | hr
  · obtain ⟨hlaunch, hfiles⟩ := List.forall_mem_cons.mp (hpaths m hm l hl)
    refine ⟨?_, ?_, hpaths m hm l hl, ?_⟩
    · exact Text.isXmlText_append.mpr ⟨by decide, Text.isXmlText_pathSegment _⟩
    · rintro _ ⟨⟩
      exact hlaunch
    · intro d hd
      simp only [lessonResource] at hd
      split at hd
      · cases hd
      · rwa [List.mem_singleton.mp hd]
  · rw [sharedResource] at hr
    split at hr
    · cases hr
    · rw [List.mem_singleton.mp hr]
      exact ⟨hid, by simp, hshared, by simp⟩

/-- The texts that decide whether a manifest has only characters that it may have. -/
theorem isXmlText_document
    (hpaths : ∀ m ∈ o.launchable, ∀ l ∈ m.lessons, ∀ path ∈ l.launch :: l.files,
      IsXmlText path)
    (hshared : ∀ path ∈ options.sharedFiles, IsXmlText path) :
    IsXmlText (Manifest.ofOutline info o version options).document ↔
      IsXmlText info.version ∧ IsXmlText info.language ∧ IsXmlText info.title ∧
        IsXmlText info.description ∧ (∀ k ∈ info.keywords, IsXmlText k) ∧
        (∀ c ∈ info.copyright, IsXmlText c) ∧
        ∀ m ∈ o.launchable, IsXmlText m.title ∧ ∀ l ∈ m.lessons, IsXmlText l.title := by
  have hkey := Text.isXmlText_pathSegment info.identifier
  have hattributes := isXml_manifestAttributes (.ofOutline info o version options)
    (Text.isXmlText_append.mpr ⟨by decide, hkey⟩)
  have horganization : IsXmlText ("ORG-" ++ Text.pathSegment info.identifier) :=
    Text.isXmlText_append.mpr ⟨by decide, hkey⟩
  have hitems : IsXml (itemsTokens version 3 (o.launchable.map (moduleItem options))) ↔
      ∀ m ∈ o.launchable, IsXmlText m.title ∧ ∀ l ∈ m.lessons, IsXmlText l.title := by
    rw [isXml_items, List.forall_mem_map]
    simp only [isXml_moduleItem]
  have hresources : IsXml ((Manifest.ofOutline info o version options).resources.flatMap
      (resourceTokens version)) :=
    Markup.isXml_flatMap.mpr fun r hr =>
      isXml_resource version (isXml_resources info o version options hpaths hshared r hr)
  have htitle := Markup.isXml_leaf 3 (by decide : IsXmlText "title") info.title
  have hdeclaration :
      IsXml (Markup.Xml.declaration "<?xml version=\"1.0\" encoding=\"UTF-8\"?>") :=
    Markup.isXml_declaration (by decide)
  have hdefault : ∀ a ∈ [Markup.Xml.attr "default"
      ("ORG-" ++ Text.pathSegment info.identifier)], a.IsXml :=
    List.forall_mem_singleton.mpr ((Markup.Attribute.isXml_attr (by decide) _).mpr horganization)
  have hidentifier : ∀ a ∈ [Markup.Xml.attr "identifier"
      ("ORG-" ++ Text.pathSegment info.identifier)], a.IsXml :=
    List.forall_mem_singleton.mpr ((Markup.Attribute.isXml_attr (by decide) _).mpr horganization)
  have hsequencing := isXml_sequencing version
  rw [Manifest.document, Markup.isXmlText_render, Manifest.tokens, Markup.isXml_append,
    Markup.isXml_blockElement 0 (by decide), hattributes, Markup.isXml_append,
    Markup.isXml_append, isXml_metadata, Markup.isXml_blockElement 1 (by decide),
    Markup.isXml_blockElement 2 (by decide), Markup.isXml_append, Markup.isXml_append,
    Markup.isXml_blockElement 1 (by decide)]
  simp only [Manifest.ofOutline] at hresources ⊢
  rw [htitle, hitems]
  grind

end Scorm

end Descriptor

end Courseware
