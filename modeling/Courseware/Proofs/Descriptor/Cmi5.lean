import Courseware.Descriptor.Cmi5
import Courseware.Proofs.Decimal.Numeral
import Courseware.Proofs.Package.References

/-!
# What cmi5 descriptors refer to

The document of a course structure is read as events, in which a check finds the
places of the units.
-/

namespace Courseware

/-! ## Numbers -/

namespace Decimal

/-- A number is written without special characters. -/
theorem isPlainValue_plainText (x : Binary64) :
    Markup.Reader.IsPlainValue (plainText x) := by
  intro c hc
  have hchar := isNumeral_plainText x c hc
  refine ⟨?_, ?_, ?_⟩ <;>
    · rintro rfl
      exact absurd hchar (by decide)

end Decimal

namespace Descriptor.Cmi5

open Markup Markup.Reader Markup.Xml
open Package (IsPhrase Tells namesIn)

/-! ## Balanced tokens -/

/-- Whether a unit is written as it is where texts are not escaped, and is launched from
a place that is a phrase. -/
structure AssignableUnit.Sound (u : AssignableUnit) : Prop where
  url : IsPhrase u.url
  moveOn : IsPlainValue u.moveOn

/-- Whether no quote ends what is written of a unit where texts are not escaped. -/
def AssignableUnit.Unquoted (u : AssignableUnit) : Prop := ∀ c ∈ u.moveOn.toList, c ≠ '"'

theorem AssignableUnit.Sound.unquoted {u : AssignableUnit} (h : u.Sound) : u.Unquoted :=
  fun c hc => (h.moveOn c hc).1

theorem isPlainValue_moveOnFor (masteryScore : Option Decimal.Binary64) :
    IsPlainValue (moveOnFor masteryScore) := by
  rw [moveOnFor]
  split <;> exact isPlainValue_ofList (by decide)

theorem balanced_langString (language s : String) : Balanced (langString language s) :=
  Balanced.element (isName_ofList (by decide)) (.attr (isName_ofList (by decide)) language)
    (.text s)

theorem balanced_naming (level : Nat) (language title description : String) :
    Balanced (naming level language title description) :=
  (Balanced.elementLine (isName_ofList (by decide)) .nil (balanced_langString language title)
    level).append
  (Balanced.elementLine (isName_ofList (by decide)) .nil
    (balanced_langString language description) level)

theorem legible_unitAttributes {u : AssignableUnit} (h : u.Unquoted) :
    LegibleAttributes
      ([attr "id" u.id, fixed "moveOn" u.moveOn, fixed "launchMethod" "AnyWindow",
        fixed "activityType" ActivityType.lesson.iri] ++
        whenSome u.masteryScore fun x => [fixed "masteryScore" (Decimal.plainText x)]) := by
  have hscore : LegibleAttributes
      (whenSome u.masteryScore fun x => [fixed "masteryScore" (Decimal.plainText x)]) := by
    cases u.masteryScore with
    | none => exact .nil
    | some x => exact .fixed (isName_ofList (by decide)) (Decimal.isPlainValue_plainText x)
  have hmove : (fixed "moveOn" u.moveOn).Legible :=
    ⟨show IsGap " " by decide, isName_ofList (by decide), u.moveOn, rfl, h⟩
  refine (((hscore.cons (.fixed (isName_ofList (by decide)) (isPlainValue_ofList (by decide)))
    ?_).cons (.fixed (isName_ofList (by decide)) (isPlainValue_ofList (by decide))) ?_).cons
      hmove ?_).cons
        (.attr (isName_ofList (by decide)) u.id) ?_
  all_goals cases u.masteryScore <;> simp [whenSome]

theorem balanced_unit (language : String) {u : AssignableUnit} (h : u.Unquoted) :
    Balanced (unitTokens language u) :=
  Balanced.blockElement (isName_ofList (by decide)) (legible_unitAttributes h)
    ((balanced_naming 3 language u.title u.description).append
      (Balanced.elementLine (isName_ofList (by decide)) .nil (.text u.url) 3)) 2

theorem balanced_block (language : String) {b : UnitBlock} (h : ∀ u ∈ b.units, u.Unquoted) :
    Balanced (blockTokens language b) :=
  Balanced.blockElement (isName_ofList (by decide)) (.attr (isName_ofList (by decide)) b.id)
    ((balanced_naming 2 language b.title b.description).append
      (Balanced.flatMap fun u hu => balanced_unit language (h u hu))) 1

/-- What follows the declaration of a descriptor. -/
def CourseStructure.body (s : CourseStructure) : List Token :=
  blockElement 0 "courseStructure"
    [fixed "xmlns" "https://w3id.org/xapi/profiles/cmi5/v1/CourseStructure.xsd"]
    (blockElement 1 "course" [attr "id" s.courseId]
        (naming 2 s.language s.title s.description) ++
      s.blocks.flatMap (blockTokens s.language))

theorem CourseStructure.balanced_body {s : CourseStructure}
    (h : ∀ b ∈ s.blocks, ∀ u ∈ b.units, u.Unquoted) : Balanced s.body := by
  have hcourse := Balanced.blockElement (isName_ofList (by decide) : IsName "course")
    (.attr (isName_ofList (by decide) : IsName "id") s.courseId)
    (balanced_naming 2 s.language s.title s.description) 1
  exact Balanced.blockElement (isName_ofList (by decide))
    (.fixed (isName_ofList (by decide)) (isPlainValue_ofList (by decide)))
    (hcourse.append (Balanced.flatMap fun b hb => balanced_block s.language (h b hb))) 0

theorem legible_declaration :
    (Token.raw "<?xml version=\"1.0\" encoding=\"utf-8\"?>").Legible :=
  Token.legible_instruction 'x' "ml version=\"1.0\" encoding=\"utf-8\"".toList
    rfl (by decide) (by decide)

/-! ## Places -/

theorem not_mem_namesIn_naming (level : Nat) (language title description : String) :
    "url" ∉ namesIn (naming level language title description) := by
  simp [naming, langString]
  exact ⟨by decide, by decide, by decide⟩

theorem tells_unit (language : String) (u : AssignableUnit) :
    Tells (Package.elementTexts "url" none) (unitTokens language u) [readText u.url] := by
  have hview := Package.listens_elementTexts "url"
  have hnaming : Tells _ (naming 3 language u.title u.description) [] :=
    Tells.of_not_mem hview (not_mem_namesIn_naming 3 language u.title u.description)
  have hplace := (Package.tells_elementTexts (by decide : Event.localName "url" = "url") []
    u.url).indented hview 3
  exact (hnaming.append hplace).blockElement hview (by decide) _ 2

theorem tells_block (language : String) (b : UnitBlock) :
    Tells (Package.elementTexts "url" none) (blockTokens language b)
      (b.units.map fun u => readText u.url) := by
  have hview := Package.listens_elementTexts "url"
  have hnaming : Tells _ (naming 2 language b.title b.description) [] :=
    Tells.of_not_mem hview (not_mem_namesIn_naming 2 language b.title b.description)
  have hunits := Tells.flatMap fun u (_ : u ∈ b.units) => tells_unit language u
  rw [List.map_eq_flatMap]
  exact (hnaming.append hunits).blockElement hview (by decide) _ 1

/-- The places where the units start, in order. -/
def CourseStructure.places (s : CourseStructure) : List String :=
  s.blocks.flatMap fun b => b.units.map (·.url)

/-- A check finds the places of the units in order, as far as they are read. -/
theorem references_document_eq {s : CourseStructure}
    (h : ∀ b ∈ s.blocks, ∀ u ∈ b.units, u.Unquoted) (p : PackageContents) :
    Package.references .cmi5 p s.document = .ok ([], s.places.map readText) := by
  have hview := Package.listens_elementTexts "url"
  have hcourse : Tells (Package.elementTexts "url" none)
      (blockElement 1 "course" [attr "id" s.courseId]
        (naming 2 s.language s.title s.description)) [] :=
    Tells.of_not_mem hview (by
      simp [not_mem_namesIn_naming]
      decide)
  have hblocks := Tells.flatMap fun b (_ : b ∈ s.blocks) => tells_block s.language b
  have hbody : Tells _ s.body _ :=
    (hcourse.append hblocks).blockElement hview (by decide) _ 0
  have hevents : Event.ofDocument s.document = .ok (eventsFrom ['\n'] s.body) :=
    (CourseStructure.balanced_body h).ofDocument_eq legible_declaration
  rw [Package.references, hevents]
  simp only [bind, Except.bind, pure, Except.pure]
  rw [hbody.eventsFrom_eq hview rfl, List.nil_append, CourseStructure.places, List.map_flatMap]
  simp only [List.map_map, Function.comp_def]

/-- A check finds the places of the units in order. -/
theorem references_document {s : CourseStructure}
    (h : ∀ b ∈ s.blocks, ∀ u ∈ b.units, u.Sound) (p : PackageContents) :
    Package.references .cmi5 p s.document =
      .ok ([], s.blocks.flatMap fun b => b.units.map (·.url)) := by
  have hphrases : ∀ url ∈ s.places, IsPhrase url := by
    intro url hurl
    obtain ⟨b, hb, hurl⟩ := List.mem_flatMap.mp hurl
    obtain ⟨u, hu, rfl⟩ := List.mem_map.mp hurl
    exact (h b hb u hu).url
  rw [references_document_eq fun b hb u hu => (h b hb u hu).unquoted,
    Package.map_readText_eq hphrases]
  rfl

end Descriptor.Cmi5

end Courseware
