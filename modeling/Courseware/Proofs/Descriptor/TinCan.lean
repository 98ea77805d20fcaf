import Courseware.Descriptor.TinCan
import Courseware.Proofs.Package.References

/-!
# What xAPI descriptors refer to

The document of a list of activities is read as events, in which a check finds the
places where activities start.
-/

namespace Courseware.Descriptor.TinCan

open Markup Markup.Reader Markup.Xml
open Package (IsPhrase Tells namesIn)

theorem isPlainValue_iri (type : ActivityType) : IsPlainValue type.iri := by
  cases type <;> exact isPlainValue_ofList (by decide)

theorem balanced_langText {name : String} (hname : IsName name) (language s : String) :
    Balanced (langText name language s) :=
  Balanced.elementLine hname (.attr (isName_ofList (by decide)) language) (.text s) 3

theorem balanced_activity (language : String) (a : Activity) :
    Balanced (activityTokens language a) := by
  have hattributes : LegibleAttributes [attr "id" a.id, fixed "type" a.type.iri] :=
    (LegibleAttributes.fixed (isName_ofList (by decide)) (isPlainValue_iri a.type)).cons
      (.attr (isName_ofList (by decide)) a.id) (by simp)
  have hnames := (balanced_langText (isName_ofList (by decide) : IsName "name") language
    a.name).append
      (balanced_langText (isName_ofList (by decide) : IsName "description") language
        a.description)
  exact Balanced.blockElement (isName_ofList (by decide)) hattributes
    (hnames.append (Balanced.whenSome (fun l =>
      balanced_langText (isName_ofList (by decide)) language l) a.launch)) 2

/-- What follows the declaration of a descriptor. -/
def ActivityList.body (l : ActivityList) : List Token :=
  blockElement 0 "tincan" [fixed "xmlns" "http://projecttincan.com/tincan.xsd"]
    (blockElement 1 "activities" [] (l.activities.flatMap (activityTokens l.language)))

theorem ActivityList.balanced_body (l : ActivityList) : Balanced l.body :=
  Balanced.blockElement (isName_ofList (by decide))
    (.fixed (isName_ofList (by decide)) (isPlainValue_ofList (by decide)))
    (Balanced.blockElement (isName_ofList (by decide)) .nil
      (Balanced.flatMap fun a _ => balanced_activity l.language a) 1) 0

theorem legible_declaration :
    (Token.raw "<?xml version=\"1.0\" encoding=\"utf-8\" ?>").Legible :=
  Token.legible_instruction 'x' "ml version=\"1.0\" encoding=\"utf-8\" ".toList
    rfl (by decide) (by decide)

theorem tells_activity (language : String) (a : Activity) :
    Tells (Package.elementTexts "launch" none) (activityTokens language a)
      (a.launch.toList.map readText) := by
  have hview := Package.listens_elementTexts "launch"
  have hnames : Tells (Package.elementTexts "launch" none)
      (langText "name" language a.name ++ langText "description" language a.description) [] :=
    Tells.of_not_mem hview (by
      simp [langText]
      exact ⟨by decide, by decide⟩)
  have hplace : Tells (Package.elementTexts "launch" none)
      (whenSome a.launch fun l => langText "launch" language l)
      (a.launch.toList.map readText) := by
    cases hlaunch : a.launch with
    | none => exact Tells.nil
    | some place => exact (Package.tells_elementTexts (by decide) _ place).indented hview 3
  exact (hnames.append hplace).blockElement hview (by decide) _ 2

/-- The places where activities start, in order. -/
def ActivityList.places (l : ActivityList) : List String :=
  l.activities.flatMap fun a => a.launch.toList

/-- A check finds the places where activities start, as far as they are read. -/
theorem references_document_eq (l : ActivityList) (p : PackageContents) :
    Package.references .xapi p l.document = .ok ([], l.places.map readText) := by
  have hview := Package.listens_elementTexts "launch"
  have hactivities := Tells.flatMap fun a (_ : a ∈ l.activities) => tells_activity l.language a
  have hbody : Tells _ l.body _ :=
    (hactivities.blockElement hview (by decide) [] 1).blockElement hview (by decide) _ 0
  have hevents : Event.ofDocument l.document = .ok (eventsFrom ['\n'] l.body) :=
    l.balanced_body.ofDocument_eq legible_declaration
  rw [Package.references, hevents]
  simp only [bind, Except.bind, pure, Except.pure]
  rw [hbody.eventsFrom_eq hview rfl, ActivityList.places, List.map_flatMap]

/-- A check finds the places where activities start. -/
theorem references_document {l : ActivityList}
    (h : ∀ a ∈ l.activities, ∀ place, a.launch = some place → IsPhrase place)
    (p : PackageContents) :
    Package.references .xapi p l.document =
      .ok ([], l.activities.flatMap fun a => a.launch.toList) := by
  have hphrases : ∀ place ∈ l.places, IsPhrase place := by
    intro place hplace
    obtain ⟨a, ha, hplace⟩ := List.mem_flatMap.mp hplace
    exact h a ha place (Option.mem_toList.mp hplace)
  rw [references_document_eq, Package.map_readText_eq hphrases]
  rfl

end Courseware.Descriptor.TinCan
