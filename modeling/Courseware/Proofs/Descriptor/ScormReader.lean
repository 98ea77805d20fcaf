import Courseware.Descriptor.Scorm
import Courseware.Proofs.Markup.Layout
import Courseware.Proofs.Time.Duration

/-!
# A reader of SCORM descriptors

The reader recovers a manifest from the tree of a document. It finds out the
version of the schema and takes everything else from the elements and attributes
that the version has for it.
-/

namespace Courseware.Descriptor.Scorm

open Markup

/-! ## Limits -/

/-- The number of minutes that some seconds make. -/
def minutes? (seconds : Nat) : Option Nat :=
  if seconds % 60 = 0 then some (seconds / 60) else none

/-- The percentage that a decimal with at most two places tells. -/
def percent? (s : String) : Option Nat :=
  let (whole, places) := Time.cutAt '.' s.toList
  if places.length ≤ 2 then Time.number? (whole ++ (places ++ ['0', '0']).take 2) else none

/-- The limits of an item by the elements in it: the score to pass with and the time
in minutes. -/
def limits? : ScormVersion → List Node → Option (Option Nat × Option Nat)
  | .v12, nodes => do
    let score ← Node.optional? (fun n => Time.number? n.content.toList)
      (Node.select ["adlcp:masteryscore"] nodes)
    let time ← Node.optional? (fun n => (Time.secondsOfTimespan? n.content).bind minutes?)
      (Node.select ["adlcp:maxtimeallowed"] nodes)
    return (score, time)
  | .v2004, nodes => do
    let score ← Node.optional? (fun n => percent? n.content)
      (Node.select ["imsss:sequencing", "imsss:objectives", "imsss:primaryObjective",
        "imsss:minNormalizedMeasure"] nodes)
    let time ← Node.optional?
      (fun n => do
        (Time.secondsOfIso8601? (← n.attribute? "attemptAbsoluteDurationLimit")).bind minutes?)
      (Node.select ["imsss:sequencing", "imsss:limitConditions"] nodes)
    return (score, time)

/-! ## Items -/

mutual

def item? (version : ScormVersion) : Node → Option Item
  | .character _ => none
  | .element name attributes nodes => do
    if name ≠ "item" then none
    else
      let identifier ← attributes.lookup "identifier"
      let title ← Node.only? (Node.named "title" (Node.elements nodes))
      let (score, time) ← limits? version (Node.elements nodes)
      let children ← items? version nodes
      return .node identifier title.content (attributes.lookup "identifierref") score time
        children

def items? (version : ScormVersion) : List Node → Option (List Item)
  | [] => some []
  | n :: ns =>
    if n.name? = some "item" then do
      let i ← item? version n
      let is ← items? version ns
      return i :: is
    else items? version ns

end

/-! ## Manifests -/

def ResourceKind.ofName? (name : String) : Option ResourceKind :=
  [sco, asset].find? fun k => k.name == name

def fileGroup? (version : ScormVersion) (n : Node) : Option FileGroup := do
  let identifier ← n.attribute? "identifier"
  let kind ← (n.attribute? (profile version).kindAttribute).bind ResourceKind.ofName?
  let files ← (Node.named "file" n.children).mapM (·.attribute? "href")
  let dependencies ← (Node.named "dependency" n.children).mapM (·.attribute? "identifierref")
  return { identifier, href := n.attribute? "href", kind, files, dependencies }

/-- The name of the elements that hold a text of the course's metadata. -/
def langStringName : ScormVersion → String
  | .v12 => "langstring"
  | .v2004 => "string"

def organization? (version : ScormVersion) : Node → Option Organization
  | .character _ => none
  | .element _ attributes nodes => do
    let identifier ← attributes.lookup "identifier"
    let title ← Node.only? (Node.named "title" (Node.elements nodes))
    let items ← items? version nodes
    return { identifier, title := title.content, items }

/-- The course's metadata by the elements in the manifest, apart from the version of
the course. -/
def metadata? (version : ScormVersion) (nodes : List Node) : Option Metadata := do
  let general (path : List String) : List Node :=
    Node.select (["metadata", "lom", "general"] ++ path) nodes
  let leaf := langStringName version
  let title ← Node.only? (general ["title", leaf])
  let language ← Node.only? (general ["language"])
  let description ← Node.optional? (fun n => some n.content) (general ["description", leaf])
  let copyright ← Node.optional? (fun n => some n.content)
    (Node.select ["metadata", "lom", "rights", "description", leaf] nodes)
  return {
    title := title.content
    language := language.content
    description := description.getD ""
    keywords := (general ["keyword", leaf]).map (·.content)
    copyright }

/-- The version that the elements in a manifest declare. -/
def version? (nodes : List Node) : Option ScormVersion := do
  let declared ← Node.only? (Node.select ["metadata", "schemaversion"] nodes)
  [.v12, .v2004].find? fun v => v.schemaVersion == declared.content

def manifest? (n : Node) : Option Manifest := do
  let version ← version? n.children
  let identifier ← n.attribute? "identifier"
  let courseVersion ← n.attribute? "version"
  let metadata ← metadata? version n.children
  let organization ← Node.only? (Node.select ["organizations", "organization"] n.children)
  let organization ← organization? version organization
  let resources ← (Node.select ["resources", "resource"] n.children).mapM (fileGroup? version)
  return {
    identifier, version, organization, resources
    metadata := { metadata with version := courseVersion } }

/-- The manifest that a document describes. -/
def ofDocument? (s : String) : Option Manifest :=
  (root? .xml s).bind fun n => if n.name? = some "manifest" then manifest? n else none

/-! ## What a document tells -/

mutual

/-- An item with the score that its descriptor tells, which is at most the full
score. -/
def Item.told : Item → Item
  | .node identifier title resourceRef masteryScore timeLimitMinutes children =>
    .node identifier title resourceRef (masteryScore.map (min · 100)) timeLimitMinutes
      (toldItems children)

/-- Items as their descriptor tells them. -/
def toldItems : List Item → List Item
  | [] => []
  | i :: is => i.told :: toldItems is

end

/-- A manifest as its document tells it. Of the course's metadata, the document leaves
out the course's own identifier, its author and when the package was made. -/
def Manifest.told (m : Manifest) : Manifest :=
  { m with
    metadata := { m.metadata with identifier := "", author := none, generatedAt := "" }
    organization := { m.organization with items := toldItems m.organization.items } }

end Courseware.Descriptor.Scorm
