import Courseware.Decimal.Shortest
import Courseware.Descriptor.Outline
import Courseware.Format
import Courseware.Markup.Xml

/-!
The SCORM descriptor `imsmanifest.xml`, in its versions 1.2 and 2004, and the catalog of its schemas.
A manifest is a tree of items, which refer to resources; `Manifest.ofOutline` makes it of an outline and
`Manifest.document` writes it.
-/

namespace Courseware.Descriptor.Scorm

open Markup Markup.Xml

/-- An item of the organization: a lesson, or a module around its lessons. -/
inductive Item
  | node (identifier title : String) (resourceRef : Option String)
      (masteryScore timeLimitMinutes : Option Nat) (children : List Item)
  deriving Repr, Inhabited

/-- What the host tracks of a resource. -/
inductive ResourceKind
  /-- A page that talks to the host. -/
  | sco
  | asset
  deriving DecidableEq, Repr

def ResourceKind.name : ResourceKind → String
  | sco => "sco"
  | asset => "asset"

/-- Files that items and other resources refer to. -/
structure FileGroup where
  identifier : String
  href : Option String
  kind : ResourceKind
  files : List String
  dependencies : List String
  deriving Repr

/-- The tree of items. -/
structure Organization where
  identifier : String
  title : String
  items : List Item
  deriving Repr

/-- What a descriptor says. -/
structure Manifest where
  identifier : String
  version : ScormVersion
  metadata : Metadata
  organization : Organization
  resources : List FileGroup

/-- What holds for every lesson of a package. -/
structure Options where
  /-- The score to pass with, in percent. -/
  masteryScore : Option Nat := none
  timeLimitMinutes : Option Nat := none
  /-- Files that all lessons need. -/
  sharedFiles : List String := []

/-! ## From an outline to a manifest -/

/-- The identifier of the resource that holds the shared files. -/
def sharedId : String := "SHARED-ASSETS"

def resourceId (lessonId : String) : String := "RES-" ++ Text.pathSegment lessonId

def lessonItem (o : Options) (l : OutlineLesson) : Item :=
  .node ("ITEM-" ++ Text.pathSegment l.id) l.title (some (resourceId l.id)) o.masteryScore
    o.timeLimitMinutes []

def moduleItem (o : Options) (m : OutlineModule) : Item :=
  .node ("MODULE-" ++ Text.pathSegment m.id) m.title none none none (m.lessons.map (lessonItem o))

def lessonResource (o : Options) (l : OutlineLesson) : FileGroup where
  identifier := resourceId l.id
  href := some l.launch
  kind := .sco
  files := l.launch :: l.files
  dependencies := if o.sharedFiles.isEmpty then [] else [sharedId]

def sharedResource (o : Options) : List FileGroup :=
  if o.sharedFiles.isEmpty then []
  else [⟨sharedId, none, .asset, o.sharedFiles, []⟩]

/-- The manifest of an outline. Modules without lessons are left out, since an item without children
could not be launched. -/
def Manifest.ofOutline (info : Metadata) (outline : Outline) (version : ScormVersion)
    (o : Options) : Manifest :=
  let key := Text.pathSegment info.identifier
  { identifier := "MANIFEST-" ++ key
    version
    metadata := info
    organization :=
      { identifier := "ORG-" ++ key
        title := info.title
        items := outline.launchable.map (moduleItem o) }
    resources :=
      (outline.launchable.flatMap fun m => m.lessons.map (lessonResource o)) ++
        sharedResource o }

/-! ## Schemas -/

/-- A schema: its namespace, the name of its file, and where it is published. -/
structure Schema where
  space : String
  file : String
  location : String

/-- What differs between the two versions on the level of names. -/
structure Profile where
  space : String
  adlcp : String
  /-- Further namespaces and the names that they are bound to. -/
  more : List (String × String)
  schemas : List Schema
  /-- The attribute that says what is tracked of a resource. -/
  kindAttribute : String
  /-- The namespace of the course's metadata. -/
  lom : String

def profile12 : Profile where
  space := "http://www.imsproject.org/xsd/imscp_rootv1p1p2"
  adlcp := "http://www.adlnet.org/xsd/adlcp_rootv1p2"
  more := []
  schemas := [
    ⟨"http://www.imsproject.org/xsd/imscp_rootv1p1p2", "imscp_rootv1p1p2.xsd",
      "http://www.imsglobal.org/xsd/imscp_rootv1p1p2.xsd"⟩,
    ⟨"http://www.imsglobal.org/xsd/imsmd_rootv1p2p1", "imsmd_rootv1p2p1.xsd",
      "http://www.imsglobal.org/xsd/imsmd_rootv1p2p1.xsd"⟩,
    ⟨"http://www.adlnet.org/xsd/adlcp_rootv1p2", "adlcp_rootv1p2.xsd",
      "http://www.adlnet.org/xsd/adlcp_rootv1p2.xsd"⟩]
  kindAttribute := "adlcp:scormtype"
  lom := "http://www.imsglobal.org/xsd/imsmd_rootv1p2p1"

def profile2004 : Profile where
  space := "http://www.imsglobal.org/xsd/imscp_v1p1"
  adlcp := "http://www.adlnet.org/xsd/adlcp_v1p3"
  more := [
    ("adlseq", "http://www.adlnet.org/xsd/adlseq_v1p3"),
    ("adlnav", "http://www.adlnet.org/xsd/adlnav_v1p3"),
    ("imsss", "http://www.imsglobal.org/xsd/imsss")]
  schemas := [
    ⟨"http://www.imsglobal.org/xsd/imscp_v1p1", "imscp_v1p1.xsd",
      "http://www.imsglobal.org/xsd/imscp_v1p1.xsd"⟩,
    ⟨"http://www.adlnet.org/xsd/adlcp_v1p3", "adlcp_v1p3.xsd",
      "http://www.adlnet.org/xsd/adlcp_v1p3.xsd"⟩,
    ⟨"http://www.adlnet.org/xsd/adlseq_v1p3", "adlseq_v1p3.xsd",
      "http://www.adlnet.org/xsd/adlseq_v1p3.xsd"⟩,
    ⟨"http://www.adlnet.org/xsd/adlnav_v1p3", "adlnav_v1p3.xsd",
      "http://www.adlnet.org/xsd/adlnav_v1p3.xsd"⟩,
    ⟨"http://www.imsglobal.org/xsd/imsss", "imsss_v1p0.xsd",
      "http://www.imsglobal.org/xsd/imsss_v1p0.xsd"⟩,
    ⟨"http://ltsc.ieee.org/xsd/LOM", "lom.xsd",
      "http://ltsc.ieee.org/xsd/lomv1.0/lom.xsd"⟩]
  kindAttribute := "adlcp:scormType"
  lom := "http://ltsc.ieee.org/xsd/LOM"

def profile : ScormVersion → Profile
  | .v12 => profile12
  | .v2004 => profile2004

/-! ## The document -/

def langString (version : ScormVersion) (language s : String) : List Token :=
  match version with
  | .v12 => element "langstring" [attr "xml:lang" language] [text s]
  | .v2004 => element "string" [attr "language" language] [text s]

def metadataTokens (version : ScormVersion) (info : Metadata) : List Token :=
  let said (s : String) : List Token := langString version info.language s
  blockElement 1 "metadata" [] <|
    elementLine 2 "schema" [] [text "ADL SCORM"] ++
    elementLine 2 "schemaversion" [] [text version.schemaVersion] ++
    blockElement 2 "lom" [fixed "xmlns" (profile version).lom]
      (blockElement 3 "general" []
        (elementLine 4 "title" [] (said info.title) ++
          elementLine 4 "language" [] [text info.language] ++
          (if info.description.isEmpty then []
            else elementLine 4 "description" [] (said info.description)) ++
          info.keywords.flatMap fun k => elementLine 4 "keyword" [] (said k)) ++
        whenSome info.copyright fun c =>
          blockElement 3 "rights" [] (elementLine 4 "description" [] (said c)))

def limits12 (level : Nat) (masteryScore timeLimitMinutes : Option Nat) : List Token :=
  whenSome timeLimitMinutes (fun minutes =>
    elementLine level "adlcp:maxtimeallowed" [] [text (Time.timespan (minutes * 60))] ++
      elementLine level "adlcp:timelimitaction" [] [text "exit,message"]) ++
    whenSome masteryScore fun score =>
      elementLine level "adlcp:masteryscore" [] [text (toString (min score 100))]

def limits2004 (level : Nat) (identifier : String) (masteryScore timeLimitMinutes : Option Nat) :
    List Token :=
  if masteryScore.isNone && timeLimitMinutes.isNone then []
  else
    blockElement level "imsss:sequencing" [] <|
      whenSome timeLimitMinutes (fun minutes =>
        indented (level + 1) [.empty "imsss:limitConditions"
          [attr "attemptAbsoluteDurationLimit" (Time.iso8601OfMinutes minutes)]]) ++
        whenSome masteryScore fun score =>
          blockElement (level + 1) "imsss:objectives" []
            (blockElement (level + 2) "imsss:primaryObjective"
              [attr "objectiveID" ("PRIMARYOBJ-" ++ identifier),
                fixed "satisfiedByMeasure" "true"]
              (elementLine (level + 3) "imsss:minNormalizedMeasure" []
                [text (Decimal.plainText (.ofPercent (min score 100)))]))

mutual

def itemTokens (version : ScormVersion) (level : Nat) : Item → List Token
  | .node identifier title resourceRef masteryScore timeLimitMinutes children =>
    blockElement level "item"
      (attr "identifier" identifier ::
        whenSome resourceRef fun r => [attr "identifierref" r])
      (elementLine (level + 1) "title" [] [text title] ++
        itemsTokens version (level + 1) children ++
        match version with
        | .v12 => limits12 (level + 1) masteryScore timeLimitMinutes
        | .v2004 => limits2004 (level + 1) identifier masteryScore timeLimitMinutes)

def itemsTokens (version : ScormVersion) (level : Nat) : List Item → List Token
  | [] => []
  | i :: is => itemTokens version level i ++ itemsTokens version level is

end

def resourceTokens (version : ScormVersion) (r : FileGroup) : List Token :=
  blockElement 2 "resource"
    ([attr "identifier" r.identifier, fixed "type" "webcontent",
      fixed (profile version).kindAttribute r.kind.name] ++
      whenSome r.href fun h => [attr "href" h])
    ((r.files.flatMap fun f => indented 3 [.empty "file" [attr "href" f]]) ++
      r.dependencies.flatMap fun d => indented 3 [.empty "dependency" [attr "identifierref" d]])

def manifestAttributes (m : Manifest) : List Attribute :=
  let p := profile m.version
  let locations := " ".intercalate (p.schemas.map fun s => s.space ++ " " ++ s.location)
  [attr "identifier" m.identifier, attr "version" m.metadata.version,
    .onLine "xmlns" p.space, .onLine "xmlns:adlcp" p.adlcp] ++
    (p.more.map fun e => .onLine ("xmlns:" ++ e.1) e.2) ++
    [.onLine "xmlns:xsi" "http://www.w3.org/2001/XMLSchema-instance",
      .onLine "xsi:schemaLocation" locations]

/-- How the items of version 2004 follow each other. -/
def sequencing : ScormVersion → List Token
  | .v12 => []
  | .v2004 =>
    blockElement 3 "imsss:sequencing" []
      (indented 4 [.empty "imsss:controlMode" [fixed "choice" "true", fixed "flow" "true"]])

def Manifest.tokens (m : Manifest) : List Token :=
  declaration "<?xml version=\"1.0\" encoding=\"UTF-8\"?>" ++
    blockElement 0 "manifest" (manifestAttributes m)
      (metadataTokens m.version m.metadata ++
        blockElement 1 "organizations" [attr "default" m.organization.identifier]
          (blockElement 2 "organization" [attr "identifier" m.organization.identifier]
            (elementLine 3 "title" [] [text m.organization.title] ++
              itemsTokens m.version 3 m.organization.items ++ sequencing m.version)) ++
        blockElement 1 "resources" [] (m.resources.flatMap (resourceTokens m.version)))

def Manifest.document (m : Manifest) : String := render m.tokens

/-- The catalog that says where the schemas of a version are published, as tokens. -/
def catalogTokens (version : ScormVersion) : List Token :=
  declaration "<?xml version=\"1.0\" encoding=\"UTF-8\"?>" ++
    blockElement 0 "catalog" [fixed "xmlns" "urn:oasis:names:tc:entity:xmlns:xml:catalog"]
      ((profile version).schemas.flatMap fun s =>
        indented 1 [.empty "uri" [fixed "name" s.space, fixed "uri" s.location]] ++
          indented 1 [.empty "system" [fixed "systemId" s.file, fixed "uri" s.location]])

def catalog (version : ScormVersion) : String := render (catalogTokens version)

end Courseware.Descriptor.Scorm
