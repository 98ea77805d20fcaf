import Courseware.Proofs.Descriptor.ScormRoundTrip
import Courseware.Proofs.Package.References

/-!
# What SCORM descriptors refer to

The document of a manifest is read as events, in which a check finds the identifiers
and the paths of the manifest, the places of its schemas and its version.
-/

namespace Courseware.Descriptor.Scorm

open Markup Markup.Reader Markup.Xml
open Package (valuesIn tagValues tagValues_eq keyValues Tells)

/-! ## Balanced tokens -/

theorem balanced_leaf {name : String} (hname : IsName name) (level : Nat) (s : String) :
    Balanced (elementLine level name [] [text s]) :=
  Balanced.elementLine hname .nil (.text s) level

theorem balanced_said {name : String} (hname : IsName name) (version : ScormVersion)
    (language s : String) (level : Nat) :
    Balanced (elementLine level name [] (langString version language s)) := by
  have hsaid : Balanced (langString version language s) := by
    cases version with
    | v12 =>
      exact Balanced.element (isName_ofList (by decide))
        (.attr (isName_ofList (by decide)) language) (.text s)
    | v2004 =>
      exact Balanced.element (isName_ofList (by decide))
        (.attr (isName_ofList (by decide)) language) (.text s)
  exact Balanced.elementLine hname .nil hsaid level

theorem balanced_metadata (version : ScormVersion) (info : Metadata) :
    Balanced (metadataTokens version info) := by
  obtain ⟨hplain, -, -⟩ := profile_plain version
  have hlom : IsPlainValue (profile version).lom := by
    cases version <;> exact isPlainValue_ofList (by decide)
  have hdescription : Balanced (if info.description.isEmpty then []
      else elementLine 4 "description" []
        (langString version info.language info.description)) := by
    split
    · exact Balanced.nil
    · exact balanced_said (isName_ofList (by decide)) version _ _ 4
  have hgeneral := (((balanced_said (isName_ofList (by decide) : IsName "title") version
    info.language info.title 4).append
      (balanced_leaf (isName_ofList (by decide) : IsName "language") 4 info.language)).append
        hdescription).append (Balanced.flatMap fun k (_ : k ∈ info.keywords) =>
          balanced_said (isName_ofList (by decide) : IsName "keyword") version info.language k 4)
  have hrights := Balanced.whenSome (fun c => Balanced.blockElement
    (isName_ofList (by decide) : IsName "rights") .nil
    (balanced_said (isName_ofList (by decide) : IsName "description") version info.language c 4)
    3) info.copyright
  have hparts := (Balanced.blockElement (isName_ofList (by decide) : IsName "general") .nil
    hgeneral 3).append hrights
  have hspace : LegibleAttributes [fixed "xmlns" (profile version).lom] :=
    LegibleAttributes.fixed (isName_ofList (by decide)) hlom
  have hschema := (balanced_leaf (isName_ofList (by decide) : IsName "schema") 2
    "ADL SCORM").append
    (balanced_leaf (isName_ofList (by decide) : IsName "schemaversion") 2 version.schemaVersion)
  exact Balanced.blockElement (isName_ofList (by decide)) .nil
    (hschema.append (Balanced.blockElement (isName_ofList (by decide)) hspace hparts 2)) 1

def limitTokens (version : ScormVersion) (level : Nat) (identifier : String)
    (masteryScore timeLimitMinutes : Option Nat) : List Token :=
  match version with
  | .v12 => limits12 level masteryScore timeLimitMinutes
  | .v2004 => limits2004 level identifier masteryScore timeLimitMinutes

theorem itemTokens_node (version : ScormVersion) (level : Nat) (identifier title : String)
    (resourceRef : Option String) (masteryScore timeLimitMinutes : Option Nat)
    (children : List Item) :
    itemTokens version level
        (.node identifier title resourceRef masteryScore timeLimitMinutes children) =
      blockElement level "item"
        (attr "identifier" identifier ::
          whenSome resourceRef fun r => [attr "identifierref" r])
        (elementLine (level + 1) "title" [] [text title] ++
          itemsTokens version (level + 1) children ++
          limitTokens version (level + 1) identifier masteryScore timeLimitMinutes) := by
  cases version <;> rfl

theorem balanced_limits (version : ScormVersion) (level : Nat) (identifier : String)
    (masteryScore timeLimitMinutes : Option Nat) :
    Balanced (limitTokens version level identifier masteryScore timeLimitMinutes) := by
  cases version with
  | v12 =>
    refine (Balanced.whenSome (fun minutes => ?_) _).append
      (Balanced.whenSome (fun score => ?_) _)
    · exact (balanced_leaf (isName_ofList (by decide)) level _).append
        (balanced_leaf (isName_ofList (by decide)) level _)
    · exact balanced_leaf (isName_ofList (by decide)) level _
  | v2004 =>
    have hmeasure : ∀ score, Balanced (blockElement (level + 1) "imsss:objectives" []
        (blockElement (level + 2) "imsss:primaryObjective"
          [attr "objectiveID" ("PRIMARYOBJ-" ++ identifier), fixed "satisfiedByMeasure" "true"]
          (elementLine (level + 3) "imsss:minNormalizedMeasure" []
            [text (Decimal.plainText (.ofPercent (min score 100)))]))) := by
      intro score
      have htrue : LegibleAttributes [fixed "satisfiedByMeasure" "true"] :=
        LegibleAttributes.fixed (isName_ofList (by decide)) (isPlainValue_ofList (by decide))
      have hobjective := htrue.cons (.attr
        (isName_ofList (by decide) : IsName "objectiveID") ("PRIMARYOBJ-" ++ identifier)) (by simp)
      exact Balanced.blockElement (isName_ofList (by decide)) .nil
        (Balanced.blockElement (isName_ofList (by decide)) hobjective
          (balanced_leaf (isName_ofList (by decide)) _ _) _) _
    have htime : ∀ minutes, Balanced (indented (level + 1) [.empty "imsss:limitConditions"
        [attr "attemptAbsoluteDurationLimit" (Time.iso8601OfMinutes minutes)]]) :=
      fun minutes => (Balanced.empty (isName_ofList (by decide))
        (.attr (isName_ofList (by decide)) _)).indented _
    change Balanced (limits2004 level identifier masteryScore timeLimitMinutes)
    rw [limits2004]
    split
    · exact Balanced.nil
    · exact Balanced.blockElement (isName_ofList (by decide)) .nil
        ((Balanced.whenSome htime _).append (Balanced.whenSome hmeasure _)) level

mutual

theorem balanced_item (version : ScormVersion) (level : Nat) :
    ∀ i : Item, Balanced (itemTokens version level i)
  | .node identifier title resourceRef masteryScore timeLimitMinutes children => by
    have hattributes : LegibleAttributes (attr "identifier" identifier ::
        whenSome resourceRef fun r => [attr "identifierref" r]) := by
      cases resourceRef with
      | none => exact .attr (isName_ofList (by decide)) identifier
      | some r =>
        exact (LegibleAttributes.attr (isName_ofList (by decide)) r).cons
          (.attr (isName_ofList (by decide)) identifier) (by simp [whenSome])
    rw [itemTokens_node]
    exact Balanced.blockElement (isName_ofList (by decide)) hattributes
      (((balanced_leaf (isName_ofList (by decide)) _ title).append
        (balanced_items version (level + 1) children)).append
          (balanced_limits version _ identifier masteryScore timeLimitMinutes)) level

theorem balanced_items (version : ScormVersion) (level : Nat) :
    ∀ is : List Item, Balanced (itemsTokens version level is)
  | [] => Balanced.nil
  | i :: is => (balanced_item version level i).append (balanced_items version level is)

end

theorem balanced_resource (version : ScormVersion) (r : FileGroup) :
    Balanced (resourceTokens version r) := by
  have hkind : (fixed (profile version).kindAttribute r.kind.name).Legible := by
    have hplain : IsPlainValue r.kind.name := by
      cases r.kind <;> exact isPlainValue_ofList (by decide)
    cases version <;> exact .fixed (isName_ofList (by decide)) hplain
  have htype : (fixed "type" "webcontent").Legible :=
    .fixed (isName_ofList (by decide)) (isPlainValue_ofList (by decide))
  have hid : (attr "identifier" r.identifier).Legible :=
    .attr (isName_ofList (by decide)) _
  have hhref : LegibleAttributes (whenSome r.href fun h => [attr "href" h]) := by
    cases r.href with
    | none => exact .nil
    | some h => exact .attr (isName_ofList (by decide)) h
  have hattributes : LegibleAttributes ([attr "identifier" r.identifier,
      fixed "type" "webcontent", fixed (profile version).kindAttribute r.kind.name] ++
        whenSome r.href fun h => [attr "href" h]) := by
    refine ((hhref.cons hkind ?_).cons htype ?_).cons hid ?_
    all_goals
      cases version <;> cases r.href <;> simp [whenSome, profile, profile12, profile2004]
  have hreferences : ∀ {name key : String}, IsName name → IsName key → ∀ texts : List String,
      Balanced (texts.flatMap fun f => indented 3 [.empty name [attr key f]]) :=
    fun hname hkey texts => Balanced.flatMap fun f _ =>
      (Balanced.empty hname (.attr hkey f)).indented 3
  exact Balanced.blockElement (isName_ofList (by decide)) hattributes
    ((hreferences (isName_ofList (by decide)) (isName_ofList (by decide)) r.files).append
      (hreferences (isName_ofList (by decide)) (isName_ofList (by decide)) r.dependencies)) 2

theorem balanced_sequencing (version : ScormVersion) : Balanced (sequencing version) := by
  cases version with
  | v12 => exact Balanced.nil
  | v2004 =>
    have hflow : LegibleAttributes [fixed "flow" "true"] :=
      LegibleAttributes.fixed (isName_ofList (by decide)) (isPlainValue_ofList (by decide))
    have hboth : LegibleAttributes [fixed "choice" "true", fixed "flow" "true"] :=
      hflow.cons (.fixed (isName_ofList (by decide)) (isPlainValue_ofList (by decide)))
        (by simp)
    exact Balanced.blockElement (isName_ofList (by decide)) .nil
      ((Balanced.empty (isName_ofList (by decide)) hboth).indented 4) 3

theorem manifestAttributes_eq (m : Manifest) :
    manifestAttributes m =
      attr "identifier" m.identifier :: attr "version" m.metadata.version ::
        (namespacePairs (profile m.version)).map fun e => .onLine e.1 e.2 := by
  simp [manifestAttributes, namespacePairs, Function.comp_def]

/-- The names of the attributes that declare namespaces. -/
theorem map_fst_namespacePairs (p : Profile) :
    (namespacePairs p).map Prod.fst =
      ["xmlns", "xmlns:adlcp"] ++ (p.more.map fun e => "xmlns:" ++ e.1) ++
        ["xmlns:xsi", "xsi:schemaLocation"] := by
  simp [namespacePairs]

theorem nodup_manifestAttributes (version : ScormVersion) :
    ("identifier" :: "version" :: (namespacePairs (profile version)).map Prod.fst).Nodup := by
  rw [map_fst_namespacePairs]
  cases version <;> simp [profile, profile12, profile2004]

theorem legible_manifestAttributes (m : Manifest) :
    LegibleAttributes (manifestAttributes m) := by
  rw [manifestAttributes_eq]
  refine ⟨?_, ?_⟩
  · intro a ha
    rcases List.mem_cons.mp ha with rfl | ha
    · exact .attr (isName_ofList (by decide)) _
    · rcases List.mem_cons.mp ha with rfl | ha
      · exact .attr (isName_ofList (by decide)) _
      · obtain ⟨e, he, rfl⟩ := List.mem_map.mp ha
        obtain ⟨hname, hplain⟩ := namespacePairs_plain m.version e he
        exact .onLine hname hplain
  · have hnames := nodup_manifestAttributes m.version
    rw [List.map_cons, List.map_cons, List.map_map]
    exact hnames

/-- What follows the declaration of a descriptor. -/
def Manifest.body (m : Manifest) : List Token :=
  blockElement 0 "manifest" (manifestAttributes m)
    (metadataTokens m.version m.metadata ++
      blockElement 1 "organizations" [attr "default" m.organization.identifier]
        (blockElement 2 "organization" [attr "identifier" m.organization.identifier]
          (elementLine 3 "title" [] [text m.organization.title] ++
            itemsTokens m.version 3 m.organization.items ++ sequencing m.version)) ++
      blockElement 1 "resources" [] (m.resources.flatMap (resourceTokens m.version)))

theorem Manifest.balanced_body (m : Manifest) : Balanced m.body := by
  have hitems := ((balanced_leaf (isName_ofList (by decide) : IsName "title") 3
    m.organization.title).append (balanced_items m.version 3 m.organization.items)).append
      (balanced_sequencing m.version)
  have horganization := Balanced.blockElement (isName_ofList (by decide) : IsName "organization")
    (.attr (isName_ofList (by decide) : IsName "identifier") m.organization.identifier) hitems 2
  have horganizations := Balanced.blockElement
    (isName_ofList (by decide) : IsName "organizations")
    (.attr (isName_ofList (by decide) : IsName "default") m.organization.identifier)
    horganization 1
  have hresources := Balanced.blockElement (isName_ofList (by decide) : IsName "resources") .nil
    (Balanced.flatMap fun r (_ : r ∈ m.resources) => balanced_resource m.version r) 1
  exact Balanced.blockElement (isName_ofList (by decide)) (legible_manifestAttributes m)
    (((balanced_metadata m.version m.metadata).append horganizations).append hresources) 0

/-- The document of a manifest is read as the events of its tokens. -/
theorem Manifest.events_document (m : Manifest) :
    Event.ofDocument m.document = .ok (eventsFrom ['\n'] m.body) := by
  have hdeclaration : (Token.raw "<?xml version=\"1.0\" encoding=\"UTF-8\"?>").Legible :=
    Token.legible_instruction 'x' "ml version=\"1.0\" encoding=\"UTF-8\"".toList
      rfl (by decide) (by decide)
  exact m.balanced_body.ofDocument_eq hdeclaration

/-! ## Attributes -/

mutual

/-- The resources that an item and the items in it refer to, in order. -/
def Item.references : Item → List String
  | .node _ _ resourceRef _ _ children => resourceRef.toList ++ itemsReferences children

/-- The resources that items refer to, in order. -/
def itemsReferences : List Item → List String
  | [] => []
  | i :: is => i.references ++ itemsReferences is

end

/-- The metadata have no attribute but those for languages and a namespace. -/
theorem valuesIn_metadata (elements : List String) {key : String}
    (h : key ∉ ["xml:lang", "language", "xmlns"]) (version : ScormVersion)
    (info : Metadata) : valuesIn elements key (metadataTokens version info) = [] := by
  simp only [List.mem_cons, List.not_mem_nil, or_false, not_or] at h
  have hsaid : ∀ s, valuesIn elements key (langString version info.language s) = [] := by
    intro s
    cases version <;>
      simp [langString, tagValues_eq, Package.keyValues_cons, Ne.symm h.1, Ne.symm h.2.1]
  have hdescription : valuesIn elements key (if info.description.isEmpty then []
      else elementLine 4 "description" []
        (langString version info.language info.description)) = [] := by
    split <;> simp [tagValues_eq, hsaid]
  simpa [metadataTokens, tagValues_eq, Package.keyValues_cons,
    hsaid, Ne.symm h.2.2] using hdescription

/-- The limits of an item have other attributes than those of the check. -/
theorem valuesIn_limits (elements : List String) {key : String}
    (h : key ∉ ["attemptAbsoluteDurationLimit", "objectiveID", "satisfiedByMeasure"])
    (version : ScormVersion) (level : Nat) (identifier : String)
    (masteryScore timeLimitMinutes : Option Nat) :
    valuesIn elements key
      (limitTokens version level identifier masteryScore timeLimitMinutes) = [] := by
  simp only [List.mem_cons, List.not_mem_nil, or_false, not_or] at h
  cases version with
  | v12 =>
    simp [limitTokens, limits12, tagValues_eq]
  | v2004 =>
    simp only [limitTokens, limits2004]
    split
    · rfl
    · simp [tagValues_eq, Package.keyValues_cons,
        Ne.symm h.1, Ne.symm h.2.1, Ne.symm h.2.2]

theorem valuesIn_sequencing (elements : List String) {key : String}
    (h : key ∉ ["choice", "flow"]) (version : ScormVersion) :
    valuesIn elements key (sequencing version) = [] := by
  simp only [List.mem_cons, List.not_mem_nil, or_false, not_or] at h
  cases version with
  | v12 => rfl
  | v2004 =>
    simp [sequencing, tagValues_eq, Package.keyValues_cons, Ne.symm h.1, Ne.symm h.2]

theorem localName_item : Event.localName "item" = "item" := by decide

theorem localName_resource : Event.localName "resource" = "resource" := by decide

theorem localName_file : Event.localName "file" = "file" := by decide

theorem localName_dependency : Event.localName "dependency" = "dependency" := by decide

theorem localName_manifest : Event.localName "manifest" = "manifest" := by decide

theorem localName_organization : Event.localName "organization" = "organization" := by
  decide

theorem localName_organizations : Event.localName "organizations" = "organizations" := by
  decide

theorem keyValues_item (key identifier : String) (resourceRef : Option String) :
    keyValues key (attr "identifier" identifier ::
        whenSome resourceRef fun r => [attr "identifierref" r]) =
      if key = "identifier" then [identifier]
      else if key = "identifierref" then resourceRef.toList else [] := by
  by_cases hid : key = "identifier"
  · cases resourceRef <;> simp [Package.keyValues_cons, whenSome, hid]
  · by_cases href : key = "identifierref"
    · cases resourceRef <;> simp [Package.keyValues_cons, whenSome, href]
    · cases resourceRef <;>
        simp [Package.keyValues_cons, whenSome, hid, href, Ne.symm hid, Ne.symm href]

mutual

theorem references_item (version : ScormVersion) (level : Nat) :
    ∀ i : Item, valuesIn ["item", "dependency"] "identifierref"
      (itemTokens version level i) = i.references
  | .node identifier title resourceRef masteryScore timeLimitMinutes children => by
    have hlimits := valuesIn_limits ["item", "dependency"] (by decide : "identifierref" ∉ _)
      version (level + 1) identifier masteryScore timeLimitMinutes
    rw [Item.references, ← references_items version (level + 1) children]
    simp [itemTokens_node, hlimits, tagValues_eq, localName_item, keyValues_item]

theorem references_items (version : ScormVersion) (level : Nat) :
    ∀ is : List Item, valuesIn ["item", "dependency"] "identifierref"
      (itemsTokens version level is) = itemsReferences is
  | [] => rfl
  | i :: is => by
    simp only [itemsTokens, Package.gather_append, references_item version level i,
      references_items version level is, itemsReferences]

end

mutual

/-- An item has no attributes that count for other elements. -/
theorem valuesIn_item {elements : List String} (helements : "item" ∉ elements)
    {key : String}
    (hkey : key ∉ ["attemptAbsoluteDurationLimit", "objectiveID", "satisfiedByMeasure"])
    (version : ScormVersion) (level : Nat) :
    ∀ i : Item, valuesIn elements key (itemTokens version level i) = []
  | .node identifier title resourceRef masteryScore timeLimitMinutes children => by
    have hlimits := valuesIn_limits elements hkey version (level + 1) identifier masteryScore
      timeLimitMinutes
    have hchildren := valuesIn_items helements hkey version (level + 1) children
    simp [itemTokens_node, hlimits, hchildren, tagValues_eq, localName_item, helements]

theorem valuesIn_items {elements : List String} (helements : "item" ∉ elements)
    {key : String}
    (hkey : key ∉ ["attemptAbsoluteDurationLimit", "objectiveID", "satisfiedByMeasure"])
    (version : ScormVersion) (level : Nat) :
    ∀ is : List Item, valuesIn elements key (itemsTokens version level is) = []
  | [] => rfl
  | i :: is => by
    simp only [itemsTokens, Package.gather_append,
      valuesIn_item helements hkey version level i,
      valuesIn_items helements hkey version level is, List.append_nil]

end

theorem valuesIn_resource (elements : List String) (key : String) (version : ScormVersion)
    (r : FileGroup) :
    valuesIn elements key (resourceTokens version r) =
      tagValues elements key "resource"
          ([attr "identifier" r.identifier, fixed "type" "webcontent",
            fixed (profile version).kindAttribute r.kind.name] ++
            whenSome r.href fun h => [attr "href" h]) ++
        ((r.files.flatMap fun f => tagValues elements key "file" [attr "href" f]) ++
          r.dependencies.flatMap fun d =>
            tagValues elements key "dependency" [attr "identifierref" d]) := by
  simp [resourceTokens]

theorem keyValues_resource {key : String} (version : ScormVersion)
    (hkey : key ∉ ["type", "adlcp:scormtype", "adlcp:scormType"]) (r : FileGroup) :
    keyValues key ([attr "identifier" r.identifier, fixed "type" "webcontent",
        fixed (profile version).kindAttribute r.kind.name] ++
        whenSome r.href fun h => [attr "href" h]) =
      (if key = "identifier" then [r.identifier] else []) ++
        if key = "href" then r.href.toList else [] := by
  have hkind : (profile version).kindAttribute ≠ key := by
    rintro rfl
    cases version <;> exact absurd hkey (by simp [profile, profile12, profile2004])
  have htype : "type" ≠ key := by
    rintro rfl
    exact absurd hkey (by simp)
  have href : keyValues key (whenSome r.href fun h => [attr "href" h]) =
      if key = "href" then r.href.toList else [] := by
    cases r.href <;> simp [whenSome, Package.keyValues_cons, eq_comm]
  simp [Package.keyValues_cons, hkind, htype, href, eq_comm]

theorem dependencies_resource (version : ScormVersion) (r : FileGroup) :
    valuesIn ["item", "dependency"] "identifierref" (resourceTokens version r) =
      r.dependencies := by
  simp [valuesIn_resource, tagValues_eq, localName_resource, localName_file,
    localName_dependency, Package.keyValues_cons]

theorem identifier_resource (version : ScormVersion) (r : FileGroup) :
    valuesIn ["resource"] "identifier" (resourceTokens version r) = [r.identifier] := by
  rw [valuesIn_resource, tagValues_eq, localName_resource,
    keyValues_resource version (by decide)]
  simp [tagValues_eq, localName_file, localName_dependency]

theorem paths_resource (version : ScormVersion) (r : FileGroup) :
    valuesIn ["resource", "file"] "href" (resourceTokens version r) =
      r.href.toList ++ r.files := by
  rw [valuesIn_resource, tagValues_eq, localName_resource,
    keyValues_resource version (by decide)]
  simp [tagValues_eq, localName_file, localName_dependency, Package.keyValues_cons]

theorem schemas_resource (version : ScormVersion) (r : FileGroup) :
    valuesIn ["manifest"] "xsi:schemaLocation" (resourceTokens version r) = [] := by
  simp [valuesIn_resource, tagValues_eq, localName_resource, localName_file,
    localName_dependency]

/-! ## Manifests -/

/-- The values of an attribute on the tokens of a manifest, part by part. -/
theorem Manifest.valuesIn_body (elements : List String) {key : String}
    (hkey : key ∉ ["xml:lang", "language", "xmlns", "choice", "flow"]) (m : Manifest) :
    valuesIn elements key m.body =
      tagValues elements key "manifest" (manifestAttributes m) ++
        (tagValues elements key "organizations" [attr "default" m.organization.identifier] ++
          (tagValues elements key "organization"
              [attr "identifier" m.organization.identifier] ++
            valuesIn elements key (itemsTokens m.version 3 m.organization.items)) ++
          m.resources.flatMap fun r => valuesIn elements key (resourceTokens m.version r)) := by
  simp only [List.mem_cons, List.not_mem_nil, or_false, not_or] at hkey
  obtain ⟨hlang, hlanguage, hxmlns, hchoice, hflow⟩ := hkey
  have hmetadata : valuesIn elements key (metadataTokens m.version m.metadata) = [] :=
    valuesIn_metadata elements (by simp [hlang, hlanguage, hxmlns]) m.version m.metadata
  have hsequencing : valuesIn elements key (sequencing m.version) = [] :=
    valuesIn_sequencing elements (by simp [hchoice, hflow]) m.version
  simp [Manifest.body, hmetadata, hsequencing, tagValues_eq elements key "title",
    tagValues_eq elements key "resources"]

/-- The resources that items and other resources refer to. -/
theorem Manifest.references_body (m : Manifest) :
    valuesIn ["item", "dependency"] "identifierref" m.body =
      itemsReferences m.organization.items ++ m.resources.flatMap (·.dependencies) := by
  rw [m.valuesIn_body _ (by decide), references_items]
  simp [tagValues_eq, localName_manifest, localName_organization, localName_organizations,
    dependencies_resource]

/-- The identifiers of the resources. -/
theorem Manifest.identifiers_body (m : Manifest) :
    valuesIn ["resource"] "identifier" m.body = m.resources.map (·.identifier) := by
  rw [m.valuesIn_body _ (by decide), valuesIn_items (by decide) (by decide)]
  simp [tagValues_eq, localName_manifest, localName_organization, localName_organizations,
    identifier_resource, ← List.map_eq_flatMap]

/-- The paths of the resources and their files. -/
theorem Manifest.paths_body (m : Manifest) :
    valuesIn ["resource", "file"] "href" m.body =
      m.resources.flatMap fun r => r.href.toList ++ r.files := by
  rw [m.valuesIn_body _ (by decide), valuesIn_items (by decide) (by decide)]
  simp [tagValues_eq, localName_manifest, localName_organization, localName_organizations,
    paths_resource]

/-- The namespaces of schemas, each followed by the place of the schema. -/
def Profile.places (p : Profile) : List String :=
  p.schemas.flatMap fun s => [s.space, s.location]

theorem keyValues_onLine {key : String} {pairs : List (String × String)}
    (h : ∀ e ∈ pairs, IsName e.1 ∧ IsPlainValue e.2) :
    keyValues key (pairs.map fun e => .onLine e.1 e.2) =
      (pairs.filter fun e => e.1 == key).map Prod.snd := by
  induction pairs with
  | nil => rfl
  | cons e es ih =>
    obtain ⟨-, hplain⟩ := h e List.mem_cons_self
    rw [List.map_cons, Package.keyValues_cons, ih fun x hx => h x (List.mem_cons_of_mem _ hx),
      Attribute.pair_onLine _ hplain]
    by_cases hkey : e.1 = key <;> simp [hkey]

theorem intercalate_places (schemas : List Schema) :
    " ".intercalate (schemas.map fun s => s.space ++ " " ++ s.location) =
      " ".intercalate (schemas.flatMap fun s => [s.space, s.location]) := by
  induction schemas with
  | nil => rfl
  | cons s schemas ih =>
    cases schemas with
    | nil => simp
    | cons t schemas =>
      simp only [List.map_cons, List.flatMap_cons, List.cons_append, List.nil_append,
        String.intercalate_cons_cons] at ih ⊢
      rw [ih]
      simp [String.append_assoc]

/-- Schemas are placed by one attribute. -/
theorem filter_namespacePairs (version : ScormVersion) :
    ((namespacePairs (profile version)).filter fun e => e.1 == "xsi:schemaLocation").map
        Prod.snd =
      [" ".intercalate ((profile version).schemas.map fun s => s.space ++ " " ++ s.location)] := by
  have hmore : ∀ e ∈ (profile version).more, "xmlns:" ++ e.1 ≠ "xsi:schemaLocation" := by
    cases version <;> simp [profile, profile12, profile2004]
  have hnone : ((profile version).more.map fun e => ("xmlns:" ++ e.1, e.2)).filter
      (fun e => e.1 == "xsi:schemaLocation") = [] := by
    apply List.filter_eq_nil_iff.mpr
    intro x hx
    obtain ⟨e, he, rfl⟩ := List.mem_map.mp hx
    simpa using hmore e he
  rw [namespacePairs, List.filter_append, List.filter_append, hnone]
  simp

/-- The places of the schemas. -/
theorem Manifest.schemas_body (m : Manifest) :
    valuesIn ["manifest"] "xsi:schemaLocation" m.body =
      [" ".intercalate (profile m.version).places] := by
  have hlocation : keyValues "xsi:schemaLocation" (manifestAttributes m) =
      [" ".intercalate (profile m.version).places] := by
    rw [manifestAttributes_eq, Package.keyValues_cons, Package.keyValues_cons,
      keyValues_onLine (namespacePairs_plain m.version), filter_namespacePairs, Profile.places,
      intercalate_places]
    rfl
  rw [m.valuesIn_body _ (by decide), valuesIn_items (by decide) (by decide)]
  simp [tagValues_eq, localName_manifest, localName_organization, localName_organizations,
    schemas_resource, hlocation]

/-! ## The declared version -/

theorem isPhrase_schemaVersion (version : ScormVersion) :
    Package.IsPhrase version.schemaVersion := by
  cases version <;> exact ⟨by decide, by decide, by decide, by decide⟩

open Package (namesIn versionElement gather_append gather_whenSome gather_elementLine
  gather_blockElement gather_text gather_flatMap)

theorem not_mem_namesIn_limits (version : ScormVersion) (level : Nat) (identifier : String)
    (masteryScore timeLimitMinutes : Option Nat) :
    versionElement ∉ namesIn
      (limitTokens version level identifier masteryScore timeLimitMinutes) := by
  cases version with
  | v12 =>
    simp only [limitTokens, limits12, gather_append, gather_whenSome, gather_elementLine]
    simp
    exact ⟨fun _ _ => ⟨by decide, by decide⟩, fun _ _ => by decide⟩
  | v2004 =>
    simp only [limitTokens, limits2004]
    split
    · simp
    · simp
      exact ⟨by decide, fun _ _ => by decide, fun _ _ => ⟨by decide, by decide, by decide⟩⟩

mutual

theorem not_mem_namesIn_item (version : ScormVersion) (level : Nat) :
    ∀ i : Item, versionElement ∉ namesIn (itemTokens version level i)
  | .node identifier title resourceRef masteryScore timeLimitMinutes children => by
    have hlimits := not_mem_namesIn_limits version (level + 1) identifier masteryScore
      timeLimitMinutes
    have hchildren := not_mem_namesIn_items version (level + 1) children
    have hitem : ¬ versionElement = Event.localName "item" := by decide
    have htitle : ¬ versionElement = Event.localName "title" := by decide
    simp [itemTokens_node, hlimits, hchildren, hitem, htitle]

theorem not_mem_namesIn_items (version : ScormVersion) (level : Nat) :
    ∀ is : List Item, versionElement ∉ namesIn (itemsTokens version level is)
  | [] => by simp [itemsTokens]
  | i :: is => by
    have hfirst := not_mem_namesIn_item version level i
    have hrest := not_mem_namesIn_items version level is
    simp [itemsTokens, hfirst, hrest]

end

theorem not_mem_namesIn_resource (version : ScormVersion) (r : FileGroup) :
    versionElement ∉ namesIn (resourceTokens version r) := by
  have hresource : ¬ versionElement = Event.localName "resource" := by decide
  have hfile : ¬ versionElement = Event.localName "file" := by decide
  have hdependency : ¬ versionElement = Event.localName "dependency" := by decide
  simp [resourceTokens, hresource, hfile, hdependency]

theorem not_mem_namesIn_sequencing (version : ScormVersion) :
    versionElement ∉ namesIn (sequencing version) := by
  cases version with
  | v12 => simp [sequencing]
  | v2004 =>
    simp [sequencing]
    exact ⟨by decide, by decide⟩

/-- What the metadata say besides the schema. -/
theorem not_mem_namesIn_lom (version : ScormVersion) (info : Metadata) :
    versionElement ∉ namesIn
      (blockElement 2 "lom" [fixed "xmlns" (profile version).lom]
        (blockElement 3 "general" []
          (elementLine 4 "title" [] (langString version info.language info.title) ++
            elementLine 4 "language" [] [text info.language] ++
            (if info.description.isEmpty then []
              else elementLine 4 "description" []
                (langString version info.language info.description)) ++
            info.keywords.flatMap fun k =>
              elementLine 4 "keyword" [] (langString version info.language k)) ++
          whenSome info.copyright fun c =>
            blockElement 3 "rights" []
              (elementLine 4 "description" [] (langString version info.language c)))) := by
  have hsaid : ∀ s, versionElement ∉ namesIn (langString version info.language s) := by
    intro s
    cases version <;> simp [langString] <;> decide
  have hdescription : versionElement ∉ namesIn (if info.description.isEmpty then []
      else elementLine 4 "description" []
        (langString version info.language info.description)) := by
    split
    · simp
    · simp [hsaid]
      decide
  simp only [gather_blockElement, gather_append, gather_elementLine, gather_text,
    gather_flatMap, gather_whenSome, List.mem_append, List.mem_singleton, List.mem_flatMap,
    List.not_mem_nil, hsaid, hdescription, or_false, not_or, not_exists, not_and]
  refine ⟨by decide, ⟨by decide, ⟨⟨by decide, by decide⟩, ?_⟩⟩, ?_⟩
  · exact fun _ _ => by decide
  · exact fun _ _ => ⟨by decide, by decide⟩

/-- A descriptor declares the version of its manifest, and no other. -/
theorem Manifest.version_body (m : Manifest) (pending : List Char) :
    Package.declaredVersion false (eventsFrom pending m.body) = m.version.schemaVersion := by
  have hview := Package.listens_versionChars
  have hmetadata : Tells Package.versionChars (metadataTokens m.version m.metadata)
      m.version.schemaVersion.toList := by
    have hschema : Tells Package.versionChars
        (elementLine 2 "schema" [] [text "ADL SCORM"]) [] :=
      Tells.of_not_mem hview (by simp; decide)
    have hversion := (Package.tells_versionChars (by decide) []
      (isPhrase_schemaVersion m.version) : Tells _ (element "schemaversion" [] _) _).indented
        hview 2
    have hall := (hschema.append hversion).append
      (Tells.of_not_mem hview (not_mem_namesIn_lom m.version m.metadata))
    rw [List.append_nil, List.nil_append] at hall
    exact hall.blockElement hview (by decide) [] 1
  have horganizations : Tells Package.versionChars
      (blockElement 1 "organizations" [attr "default" m.organization.identifier]
        (blockElement 2 "organization" [attr "identifier" m.organization.identifier]
          (elementLine 3 "title" [] [text m.organization.title] ++
            itemsTokens m.version 3 m.organization.items ++ sequencing m.version))) [] := by
    apply Tells.of_not_mem hview
    simp [not_mem_namesIn_items, not_mem_namesIn_sequencing]
    exact ⟨by decide, by decide, by decide⟩
  have hresources : Tells Package.versionChars
      (blockElement 1 "resources" [] (m.resources.flatMap (resourceTokens m.version))) [] := by
    apply Tells.of_not_mem hview
    simp [not_mem_namesIn_resource]
    decide
  have hall := ((hmetadata.append horganizations).append hresources).blockElement hview
    (by decide : Event.localName "manifest" ≠ versionElement) (manifestAttributes m) 0
  rw [List.append_nil, List.append_nil] at hall
  exact String.toList_inj.mp (hall.eventsFrom_eq hview rfl pending)

end Courseware.Descriptor.Scorm
