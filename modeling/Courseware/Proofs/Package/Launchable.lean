import Courseware.Proofs.Package.TextReferences

/-!
# What a SCORM package starts with

The manifest of a SCORM package names the pages that it starts with in its resources, and the
files that these pages need in elements of their own. A check looks for all of them together, so
it finds a manifest empty only when it names neither a page nor a file. What has no problems is
told in full, and it has a page to start with unless only files are named.
-/

namespace Courseware.Package

open Markup (Event)

/-- The pages that the resources of a manifest start with. -/
def launchPaths (events : List Event) : List String :=
  attributeValues ["resource"] "href" events

/-- The files that the resources of a manifest are made of. -/
def filePaths (events : List Event) : List String :=
  attributeValues ["file"] "href" events

/-- Whether what a manifest refers to is there, and whether it declares the version of its
schema. -/
structure IsSound (version : ScormVersion) (p : PackageContents) (events : List Event) : Prop where
  known : ∀ r ∈ attributeValues ["item", "dependency"] "identifierref" events,
    r ∈ attributeValues ["resource"] "identifier" events
  schemas : ∀ path ∈ schemaPaths events, isReachable p path = true
  version : Text.trim (declaredVersion false events) = version.schemaVersion
  named : launchPaths events ≠ [] ∨ filePaths events ≠ []
  launches : ∀ path ∈ launchPaths events, isReachable p path = true
  files : ∀ path ∈ filePaths events, isReachable p path = true

/-! ## Paths of a manifest -/

section Paths

variable {events : List Event} {path : String}

theorem mem_attributeValues_append {elements others : List String} {name value : String} :
    value ∈ attributeValues (elements ++ others) name events ↔
      value ∈ attributeValues elements name events ∨
        value ∈ attributeValues others name events := by
  simp only [attributeValues, List.mem_flatMap, ← exists_or, ← and_or_left]
  refine exists_congr fun e => and_congr_right fun _ => ?_
  cases e.opening? with
  | none => simp
  | some opening =>
    obtain ⟨element, attributes⟩ := opening
    simp [or_and_right]

theorem mem_scormPaths_iff :
    path ∈ scormPaths events ↔ path ∈ launchPaths events ∨ path ∈ filePaths events := by
  rw [scormPaths, mem_sorted]
  exact @mem_attributeValues_append events ["resource"] ["file"] "href" path

theorem scormPaths_eq_nil_iff :
    scormPaths events = [] ↔ launchPaths events = [] ∧ filePaths events = [] := by
  simp only [List.eq_nil_iff_forall_not_mem, mem_scormPaths_iff, not_or, forall_and]

end Paths

/-! ## Problems of a manifest -/

section Problems

variable {version : ScormVersion} {p : PackageContents} {events : List Event}

theorem pathProblems_eq_nil_iff {descriptor : String} {paths : List String} :
    pathProblems descriptor p paths = [] ↔
      paths ≠ [] ∧ ∀ path ∈ paths, isReachable p path = true := by
  rw [pathProblems]
  by_cases hnil : paths = []
  · simp [hnil]
  · rw [if_neg (by simpa using hnil), List.map_eq_nil_iff, List.filter_eq_nil_iff]
    simp [hnil]

theorem scormProblems_eq_nil_iff :
    scormProblems version p events = [] ↔
      (∀ r ∈ attributeValues ["item", "dependency"] "identifierref" events,
        r ∈ attributeValues ["resource"] "identifier" events) ∧
      (∀ path ∈ schemaPaths events, isReachable p path = true) ∧
      Text.trim (declaredVersion false events) = version.schemaVersion := by
  simp only [scormProblems, List.append_eq_nil_iff, List.map_eq_nil_iff,
    List.filter_eq_nil_iff, ite_eq_left_iff, List.cons_ne_nil, imp_false, Decidable.not_not,
    and_assoc]
  simp

/-- A manifest that can be read has no problems when it is sound, and no other. -/
theorem isSound_iff :
    scormProblems version p events ++ pathProblems Scorm.manifestPath p (scormPaths events) = [] ↔
      IsSound version p events := by
  rw [List.append_eq_nil_iff, scormProblems_eq_nil_iff, pathProblems_eq_nil_iff, ne_eq,
    scormPaths_eq_nil_iff, not_and_or]
  simp only [mem_scormPaths_iff]
  constructor
  · rintro ⟨⟨hknown, hschemas, hversion⟩, hnamed, hreachable⟩
    exact ⟨hknown, hschemas, hversion, hnamed, fun path hpath => hreachable path (Or.inl hpath),
      fun path hpath => hreachable path (Or.inr hpath)⟩
  · intro h
    refine ⟨⟨h.known, h.schemas, h.version⟩, h.named, ?_⟩
    rintro path (hlaunch | hfile)
    · exact h.launches path hlaunch
    · exact h.files path hfile

theorem nothingToLaunch_mem_iff {descriptor : String} :
    .nothingToLaunch descriptor ∈
        scormProblems version p events ++ pathProblems descriptor p (scormPaths events) ↔
      launchPaths events = [] ∧ filePaths events = [] := by
  have hother : .nothingToLaunch descriptor ∉ scormProblems version p events := by
    simp only [scormProblems, List.mem_append, List.mem_map, reduceCtorEq, and_false,
      exists_false, false_or]
    split <;> simp
  rw [List.mem_append, or_iff_right hother, pathProblems, ← scormPaths_eq_nil_iff]
  by_cases hnil : scormPaths events = []
  · simp [hnil]
  · rw [if_neg (by simpa using hnil)]
    simp [hnil]

end Problems

/-! ## Every archive -/

section Archives

variable {version : ScormVersion} {p : PackageContents}

theorem descriptorProblems_scorm {text : String} {events : List Event}
    (htext : p.text Scorm.manifestPath = .ok text) (hevents : Event.ofDocument text = .ok events) :
    descriptorProblems (.scorm version) p =
      scormProblems version p events ++
        pathProblems Scorm.manifestPath p (scormPaths events) := by
  have hreferences : references (.scorm version) p text =
      .ok (scormProblems version p events, scormPaths events) := by
    rw [references, hevents]
    rfl
  rw [descriptorProblems, descriptorPath, htext]
  simp only [hreferences]

/-- A manifest without problems is a document that can be read. -/
theorem exists_events_of_descriptorProblems_eq_nil
    (h : descriptorProblems (.scorm version) p = []) :
    ∃ text events, p.text Scorm.manifestPath = .ok text ∧
      Event.ofDocument text = .ok events := by
  rw [descriptorProblems, descriptorPath] at h
  cases htext : p.text Scorm.manifestPath with
  | error cause =>
    rw [htext] at h
    cases h
  | ok text =>
    rw [htext] at h
    cases hevents : Event.ofDocument text with
    | error cause =>
      simp only [references, hevents] at h
      cases h
    | ok events => exact ⟨text, events, rfl, hevents⟩

theorem problems_scorm_eq_nil_iff :
    problems (.scorm version) p = [] ↔
      (∀ path ∈ requiredPaths (.scorm version), p.contains path = true) ∧
      ∃ text events, p.text Scorm.manifestPath = .ok text ∧
        Event.ofDocument text = .ok events ∧ IsSound version p events := by
  have hrequired : ((requiredPaths (.scorm version)).filter fun path =>
      !p.contains path).map Problem.missing = [] ↔
        ∀ path ∈ requiredPaths (.scorm version), p.contains path = true := by
    simp
  rw [problems, List.append_eq_nil_iff, hrequired]
  refine and_congr_right fun _ => ⟨?_, ?_⟩
  · intro h
    obtain ⟨text, events, htext, hevents⟩ := exists_events_of_descriptorProblems_eq_nil h
    rw [descriptorProblems_scorm htext hevents, isSound_iff] at h
    exact ⟨text, events, htext, hevents, h⟩
  · rintro ⟨text, events, htext, hevents, hsound⟩
    rw [descriptorProblems_scorm htext hevents, isSound_iff]
    exact hsound

theorem nothingToLaunch_mem_problems_iff {text : String} {events : List Event}
    (htext : p.text Scorm.manifestPath = .ok text) (hevents : Event.ofDocument text = .ok events) :
    .nothingToLaunch Scorm.manifestPath ∈ problems (.scorm version) p ↔
      launchPaths events = [] ∧ filePaths events = [] := by
  have hrequired : .nothingToLaunch Scorm.manifestPath ∉
      ((requiredPaths (.scorm version)).filter fun path => !p.contains path).map
        Problem.missing := by
    simp
  rw [problems, List.mem_append, or_iff_right hrequired, descriptorProblems_scorm htext hevents,
    nothingToLaunch_mem_iff]

/-- A SCORM package has no problems exactly when its files are there and its manifest is sound.
A manifest is said to name nothing to launch when it names neither a page nor a file; if it
names files only beside pages, it has a page to start with whenever nothing is wrong. -/
theorem launch_verify {archive : Bytes} (hread : PackageContents.ofArchive archive = .ok p)
    (version : ScormVersion) :
    ∃ found, verify archive (.scorm version) = .ok found ∧
      (found = [] ↔ (∀ path ∈ requiredPaths (.scorm version), p.contains path = true) ∧
        ∃ text events, p.text Scorm.manifestPath = .ok text ∧
          Event.ofDocument text = .ok events ∧ IsSound version p events) ∧
      ∀ text events, p.text Scorm.manifestPath = .ok text →
        Event.ofDocument text = .ok events →
          (.nothingToLaunch Scorm.manifestPath ∈ found ↔
            launchPaths events = [] ∧ filePaths events = []) ∧
          ((filePaths events ≠ [] → launchPaths events ≠ []) →
            (launchPaths events = [] → found ≠ []) ∧
            (found = [] → ∃ path ∈ launchPaths events, isReachable p path = true)) := by
  have hverify : verify archive (.scorm version) = .ok (problems (.scorm version) p) := by
    rw [verify, hread]
    rfl
  refine ⟨problems (.scorm version) p, hverify, problems_scorm_eq_nil_iff, ?_⟩
  intro text events htext hevents
  have hnothing := @nothingToLaunch_mem_problems_iff version p text events htext hevents
  refine ⟨hnothing, fun hbeside => ⟨?_, ?_⟩⟩
  · intro hlaunch
    have hfiles : filePaths events = [] := by
      by_contra hfiles
      exact hbeside hfiles hlaunch
    exact List.ne_nil_of_mem (hnothing.mpr ⟨hlaunch, hfiles⟩)
  · intro hnil
    obtain ⟨-, text', events', htext', hevents', hsound⟩ := problems_scorm_eq_nil_iff.mp hnil
    cases htext.symm.trans htext'
    cases hevents.symm.trans hevents'
    have hlaunch : launchPaths events ≠ [] := by
      rcases hsound.named with hlaunch | hfiles
      · exact hlaunch
      · exact hbeside hfiles
    obtain ⟨path, hpath⟩ := List.exists_mem_of_ne_nil _ hlaunch
    exact ⟨path, hpath, hsound.launches path hpath⟩

end Archives

/-! ## Small manifests -/

/-- A manifest with one resource, which has a file; `written` stands in the tag of the
resource. -/
def manifestOf (written : String) : String :=
  "<manifest><metadata><schemaversion>1.2</schemaversion></metadata><resources><resource" ++
    written ++ "><file href=\"a.html\"/></resource></resources></manifest>"

/-- The events of a manifest with one resource. -/
def eventsOf (attributes : List (String × String)) : List Event :=
  [.start "manifest" [], .start "metadata" [], .start "schemaversion" [], .text "1.2",
    .stop "schemaversion", .stop "metadata", .start "resources" [],
    .start "resource" attributes, .empty "file" [("href", "a.html")], .stop "resource",
    .stop "resources", .stop "manifest"]

theorem launchPaths_eventsOf (attributes : List (String × String)) :
    launchPaths (eventsOf attributes) =
      (attributes.filter fun a => a.1 == "href").map Prod.snd := by
  simp [launchPaths, attributeValues, eventsOf, Event.opening?, Event.localName]

/-- The manifest is sound in a package with the file. -/
theorem isSound_eventsOf {attributes : List (String × String)} {p : PackageContents}
    (hfile : p.contains "a.html" = true)
    (hhref : ∀ path ∈ launchPaths (eventsOf attributes), path = "a.html") :
    IsSound .v12 p (eventsOf attributes) := by
  have hreachable : isReachable p "a.html" = true := by
    rw [isReachable, hfile, Bool.or_true]
  have hfiles : filePaths (eventsOf attributes) = ["a.html"] := by
    simp [filePaths, attributeValues, eventsOf, Event.opening?, Event.localName]
  refine ⟨?_, ?_, ?_, Or.inr ?_, ?_, ?_⟩
  · simp [attributeValues, eventsOf, Event.opening?, Event.localName]
  · simp [schemaPaths, attributeValues, eventsOf, Event.opening?, Event.localName]
  · have hdeclared : declaredVersion false (eventsOf attributes) = "1.2" := by
      simp [declaredVersion, eventsOf, Event.opening?, Event.localName, versionElement]
    rw [hdeclared]
    decide
  · rw [hfiles]
    exact List.cons_ne_nil _ _
  · exact fun path hpath => hhref path hpath ▸ hreachable
  · rw [hfiles]
    exact List.forall_mem_singleton.mpr hreachable

/-- The file and the manifest are a package without problems. -/
theorem exists_archive_manifestOf {written : String} {attributes : List (String × String)}
    (hsize : (manifestOf written).utf8ByteSize ≤ 65535)
    (hevents : Event.ofDocument (manifestOf written) = .ok (eventsOf attributes))
    (hhref : ∀ path ∈ launchPaths (eventsOf attributes), path = "a.html") :
    ∃ archive p, PackageContents.ofArchive archive = .ok p ∧
      p.text Scorm.manifestPath = .ok (manifestOf written) ∧
      problems (.scorm .v12) p = [] := by
  have hplace : ∀ place ∈ ["a.html"], IsPlace place :=
    List.forall_mem_singleton.mpr (isPlace_of_decide (by decide) (by decide))
  obtain ⟨archive, hread⟩ :=
    @exists_archive_around (.scorm .v12) _ _ hsize (by decide) (by decide +kernel) hplace
  have hfiles := surrounds_filesAround (.scorm .v12) (manifestOf written) ["a.html"]
  have hfile := contains_iff_mem_paths.mpr (hfiles.present "a.html" List.mem_cons_self)
  refine ⟨archive, _, hread, hfiles.text_eq, problems_scorm_eq_nil_iff.mpr ⟨?_, ?_⟩⟩
  · exact fun path hpath => contains_iff_mem_paths.mpr (hfiles.required path hpath)
  · exact ⟨_, _, hfiles.text_eq, hevents, isSound_eventsOf hfile hhref⟩

/-- A package whose resource starts with its file passes, and it has that to start with. -/
theorem launch_verify_page :
    ∃ archive p, PackageContents.ofArchive archive = .ok p ∧
      verify archive (.scorm .v12) = .ok [] ∧ isReachable p "a.html" = true := by
  have hevents : Event.ofDocument (manifestOf " href=\"a.html\"") =
      .ok (eventsOf [("href", "a.html")]) := by
    decide +kernel
  have hlaunch := launchPaths_eventsOf [("href", "a.html")]
  have hhref : ∀ path ∈ launchPaths (eventsOf [("href", "a.html")]), path = "a.html" := by
    simp [hlaunch]
  obtain ⟨archive, p, hread, htext, hnil⟩ :=
    exists_archive_manifestOf (by decide +kernel) hevents hhref
  obtain ⟨found, hverify, -, htold⟩ := launch_verify hread .v12
  have hfound : found = [] := by
    rw [verify, hread] at hverify
    exact (Except.ok.inj hverify).symm.trans hnil
  have hbeside : launchPaths (eventsOf [("href", "a.html")]) ≠ [] := by
    simp [hlaunch]
  obtain ⟨-, hstarts⟩ := htold _ _ htext hevents
  obtain ⟨path, hpath, hreachable⟩ := (hstarts fun _ => hbeside).2 hfound
  exact ⟨archive, p, hread, hfound ▸ hverify, hhref path hpath ▸ hreachable⟩

/-- A package passes although no resource of its manifest starts with anything: the resource has
a file. -/
theorem verify_without_launch :
    ∃ archive p text events, PackageContents.ofArchive archive = .ok p ∧
      p.text Scorm.manifestPath = .ok text ∧ Event.ofDocument text = .ok events ∧
      launchPaths events = [] ∧ verify archive (.scorm .v12) = .ok [] := by
  have hevents : Event.ofDocument (manifestOf "") = .ok (eventsOf []) := by
    decide +kernel
  have hlaunch : launchPaths (eventsOf []) = [] := launchPaths_eventsOf []
  obtain ⟨archive, p, hread, htext, hnil⟩ :=
    exists_archive_manifestOf (by decide +kernel) hevents (by simp [hlaunch])
  refine ⟨archive, p, _, _, hread, htext, hevents, hlaunch, ?_⟩
  rw [verify, hread]
  exact congrArg Except.ok hnil

end Courseware.Package
