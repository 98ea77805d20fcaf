import Courseware.Proofs.Package.Surroundings

/-!
# References in attributes and members

Descriptors name paths in attributes, like the manifests of SCORM packages, or in members of
a value, like the manifests for the open web. A check reads exactly the paths that were
written, whatever characters they have, so files that have all of them pass and a path that is
not there any more is named.
-/

namespace Courseware.Package

/-- Whether a check of files finds in a document just the paths that it lists. -/
structure FindsListed (f : Format) (document : String) (listed : List String) : Prop where
  /-- Nothing is wrong with an archive of files that are all there. -/
  passes : ∀ files archive, Surrounds f document listed files →
    PackageContents.ofArchive archive = .ok ⟨files.files⟩ → verify archive f = .ok []
  /-- A file that is only listed is named when it is not there any more, and nothing else is
  found. -/
  names : ∀ files archive, Surrounds f document listed files →
    ∀ path ∈ listed, path ∉ descriptorPath f :: requiredPaths f →
      PackageContents.ofArchive archive = .ok ⟨(files.without [path]).files⟩ →
        ∃ found, verify archive f = .ok found ∧ found ≠ [] ∧
          ∀ q ∈ found, q = .missingContent (descriptorPath f) path
  /-- Files that plain records can hold have such archives: that of all files, and what is left
  of it when an entry is removed. -/
  archives : ∀ files packaging made, Packable files packaging made →
    files.paths ⊆ descriptorPath f :: requiredPaths f ++ listed → ∀ path,
      PackageContents.ofArchive
        (archiveOf (packedFiles packaging (.ofInstant made) files.toList)) =
          .ok ⟨files.files⟩ ∧
      PackageContents.ofArchive (archiveOf
        (remaining [path] (packedFiles packaging (.ofInstant made) files.toList))) =
          .ok ⟨(files.without [path]).files⟩

section FindsListed

variable {f : Format} {document : String} {listed paths : List String} {files : FileTree}

/-- A path that is not there any more is all that is found. -/
theorem IsDescribed.found_without (h : IsDescribed f files paths)
    (hinside : ∀ path ∈ paths, Text.isExternal path = false) {path : String}
    (hpath : path ∈ paths) (honly : path ∉ descriptorPath f :: requiredPaths f) :
    problems f ⟨(files.without [path]).files⟩ ≠ [] ∧
      ∀ q ∈ problems f ⟨(files.without [path]).files⟩,
        q = .missingContent (descriptorPath f) path := by
  rw [List.mem_cons, not_or] at honly
  obtain ⟨hdescriptor, hneeded⟩ := honly
  have hkept : descriptorPath f ∉ [path] := fun hmem =>
    hdescriptor (List.mem_singleton.mp hmem).symm
  have hrequired : ((requiredPaths f).filter fun other => [path].contains other) = [] := by
    refine List.filter_eq_nil_iff.mpr fun other hother hremoved => ?_
    rw [List.contains_iff_mem, List.mem_singleton] at hremoved
    exact hneeded (hremoved ▸ hother)
  rw [h.problems_without hinside hkept, hrequired, List.map_nil, List.nil_append]
  refine ⟨?_, ?_⟩
  · exact List.ne_nil_of_mem (List.mem_map_of_mem (List.mem_filter.mpr ⟨hpath, by simp⟩))
  · intro q hq
    obtain ⟨other, hother, rfl⟩ := List.mem_map.mp hq
    have hremoved := List.contains_iff_mem.mp (List.mem_filter.mp hother).2
    rw [List.mem_singleton.mp hremoved]

/-- A check that reads the paths of a document as references finds just these. -/
theorem findsListed_of_references
    (hreferences : ∀ p : PackageContents, references f p document = .ok ([], paths))
    (hsame : ∀ path, path ∈ paths ↔ path ∈ listed) (hne : listed ≠ [])
    (hlisted : ∀ path ∈ listed, IsFilePath path ∧ Text.isExternal path = false) :
    FindsListed f document listed where
  passes files archive hfiles hread := by
    have hdescribed := hfiles.isDescribed hreferences hsame hne
    rw [verify, hread]
    exact congrArg Except.ok hdescribed.problems_eq_nil
  names files archive hfiles path hpath honly hread := by
    have hdescribed := hfiles.isDescribed hreferences hsame hne
    have hinside : ∀ other ∈ paths, Text.isExternal other = false := fun other hother =>
      (hlisted other ((hsame other).mp hother)).2
    refine ⟨problems f ⟨(files.without [path]).files⟩, by rw [verify, hread]; rfl, ?_⟩
    exact hdescribed.found_without hinside ((hsame path).mpr hpath) honly
  archives files packaging made hpackable hpaths path := by
    have hfile : ∀ other ∈ listed, IsFilePath other := fun other hother => (hlisted other hother).1
    exact ⟨ofArchive_packedFiles hpackable hfile hpaths,
      ofArchive_remaining hpackable.pack_eq hpackable.limits (isFilePath_of_subset hfile hpaths)
        hpackable.locator [path]⟩

/-- Around a document that is not large there are files with such archives. -/
theorem FindsListed.exists_archives (h : FindsListed f document listed)
    (hdocument : document.utf8ByteSize ≤ 65535) (hcount : listed.length ≤ 900)
    (hnames : ∀ path ∈ listed, path.utf8ByteSize ≤ 65535) {path : String}
    (hpath : path ∈ listed) (honly : path ∉ descriptorPath f :: requiredPaths f) :
    ∃ archive left found, verify archive f = .ok [] ∧ verify left f = .ok found ∧
      found ≠ [] ∧ ∀ q ∈ found, q = .missingContent (descriptorPath f) path := by
  have hfiles := surrounds_filesAround f document listed
  have hpackable := packable_filesAround f document listed hdocument hcount hnames ⟨0, false⟩
  obtain ⟨hall, hrest⟩ := h.archives _ _ _ hpackable
    (fun other hother => (mem_paths_filesAround_iff f document listed).mp hother) path
  obtain ⟨found, hfound⟩ := h.names _ _ hfiles path hpath honly hrest
  exact ⟨_, _, found, h.passes _ _ hfiles hall, hfound⟩

end FindsListed

/-! ## Descriptors of outlines -/

open Descriptor (Metadata Outline)

/-- The paths that a SCORM descriptor lists: the pages and files of the lessons and what all
lessons share. -/
def scormListed (outline : Outline) (o : Descriptor.Scorm.Options) : List String :=
  (outline.flatMap fun m => m.lessons.flatMap fun l => l.launch :: l.files) ++ o.sharedFiles

/-- The paths that a descriptor for the open web lists: where the course starts and the pages
of the lessons. -/
def webListed (outline : Outline) (start : String) : List String :=
  start :: outline.flatMap fun m => m.lessons.map (·.launch)

theorem mem_scormListed_iff {info : Metadata} {outline : Outline} {version : ScormVersion}
    {o : Descriptor.Scorm.Options} {path : String} :
    path ∈ ((Descriptor.Scorm.Manifest.ofOutline info outline version o).resources.flatMap
        fun r => r.href.toList ++ r.files) ↔ path ∈ scormListed outline o := by
  rw [Descriptor.Scorm.mem_paths_ofOutline, scormListed, List.mem_append]
  refine or_congr_left ?_
  simp only [List.mem_flatMap]
  constructor
  · rintro ⟨m, hm, l, hl, hpath⟩
    exact ⟨m, (List.mem_filter.mp hm).1, l, hl, hpath⟩
  · rintro ⟨m, hm, l, hl, hpath⟩
    have hfilled : (!m.lessons.isEmpty) = true := by
      simpa using List.ne_nil_of_mem hl
    exact ⟨m, List.mem_filter.mpr ⟨hm, hfilled⟩, l, hl, hpath⟩

/-- What is listed in attributes of a SCORM descriptor, or in members of a descriptor for the
open web, is what a check finds: files that are all there pass, and one that is removed is
named. -/
theorem findsListed_ofOutline (info : Metadata) (outline : Outline) :
    (∀ (version : ScormVersion) (o : Descriptor.Scorm.Options),
      (∃ m ∈ outline, m.lessons ≠ []) →
      (∀ path ∈ scormListed outline o, IsFilePath path ∧ Text.isExternal path = false) →
        FindsListed (.scorm version)
          (Descriptor.Scorm.Manifest.ofOutline info outline version o).document
          (scormListed outline o)) ∧
    ∀ start : String, outline.Fits →
      (∀ path ∈ webListed outline start, IsFilePath path ∧ Text.isExternal path = false) →
        FindsListed .html5 (Descriptor.Web.document info outline start)
          (webListed outline start) := by
  refine ⟨?_, ?_⟩
  · intro version o hlessons hlisted
    -- A lesson is needed for a manifest to name something to launch.
    obtain ⟨m, hm, hne⟩ := hlessons
    obtain ⟨l, hl⟩ := List.exists_mem_of_ne_nil _ hne
    have hlaunch : l.launch ∈ scormListed outline o :=
      List.mem_append_left _ (List.mem_flatMap.mpr ⟨m, hm,
        List.mem_flatMap.mpr ⟨l, hl, List.mem_cons_self⟩⟩)
    have hreferences (p : PackageContents) :=
      Descriptor.Scorm.references_document
        (m := Descriptor.Scorm.Manifest.ofOutline info outline version o) p fun r hr =>
          Descriptor.Scorm.mem_identifiers_of_mem_references _ _ _ _ hr
    exact findsListed_of_references hreferences
      (fun path => mem_sorted.trans mem_scormListed_iff) (List.ne_nil_of_mem hlaunch) hlisted
  · intro start hfits hlisted
    have hreferences : ∀ p : PackageContents,
        references .html5 p (Descriptor.Web.document info outline start) =
          .ok ([], webListed outline start) := by
      intro p
      rw [references, Descriptor.Web.ofText_document info start hfits]
      change Except.ok ([], webPaths _) = _
      rw [Descriptor.Web.webPaths_manifest, webListed]
    exact findsListed_of_references hreferences (fun _ => Iff.rfl) (List.cons_ne_nil _ _)
      hlisted

/-- A lesson whose paths have characters that are escaped. -/
def quotedLesson : Descriptor.OutlineLesson :=
  { id := "l", title := "L", launch := "\"first\" & <last>.html", files := ["l's style.css"] }

/-- Two modules, the first without lessons. -/
def quotedOutline : Outline :=
  [{ id := "none", title := "None" },
    { id := "quoted", title := "Quoted", lessons := [quotedLesson] }]

/-- Files with characters that are escaped are found, and missed when they are not there. -/
theorem findsListed_ofOutline_quoted :
    (∃ archive left found, verify archive (.scorm .v2004) = .ok [] ∧
      verify left (.scorm .v2004) = .ok found ∧ found ≠ [] ∧
      ∀ q ∈ found, q = .missingContent "imsmanifest.xml" "all & more.js") ∧
    ∃ archive left found, verify archive .html5 = .ok [] ∧
      verify left .html5 = .ok found ∧ found ≠ [] ∧
      ∀ q ∈ found, q = .missingContent "manifest.json" "\"first\" & <last>.html" := by
  have hfile : IsFilePath "\"first\" & <last>.html" ∧ IsFilePath "l's style.css" ∧
      IsFilePath "all & more.js" := by
    simp [IsFilePath]
  obtain ⟨hfirst, hstyle, hshared⟩ := hfile
  have hscormListed : scormListed quotedOutline
      { masteryScore := some 80, sharedFiles := ["all & more.js"] } =
        ["\"first\" & <last>.html", "l's style.css", "all & more.js"] := rfl
  have hwebListed : webListed quotedOutline "all & more.js" =
      ["all & more.js", "\"first\" & <last>.html"] := rfl
  have hfits : quotedOutline.Fits := by
    simp [Descriptor.Outline.Fits, Descriptor.OutlineLesson.Fits, quotedOutline, quotedLesson,
      Json.wholeLimit]
  obtain ⟨hscorm, hweb⟩ := findsListed_ofOutline {} quotedOutline
  have hmanifest := hscorm .v2004 { masteryScore := some 80, sharedFiles := ["all & more.js"] }
    ⟨_, List.mem_cons_of_mem _ List.mem_cons_self, by decide⟩ (by
      rw [hscormListed]
      simp only [List.forall_mem_cons, List.not_mem_nil, false_imp_iff, implies_true, and_true]
      exact ⟨⟨hfirst, by decide⟩, ⟨hstyle, by decide⟩, hshared, by decide⟩)
  have hstart := hweb "all & more.js" hfits (by
    rw [hwebListed]
    simp only [List.forall_mem_cons, List.not_mem_nil, false_imp_iff, implies_true, and_true]
    exact ⟨⟨hshared, by decide⟩, hfirst, by decide⟩)
  have hsize : (Descriptor.Scorm.Manifest.ofOutline {} quotedOutline .v2004
      { masteryScore := some 80, sharedFiles := ["all & more.js"] }).document.utf8ByteSize ≤
        65535 := by
    rw [Descriptor.Scorm.Manifest.document, Markup.render, utf8ByteSize_join]
    decide +kernel
  refine ⟨?_, ?_⟩
  · exact hmanifest.exists_archives hsize (by decide) (by decide +kernel) (by decide) (by decide)
  · exact hstart.exists_archives (by decide +kernel) (by decide) (by decide +kernel)
      (by decide) (by decide)

end Courseware.Package
