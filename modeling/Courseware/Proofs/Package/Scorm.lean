import Courseware.Proofs.Descriptor.ScormReferences
import Courseware.Proofs.Package.Checks
import Courseware.Proofs.Script.Slot

/-!
# SCORM packages have no problems

The descriptor that is made of an outline refers only to resources that it has, and
those are files of the package.
-/

namespace Courseware

/-! ## Descriptors of outlines -/

namespace Descriptor.Scorm

open Package (schemaPaths everySecond scormProblems scormPaths)

theorem itemsReferences_eq (items : List Item) :
    itemsReferences items = items.flatMap Item.references := by
  induction items with
  | nil => rfl
  | cons i items ih => rw [itemsReferences, ih, List.flatMap_cons]

section Outline

variable (info : Metadata) (outline : Outline) (version : ScormVersion) (o : Options)

theorem references_ofOutline :
    itemsReferences (Manifest.ofOutline info outline version o).organization.items =
      outline.launchable.flatMap fun m => m.lessons.map fun l => resourceId l.id := by
  have hlessons : ∀ ls : List OutlineLesson,
      itemsReferences (ls.map (lessonItem o)) = ls.map fun l => resourceId l.id := by
    intro ls
    rw [itemsReferences_eq, List.flatMap_map, List.map_eq_flatMap]
    simp [lessonItem, Item.references, itemsReferences]
  rw [Manifest.ofOutline, itemsReferences_eq, List.flatMap_map]
  congr 1
  funext m
  rw [moduleItem, Item.references, hlessons]
  rfl

theorem mem_resources_ofOutline {r : FileGroup} :
    r ∈ (Manifest.ofOutline info outline version o).resources ↔
      (∃ m ∈ outline.launchable, ∃ l ∈ m.lessons, r = lessonResource o l) ∨
        r ∈ sharedResource o := by
  simp [Manifest.ofOutline, eq_comm]

/-- What is referred to is a resource. -/
theorem mem_identifiers_of_mem_references {r : String}
    (h : r ∈ itemsReferences (Manifest.ofOutline info outline version o).organization.items ++
      (Manifest.ofOutline info outline version o).resources.flatMap (·.dependencies)) :
    r ∈ (Manifest.ofOutline info outline version o).resources.map (·.identifier) := by
  have hshared : ∀ d ∈ (if o.sharedFiles.isEmpty then [] else [sharedId]),
      ∃ s ∈ sharedResource o, s.identifier = d := by
    intro d hd
    by_cases hempty : o.sharedFiles.isEmpty = true
    · simp [hempty] at hd
    · rw [if_neg hempty] at hd
      exact ⟨⟨sharedId, none, .asset, o.sharedFiles, []⟩,
        by rw [sharedResource, if_neg hempty]; exact List.mem_cons_self,
        (List.mem_singleton.mp hd).symm⟩
  rcases List.mem_append.mp h with h | h
  · rw [references_ofOutline] at h
    obtain ⟨m, hm, h⟩ := List.mem_flatMap.mp h
    obtain ⟨l, hl, rfl⟩ := List.mem_map.mp h
    exact List.mem_map.mpr ⟨lessonResource o l,
      (mem_resources_ofOutline info outline version o).mpr (Or.inl ⟨m, hm, l, hl, rfl⟩), rfl⟩
  · obtain ⟨g, hg, hr⟩ := List.mem_flatMap.mp h
    have hdependency : r ∈ (if o.sharedFiles.isEmpty then [] else [sharedId]) := by
      rcases (mem_resources_ofOutline info outline version o).mp hg with
        ⟨m, -, l, -, rfl⟩ | hg
      · exact hr
      · rw [sharedResource] at hg
        split at hg
        · cases hg
        · rw [List.mem_singleton.mp hg] at hr
          cases hr
    obtain ⟨s, hs, rfl⟩ := hshared r hdependency
    exact List.mem_map.mpr ⟨s,
      (mem_resources_ofOutline info outline version o).mpr (Or.inr hs), rfl⟩

/-- The paths of a descriptor are those of the lessons and the shared files. -/
theorem mem_paths_ofOutline {path : String} :
    path ∈ ((Manifest.ofOutline info outline version o).resources.flatMap fun r =>
        r.href.toList ++ r.files) ↔
      (∃ m ∈ outline.launchable, ∃ l ∈ m.lessons, path ∈ l.launch :: l.files) ∨
        path ∈ o.sharedFiles := by
  rw [List.mem_flatMap]
  constructor
  · rintro ⟨r, hr, hpath⟩
    rcases (mem_resources_ofOutline info outline version o).mp hr with
      ⟨m, hm, l, hl, rfl⟩ | hr
    · refine Or.inl ⟨m, hm, l, hl, ?_⟩
      simpa [lessonResource] using hpath
    · rw [sharedResource] at hr
      split at hr
      · cases hr
      · rw [List.mem_singleton.mp hr] at hpath
        exact Or.inr hpath
  · rintro (⟨m, hm, l, hl, hpath⟩ | hpath)
    · refine ⟨lessonResource o l,
        (mem_resources_ofOutline info outline version o).mpr (Or.inl ⟨m, hm, l, hl, rfl⟩), ?_⟩
      exact List.mem_append_right _ hpath
    · have hne : ¬ o.sharedFiles.isEmpty = true := by
        intro hempty
        rw [List.isEmpty_iff.mp hempty] at hpath
        cases hpath
      refine ⟨⟨sharedId, none, .asset, o.sharedFiles, []⟩,
        (mem_resources_ofOutline info outline version o).mpr (Or.inr ?_), hpath⟩
      rw [sharedResource, if_neg hne]
      exact List.mem_cons_self

end Outline

/-! ## Schemas -/

theorem everySecond_flatMap {α β : Type} (f g : α → β) (as : List α) :
    everySecond (as.flatMap fun a => [f a, g a]) = as.map g := by
  induction as with
  | nil => rfl
  | cons a as ih =>
    change g a :: everySecond (as.flatMap fun a => [f a, g a]) = _
    rw [ih, List.map_cons]

theorem isExternal_of_http {cs : List Char} :
    Text.isExternal (String.ofList ('h' :: 't' :: 't' :: 'p' :: ':' :: '/' :: '/' :: cs)) =
      true := by
  have hblank : Text.isBlank 'h' = false := by decide
  have hstart : Text.externalStarts =
      ["http://", "https://", "//", "data:", "mailto:"] := rfl
  have hlower : ('h' :: 't' :: 't' :: 'p' :: ':' :: '/' :: '/' :: cs).map Text.lowerChar =
      "http://".toList ++ cs.map Text.lowerChar := rfl
  rw [Text.isExternal, String.toList_ofList, List.dropWhile_cons, hblank,
    if_neg Bool.false_ne_true, hlower, hstart, List.any_cons]
  simp

/-- The schemas of a version are words and are placed outside the package. -/
theorem schemas_external (version : ScormVersion) :
    ∀ s ∈ (profile version).schemas,
      Text.IsWord s.space ∧ Text.IsWord s.location ∧ Text.isExternal s.location = true := by
  cases version with
  | v12 =>
    simp only [profile, profile12, List.forall_mem_cons, List.not_mem_nil, false_imp_iff,
      implies_true, and_true]
    refine ⟨⟨?_, ?_, isExternal_of_http⟩, ⟨?_, ?_, isExternal_of_http⟩, ?_, ?_,
      isExternal_of_http⟩ <;> exact Text.isWord_ofList (by decide)
  | v2004 =>
    simp only [profile, profile2004, List.forall_mem_cons, List.not_mem_nil, false_imp_iff,
      implies_true, and_true]
    refine ⟨⟨?_, ?_, isExternal_of_http⟩, ⟨?_, ?_, isExternal_of_http⟩,
      ⟨?_, ?_, isExternal_of_http⟩, ⟨?_, ?_, isExternal_of_http⟩, ⟨?_, ?_, isExternal_of_http⟩,
      ?_, ?_, isExternal_of_http⟩ <;> exact Text.isWord_ofList (by decide)

/-- No schema is looked for in the package. -/
theorem schemaPaths_document (m : Manifest) (pending : List Char) (p : PackageContents) :
    ((schemaPaths (Markup.eventsFrom pending m.body)).filter fun path =>
      !Package.isReachable p path) = [] := by
  have hwords : ∀ w ∈ (profile m.version).places, Text.IsWord w := by
    intro w hw
    obtain ⟨s, hs, hw⟩ := List.mem_flatMap.mp hw
    obtain ⟨hspace, hlocation, -⟩ := schemas_external m.version s hs
    simp only [List.mem_cons, List.not_mem_nil, or_false] at hw
    rcases hw with rfl | rfl
    · exact hspace
    · exact hlocation
  have hpaths : schemaPaths (Markup.eventsFrom pending m.body) =
      (profile m.version).schemas.map (·.location) := by
    rw [schemaPaths, Package.attributeValues_eventsFrom, m.schemas_body, List.flatMap_singleton,
      Text.words_intercalate hwords, Profile.places, everySecond_flatMap]
  rw [hpaths]
  apply List.filter_eq_nil_iff.mpr
  intro path hpath
  obtain ⟨s, hs, rfl⟩ := List.mem_map.mp hpath
  simp [Package.isReachable, (schemas_external m.version s hs).2.2]

/-- The document of a descriptor whose references are resources has no problem but the
paths that may be missing. -/
theorem references_document {m : Manifest} (p : PackageContents)
    (hreferences : ∀ r ∈ itemsReferences m.organization.items ++
      m.resources.flatMap (·.dependencies), r ∈ m.resources.map (·.identifier)) :
    Package.references (.scorm m.version) p m.document =
      .ok ([], Package.sorted (m.resources.flatMap fun r => r.href.toList ++ r.files)) := by
  have hunknown : ((itemsReferences m.organization.items ++
      m.resources.flatMap (·.dependencies)).filter fun r =>
        !(m.resources.map (·.identifier)).contains r) = [] := by
    apply List.filter_eq_nil_iff.mpr
    intro r hr
    have hmem : (m.resources.map (·.identifier)).contains r = true :=
      List.contains_iff_mem.mpr (hreferences r hr)
    rw [hmem]
    decide
  have hproblems : scormProblems m.version p (Markup.eventsFrom ['\n'] m.body) = [] := by
    rw [scormProblems, schemaPaths_document]
    simp only [Package.attributeValues_eventsFrom, m.references_body, m.identifiers_body,
      m.version_body, hunknown, (isPhrase_schemaVersion m.version).trim_eq, if_true,
      List.map_nil, List.append_nil]
  rw [Package.references, m.events_document]
  simp only [bind, Except.bind, pure, Except.pure, hproblems, scormPaths,
    Package.attributeValues_eventsFrom, m.paths_body]

end Descriptor.Scorm

/-! ## Packages -/

namespace Package.Scorm

open Descriptor.Scorm (Manifest)

variable {version : ScormVersion} {p : Plan} {ctx : ExportContext} {files : FileTree}
  {script : String}

def lessonTexts (version : ScormVersion) (ctx : ExportContext) (l : PlannedLesson) :
    List TextFile :=
  [(launcherPath l, launcherPage ctx l), (contentPath l, contentPage version ctx l)]

def texts (version : ScormVersion) (script : String) (p : Plan) (ctx : ExportContext) :
    List TextFile :=
  [(manifestPath, (manifest version p ctx).document), (scriptPath, script),
    (stylesPath, Page.stylesheet), (catalogPath, Descriptor.Scorm.catalog version),
    ("README.txt", readme p ctx (.scorm version) steps)] ++
    p.lessons.flatMap (lessonTexts version ctx)

def scheme : PathScheme where
  shared := [manifestPath, scriptPath, stylesPath, catalogPath, "README.txt"]
  start := "content/"
  stops := ["/index.html", "/content.html"]
  last := scriptPath

theorem sound_scheme : scheme.Sound where
  isPath_shared := by
    simp only [scheme, List.forall_mem_cons, List.not_mem_nil, false_imp_iff, implies_true,
      and_true]
    refine ⟨?_, ?_, ?_, ?_, ?_⟩ <;> exact isPath_ofList ⟨by decide, _, rfl, by decide⟩
  isPath_stop := by
    simp only [scheme, List.forall_mem_cons, List.not_mem_nil, false_imp_iff, implies_true,
      and_true]
    exact ⟨isPath_ofList ⟨by decide, _, rfl, by decide⟩,
      isPath_ofList ⟨by decide, _, rfl, by decide⟩⟩
  start_chars := by decide
  nodup_shared := by decide
  nodup_stops := by decide
  last_mem := by decide
  last_max := by decide
  ending := Or.inr (by decide)
  separated := Or.inr (by decide)
  first := ⟨'c', _, rfl, by decide, 's', _, rfl, by decide⟩

theorem launcherPath_eq (hp : Plan.ofCourse ctx.course = .ok p) {l : PlannedLesson}
    (hl : l ∈ p.lessons) :
    launcherPath l = segmentPath "content/" l.lesson.id "/index.html" := by
  rw [launcherPath, Plan.segment_eq hp hl, segmentPath]

theorem contentPath_eq (hp : Plan.ofCourse ctx.course = .ok p) {l : PlannedLesson}
    (hl : l ∈ p.lessons) :
    contentPath l = segmentPath "content/" l.lesson.id "/content.html" := by
  rw [contentPath, Plan.segment_eq hp hl, segmentPath]

theorem map_fst_texts (hp : Plan.ofCourse ctx.course = .ok p) :
    (texts version script p ctx).map Prod.fst = scheme.paths p := by
  refine PathScheme.map_fst_texts rfl fun l hl => ?_
  simp [lessonTexts, PathScheme.lessonPaths, scheme, launcherPath_eq hp hl,
    contentPath_eq hp hl]

theorem exists_packageFiles (version : ScormVersion) (p : Plan) (ctx : ExportContext)
    {files : List TextFile} (h : packageFiles version p ctx = .ok files) :
    ∃ script, files ++ p.lessons.flatMap (lessonTexts version ctx) =
      texts version script p ctx := by
  obtain ⟨script, -, hreturn⟩ := bind_eq_ok_iff.mp h
  exact ⟨script, by rw [← Except.ok.inj hreturn]; rfl⟩

theorem exists_holds (h : (exporter version).planFiles p ctx = .ok files) :
    ∃ script, FileTree.empty.Holds files
      ((texts version script p ctx).map fun f => (f.1, Text.utf8 f.2)) := by
  obtain ⟨shared, hshared, -⟩ := bind_eq_ok_iff.mp h
  obtain ⟨script, htexts⟩ := exists_packageFiles version p ctx hshared
  refine ⟨script, ?_⟩
  rw [← htexts]
  exact Exporter.holds_of_planFiles h hshared fun l _ => rfl

/-- Every plan has its files. -/
theorem exists_planFiles (hp : Plan.ofCourse ctx.course = .ok p) :
    ∃ files, (exporter version).planFiles p ctx = .ok files := by
  obtain ⟨script, hscript⟩ := Script.exists_scormScript version
  obtain ⟨shared, hshared⟩ : ∃ shared, (exporter version).packageFiles p ctx = .ok shared :=
    ⟨_, bind_eq_ok_iff.mpr ⟨_, hscript, rfl⟩⟩
  obtain ⟨script, htexts⟩ := exists_packageFiles version p ctx hshared
  have hpaths : (texts version script p ctx).map Prod.fst = scheme.paths p := map_fst_texts hp
  rw [← htexts] at hpaths
  exact sound_scheme.exists_planFiles hp hshared (fun _ _ => rfl) hpaths

theorem mem_paths_manifest_iff {path : String} :
    path ∈ ((manifest version p ctx).resources.flatMap fun r => r.href.toList ++ r.files) ↔
      (path = scriptPath ∨ path = stylesPath) ∨
        ∃ l ∈ p.lessons, path = launcherPath l ∨ path = contentPath l := by
  have houtline := p.lessons_outline launcherPath fun l => [contentPath l]
  have hshared : path ∈ [scriptPath, stylesPath] ↔ path = scriptPath ∨ path = stylesPath := by
    simp
  rw [manifest, Descriptor.Scorm.mem_paths_ofOutline, hshared, or_comm]
  refine or_congr_right ⟨?_, ?_⟩
  · rintro ⟨m, hm, q, hq, hpath⟩
    have hlesson := List.mem_flatMap.mpr ⟨m, hm, hq⟩
    rw [houtline] at hlesson
    obtain ⟨l, hl, rfl⟩ := List.mem_map.mp hlesson
    exact ⟨l, hl, by simpa [PlannedLesson.outline] using hpath⟩
  · rintro ⟨l, hl, hpath⟩
    have hlesson : PlannedLesson.outline launcherPath (fun l => [contentPath l]) l ∈
        (p.outline launcherPath fun l => [contentPath l]).launchable.flatMap (·.lessons) := by
      rw [houtline]
      exact List.mem_map_of_mem hl
    obtain ⟨m, hm, hq⟩ := List.mem_flatMap.mp hlesson
    exact ⟨m, hm, _, hq, by simpa [PlannedLesson.outline] using hpath⟩

/-- The manifest refers to the pages of the lessons and to the shared files. -/
theorem isDescribed (hp : Plan.ofCourse ctx.course = .ok p)
    (hholds : FileTree.empty.Holds files
      ((texts version script p ctx).map fun f => (f.1, Text.utf8 f.2))) :
    IsDescribed (.scorm version) files
      (sorted ((manifest version p ctx).resources.flatMap fun r => r.href.toList ++ r.files)) := by
  have hcovers := PathScheme.covers_of_holds hholds (map_fst_texts hp)
  refine ⟨?_, ⟨_, hholds.get?_eq List.mem_cons_self, fun q => ?_⟩, ?_, ?_⟩
  · intro path hpath
    rw [hcovers, PathScheme.mem_paths]
    have hshared : path = scriptPath ∨ path = stylesPath := by simpa [requiredPaths] using hpath
    rcases hshared with rfl | rfl <;> exact Or.inl (by decide)
  · exact Descriptor.Scorm.references_document (m := manifest version p ctx) q fun r hr =>
      Descriptor.Scorm.mem_identifiers_of_mem_references _ _ _ _ hr
  · exact List.ne_nil_of_mem (mem_sorted.mpr (mem_paths_manifest_iff.mpr (Or.inl (Or.inl rfl))))
  · intro path hpath
    rw [hcovers, PathScheme.mem_paths]
    rcases mem_paths_manifest_iff.mp (mem_sorted.mp hpath) with hshared | ⟨l, hl, hpages⟩
    · rcases hshared with rfl | rfl <;> exact Or.inl (by decide)
    · refine Or.inr ⟨l, hl, ?_⟩
      simpa [scheme, ← launcherPath_eq hp hl, ← contentPath_eq hp hl] using hpages

/-- Packages are verified. -/
theorem verify_of_planFiles (hp : Plan.ofCourse ctx.course = .ok p)
    (hfiles : (exporter version).planFiles p ctx = .ok files) {archive : Bytes}
    (hpack : pack files ctx.settings.packaging ctx.made = .ok archive)
    (hlimits : WithinLimits files archive) :
    verify archive (.scorm version) = .ok [] := by
  obtain ⟨script, hholds⟩ := exists_holds hfiles
  exact verify_pack sound_scheme (PathScheme.covers_of_holds hholds (map_fst_texts hp)) hpack
    hlimits (isDescribed hp hholds).problems_eq_nil

end Package.Scorm

end Courseware
