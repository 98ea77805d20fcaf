import Courseware.Proofs.Package.Layout
import Courseware.Proofs.Package.Removal

/-!
# What is missed in a package

Some paths of a package are checked: its descriptor, what every package of the format needs,
and what the descriptor refers to. Whatever entries are removed from the archive of an
exported package, something is found to be wrong with what is left exactly when one of these
paths is among the removed ones, and then it is told which are.
-/

namespace Courseware.Package

open Text (pathSegment)

/-! ## Checked paths -/

/-- The paths that are checked once in a package. -/
def sharedChecks : Format → List String
  | .scorm _ => ["imsmanifest.xml", "shared/scripts/scorm-api.js", "shared/css/styles.css"]
  | .cmi5 => ["cmi5.xml", "shared/js/cmi5-au.js", "shared/css/styles.css"]
  | .xapi => ["tincan.xml", "index.html", "js/xapi-wrapper.js", "js/statement-templates.js",
      "js/navigation.js", "css/styles.css"]
  | .html5 => ["manifest.json", "index.html", "js/navigation.js", "css/styles.css"]

/-- The paths that are checked of a lesson with the given segment: all pages of it, but for
packages that send statements, which start at their index alone. -/
def lessonChecks : Format → String → List String
  | .xapi, _ => []
  | f, segment => lessonPaths f segment

/-- The paths that are checked in a package of a course. -/
def checkedPaths (f : Format) (c : Course) : List String :=
  sharedChecks f ++
    c.modules.flatMap fun m => m.lessons.flatMap fun l => lessonChecks f (pathSegment l.id)

theorem sharedChecks_eq (f : Format) : sharedChecks f = descriptorPath f :: requiredPaths f := by
  cases f <;> rfl

variable {ctx : ExportContext} {p : Plan} {files : FileTree}

theorem mem_checkedPaths_iff (f : Format) (hp : Plan.ofCourse ctx.course = .ok p)
    {path : String} : path ∈ checkedPaths f ctx.course ↔
      (path = descriptorPath f ∨ path ∈ requiredPaths f) ∨
        ∃ l ∈ p.lessons, path ∈ lessonChecks f l.segment := by
  have hsegment : (∃ l ∈ p.lessons, path ∈ lessonChecks f l.segment) ↔
      ∃ l ∈ p.lessons, path ∈ lessonChecks f (pathSegment l.lesson.id) := by
    refine exists_congr fun l => and_congr_right fun hl => ?_
    rw [Plan.segment_eq hp hl]
  rw [hsegment, exists_planned_iff hp fun l => path ∈ lessonChecks f (pathSegment l.id)]
  simp only [checkedPaths, sharedChecks_eq, List.mem_append, List.mem_cons, List.mem_flatMap]

/-- The checked paths are the descriptor, what the format needs and what the descriptor
refers to. -/
theorem exists_isDescribed (f : Format) (hp : Plan.ofCourse ctx.course = .ok p)
    (hne : p.lessons ≠ []) (hfits : ctx.course.Fits)
    (hfiles : (Exporter.ofFormat f).planFiles p ctx = .ok files) :
    ∃ paths, IsDescribed f files paths ∧ ∀ path, path ∈ checkedPaths f ctx.course ↔
      path = descriptorPath f ∨ path ∈ requiredPaths f ∨ path ∈ paths := by
  -- What the descriptor refers to besides the lessons is needed anyway.
  have hchecks {d r x l : Prop} (h : x → r) : (d ∨ r) ∨ l ↔ d ∨ r ∨ x ∨ l := by tauto
  cases f with
  | scorm version =>
    obtain ⟨script, hholds⟩ := Scorm.exists_holds hfiles
    refine ⟨_, Scorm.isDescribed hp hholds, fun path => ?_⟩
    have hlesson (l : PlannedLesson) : path ∈ lessonChecks (.scorm version) l.segment ↔
        path = Scorm.launcherPath l ∨ path = Scorm.contentPath l := by
      simp [lessonChecks, lessonPaths, Scorm.launcherPath, Scorm.contentPath]
    have hrequired : path ∈ requiredPaths (.scorm version) ↔
        path = Scorm.scriptPath ∨ path = Scorm.stylesPath := by
      simp [requiredPaths]
    rw [mem_checkedPaths_iff _ hp, mem_sorted, Scorm.mem_paths_manifest_iff]
    simp only [hlesson]
    exact hchecks hrequired.mpr
  | cmi5 =>
    obtain ⟨script, hholds⟩ := Cmi5.exists_holds hfiles
    refine ⟨_, Cmi5.isDescribed hp hne hholds, fun path => ?_⟩
    have hlesson (l : PlannedLesson) : path ∈ lessonChecks .cmi5 l.segment ↔
        Cmi5.unitPath l = path := by
      simp [lessonChecks, lessonPaths, Cmi5.unitPath, eq_comm]
    rw [mem_checkedPaths_iff _ hp, List.mem_map, or_assoc]
    simp only [hlesson]
  | xapi =>
    obtain ⟨wrapper, navigation, -, -, hholds⟩ := Bundle.Xapi.exists_holds hfiles
    refine ⟨_, Bundle.Xapi.isDescribed hp hholds, fun path => ?_⟩
    have hindex : path = Bundle.indexPath → path ∈ requiredPaths .xapi := by
      rintro rfl
      exact List.mem_cons_self
    rw [mem_checkedPaths_iff _ hp, List.mem_cons]
    simp only [lessonChecks, List.not_mem_nil, and_false, exists_false]
    exact hchecks hindex
  | html5 =>
    obtain ⟨navigation, -, hholds⟩ := Bundle.Html5.exists_holds hfiles
    refine ⟨_, Bundle.Html5.isDescribed hp hfits hholds, fun path => ?_⟩
    have hlesson (l : PlannedLesson) : path ∈ lessonChecks .html5 l.segment ↔
        Bundle.lessonPath l = path := by
      simp [lessonChecks, lessonPaths, Bundle.lessonPath, Bundle.pageName, eq_comm,
        String.append_assoc]
    have hindex : path = Bundle.indexPath → path ∈ requiredPaths .html5 := by
      rintro rfl
      exact List.mem_cons_self
    rw [mem_checkedPaths_iff _ hp, List.mem_cons, List.mem_map]
    simp only [hlesson]
    exact hchecks hindex

/-! ## Paths inside a package -/

theorem sound_pathScheme (f : Format) : (pathScheme f).Sound := by
  cases f with
  | scorm version => exact Scorm.sound_scheme
  | xapi => exact Bundle.Xapi.sound_scheme
  | cmi5 => exact Cmi5.sound_scheme
  | html5 => exact Bundle.Html5.sound_scheme

/-- A safe path does not start with a slash. -/
theorem IsSafePath.head?_ne {path : String} (h : IsSafePath path) :
    path.toList.head? ≠ some '/' := by
  intro hhead
  obtain ⟨rest, hpath⟩ : ∃ rest, path.toList = '/' :: rest := by
    cases hcs : path.toList with
    | nil => simp [hcs] at hhead
    | cons c rest =>
      rw [hcs] at hhead
      exact ⟨rest, by rw [Option.some.inj hhead]⟩
  have hparts : path.toList.splitOn '/' = [] :: rest.splitOn '/' := by
    rw [hpath]
    exact List.splitOn_append_cons_self [] rest
  have hempty := h [] (by rw [hparts]; exact List.mem_cons_self)
  exact hempty.1 rfl

/-- A safe path does not lead out of the package. -/
theorem isExternal_eq_false {path : String} (h : IsPath path) (hsafe : IsSafePath path) :
    Text.isExternal path = false := by
  -- An address outside starts with a scheme, which has a colon, or with two slashes.
  have hmarks : ∀ start ∈ Text.externalStarts, ':' ∈ start.toList ∨ start = "//" := by decide
  have hcolon : ':' ∉ path.toList := fun hmem => absurd (h.1 ':' hmem) (by decide)
  have hhead := hsafe.head?_ne
  obtain ⟨c, rest, hpath⟩ := List.exists_cons_of_ne_nil h.isPhrase.nonempty
  have hblank : Text.isBlank c = false := h.isPhrase.first c (by simp [hpath])
  rw [Text.isExternal, hpath, List.dropWhile_cons, hblank, if_neg Bool.false_ne_true,
    List.any_eq_false]
  intro start hstart hprefix
  obtain ⟨stop, hstop⟩ := List.isPrefixOf_iff_prefix.mp hprefix
  rcases hmarks start hstart with hmark | rfl
  · have hlower : ':' ∈ (c :: rest).map Text.lowerChar := by
      rw [← hstop]
      exact List.mem_append_left stop hmark
    obtain ⟨d, hd, heq⟩ := List.mem_map.mp hlower
    rw [← hpath, Text.eq_of_lowerChar_eq (by decide) heq] at hd
    exact hcolon hd
  · have hfirst : Text.lowerChar c = '/' := (List.cons.inj hstop).1.symm
    rw [hpath, Text.eq_of_lowerChar_eq (by decide) hfirst] at hhead
    exact hhead rfl

/-! ## What is left of a package -/

section Remaining

variable {f : Format} {paths removed : List String}

theorem contains_without {path : String} (hpath : path ∈ files.paths) :
    (⟨(files.without removed).files⟩ : PackageContents).contains path =
      !removed.contains path := by
  have hmem := contains_iff_mem_paths.trans (@FileTree.mem_paths_without files removed path)
  rw [Bool.eq_iff_iff, hmem]
  simp [hpath]

theorem IsDescribed.filter_required (h : IsDescribed f files paths) :
    ((requiredPaths f).filter fun path =>
      !(⟨(files.without removed).files⟩ : PackageContents).contains path) =
        (requiredPaths f).filter fun path => removed.contains path := by
  refine List.filter_congr fun path hpath => ?_
  rw [contains_without (h.required path hpath), Bool.not_not]

/-- A package without its descriptor lacks that, and what else was removed of what the
format needs. -/
theorem IsDescribed.problems_without_descriptor (h : IsDescribed f files paths)
    (hdescriptor : descriptorPath f ∈ removed) :
    problems f ⟨(files.without removed).files⟩ =
      ((requiredPaths f).filter fun path => removed.contains path).map .missing ++
        [.missing (descriptorPath f)] := by
  have htext : (⟨(files.without removed).files⟩ : PackageContents).text (descriptorPath f) =
      .error (.missing (descriptorPath f)) := by
    have hget : (⟨(files.without removed).files⟩ : PackageContents).get? (descriptorPath f) =
        none := FileTree.get?_without_of_mem hdescriptor
    rw [PackageContents.text, hget]
  rw [problems, descriptorProblems, htext, h.filter_required]

/-- A package that still has its descriptor lacks what was removed of what the format needs
and of what the descriptor refers to. -/
theorem IsDescribed.problems_without (h : IsDescribed f files paths)
    (hinside : ∀ path ∈ paths, Text.isExternal path = false)
    (hdescriptor : descriptorPath f ∉ removed) :
    problems f ⟨(files.without removed).files⟩ =
      ((requiredPaths f).filter fun path => removed.contains path).map .missing ++
        (paths.filter fun path => removed.contains path).map
          (.missingContent (descriptorPath f)) := by
  have hsame : (⟨(files.without removed).files⟩ : PackageContents).get? (descriptorPath f) =
      files.get? (descriptorPath f) := FileTree.get?_without_of_notMem hdescriptor
  have hpaths : (paths.filter fun path =>
      !isReachable (⟨(files.without removed).files⟩ : PackageContents) path) =
        paths.filter fun path => removed.contains path := by
    refine List.filter_congr fun path hpath => ?_
    rw [isReachable, hinside path hpath, contains_without (h.present path hpath), Bool.false_or,
      Bool.not_not]
  rw [h.problems_eq hsame, h.filter_required, hpaths]

/-- A removed path that the format needs or that the descriptor refers to is named. -/
theorem IsDescribed.exists_problem (h : IsDescribed f files paths)
    (hinside : ∀ path ∈ paths, Text.isExternal path = false)
    (hdescriptor : descriptorPath f ∉ removed) {path : String} (hremoved : path ∈ removed)
    (hchecked : path ∈ requiredPaths f ∨ path ∈ paths) :
    ∃ q ∈ problems f ⟨(files.without removed).files⟩,
      q = .missing path ∨ q = .missingContent (descriptorPath f) path := by
  have hcontains : removed.contains path = true := List.contains_iff_mem.mpr hremoved
  rw [h.problems_without hinside hdescriptor]
  rcases hchecked with hrequired | hpath
  · exact ⟨_, List.mem_append_left _
      (List.mem_map_of_mem (List.mem_filter.mpr ⟨hrequired, hcontains⟩)), Or.inl rfl⟩
  · exact ⟨_, List.mem_append_right _
      (List.mem_map_of_mem (List.mem_filter.mpr ⟨hpath, hcontains⟩)), Or.inr rfl⟩

theorem IsDescribed.problems_without_ne_nil_iff (h : IsDescribed f files paths)
    (hinside : ∀ path ∈ paths, Text.isExternal path = false) :
    problems f ⟨(files.without removed).files⟩ ≠ [] ↔
      ∃ path ∈ removed, path = descriptorPath f ∨ path ∈ requiredPaths f ∨ path ∈ paths := by
  -- Without the descriptor nothing else is looked at, and its absence is a problem by itself.
  by_cases hdescriptor : descriptorPath f ∈ removed
  · have hne : problems f ⟨(files.without removed).files⟩ ≠ [] := by
      rw [h.problems_without_descriptor hdescriptor]
      simp
    exact iff_of_true hne ⟨_, hdescriptor, Or.inl rfl⟩
  constructor
  · intro hne
    obtain ⟨q, hq⟩ := List.exists_mem_of_ne_nil _ hne
    rw [h.problems_without hinside hdescriptor] at hq
    rcases List.mem_append.mp hq with hq | hq
    · obtain ⟨path, hpath, -⟩ := List.mem_map.mp hq
      obtain ⟨hrequired, hremoved⟩ := List.mem_filter.mp hpath
      exact ⟨path, List.contains_iff_mem.mp hremoved, Or.inr (Or.inl hrequired)⟩
    · obtain ⟨path, hpath, -⟩ := List.mem_map.mp hq
      obtain ⟨hreferred, hremoved⟩ := List.mem_filter.mp hpath
      exact ⟨path, List.contains_iff_mem.mp hremoved, Or.inr (Or.inr hreferred)⟩
  · rintro ⟨path, hremoved, rfl | hchecked⟩
    · exact absurd hremoved hdescriptor
    · obtain ⟨q, hq, -⟩ := h.exists_problem hinside hdescriptor hremoved hchecked
      exact List.ne_nil_of_mem hq

end Remaining

/-! ## Exported packages -/

variable {package : ExportedPackage}

/-- The paths of a package are those of files inside it. -/
theorem isExternal_eq_false_of_mem (f : Format) (hp : Plan.ofCourse ctx.course = .ok p)
    (hfiles : (Exporter.ofFormat f).planFiles p ctx = .ok files) {path : String}
    (hpath : path ∈ files.paths) : Text.isExternal path = false := by
  have hcovers := covers_planFiles f hp hfiles
  refine isExternal_eq_false ((sound_pathScheme f).isPath path ((hcovers path).mp hpath)) ?_
  rcases (mem_paths_planFiles_iff f hp hfiles path).mp hpath with hfixed | ⟨l, -, hlesson⟩
  · exact isSafePath_of_mem_fixedPaths f path hfixed
  · exact isSafePath_of_mem_lessonPaths f l.lesson.id path hlesson

theorem portable_planFiles (f : Format) (hp : Plan.ofCourse ctx.course = .ok p)
    (hfiles : (Exporter.ofFormat f).planFiles p ctx = .ok files) :
    ∀ path ∈ files.paths, Portable path := fun path hpath =>
  ((sound_pathScheme f).isPath path ((covers_planFiles f hp hfiles path).mp hpath)).portable

/-- The last file of a plan has a path that does not look like the locator of a wide record. -/
theorem noLocator_planFiles (f : Format) (hp : Plan.ofCourse ctx.course = .ok p)
    (hfiles : (Exporter.ofFormat f).planFiles p ctx = .ok files)
    (packaging : PackagingSettings) (made : Time.Instant) :
    NoLocator (packedFiles packaging (.ofInstant made) files.toList) := by
  have hs := sound_pathScheme f
  have hcovers := covers_planFiles f hp hfiles
  have hlast : (pathScheme f).last ∈ files.paths :=
    (hcovers _).mpr (PathScheme.mem_paths.mpr (Or.inl hs.last_mem))
  have hmax : ∀ path ∈ files.paths, ¬ (pathScheme f).last < path := fun path hpath =>
    hs.not_lt path ((hcovers path).mp hpath)
  exact noLocator_of_last (portable_planFiles f hp hfiles) hlast hmax hs.ending

/-- What is left of the archive of a plan is read back as the files that are left. -/
theorem ofArchive_remaining_planFiles (f : Format) (hp : Plan.ofCourse ctx.course = .ok p)
    (hfiles : (Exporter.ofFormat f).planFiles p ctx = .ok files) {packaging : PackagingSettings}
    {made : Time.Instant} {archive : Bytes} (hpack : pack files packaging made = .ok archive)
    (hlimits : WithinLimits files archive) (removed : List String) :
    PackageContents.ofArchive (archiveOf
      (remaining removed (packedFiles packaging (.ofInstant made) files.toList))) =
        .ok ⟨(files.without removed).files⟩ :=
  ofArchive_remaining hpack hlimits
    (fun path hpath => (portable_planFiles f hp hfiles path hpath).isFile)
    (noLocator_planFiles f hp hfiles packaging made) removed

/-- Whatever files are removed from an exported package, something is found to be wrong with
what is left exactly when a checked path is among the removed ones. As long as the descriptor
is there, each removed path that is checked is named as one that is missing. This is found in
every archive of the files that are left, and within the limits of the records of archives the
entries that are left are one. -/
theorem verify_remaining (f : Format) (hfits : ctx.course.Fits)
    (hexport : (Exporter.ofFormat f).exportCourse ctx = .success package)
    (hfiles : (Exporter.ofFormat f).buildFiles ctx = .ok files) (removed : List String) :
    ∃ found,
      (∀ archive, PackageContents.ofArchive archive = .ok ⟨(files.without removed).files⟩ →
        verify archive f = .ok found) ∧
      (WithinLimits files package.archive → ∃ entries, package.archive = archiveOf entries ∧
        entries.map (·.name) = files.paths.map Text.utf8 ∧
        verify (archiveOf (remaining removed entries)) f = .ok found) ∧
      (found ≠ [] ↔ ∃ path ∈ removed, path ∈ checkedPaths f ctx.course) ∧
      (descriptorPath f ∉ removed → ∀ path ∈ removed, path ∈ checkedPaths f ctx.course →
        ∃ q ∈ found, q.message = "missing " ++ path ∨
          q.message = descriptorPath f ++ " references missing file " ++ path) := by
  obtain ⟨hproblems, hmake⟩ := Exporter.exportCourse_eq_success_iff.mp hexport
  obtain ⟨p, files', hp, hplan, hpack⟩ := Exporter.exists_of_makePackage hmake
  obtain rfl : files' = files := by
    rw [Exporter.buildFiles_eq hp, hplan] at hfiles
    exact Except.ok.inj hfiles
  have hlessons := Plan.lessons_ne_nil hp (List.append_eq_nil_iff.mp hproblems).1
  obtain ⟨paths, hdescribed, hchecked⟩ := exists_isDescribed f hp hlessons hfits hplan
  have hinside : ∀ path ∈ paths, Text.isExternal path = false := fun path hpath =>
    isExternal_eq_false_of_mem f hp hplan (hdescribed.present path hpath)
  -- What is found depends on the files that are left, not on how they are packed.
  have hverify : ∀ archive, PackageContents.ofArchive archive =
      .ok ⟨(files'.without removed).files⟩ →
        verify archive f = .ok (problems f ⟨(files'.without removed).files⟩) := by
    intro archive hread
    rw [verify, hread]
    rfl
  refine ⟨_, hverify, fun hlimits => ?_, ?_, ?_⟩
  · exact ⟨_, (pack_eq_ok_iff.mp hpack).2, names_packedFiles _,
      hverify _ (ofArchive_remaining_planFiles f hp hplan hpack hlimits removed)⟩
  · rw [hdescribed.problems_without_ne_nil_iff hinside]
    simp only [hchecked]
  · intro hdescriptor path hremoved hpath
    have hneeded : path ∈ requiredPaths f ∨ path ∈ paths := by
      rcases (hchecked path).mp hpath with rfl | hneeded
      · exact absurd hremoved hdescriptor
      · exact hneeded
    obtain ⟨q, hq, hname⟩ := hdescribed.exists_problem hinside hdescriptor hremoved hneeded
    refine ⟨q, hq, ?_⟩
    rcases hname with rfl | rfl
    · exact Or.inl rfl
    · exact Or.inr rfl

/-- A package without the page of its lesson is found to lack it, as long as it says that it
has one. -/
theorem verify_remaining_sample :
    ∃ package entries found,
      (Exporter.ofFormat .html5).exportCourse sampleContext = .success package ∧
      package.archive = archiveOf entries ∧
      verify (archiveOf (remaining ["lessons/start.html"] entries)) .html5 = .ok found ∧
      found ≠ [] ∧
      ∃ q ∈ found, q.message = "missing lessons/start.html" ∨
        q.message = "manifest.json references missing file lessons/start.html" := by
  have hchecked : "lessons/start.html" ∈ checkedPaths .html5 sampleContext.course := by
    decide +kernel
  obtain ⟨package, files, hfits, hexport, hbuild, hlimits⟩ := exists_export_sample
  obtain ⟨found, -, harchive, hfound, hnamed⟩ :=
    verify_remaining .html5 hfits hexport hbuild ["lessons/start.html"]
  obtain ⟨entries, hentries, -, hverify⟩ := harchive hlimits
  exact ⟨package, entries, found, hexport, hentries, hverify,
    hfound.mpr ⟨_, List.mem_cons_self, hchecked⟩,
    hnamed (by decide) _ List.mem_cons_self hchecked⟩

end Courseware.Package
