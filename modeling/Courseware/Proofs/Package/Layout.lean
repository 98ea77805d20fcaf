import Courseware.Proofs.Package.Verification

/-!
# The layout of packages

Which paths a package has in each format. Whatever the identifiers of its lessons are,
each path leads to a place below the folder that the package is unpacked to.
-/

namespace Courseware.Package

open Text (pathSegment isSegmentChar)

/-! ## Safe paths -/

/-- Whether a part of a path names a file or a folder in the folder before it. -/
def IsSafePart (part : List Char) : Prop :=
  part ≠ [] ∧ part ≠ ['.'] ∧ part ≠ ['.', '.'] ∧ ∀ c ∈ part, isSegmentChar c = true

instance (part : List Char) : Decidable (IsSafePart part) :=
  inferInstanceAs (Decidable (_ ∧ _ ∧ _ ∧ _))

/-- Whether all parts of a path, those between its slashes, are such names. A path that
starts with a slash has an empty part. -/
def IsSafePath (path : String) : Prop :=
  ∀ part ∈ path.toList.splitOn '/', IsSafePart part

instance (path : String) : Decidable (IsSafePath path) :=
  inferInstanceAs (Decidable (∀ part ∈ path.toList.splitOn '/', IsSafePart part))

theorem IsSafePart.slash_notMem {part : List Char} (h : IsSafePart part) : '/' ∉ part :=
  fun hmem => absurd (h.2.2.2 '/' hmem) (by decide)

/-- Safe parts with slashes between them make a safe path. -/
theorem isSafePath_of_parts {path : String} (parts : List (List Char))
    (hpath : path.toList = ['/'].intercalate parts) (hne : parts ≠ [])
    (hsafe : ∀ part ∈ parts, IsSafePart part) : IsSafePath path := by
  have hsplit := List.splitOn_intercalate '/'
    (fun part hpart => (hsafe part hpart).slash_notMem) hne
  rw [IsSafePath, hpath, hsplit]
  exact hsafe

/-- A part in which a character other than a dot is left. -/
theorem isSafePart_of_mem {part : List Char} {c : Char} (hc : c ∈ part) (hdot : c ≠ '.')
    (hchars : ∀ c ∈ part, isSegmentChar c = true) : IsSafePart part := by
  refine ⟨?_, ?_, ?_, hchars⟩ <;> rintro rfl <;> simp_all

/-- Dots alone are no segment. -/
theorem exists_mem_pathSegment_ne_dot (id : String) :
    ∃ c ∈ (pathSegment id).toList, c ≠ '.' := by
  rw [pathSegment]
  split
  · exact ⟨'_', by simp, by decide⟩
  · rename_i hdots
    simpa using hdots

theorem isSafePart_pathSegment (id : String) : IsSafePart (pathSegment id).toList := by
  obtain ⟨c, hc, hdot⟩ := exists_mem_pathSegment_ne_dot id
  exact isSafePart_of_mem hc hdot fun _ => Text.isSegmentChar_of_mem_pathSegment

theorem isSafePart_pathSegment_append (id : String) {stop : List Char}
    (hstop : ∀ c ∈ stop, isSegmentChar c = true) :
    IsSafePart ((pathSegment id).toList ++ stop) := by
  obtain ⟨c, hc, hdot⟩ := exists_mem_pathSegment_ne_dot id
  refine isSafePart_of_mem (List.mem_append_left stop hc) hdot fun x hx => ?_
  rcases List.mem_append.mp hx with hx | hx
  · exact Text.isSegmentChar_of_mem_pathSegment hx
  · exact hstop x hx

/-! ## The paths of each format -/

def fixedPaths : Format → List String
  | .scorm _ => ["imsmanifest.xml", "README.txt", "shared/scripts/scorm-api.js",
      "shared/css/styles.css", "shared/schemas/catalog.xml"]
  | .cmi5 => ["cmi5.xml", "README.txt", "shared/js/cmi5-au.js", "shared/css/styles.css"]
  | .xapi => ["tincan.xml", "index.html", "js/xapi-wrapper.js", "js/statement-templates.js",
      "js/navigation.js", "css/styles.css"]
  | .html5 => ["manifest.json", "index.html", "js/navigation.js", "css/styles.css"]

def lessonPaths : Format → String → List String
  | .scorm _, segment =>
    ["content/" ++ segment ++ "/index.html", "content/" ++ segment ++ "/content.html"]
  | .cmi5, segment => ["au/" ++ segment ++ "/index.html"]
  | .xapi, segment => ["lessons/" ++ segment ++ ".html"]
  | .html5, segment => ["lessons/" ++ segment ++ ".html"]

theorem isSafePath_of_mem_fixedPaths (f : Format) : ∀ path ∈ fixedPaths f, IsSafePath path := by
  cases f <;> rw [fixedPaths] <;> decide +kernel

/-- A segment between a folder and a name. -/
theorem isSafePath_folder {start stop : String} (id : String) (folder name : List Char)
    (hstart : start.toList = folder ++ ['/']) (hstop : stop.toList = '/' :: name)
    (hfolder : IsSafePart folder) (hname : IsSafePart name) :
    IsSafePath (start ++ pathSegment id ++ stop) := by
  refine isSafePath_of_parts [folder, (pathSegment id).toList, name] ?_ (by simp) ?_
  · simp [hstart, hstop, List.intercalate]
  · simp [hfolder, hname, isSafePart_pathSegment]

/-- A segment that starts the name of a page in a folder. -/
theorem isSafePath_page {start stop : String} (id : String) (folder : List Char)
    (hstart : start.toList = folder ++ ['/']) (hfolder : IsSafePart folder)
    (hstop : ∀ c ∈ stop.toList, isSegmentChar c = true) :
    IsSafePath (start ++ pathSegment id ++ stop) := by
  refine isSafePath_of_parts [folder, (pathSegment id).toList ++ stop.toList] ?_ (by simp) ?_
  · simp [hstart, List.intercalate]
  · simp [hfolder, isSafePart_pathSegment_append id hstop]

theorem isSafePath_of_mem_lessonPaths (f : Format) (id : String) :
    ∀ path ∈ lessonPaths f (pathSegment id), IsSafePath path := by
  have hpage : IsSafePath ("lessons/" ++ pathSegment id ++ ".html") :=
    isSafePath_page id "lessons".toList (by decide) (by decide) (by decide)
  have hindex (start : String) (folder : List Char) (hstart : start.toList = folder ++ ['/'])
      (hfolder : IsSafePart folder) : IsSafePath (start ++ pathSegment id ++ "/index.html") :=
    isSafePath_folder id folder "index.html".toList hstart (by decide) hfolder (by decide)
  have hcontent : IsSafePath ("content/" ++ pathSegment id ++ "/content.html") :=
    isSafePath_folder id "content".toList "content.html".toList
      (by decide) (by decide) (by decide) (by decide)
  cases f with
  | scorm version =>
    have hlauncher := hindex "content/" "content".toList (by decide)
      (by decide)
    exact List.forall_mem_cons.mpr ⟨hlauncher, List.forall_mem_singleton.mpr hcontent⟩
  | cmi5 =>
    exact List.forall_mem_singleton.mpr
      (hindex "au/" "au".toList (by decide) (by decide))
  | xapi => exact List.forall_mem_singleton.mpr hpage
  | html5 => exact List.forall_mem_singleton.mpr hpage

variable {ctx : ExportContext} {p : Plan} {files : FileTree}

def pathScheme : Format → PathScheme
  | .scorm _ => Scorm.scheme
  | .cmi5 => Cmi5.scheme
  | .xapi => Bundle.Xapi.scheme
  | .html5 => Bundle.Html5.scheme

theorem covers_planFiles (f : Format) (hp : Plan.ofCourse ctx.course = .ok p)
    (hfiles : (Exporter.ofFormat f).planFiles p ctx = .ok files) :
    (pathScheme f).Covers p files := by
  cases f with
  | scorm version =>
    obtain ⟨script, hholds⟩ := Scorm.exists_holds hfiles
    exact PathScheme.covers_of_holds hholds (Scorm.map_fst_texts hp)
  | cmi5 =>
    obtain ⟨script, hholds⟩ := Cmi5.exists_holds hfiles
    exact PathScheme.covers_of_holds hholds (Cmi5.map_fst_texts hp)
  | xapi =>
    obtain ⟨wrapper, navigation, -, -, hholds⟩ := Bundle.Xapi.exists_holds hfiles
    exact PathScheme.covers_of_holds hholds (Bundle.Xapi.map_fst_texts hp)
  | html5 =>
    obtain ⟨navigation, -, hholds⟩ := Bundle.Html5.exists_holds hfiles
    exact PathScheme.covers_of_holds hholds (Bundle.Html5.map_fst_texts hp)

theorem perm_fixedPaths (f : Format) : (pathScheme f).shared.Perm (fixedPaths f) := by
  cases f <;> rw [fixedPaths, pathScheme] <;> decide

theorem map_segmentPath_stops (f : Format) (id : String) :
    (pathScheme f).stops.map (segmentPath (pathScheme f).start id) =
      lessonPaths f (pathSegment id) := by
  cases f <;> rfl

/-- The paths of the files of a plan. -/
theorem mem_paths_planFiles_iff (f : Format) (hp : Plan.ofCourse ctx.course = .ok p)
    (hfiles : (Exporter.ofFormat f).planFiles p ctx = .ok files) (path : String) :
    path ∈ files.paths ↔ path ∈ fixedPaths f ∨
      ∃ l ∈ p.lessons, path ∈ lessonPaths f (pathSegment l.lesson.id) := by
  rw [covers_planFiles f hp hfiles, PathScheme.mem_paths, (perm_fixedPaths f).mem_iff]
  simp only [← map_segmentPath_stops, List.mem_map, eq_comm]

/-- The lessons of a plan are those of the modules of its course. -/
theorem exists_planned_iff (hp : Plan.ofCourse ctx.course = .ok p) (holds : Lesson → Prop) :
    (∃ l ∈ p.lessons, holds l.lesson) ↔ ∃ m ∈ ctx.course.modules, ∃ l ∈ m.lessons, holds l := by
  have hmem (l : Lesson) :
      l ∈ p.lessons.map (·.lesson) ↔ ∃ m ∈ ctx.course.modules, l ∈ m.lessons := by
    rw [(Plan.perm_lessons hp).mem_iff, List.mem_flatMap]
  constructor
  · rintro ⟨l, hl, h⟩
    obtain ⟨m, hm, hlesson⟩ := (hmem l.lesson).mp (List.mem_map_of_mem hl)
    exact ⟨m, hm, l.lesson, hlesson, h⟩
  · rintro ⟨m, hm, l, hl, h⟩
    obtain ⟨q, hq, rfl⟩ := List.mem_map.mp ((hmem l).mpr ⟨m, hm, hl⟩)
    exact ⟨q, hq, h⟩

/-- Every course with a plan has a package in each format. Its paths are the fixed ones and
those of each lesson of the course, and all of them are safe. -/
theorem layout_buildFiles (f : Format) (hp : Plan.ofCourse ctx.course = .ok p) :
    ∃ files, (Exporter.ofFormat f).buildFiles ctx = .ok files ∧
      (∀ path, path ∈ files.paths ↔ path ∈ fixedPaths f ∨
        ∃ m ∈ ctx.course.modules, ∃ l ∈ m.lessons, path ∈ lessonPaths f (pathSegment l.id)) ∧
      ∀ path ∈ files.paths, IsSafePath path := by
  obtain ⟨files, hfiles⟩ := Exporter.exists_planFiles f hp
  have hpaths := mem_paths_planFiles_iff f hp hfiles
  refine ⟨files, by rw [Exporter.buildFiles_eq hp, hfiles], ?_, ?_⟩
  · intro path
    rw [hpaths, exists_planned_iff hp fun l => path ∈ lessonPaths f (pathSegment l.id)]
  · intro path hpath
    rcases (hpaths path).mp hpath with hfixed | ⟨l, -, hlesson⟩
    · exact isSafePath_of_mem_fixedPaths f path hfixed
    · exact isSafePath_of_mem_lessonPaths f l.lesson.id path hlesson

/-! ## Identifiers that are no names -/

section Dotted

/-- A lesson whose identifier leads out of a folder. -/
def dottedLesson : Lesson := { id := "../start", title := "Start & go" }

/-- A lesson without an identifier. -/
def namelessLesson : Lesson := { title := "Rest" }

/-- A lesson whose identifier is a name. -/
def lastLesson : Lesson := { id := "end", title := "<End>" }

/-- A module with two lessons. -/
def dottedModule : Module := { id := "opening", lessons := [dottedLesson, namelessLesson] }

def emptyModule : Module := { id := "break" }

/-- A module with one lesson. -/
def lastModule : Module := { id := "closing", lessons := [lastLesson] }

def dottedCourse : Course :=
  { id := "c", title := "C", modules := [dottedModule, emptyModule, lastModule] }

def dottedContext : ExportContext := ⟨dottedCourse, {}, ⟨0, false⟩⟩

/-- The lessons of the first module in the plan of the course. -/
def dottedEntries : List PlannedLesson :=
  [⟨0, dottedModule, dottedLesson, ".._start", [], []⟩,
    ⟨1, dottedModule, namelessLesson, "_", [], []⟩]

def lastEntry : PlannedLesson := ⟨2, lastModule, lastLesson, "end", [], []⟩

def dottedPlan : Plan :=
  ⟨dottedCourse,
    [⟨dottedModule, 0, dottedEntries⟩, ⟨emptyModule, 2, []⟩, ⟨lastModule, 2, [lastEntry]⟩]⟩

theorem ofLesson_of_nil (m : Module) (index : Nat) {l : Lesson} (hblocks : l.blocks = [])
    (hresources : l.resources = []) :
    PlannedLesson.ofLesson m index l = ⟨index, m, l, pathSegment l.id, [], []⟩ := by
  rw [PlannedLesson.ofLesson, Lesson.orderedBlocks, hblocks, hresources, List.mergeSort_nil,
    List.filter_nil]

/-- Lessons that are in order already stay where they are. -/
theorem orderedLessons_of_pairwise {m : Module}
    (h : m.lessons.Pairwise fun a b => a.order ≤ b.order) : m.orderedLessons = m.lessons :=
  List.mergeSort_of_pairwise (h.imp decide_eq_true)

theorem ofModule_of_pairwise (start : Nat) {m : Module}
    (h : m.lessons.Pairwise fun a b => a.order ≤ b.order) :
    PlannedModule.ofModule start m =
      ⟨m, start, m.lessons.mapIdx fun i l => .ofLesson m (start + i) l⟩ := by
  rw [PlannedModule.ofModule, orderedLessons_of_pairwise h]

theorem ofCourse_dottedCourse : Plan.ofCourse dottedCourse = .ok dottedPlan := by
  have hmodules : dottedCourse.orderedModules = [dottedModule, emptyModule, lastModule] :=
    List.mergeSort_of_pairwise (by decide)
  have hsegments : pathSegment dottedLesson.id = ".._start" ∧
      pathSegment namelessLesson.id = "_" ∧ pathSegment lastLesson.id = "end" := by
    decide +kernel
  have hfirst : PlannedModule.ofModule 0 dottedModule = ⟨dottedModule, 0, dottedEntries⟩ := by
    rw [ofModule_of_pairwise 0 (by decide), dottedEntries, ← hsegments.1, ← hsegments.2.1,
      ← ofLesson_of_nil dottedModule 0 rfl rfl, ← ofLesson_of_nil dottedModule 1 rfl rfl]
    rfl
  have hempty : PlannedModule.ofModule 2 emptyModule = ⟨emptyModule, 2, []⟩ :=
    ofModule_of_pairwise 2 (by decide)
  have hlast : PlannedModule.ofModule 2 lastModule = ⟨lastModule, 2, [lastEntry]⟩ := by
    rw [ofModule_of_pairwise 2 (by decide), lastEntry, ← hsegments.2.2,
      ← ofLesson_of_nil lastModule 2 rfl rfl]
    rfl
  rw [Plan.ofCourse_eq_ok_iff, hmodules]
  refine ⟨?_, ?_⟩
  · simp only [checkModules, orderedLessons_of_pairwise (m := dottedModule) (by decide),
      orderedLessons_of_pairwise (m := emptyModule) (by decide),
      orderedLessons_of_pairwise (m := lastModule) (by decide)]
    decide +kernel
  · simp [planModules, hfirst, hempty, hlast, PlannedModule.stop, dottedEntries, dottedPlan]

theorem layout_buildFiles_dotted :
    ∃ files, (Exporter.ofFormat .html5).buildFiles dottedContext = .ok files ∧
      "lessons/.._start.html" ∈ files.paths ∧ "lessons/_.html" ∈ files.paths ∧
      "lessons/end.html" ∈ files.paths ∧ ∀ path ∈ files.paths, IsSafePath path := by
  have hplan : Plan.ofCourse dottedContext.course = .ok dottedPlan := ofCourse_dottedCourse
  obtain ⟨files, hfiles, hpaths, hsafe⟩ := layout_buildFiles .html5 hplan
  refine ⟨files, hfiles, ?_, ?_, ?_, hsafe⟩
  · exact (hpaths _).mpr (Or.inr
      ⟨dottedModule, List.mem_cons_self, dottedLesson, List.mem_cons_self, by decide +kernel⟩)
  · exact (hpaths _).mpr (Or.inr
      ⟨dottedModule, List.mem_cons_self, namelessLesson, by simp [dottedModule], by decide +kernel⟩)
  · exact (hpaths _).mpr (Or.inr ⟨lastModule, by simp [dottedContext, dottedCourse], lastLesson,
      List.mem_cons_self, by decide +kernel⟩)

end Dotted

end Courseware.Package
