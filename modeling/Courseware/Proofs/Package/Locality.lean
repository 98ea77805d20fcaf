import Courseware.Proofs.Package.Layout
import Courseware.Proofs.Package.Outer
import Courseware.Proofs.Package.Dependence

/-!
# What an edit of a lesson changes

When the blocks of one lesson are edited, the package of the course keeps its paths, and every
file but the page with the content of that lesson stays as it was.
-/

namespace Courseware

/-! ## Courses without the blocks of a lesson -/

/-- A lesson, without its blocks if it has the given identifier. -/
def Lesson.cleared (id : String) (l : Lesson) : Lesson :=
  { l with blocks := if l.id = id then [] else l.blocks }

def Module.cleared (id : String) (m : Module) : Module :=
  { m with lessons := m.lessons.map (Lesson.cleared id) }

def Course.cleared (id : String) (c : Course) : Course :=
  { c with modules := c.modules.map (Module.cleared id) }

def PlannedLesson.cleared (id : String) (q : PlannedLesson) : PlannedLesson :=
  { q with
    container := q.container.cleared id
    lesson := q.lesson.cleared id
    blocks := if q.lesson.id = id then [] else q.blocks }

section Cleared

variable (id : String)

theorem orderedBlocks_cleared (l : Lesson) :
    (l.cleared id).orderedBlocks = if l.id = id then [] else l.orderedBlocks := by
  rw [Lesson.orderedBlocks, Lesson.cleared]
  by_cases hid : l.id = id
  · rw [if_pos hid, if_pos hid, List.mergeSort_nil]
  · rw [if_neg hid, if_neg hid, Lesson.orderedBlocks]

theorem orderedLessons_cleared (m : Module) :
    (m.cleared id).orderedLessons = m.orderedLessons.map (Lesson.cleared id) := by
  have hsort : m.orderedLessons.map (Lesson.cleared id) =
      (m.lessons.map (Lesson.cleared id)).mergeSort fun a b => a.order ≤ b.order :=
    List.map_mergeSort fun _ _ _ _ => rfl
  exact hsort.symm

theorem orderedModules_cleared (c : Course) :
    (c.cleared id).orderedModules = c.orderedModules.map (Module.cleared id) := by
  have hsort : c.orderedModules.map (Module.cleared id) =
      (c.modules.map (Module.cleared id)).mergeSort fun a b => a.order ≤ b.order :=
    List.map_mergeSort fun _ _ _ _ => rfl
  exact hsort.symm

theorem ofLesson_cleared (m : Module) (index : Nat) (l : Lesson) :
    PlannedLesson.ofLesson (m.cleared id) index (l.cleared id) =
      (PlannedLesson.ofLesson m index l).cleared id := by
  rw [PlannedLesson.ofLesson, orderedBlocks_cleared]
  rfl

def Rewriting.clearing : Rewriting where
  onLesson := Lesson.cleared id
  onModule := Module.cleared id
  onPlanned := PlannedLesson.cleared id
  id_onLesson _ := rfl
  id_onModule _ := rfl
  orderedLessons := orderedLessons_cleared id
  ofLesson := ofLesson_cleared id

end Cleared

/-! ## Edits -/

/-- Whether two courses are equal except for the blocks of a lesson, which may stand anywhere
in the first. -/
def Course.DifferInBlocks (l : Lesson) (c c' : Course) : Prop :=
  ∃ (before after : List Module) (m : Module) (earlier later : List Lesson) (blocks : List Block),
    c.modules = before ++ { m with lessons := earlier ++ l :: later } :: after ∧
    c' = { c with
      modules := before ++ { m with lessons := earlier ++ { l with blocks } :: later } :: after }

variable {l : Lesson} {c c' : Course} {p p' : Plan}

theorem Course.DifferInBlocks.cleared_eq (h : c.DifferInBlocks l c') :
    c'.cleared l.id = c.cleared l.id := by
  obtain ⟨before, after, m, earlier, later, blocks, hmodules, rfl⟩ := h
  have hlesson : Lesson.cleared l.id { l with blocks } = Lesson.cleared l.id l := by
    simp [Lesson.cleared]
  rw [Course.cleared, Course.cleared, hmodules]
  simp only [List.map_append, List.map_cons, Module.cleared, hlesson]

theorem Course.DifferInBlocks.mem_lessons (h : c.DifferInBlocks l c') :
    ∃ m ∈ c.modules, l ∈ m.lessons := by
  obtain ⟨before, after, m, earlier, later, blocks, hmodules, -⟩ := h
  refine ⟨{ m with lessons := earlier ++ l :: later }, ?_, by simp⟩
  simp [hmodules]

theorem Course.DifferInBlocks.frame (h : c.DifferInBlocks l c') :
    { c' with modules := [] } = { c with modules := [] } := by
  obtain ⟨before, after, m, earlier, later, blocks, -, rfl⟩ := h
  rfl

/-- Whether two plans are the same without the blocks of a lesson. -/
structure Plan.DifferInBlocks (id : String) (p p' : Plan) : Prop where
  outer : p'.outer = p.outer
  lessons : p'.lessons.map (PlannedLesson.cleared id) = p.lessons.map (PlannedLesson.cleared id)

theorem Course.DifferInBlocks.exists_plan (h : c.DifferInBlocks l c')
    (hp : Plan.ofCourse c = .ok p) :
    ∃ p', Plan.ofCourse c' = .ok p' ∧ p.DifferInBlocks l.id p' := by
  have hcleared (c : Course) :=
    (Rewriting.clearing l.id).ofCourse_eq (orderedModules_cleared l.id c)
  have hplans := hcleared c'
  -- Without the blocks the courses are equal, and so are their plans without the blocks.
  rw [h.cleared_eq, hcleared c, hp] at hplans
  cases hp' : Plan.ofCourse c' with
  | error cause =>
    rw [hp'] at hplans
    cases hplans
  | ok p' =>
    rw [hp'] at hplans
    have hmodules : p'.modules.map (Rewriting.clearing l.id).onPlannedModule =
        p.modules.map (Rewriting.clearing l.id).onPlannedModule :=
      (congrArg Plan.modules (Except.ok.inj hplans)).symm
    refine ⟨p', rfl, ?_, ?_⟩
    · have houter (p : Plan) := p.map_outer_rewriting (Rewriting.clearing l.id) (fun _ => rfl)
        fun _ => rfl
      obtain ⟨-, hcourse⟩ := Plan.ofCourse_eq_ok_iff.mp hp
      obtain ⟨-, hcourse'⟩ := Plan.ofCourse_eq_ok_iff.mp hp'
      have hframe : { p'.course with modules := [] } = { p.course with modules := [] } := by
        rw [hcourse, hcourse']
        exact h.frame
      rw [Plan.outer, Plan.outer, hframe, ← houter p', hmodules, houter p]
    · have hlessons (p : Plan) := (Rewriting.clearing l.id).flatMap_lessons p
      exact (hlessons p').symm.trans ((congrArg _ hmodules).trans (hlessons p))

namespace Package

open Text (pathSegment)

/-! ## The files of the edited lesson -/

/-- The path of the page with the content of a lesson with the given segment. -/
def contentPagePath : Format → String → String
  | .scorm _, segment => "content/" ++ segment ++ "/content.html"
  | .cmi5, segment => "au/" ++ segment ++ "/index.html"
  | .xapi, segment => "lessons/" ++ segment ++ ".html"
  | .html5, segment => "lessons/" ++ segment ++ ".html"

variable {f : Format} {q q' : PlannedLesson} {ctx ctx' : ExportContext}

/-- Whatever blocks a lesson has, its files end in the page with its content, and the files
before that are the same. -/
theorem exists_lessonFiles (f : Format) (p : Plan) (q : PlannedLesson) (ctx : ExportContext) :
    ∃ others, ∀ blocks, ∃ text, (Exporter.ofFormat f).lessonFiles p { q with blocks } ctx =
      .ok (others ++ [(contentPagePath f q.segment, text)]) := by
  have hbundle : "lessons/" ++ q.segment ++ ".html" = Bundle.lessonPath q := String.append_assoc
  cases f with
  | scorm version =>
    exact ⟨[(Scorm.launcherPath q, Scorm.launcherPage ctx q)], fun blocks => ⟨_, rfl⟩⟩
  | cmi5 => exact ⟨[], fun blocks => ⟨_, rfl⟩⟩
  | xapi =>
    rw [contentPagePath, hbundle]
    exact ⟨[], fun blocks => ⟨_, rfl⟩⟩
  | html5 =>
    rw [contentPagePath, hbundle]
    exact ⟨[], fun blocks => ⟨_, rfl⟩⟩

theorem core_eq_of_outer (h : q'.outer = q.outer) : q'.core = { q.core with blocks := q'.blocks } :=
  congrArg (fun x : PlannedLesson => { x with blocks := q'.blocks }) h

/-- The files of a lesson that is the same without its blocks differ in one page alone. -/
theorem exists_lessonFiles_outer (hplan : p'.outer = p.outer) (hlesson : q'.outer = q.outer)
    (hcontext : ctx'.outer = ctx.outer) :
    ∃ others text text',
      (Exporter.ofFormat f).lessonFiles p q ctx =
        .ok (others ++ [(contentPagePath f q.segment, text)]) ∧
      (Exporter.ofFormat f).lessonFiles p' q' ctx' =
        .ok (others ++ [(contentPagePath f q.segment, text')]) := by
  have hreads := Exporter.readsOuter_ofFormat f
  obtain ⟨others, hfiles⟩ := exists_lessonFiles f p q ctx
  obtain ⟨text, htext⟩ := hfiles q.blocks
  obtain ⟨text', htext'⟩ := hfiles q'.blocks
  refine ⟨others, text, text', htext, ?_⟩
  rw [← htext']
  exact hreads.lessonFiles_eq hplan (core_eq_of_outer hlesson) hcontext

theorem outer_eq_of_cleared {id : String} (h : q'.cleared id = q.cleared id) :
    q'.outer = q.outer := by
  have houter (q : PlannedLesson) : (q.cleared id).outer = q.outer := rfl
  rw [← houter q', h, houter q]

theorem core_eq_of_cleared {id : String} (h : q'.cleared id = q.cleared id)
    (hid : q.lesson.id ≠ id) : q'.core = q.core := by
  have hid' : q'.lesson.id ≠ id := by
    have hsame : q'.lesson.id = q.lesson.id := congrArg (·.lesson.id) h
    rwa [hsame]
  have hblocks := congrArg PlannedLesson.blocks h
  simp only [PlannedLesson.cleared, if_neg hid, if_neg hid'] at hblocks
  rw [core_eq_of_outer (outer_eq_of_cleared h), hblocks]
  rfl

/-! ## The files of the package -/

section Edited

variable {files files' : FileTree} {id : String}

theorem contentPagePath_mem_lessonPaths (f : Format) (segment : String) :
    contentPagePath f segment ∈ lessonPaths f segment := by
  cases f <;> simp [contentPagePath, lessonPaths]

theorem mem_paths_iff_of_differ (hp : Plan.ofCourse ctx.course = .ok p)
    (hp' : Plan.ofCourse ctx'.course = .ok p') (hdiffer : p.DifferInBlocks id p')
    (hfiles : (Exporter.ofFormat f).planFiles p ctx = .ok files)
    (hfiles' : (Exporter.ofFormat f).planFiles p' ctx' = .ok files') (path : String) :
    path ∈ files'.paths ↔ path ∈ files.paths := by
  have hids : p'.lessonIds = p.lessonIds := by
    rw [← p'.lessonIds_outer, hdiffer.outer, p.lessonIds_outer]
  have hlessons (p : Plan) :
      (∃ l ∈ p.lessons, path ∈ lessonPaths f (pathSegment l.lesson.id)) ↔
        ∃ id ∈ p.lessonIds, path ∈ lessonPaths f (pathSegment id) := by
    simp [Plan.lessonIds]
  rw [mem_paths_planFiles_iff f hp hfiles, mem_paths_planFiles_iff f hp' hfiles', hlessons,
    hlessons, hids]

/-- A file of a lesson stays as it was unless it shows the blocks that are edited. -/
theorem mem_lessonFiles_of_cleared (hp : Plan.ofCourse ctx.course = .ok p)
    (hdiffer : p.DifferInBlocks id p') (hcontext : ctx'.outer = ctx.outer)
    {q q' : PlannedLesson} (hq : q ∈ p.lessons) (heq : q'.cleared id = q.cleared id)
    {own own' : List (String × String)}
    (hown : (Exporter.ofFormat f).lessonFiles p q ctx = .ok own)
    (hown' : (Exporter.ofFormat f).lessonFiles p' q' ctx' = .ok own') {path text : String}
    (hmem : (path, text) ∈ own) (hne : path ≠ contentPagePath f (pathSegment id)) :
    (path, text) ∈ own' := by
  -- The edited lesson keeps its other files, and every other lesson has the same blocks.
  by_cases hid : q.lesson.id = id
  · obtain ⟨others, page, page', hpage, hpage'⟩ :=
      exists_lessonFiles_outer (f := f) hdiffer.outer (outer_eq_of_cleared heq) hcontext
    obtain rfl := Except.ok.inj (hown.symm.trans hpage)
    obtain rfl := Except.ok.inj (hown'.symm.trans hpage')
    rcases List.mem_append.mp hmem with hother | hlast
    · exact List.mem_append_left _ hother
    · have hpath : path = contentPagePath f q.segment :=
        congrArg Prod.fst (List.mem_singleton.mp hlast)
      rw [Plan.segment_eq hp hq, hid] at hpath
      exact absurd hpath hne
  · have hreads := Exporter.readsOuter_ofFormat f
    have hfilesOf := hreads.lessonFiles_eq hdiffer.outer (core_eq_of_cleared heq hid) hcontext
    rw [hown, hown'] at hfilesOf
    rw [Except.ok.inj hfilesOf]
    exact hmem

/-- A file of a package stays as it was unless it shows the blocks that are edited. -/
theorem get?_eq_of_differ (hp : Plan.ofCourse ctx.course = .ok p)
    (hdiffer : p.DifferInBlocks id p') (hcontext : ctx'.outer = ctx.outer)
    (hfiles : (Exporter.ofFormat f).planFiles p ctx = .ok files)
    (hfiles' : (Exporter.ofFormat f).planFiles p' ctx' = .ok files') {path : String}
    (hpath : path ∈ files.paths) (hne : path ≠ contentPagePath f (pathSegment id)) :
    files'.get? path = files.get? path := by
  have hreads := Exporter.readsOuter_ofFormat f
  obtain ⟨texts, htexts, -⟩ := bind_eq_ok_iff.mp hfiles
  have htexts' : (Exporter.ofFormat f).packageFiles p' ctx' = .ok texts := by
    rw [← htexts]
    exact hreads.packageFiles_eq hdiffer.outer hcontext
  have hlessons (p : Plan) (ctx : ExportContext) (q : PlannedLesson) :
      ∃ texts, (Exporter.ofFormat f).lessonFiles p q ctx = .ok texts := by
    obtain ⟨others, hothers⟩ := exists_lessonFiles f p q ctx
    obtain ⟨text, htext⟩ := hothers q.blocks
    exact ⟨_, htext⟩
  choose lessonTexts hlessonTexts using hlessons
  have hholds := Exporter.holds_of_planFiles hfiles htexts fun q _ => hlessonTexts p ctx q
  have hholds' := Exporter.holds_of_planFiles hfiles' htexts' fun q _ => hlessonTexts p' ctx' q
  -- It is enough that a text of the package is found again under its path.
  have hsame {text : String} (h : (path, text) ∈ texts ++ p.lessons.flatMap (lessonTexts p ctx))
      (h' : (path, text) ∈ texts ++ p'.lessons.flatMap (lessonTexts p' ctx')) :
      files'.get? path = files.get? path := by
    rw [hholds.get?_eq h, hholds'.get?_eq h']
  obtain ⟨⟨path, text⟩, hmem, rfl⟩ := List.mem_map.mp (hholds.mem_paths_iff.mp hpath)
  refine hsame hmem ?_
  rcases List.mem_append.mp hmem with hshared | hlesson
  · exact List.mem_append_left _ hshared
  · obtain ⟨q, hq, htext⟩ := List.mem_flatMap.mp hlesson
    have hcleared : q.cleared id ∈ p'.lessons.map (PlannedLesson.cleared id) := by
      rw [hdiffer.lessons]
      exact List.mem_map_of_mem hq
    obtain ⟨q', hq', heq⟩ := List.mem_map.mp hcleared
    exact List.mem_append_right _ (List.mem_flatMap.mpr ⟨q', hq',
      mem_lessonFiles_of_cleared hp hdiffer hcontext hq heq (hlessonTexts p ctx q)
        (hlessonTexts p' ctx' q') htext hne⟩)

end Edited

/-- When the blocks of one lesson of an accepted course are edited, the course is accepted in
every format as before. Its package has the same paths, and of its files at most the page with
the content of that lesson is another one. -/
theorem buildFiles_edited (f : Format) (h : c.DifferInBlocks l c')
    (hp : Plan.ofCourse c = .ok p) (s : Settings) (made : Time.Instant) :
    ∃ files files', (Exporter.ofFormat f).buildFiles ⟨c, s, made⟩ = .ok files ∧
      (Exporter.ofFormat f).buildFiles ⟨c', s, made⟩ = .ok files' ∧
      files'.paths = files.paths ∧
      contentPagePath f (pathSegment l.id) ∈ files.paths ∧
      ∀ path, path ≠ contentPagePath f (pathSegment l.id) →
        files'.get? path = files.get? path := by
  obtain ⟨p', hp', hdiffer⟩ := h.exists_plan hp
  obtain ⟨files, hfiles⟩ := @Exporter.exists_planFiles ⟨c, s, made⟩ f _ hp
  obtain ⟨files', hfiles'⟩ := @Exporter.exists_planFiles ⟨c', s, made⟩ f _ hp'
  have hmem := mem_paths_iff_of_differ (f := f) hp hp' hdiffer hfiles hfiles'
  have hcontext : ExportContext.outer ⟨c', s, made⟩ = ExportContext.outer ⟨c, s, made⟩ := by
    rw [ExportContext.outer, ExportContext.outer, h.frame]
  refine ⟨files, files', ?_, ?_, FileTree.paths_eq_of_mem_iff hmem, ?_, fun path hne => ?_⟩
  · rw [Exporter.buildFiles_eq hp, hfiles]
  · rw [Exporter.buildFiles_eq hp', hfiles']
  · obtain ⟨m, hm, hl⟩ := h.mem_lessons
    obtain ⟨q, hq, hid⟩ :=
      (@exists_planned_iff ⟨c, s, made⟩ p hp fun lesson => lesson.id = l.id).mpr
        ⟨m, hm, l, hl, rfl⟩
    refine (mem_paths_planFiles_iff f hp hfiles _).mpr (Or.inr ⟨q, hq, ?_⟩)
    rw [hid]
    exact contentPagePath_mem_lessonPaths f _
  · by_cases hpath : path ∈ files.paths
    · exact get?_eq_of_differ hp hdiffer hcontext hfiles hfiles' hpath hne
    · rw [FileTree.get?_eq_none_iff.mpr hpath,
        FileTree.get?_eq_none_iff.mpr ((hmem path).not.mpr hpath)]

section Dotted

def ruledCourse : Course :=
  { dottedCourse with
    modules := [
      { dottedModule with
        lessons := [{ dottedLesson with blocks := [⟨"rule", 0, .divider⟩] }, namelessLesson] },
      emptyModule, lastModule] }

theorem buildFiles_edited_ruled :
    ∃ files files', (Exporter.ofFormat .cmi5).buildFiles ⟨dottedCourse, {}, ⟨0, false⟩⟩ = .ok files ∧
      (Exporter.ofFormat .cmi5).buildFiles ⟨ruledCourse, {}, ⟨0, false⟩⟩ = .ok files' ∧
      files'.paths = files.paths ∧ "au/.._start/index.html" ∈ files.paths ∧
      files'.get? "cmi5.xml" = files.get? "cmi5.xml" ∧
      files'.get? "au/_/index.html" = files.get? "au/_/index.html" := by
  have hdiffer : dottedCourse.DifferInBlocks dottedLesson ruledCourse :=
    ⟨[], [emptyModule, lastModule], dottedModule, [], [namelessLesson], _, rfl, rfl⟩
  have hpage : contentPagePath .cmi5 (pathSegment dottedLesson.id) = "au/.._start/index.html" := by
    decide +kernel
  obtain ⟨files, files', hfiles, hfiles', hpaths, hmem, hsame⟩ :=
    buildFiles_edited .cmi5 hdiffer ofCourse_dottedCourse {} ⟨0, false⟩
  rw [hpage] at hmem hsame
  exact ⟨files, files', hfiles, hfiles', hpaths, hmem, hsame _ (by decide), hsame _ (by decide)⟩

end Dotted

end Package

end Courseware
