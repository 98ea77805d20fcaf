import Courseware.Proofs.Package.PageParts
import Courseware.Proofs.Page.Tabs

/-!
# Panels and tabs in the pages of a package

Every lesson has a page in which its content and its panels are named and the tabs lead to the
panels. The names are made of the identifiers of blocks, which a course need not tell apart.
-/

namespace Courseware.Package

open Page (Frames HasElements Shell LinksPanels TellsApart elementsIn named? tabLink? namedPanels)
open Markup (Token root?)

/-! ## Pages -/

/-- Whether a page names the content and the panels of a lesson, with tabs that lead to these. -/
def ShowsPanels (l : PlannedLesson) (page : String) : Prop :=
  ∃ root, root? .html page = some root ∧ LinksPanels l root

/-- Whether a page has neither names nor tabs. -/
def ShowsNone (page : String) : Prop :=
  ∃ root, root? .html page = some root ∧ (elementsIn root).filterMap named? = [] ∧
    (elementsIn root).filterMap tabLink? = []

theorem ne_id_lessonName (id : String) : ∀ a ∈ [("data-lesson-id", id)], a.1 ≠ "id" :=
  List.forall_mem_singleton.mpr (by decide : "data-lesson-id" ≠ "id")

/-- A page with a lesson, in a frame without names. -/
theorem showsPanels_document {s : Shell} (h : s.Legible)
    (hnames : ∀ a ∈ s.bodyAttributes, a.1 ≠ "id") (format : Format) (l : PlannedLesson)
    {behind : List Token} (hbehind : Frames behind) :
    ShowsPanels l (s.document (Page.lessonBody format l ++ behind)) := by
  have hbody := (Page.anchored_lessonBody format l).append hbehind.plain
  rw [List.append_nil, List.append_nil] at hbody
  obtain ⟨root, hroot, hread, htabs⟩ := Page.exists_root?_document h hnames hbody
  exact ⟨root, hroot, Page.linksPanels_of_names hread htabs⟩

/-- A launcher shows the page of a lesson in a frame. -/
theorem Scorm.showsNone_launcherPage (ctx : ExportContext) (l : PlannedLesson) :
    ShowsNone (launcherPage ctx l) := by
  have hframe : Frames (Markup.line (Markup.element "iframe"
      [Markup.Html.fixed "class" "lesson-frame", Markup.Html.fixed "src" "content.html",
        Markup.Html.attr "title" l.lesson.title] [])) :=
    (HasElements.element (by decide) (by decide) (.fixed (by decide) (by decide) <|
      .fixed (by decide) (by decide) <| .attr (by decide) _ .nil) HasElements.nil rfl).line
  refine Page.exists_root?_document ⟨?_, ?_, ?_⟩ (ne_id_lessonName l.lesson.id) hframe.plain
  · exact List.forall_mem_singleton.mpr (Page.not_infix_launchCode _)
  · rintro c ⟨⟩
    decide
  · exact isName_lessonName l.lesson.id

theorem Cmi5.frames_exitButton : Frames exitButton :=
  (HasElements.element (by decide) (by decide) (.fixed (by decide) (by decide) .nil)
    (HasElements.leaf (by decide) (by decide) (.fixed (by decide) (by decide) <|
      .fixed (by decide) (by decide) <| .fixed (by decide) (by decide) .nil) _ rfl) rfl).line

theorem Bundle.frames_completeButton (id : String) : Frames (completeButton id) :=
  (HasElements.element (by decide) (by decide) (.fixed (by decide) (by decide) .nil)
    (HasElements.leaf (by decide) (by decide) (.fixed (by decide) (by decide) <|
      .fixed (by decide) (by decide) <| .attr (by decide) _ .nil) _ rfl) rfl).line

/-- The page that shows a lesson in each format. -/
def pageOf (p : Plan) (ctx : ExportContext) (l : PlannedLesson) : Format → String
  | .scorm version => Scorm.contentPage version ctx l
  | .xapi =>
    Bundle.lessonPage .xapi p l ctx Bundle.xapiScripts (Bundle.completeButton l.lesson.id)
  | .cmi5 => Cmi5.unitPage ctx l
  | .html5 => Bundle.lessonPage .html5 p l ctx [Bundle.navigationPath] []

/-- Whether a page is that of a lesson in a frame without names. -/
def FramesLesson (format : Format) (l : PlannedLesson) (page : String) : Prop :=
  ∃ (s : Shell) (behind : List Token), s.Legible ∧ (∀ a ∈ s.bodyAttributes, a.1 ≠ "id") ∧
    Frames behind ∧ page = s.document (Page.lessonBody format l ++ behind)

theorem Cmi5.framesLesson_unitPage (ctx : ExportContext) (l : PlannedLesson) :
    FramesLesson .cmi5 l (unitPage ctx l) := by
  rw [FramesLesson, unitPage]
  refine ⟨_, _, ⟨?_, ?_, ?_⟩, ?_, frames_exitButton, rfl⟩
  · exact List.forall_mem_singleton.mpr (Page.not_infix_launchCode _)
  · rintro c ⟨⟩
  · exact isName_lessonName l.lesson.id
  · exact ne_id_lessonName l.lesson.id

theorem Bundle.framesLesson_lessonPage (format : Format) (p : Plan) (l : PlannedLesson)
    (ctx : ExportContext) (scripts : List String) {between : List Token}
    (hbetween : Frames between) :
    FramesLesson format l (lessonPage format p l ctx scripts between) := by
  refine ⟨{ title := l.lesson.title, language := ctx.language,
            stylesheet := some (root ++ stylesPath), scripts := scripts.map (root ++ ·),
            bodyAttributes := [("data-lesson-id", l.lesson.id)] }, _,
    legible_of_plain rfl rfl (isName_lessonName l.lesson.id), ne_id_lessonName l.lesson.id,
    hbetween.frames_append (Page.frames_lessonLinks p l (root ++ indexPath) pageName), ?_⟩
  rw [← List.append_assoc]
  rfl

/-- In each format the page that shows a lesson has the lesson in such a frame. -/
theorem framesLesson_pageOf (p : Plan) (ctx : ExportContext) (l : PlannedLesson) (f : Format) :
    FramesLesson f l (pageOf p ctx l f) := by
  cases f with
  | scorm version =>
    refine ⟨{ title := l.lesson.title, language := ctx.language,
              stylesheet := some (Scorm.root ++ Scorm.stylesPath),
              scripts := [Scorm.root ++ Scorm.scriptPath],
              bodyAttributes := [("data-lesson-id", l.lesson.id)] }, [],
      legible_of_plain rfl rfl (isName_lessonName l.lesson.id), ne_id_lessonName l.lesson.id,
      HasElements.nil, ?_⟩
    rw [List.append_nil]
    rfl
  | xapi =>
    exact Bundle.framesLesson_lessonPage .xapi p l ctx _
      (Bundle.frames_completeButton l.lesson.id)
  | cmi5 => exact Cmi5.framesLesson_unitPage ctx l
  | html5 => exact Bundle.framesLesson_lessonPage .html5 p l ctx _ HasElements.nil

/-! ## Packages -/

section Packages

variable {p : Plan} {ctx : ExportContext} {files : FileTree}

theorem get?_contentPath (f : Format) (h : (Exporter.ofFormat f).planFiles p ctx = .ok files)
    {l : PlannedLesson} (hl : l ∈ p.lessons) :
    files.get? (contentPath f l) = some (Text.utf8 (pageOf p ctx l f)) := by
  cases f with
  | scorm version =>
    obtain ⟨script, hholds⟩ := Scorm.exists_holds h
    exact hholds.get?_eq (List.mem_append_right _ (List.mem_flatMap.mpr
      ⟨l, hl, List.mem_cons_of_mem _ List.mem_cons_self⟩))
  | xapi =>
    obtain ⟨wrapper, navigation, -, -, hholds⟩ := Bundle.Xapi.exists_holds h
    exact hholds.get?_eq (List.mem_append_right _ (List.mem_flatMap.mpr
      ⟨l, hl, List.mem_cons_self⟩))
  | cmi5 =>
    obtain ⟨script, hholds⟩ := Cmi5.exists_holds h
    exact hholds.get?_eq (List.mem_append_right _ (List.mem_flatMap.mpr
      ⟨l, hl, List.mem_cons_self⟩))
  | html5 =>
    obtain ⟨navigation, -, hholds⟩ := Bundle.Html5.exists_holds h
    exact hholds.get?_eq (List.mem_append_right _ (List.mem_flatMap.mpr
      ⟨l, hl, List.mem_cons_self⟩))

theorem get?_launcherPath {version : ScormVersion}
    (h : (Exporter.ofFormat (.scorm version)).planFiles p ctx = .ok files)
    {l : PlannedLesson} (hl : l ∈ p.lessons) :
    files.get? (Scorm.launcherPath l) = some (Text.utf8 (Scorm.launcherPage ctx l)) := by
  obtain ⟨script, hholds⟩ := Scorm.exists_holds h
  exact hholds.get?_eq (List.mem_append_right _ (List.mem_flatMap.mpr
    ⟨l, hl, List.mem_cons_self⟩))

theorem showsPanels_pageOf (p : Plan) (ctx : ExportContext) (l : PlannedLesson)
    (f : Format) : ShowsPanels l (pageOf p ctx l f) := by
  obtain ⟨s, behind, hlegible, hnames, hbehind, hpage⟩ := framesLesson_pageOf p ctx l f
  rw [hpage]
  exact showsPanels_document hlegible hnames f l hbehind

theorem exists_buildFiles (f : Format) (hp : Plan.ofCourse ctx.course = .ok p) :
    ∃ files, (Exporter.ofFormat f).buildFiles ctx = .ok files ∧
      (Exporter.ofFormat f).planFiles p ctx = .ok files := by
  obtain ⟨files, hfiles⟩ := Exporter.exists_planFiles f hp
  exact ⟨files, by rw [Exporter.buildFiles_eq hp, hfiles], hfiles⟩

/-- A course that has a plan has a package in each format, in which the page of a lesson names
the content of the lesson and its panels, and just the tabs of a block lead to its panels. These
names are different exactly when the blocks with panels are told apart by their identifiers and
none spells the name of the content, and then a tab leads to its own panel alone. The launchers
of lessons have neither names nor tabs. -/
theorem tabs_buildFiles (f : Format) (hp : Plan.ofCourse ctx.course = .ok p) :
    ∃ files, (Exporter.ofFormat f).buildFiles ctx = .ok files ∧
      (∀ l ∈ p.lessons, ∃ page, files.get? (contentPath f l) = some (Text.utf8 page) ∧
        ShowsPanels l page) ∧
      ∀ version, f = .scorm version → ∀ l ∈ p.lessons, ∃ page,
        files.get? (Scorm.launcherPath l) = some (Text.utf8 page) ∧ ShowsNone page := by
  obtain ⟨files, hbuild, hfiles⟩ := exists_buildFiles f hp
  refine ⟨files, hbuild, ?_, ?_⟩
  · exact fun l hl => ⟨_, get?_contentPath f hfiles hl, showsPanels_pageOf p ctx l f⟩
  · rintro version rfl l hl
    exact ⟨_, get?_launcherPath hfiles hl, Scorm.showsNone_launcherPage ctx l⟩

end Packages

/-! ## Two sets of tabs -/

/-- A block with one panel. -/
def tabBlock (id : String) : Block := ⟨id, 0, .tabs [⟨"Panel", ""⟩]⟩

/-- A lesson with two such blocks. -/
def tabLesson (first second : String) : Lesson :=
  { id := "start", blocks := [tabBlock first, tabBlock second] }

def tabModule (first second : String) : Module :=
  { id := "m", lessons := [tabLesson first second] }

def tabContext (first second : String) : ExportContext :=
  ⟨{ id := "c", modules := [tabModule first second] }, {}, ⟨0, false⟩⟩

def tabEntry (first second : String) : PlannedLesson :=
  ⟨0, tabModule first second, tabLesson first second, "start",
    [tabBlock first, tabBlock second], []⟩

theorem ofCourse_tabContext (first second : String) :
    Plan.ofCourse (tabContext first second).course =
      .ok ⟨(tabContext first second).course, [⟨tabModule first second, 0,
        [tabEntry first second]⟩]⟩ := by
  have hmodules : (tabContext first second).course.orderedModules = [tabModule first second] := by
    simp [Course.orderedModules, tabContext]
  have hlessons : (tabModule first second).orderedLessons = [tabLesson first second] := by
    simp [Module.orderedLessons, tabModule]
  have hblocks : (tabLesson first second).orderedBlocks =
      [tabBlock first, tabBlock second] := by
    simp [Lesson.orderedBlocks, tabLesson, tabBlock, List.mergeSort,
      List.MergeSort.Internal.splitInTwo]
  have hsegment : Text.pathSegment (tabLesson first second).id = "start" :=
    (by decide +kernel : Text.pathSegment "start" = "start")
  have hmodule : checkUnique .moduleId .modulePath "modules" [] (tabModule first second).id =
      .ok () :=
    checkUnique_eq_ok_iff.mpr List.not_mem_nil
  have hlesson : checkUnique .lessonId .lessonPath "lessons" [] (tabLesson first second).id =
      .ok () :=
    checkUnique_eq_ok_iff.mpr List.not_mem_nil
  rw [Plan.ofCourse_eq_ok_iff, hmodules]
  refine ⟨?_, ?_⟩
  · rw [checkModules, hlessons, hmodule, checkLessons, hlesson]
    rfl
  · have hentry : PlannedLesson.ofLesson (tabModule first second) 0 (tabLesson first second) =
        tabEntry first second := by
      rw [PlannedLesson.ofLesson, hsegment, hblocks]
      rfl
    simp [planModules, PlannedModule.ofModule, hlessons, hentry]

theorem namedPanels_tabBlock (id : String) :
    namedPanels (tabBlock id) = [(Page.tabName id 0, ⟨"Panel", ""⟩)] := rfl

/-- In a lesson whose blocks have identifiers of their own, the tab of the second block leads to
its panel alone. -/
theorem tabs_buildFiles_apart :
    ∃ files page root n, (Exporter.ofFormat .html5).buildFiles (tabContext "a" "b") = .ok files ∧
      files.get? "lessons/start.html" = some (Text.utf8 page) ∧ root? .html page = some root ∧
      ((elementsIn root).filterMap fun n => n.attribute? "id").Nodup ∧
      Page.panel? n = some ("b-tab-0", ⟨"Panel", ""⟩) ∧
      (elementsIn root).filter (fun n => n.attribute? "id" == some "b-tab-0") = [n] := by
  obtain ⟨files, hbuild, hlessons, -⟩ := tabs_buildFiles .html5 (ofCourse_tabContext "a" "b")
  obtain ⟨page, hpage, root, hroot, hpanels⟩ := hlessons (tabEntry "a" "b") List.mem_cons_self
  have happart : TellsApart (tabEntry "a" "b") := by
    refine ⟨by decide, ?_⟩
    simp only [tabEntry, List.forall_mem_cons, namedPanels_tabBlock]
    decide
  obtain ⟨n, hn, honly⟩ := hpanels.targets happart (tabBlock "b")
    (List.mem_cons_of_mem _ List.mem_cons_self) _ List.mem_cons_self
  exact ⟨files, page, root, n, hbuild, hpage, hroot, hpanels.distinct.mpr happart, hn, honly⟩

/-- Two blocks without identifiers have panels of one name in one page, and their tabs lead to
the same place. -/
theorem names_tabContext_empty :
    ∃ p files page root, Plan.ofCourse (tabContext "" "").course = .ok p ∧
      (Exporter.ofFormat .html5).buildFiles (tabContext "" "") = .ok files ∧
      files.get? "lessons/start.html" = some (Text.utf8 page) ∧ root? .html page = some root ∧
      ¬ ((elementsIn root).filterMap fun n => n.attribute? "id").Nodup ∧
      (elementsIn root).filterMap tabLink? =
        [("#-tab-0", "Panel"), ("#-tab-0", "Panel")] := by
  have hp := ofCourse_tabContext "" ""
  obtain ⟨files, hbuild, hfiles⟩ := exists_buildFiles .html5 hp
  have hpage := get?_contentPath .html5 hfiles (l := tabEntry "" "") List.mem_cons_self
  obtain ⟨root, hroot, hpanels⟩ := showsPanels_pageOf
    ⟨(tabContext "" "").course, [⟨tabModule "" "", 0, [tabEntry "" ""]⟩]⟩ (tabContext "" "")
    (tabEntry "" "") .html5
  refine ⟨_, files, _, root, hp, hbuild, hpage, hroot, ?_, hpanels.tabs.trans rfl⟩
  rw [hpanels.distinct]
  intro happart
  exact absurd happart.blocks (by decide)

end Courseware.Package
