import Courseware.Proofs.Package.Pages
import Courseware.Proofs.Page.Links

/-!
# The parts of the pages of a package

The pages of a package in each format, each with the parts that are read from it.
-/

namespace Courseware.Package

open Page (Part Carries Shell parts? stylesheetPart scriptPart codePart)
open Markup (Token)

/-! ## Pages -/

def namedBody (l : PlannedLesson) : Part := ⟨"body", [("data-lesson-id", l.lesson.id)], ""⟩

theorem isName_lessonName (id : String) :
    ∀ a ∈ [("data-lesson-id", id)], Markup.Reader.IsName a.1 :=
  List.forall_mem_singleton.mpr (by decide : Markup.Reader.IsName "data-lesson-id")

/-- A frame without a class and without code can be read back. -/
theorem legible_of_plain {s : Shell} (hcode : s.inlineScripts = []) (hclass : s.bodyClass = none)
    (hnames : ∀ a ∈ s.bodyAttributes, Markup.Reader.IsName a.1) : s.Legible where
  code := by simp [hcode]
  bodyClass := by simp [hclass]
  bodyNames := hnames

namespace Scorm

/-- The launch record of a lesson. -/
def launchRecord (ctx : ExportContext) (l : PlannedLesson) : Json :=
  Script.scormLaunch l.lesson.id l.lesson.title "content.html" ctx.settings.scorm

/-- The frame in which a launcher shows the content. -/
def framePart (l : PlannedLesson) : Part :=
  ⟨"iframe", [("class", "lesson-frame"), ("src", "content.html"), ("title", l.lesson.title)], ""⟩

def launcherParts (ctx : ExportContext) (l : PlannedLesson) : List Part :=
  [stylesheetPart (root ++ stylesPath), codePart (Script.launchCode (launchRecord ctx l)),
    scriptPart (root ++ scriptPath),
    ⟨"body", [("class", "launcher"), ("data-lesson-id", l.lesson.id)], ""⟩, framePart l]

def contentParts (l : PlannedLesson) : List Part :=
  [stylesheetPart (root ++ stylesPath), namedBody l, scriptPart (root ++ scriptPath)]

theorem parts?_launcherPage (ctx : ExportContext) (l : PlannedLesson) :
    parts? (launcherPage ctx l) = some (launcherParts ctx l) := by
  have hframe : Carries (Markup.line (Markup.element "iframe"
      [Markup.Html.fixed "class" "lesson-frame", Markup.Html.fixed "src" "content.html",
        Markup.Html.attr "title" l.lesson.title] [])) [framePart l] :=
    (Carries.telling (by decide) (by decide) (.fixed (by decide) (by decide) <|
      .fixed (by decide) (by decide) <| .attr (by decide) _ .nil) Carries.nil rfl rfl).line
  refine Page.parts?_document ⟨?_, ?_, ?_⟩ hframe
  · exact List.forall_mem_singleton.mpr (Page.not_infix_launchCode _)
  · rintro c ⟨⟩
    decide
  · exact isName_lessonName l.lesson.id

theorem parts?_contentPage (version : ScormVersion) (ctx : ExportContext) (l : PlannedLesson) :
    parts? (contentPage version ctx l) = some (contentParts l) :=
  Page.parts?_document (legible_of_plain rfl rfl (isName_lessonName l.lesson.id))
    (Page.carries_lessonBody (.scorm version) l)

end Scorm

namespace Cmi5

def launchRecord (ctx : ExportContext) (l : PlannedLesson) : Json :=
  Script.cmi5Launch (ctx.activityIds.forLesson l.lesson.id) l.lesson.id (mastery ctx.settings)

def unitParts (ctx : ExportContext) (l : PlannedLesson) : List Part :=
  [stylesheetPart (root ++ stylesPath), codePart (Script.launchCode (launchRecord ctx l)),
    namedBody l, scriptPart (root ++ scriptPath)]

theorem parts?_unitPage (ctx : ExportContext) (l : PlannedLesson) :
    parts? (unitPage ctx l) = some (unitParts ctx l) := by
  have hexit : Carries exitButton [] :=
    (Carries.quiet (by decide) (by decide) (.fixed (by decide) (by decide) .nil)
      (Carries.leaf (by decide) (by decide) (.fixed (by decide) (by decide) <|
        .fixed (by decide) (by decide) <| .fixed (by decide) (by decide) .nil) _ rfl rfl) rfl
      rfl).line
  refine Page.parts?_document ⟨?_, ?_, ?_⟩ ((Page.carries_lessonBody .cmi5 l).append hexit)
  · exact List.forall_mem_singleton.mpr (Page.not_infix_launchCode _)
  · rintro c ⟨⟩
  · exact isName_lessonName l.lesson.id

end Cmi5

namespace Bundle

def indexParts (scripts : List String) (p : Plan) : List Part :=
  stylesheetPart stylesPath :: p.lessons.map (Page.indexPart lessonPath) ++
    scripts.map scriptPart

def lessonParts (scripts : List String) (p : Plan) (l : PlannedLesson) : List Part :=
  [stylesheetPart (root ++ stylesPath), namedBody l] ++
    Page.lessonLinkParts p l (root ++ indexPath) pageName ++
    scripts.map fun src => scriptPart (root ++ src)

variable (p : Plan) (l : PlannedLesson) (ctx : ExportContext) (scripts : List String)

theorem parts?_indexPage {footer : List Token} (hfooter : Carries footer []) :
    parts? (indexPage p ctx scripts footer) = some (indexParts scripts p) := by
  have hpage := Page.parts?_document
    (s := { title := ctx.course.title, language := ctx.language, stylesheet := some stylesPath,
            scripts := scripts })
    (legible_of_plain rfl rfl fun a ha => absurd ha List.not_mem_nil)
    (Page.carries_courseIndex p lessonPath hfooter)
  rw [List.append_nil] at hpage
  exact hpage

theorem parts?_lessonPage (format : Format) {between : List Token}
    (hbetween : Carries between []) :
    parts? (lessonPage format p l ctx scripts between) = some (lessonParts scripts p l) := by
  have hbody := ((Page.carries_lessonBody format l).append hbetween).append
    (Page.carries_lessonLinks p l (root ++ indexPath) pageName)
  have hpage := Page.parts?_document
    (s := { title := l.lesson.title, language := ctx.language,
            stylesheet := some (root ++ stylesPath), scripts := scripts.map (root ++ ·),
            bodyAttributes := [("data-lesson-id", l.lesson.id)] })
    (legible_of_plain rfl rfl (isName_lessonName l.lesson.id)) hbody
  rw [Shell.parts, List.map_map] at hpage
  exact hpage

theorem carries_finishButton : Carries finishButton [] :=
  (Carries.quiet (by decide) (by decide) .nil
    (Carries.leaf (by decide) (by decide) (.fixed (by decide) (by decide) <|
      .fixed (by decide) (by decide) <| .fixed (by decide) (by decide) .nil) _ rfl rfl) rfl
    rfl).line

theorem carries_completeButton (id : String) : Carries (completeButton id) [] :=
  (Carries.quiet (by decide) (by decide) (.fixed (by decide) (by decide) .nil)
    (Carries.leaf (by decide) (by decide) (.fixed (by decide) (by decide) <|
      .fixed (by decide) (by decide) <| .attr (by decide) _ .nil) _ rfl rfl) rfl rfl).line

def xapiScripts : List String := [templatesPath, navigationPath, wrapperPath]

end Bundle

/-! ## Packages -/

/-- The pages of a package, each with its parts. -/
def pages (p : Plan) (ctx : ExportContext) : Format → List (String × List Part)
  | .scorm _ => p.lessons.flatMap fun l =>
    [(Scorm.launcherPath l, Scorm.launcherParts ctx l), (Scorm.contentPath l, Scorm.contentParts l)]
  | .cmi5 => p.lessons.flatMap fun l => [(Cmi5.unitPath l, Cmi5.unitParts ctx l)]
  | .xapi => (Bundle.indexPath, Bundle.indexParts Bundle.xapiScripts p) ::
    p.lessons.flatMap fun l => [(Bundle.lessonPath l, Bundle.lessonParts Bundle.xapiScripts p l)]
  | .html5 => (Bundle.indexPath, Bundle.indexParts [Bundle.navigationPath] p) ::
    p.lessons.flatMap fun l =>
      [(Bundle.lessonPath l, Bundle.lessonParts [Bundle.navigationPath] p l)]

/-- The lesson that the body of a page names. -/
def lessonIdOf (parts : List Part) : Option String :=
  (parts.find? fun part => part.name == "body").bind fun part =>
    part.attributes.lookup "data-lesson-id"

/-- Whether some pages are those among some files, and their parts are read from them. -/
structure PagesRead (texts : List TextFile) (pages : List (String × List Part)) : Prop where
  reads : ∀ g ∈ pages, ∃ page, (g.1, page) ∈ texts ∧ parts? page = some g.2
  covers : ∀ f ∈ texts, IsPage f.1 → ∃ parts, (f.1, parts) ∈ pages

namespace PagesRead

variable {ts us : List TextFile} {ps qs : List (String × List Part)}

theorem nil : PagesRead [] [] where
  reads _ hg := absurd hg List.not_mem_nil
  covers _ hf := absurd hf List.not_mem_nil

/-- A file that is no page does not count. -/
theorem skip {path text : String} (hpath : ¬ IsPage path) (h : PagesRead ts ps) :
    PagesRead ((path, text) :: ts) ps where
  reads g hg := by
    obtain ⟨page, hpage, hparts⟩ := h.reads g hg
    exact ⟨page, List.mem_cons_of_mem _ hpage, hparts⟩
  covers := List.forall_mem_cons.mpr ⟨fun hpage => absurd hpage hpath, h.covers⟩

theorem single (path : String) {page : String} {parts : List Part} (h : parts? page = some parts) :
    PagesRead [(path, page)] [(path, parts)] where
  reads := List.forall_mem_singleton.mpr ⟨page, List.mem_singleton.mpr rfl, h⟩
  covers := List.forall_mem_singleton.mpr fun _ => ⟨parts, List.mem_singleton.mpr rfl⟩

theorem append (ht : PagesRead ts ps) (hu : PagesRead us qs) :
    PagesRead (ts ++ us) (ps ++ qs) where
  reads g hg := by
    rcases List.mem_append.mp hg with hg | hg
    · obtain ⟨page, hpage, hparts⟩ := ht.reads g hg
      exact ⟨page, List.mem_append_left us hpage, hparts⟩
    · obtain ⟨page, hpage, hparts⟩ := hu.reads g hg
      exact ⟨page, List.mem_append_right ts hpage, hparts⟩
  covers f hf hpage := by
    rcases List.mem_append.mp hf with hf | hf
    · obtain ⟨parts, hparts⟩ := ht.covers f hf hpage
      exact ⟨parts, List.mem_append_left qs hparts⟩
    · obtain ⟨parts, hparts⟩ := hu.covers f hf hpage
      exact ⟨parts, List.mem_append_right ps hparts⟩

theorem flatMap {α : Type} {f : α → List TextFile} {g : α → List (String × List Part)}
    (h : ∀ a, PagesRead (f a) (g a)) (as : List α) :
    PagesRead (as.flatMap f) (as.flatMap g) := by
  induction as with
  | nil => exact nil
  | cons a as ih => exact (h a).append ih

end PagesRead

variable {p : Plan} {ctx : ExportContext} {files : FileTree}

theorem Scorm.pagesRead (version : ScormVersion) (script : String) :
    PagesRead (Scorm.texts version script p ctx) (pages p ctx (.scorm version)) := by
  refine @PagesRead.append _ _ [] _ ?_ (PagesRead.flatMap (fun l => ?_) _)
  · exact .skip (by decide) <| .skip (by decide) <| .skip (by decide) <| .skip (by decide) <|
      .skip (by decide) .nil
  · exact (PagesRead.single _ (Scorm.parts?_launcherPage ctx l)).append
      (PagesRead.single _ (Scorm.parts?_contentPage version ctx l))

theorem Cmi5.pagesRead (script : String) :
    PagesRead (Cmi5.texts script p ctx) (pages p ctx .cmi5) := by
  refine @PagesRead.append _ _ [] _ ?_ (PagesRead.flatMap (fun l => ?_) _)
  · exact .skip (by decide) <| .skip (by decide) <| .skip (by decide) <| .skip (by decide) .nil
  · exact PagesRead.single _ (Cmi5.parts?_unitPage ctx l)

namespace Bundle

theorem Xapi.pagesRead (wrapper navigation : String) :
    PagesRead (Xapi.texts wrapper navigation p ctx) (pages p ctx .xapi) := by
  have hindex := PagesRead.single indexPath
    (parts?_indexPage p ctx xapiScripts carries_finishButton)
  have hlessons := PagesRead.flatMap (fun l => PagesRead.single (lessonPath l)
    (parts?_lessonPage p l ctx xapiScripts .xapi (carries_completeButton l.lesson.id))) p.lessons
  refine @PagesRead.append _ _ [_] _ ?_ hlessons
  exact .skip (by decide) <| .skip (by decide) <| .skip (by decide) <| .skip (by decide) <|
    .skip (by decide) hindex

theorem Html5.pagesRead (navigation : String) :
    PagesRead (Html5.texts navigation p ctx) (pages p ctx .html5) := by
  have hindex := PagesRead.single indexPath
    (parts?_indexPage p ctx [navigationPath] Carries.nil)
  have hlessons := PagesRead.flatMap (fun l => PagesRead.single (lessonPath l)
    (parts?_lessonPage p l ctx [navigationPath] .html5 Carries.nil)) p.lessons
  refine @PagesRead.append _ _ [_] _ ?_ hlessons
  exact .skip (by decide) <| .skip (by decide) <| .skip (by decide) hindex

end Bundle

theorem exists_pagesRead (f : Format) (h : (Exporter.ofFormat f).planFiles p ctx = .ok files) :
    ∃ texts, FileTree.empty.Holds files (texts.map fun f => (f.1, Text.utf8 f.2)) ∧
      PagesRead texts (pages p ctx f) := by
  cases f with
  | scorm version =>
    obtain ⟨script, hholds⟩ := Scorm.exists_holds h
    exact ⟨_, hholds, Scorm.pagesRead version script⟩
  | xapi =>
    obtain ⟨wrapper, navigation, -, -, hholds⟩ := Bundle.Xapi.exists_holds h
    exact ⟨_, hholds, Bundle.Xapi.pagesRead wrapper navigation⟩
  | cmi5 =>
    obtain ⟨script, hholds⟩ := Cmi5.exists_holds h
    exact ⟨_, hholds, Cmi5.pagesRead script⟩
  | html5 =>
    obtain ⟨navigation, -, hholds⟩ := Bundle.Html5.exists_holds h
    exact ⟨_, hholds, Bundle.Html5.pagesRead navigation⟩

def textAt? (files : FileTree) (path : String) : Option String :=
  (files.get? path).bind Text.ofUtf8?

def pageAt? (files : FileTree) (path : String) : Option (List Part) :=
  (textAt? files path).bind parts?

theorem textAt?_eq {path text : String} (h : files.get? path = some (Text.utf8 text)) :
    textAt? files path = some text := by
  rw [textAt?, h]
  simp

/-- The parts of the pages of a package are read from its files. -/
theorem pageAt?_eq (f : Format) (h : (Exporter.ofFormat f).planFiles p ctx = .ok files)
    {path : String} {parts : List Part} (hmem : (path, parts) ∈ pages p ctx f) :
    pageAt? files path = some parts := by
  obtain ⟨texts, hholds, hread⟩ := exists_pagesRead f h
  obtain ⟨page, hpage, hparts⟩ := hread.reads _ hmem
  rw [pageAt?, textAt?_eq (hholds.get?_eq hpage)]
  exact hparts

/-- All pages of a package are among its files. -/
theorem exists_mem_pages (f : Format) (h : (Exporter.ofFormat f).planFiles p ctx = .ok files)
    {path : String} (hpath : path ∈ files.paths) (hpage : IsPage path) :
    ∃ parts, (path, parts) ∈ pages p ctx f := by
  obtain ⟨texts, hholds, hread⟩ := exists_pagesRead f h
  obtain ⟨g, hg, rfl⟩ := List.mem_map.mp (hholds.mem_paths_iff.mp hpath)
  exact hread.covers g hg hpage

end Courseware.Package
