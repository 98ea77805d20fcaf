import Courseware.Proofs.Order
import Courseware.Proofs.Package.Verification
import Courseware.Proofs.Page.Around

/-!
# The blocks in the pages of a package

Each lesson has one page that shows its blocks in order. No other page of the package
shows any block.
-/

namespace Courseware.Package

open Page (Bears Bare containerIds Shell)
open Markup (Token)

/-- The path of the page that shows the blocks of a lesson. -/
def contentPath : Format → PlannedLesson → String
  | .scorm _ => Scorm.contentPath
  | .xapi => Bundle.lessonPath
  | .cmi5 => Cmi5.unitPath
  | .html5 => Bundle.lessonPath

def IsPage (path : String) : Prop := ".html".toList <:+ path.toList

instance (path : String) : Decidable (IsPage path) := inferInstanceAs (Decidable (_ <:+ _))

/-- Which of the files of a plan bear containers: each lesson's content bears those of
the lesson's blocks, and no other page bears any. -/
structure PagesBear (p : Plan) (content : PlannedLesson → String) (texts : List TextFile) :
    Prop where
  bears_content : ∀ l ∈ p.lessons, ∃ page, (content l, page) ∈ texts ∧
    containerIds page.toList = l.blocks.map fun b => some b.id
  bare_other : ∀ f ∈ texts, IsPage f.1 → f.1 ∉ p.lessons.map content →
    containerIds f.2.toList = []

theorem pagesBear_append {p : Plan} {content : PlannedLesson → String}
    {shared : List TextFile} {lessonTexts : PlannedLesson → List TextFile}
    (hshared : ∀ f ∈ shared, IsPage f.1 → containerIds f.2.toList = [])
    (hcontent : ∀ l, ∃ page, (content l, page) ∈ lessonTexts l ∧
      containerIds page.toList = l.blocks.map fun b => some b.id)
    (hother : ∀ l, ∀ f ∈ lessonTexts l, f.1 ≠ content l → containerIds f.2.toList = []) :
    PagesBear p content (shared ++ p.lessons.flatMap lessonTexts) where
  bears_content l hl := by
    obtain ⟨page, hpage, hids⟩ := hcontent l
    exact ⟨page, List.mem_append_right _ (List.mem_flatMap.mpr ⟨l, hl, hpage⟩), hids⟩
  bare_other f hf hpage hpath := by
    rcases List.mem_append.mp hf with hf | hf
    · exact hshared f hf hpage
    · obtain ⟨l, hl, hf⟩ := List.mem_flatMap.mp hf
      exact hother l f hf fun heq => hpath (List.mem_map.mpr ⟨l, hl, heq.symm⟩)

/-- What is said of a path of a page holds of other paths. -/
theorem absent_of_not_isPage {path : String} {q : Prop} (h : ¬ IsPage path) :
    IsPage path → q :=
  fun hpage => absurd hpage h

/-! ## Formats -/

variable {p : Plan} {ctx : ExportContext}

/-- The tag of a body that names its lesson. -/
theorem lt_not_mem_lessonName (id : String) :
    ∀ a ∈ [("data-lesson-id", id)], '<' ∉ a.1.toList :=
  List.forall_mem_singleton.mpr (by decide : '<' ∉ "data-lesson-id".toList)

namespace Scorm

/-- A launcher bears no containers. -/
theorem containerIds_launcherPage (ctx : ExportContext) (l : PlannedLesson) :
    containerIds (launcherPage ctx l).toList = [] := by
  have hframe : Bare (Markup.line (Markup.element "iframe"
      [Markup.Html.fixed "class" "lesson-frame", Markup.Html.fixed "src" "content.html",
        Markup.Html.attr "title" l.lesson.title] [])) :=
    (Bears.element (by decide) (.fixed (by decide) (by decide) <|
      .fixed (by decide) (by decide) <| .attr (by decide) _ .nil) Bears.nil).line
  refine Shell.IsPlain.containerIds_document ⟨?_, ?_, ?_⟩ hframe
  · exact List.forall_mem_singleton.mpr ⟨_, rfl⟩
  · rintro c ⟨⟩
    decide
  · exact lt_not_mem_lessonName l.lesson.id

theorem containerIds_contentPage (version : ScormVersion) (ctx : ExportContext)
    (l : PlannedLesson) : containerIds (contentPage version ctx l).toList =
      l.blocks.map fun b => some b.id := by
  refine Shell.IsPlain.containerIds_document ⟨?_, ?_, ?_⟩ (Page.bears_lessonBody _ l)
  · exact fun code hcode => absurd hcode List.not_mem_nil
  · rintro c ⟨⟩
  · exact lt_not_mem_lessonName l.lesson.id

theorem pagesBear (version : ScormVersion) (script : String) :
    PagesBear p contentPath (texts version script p ctx) := by
  refine pagesBear_append ?_ ?_ ?_
  · simp only [List.forall_mem_cons, List.not_mem_nil, false_imp_iff, implies_true, and_true]
    refine ⟨?_, ?_, ?_, ?_, ?_⟩ <;> exact absent_of_not_isPage (by decide)
  · intro l
    exact ⟨_, List.mem_cons_of_mem _ List.mem_cons_self, containerIds_contentPage version ctx l⟩
  · intro l
    refine List.forall_mem_cons.mpr ⟨fun _ => containerIds_launcherPage ctx l, ?_⟩
    exact List.forall_mem_singleton.mpr fun hne => absurd rfl hne

end Scorm

namespace Cmi5

theorem containerIds_unitPage (ctx : ExportContext) (l : PlannedLesson) :
    containerIds (unitPage ctx l).toList = l.blocks.map fun b => some b.id := by
  have hexit : Bare exitButton :=
    (Bears.element (by decide) (Page.unbracketed_class (by decide)) <|
      Page.bare_leaf (by decide) (.fixed (by decide) (by decide) <|
        .fixed (by decide) (by decide) <| .fixed (by decide) (by decide) .nil) _).line
  have hbody := (Page.bears_lessonBody .cmi5 l).append hexit
  rw [List.append_nil] at hbody
  refine Shell.IsPlain.containerIds_document ⟨?_, ?_, ?_⟩ hbody
  · exact List.forall_mem_singleton.mpr ⟨_, rfl⟩
  · rintro c ⟨⟩
  · exact lt_not_mem_lessonName l.lesson.id

theorem pagesBear (script : String) : PagesBear p unitPath (texts script p ctx) := by
  refine pagesBear_append ?_ ?_ ?_
  · simp only [List.forall_mem_cons, List.not_mem_nil, false_imp_iff, implies_true, and_true]
    refine ⟨?_, ?_, ?_, ?_⟩ <;> exact absent_of_not_isPage (by decide)
  · exact fun l => ⟨_, List.mem_cons_self, containerIds_unitPage ctx l⟩
  · exact fun l => List.forall_mem_singleton.mpr fun hne => absurd rfl hne

end Cmi5

namespace Bundle

/-- An index bears no containers. -/
theorem containerIds_indexPage (p : Plan) (ctx : ExportContext) (scripts : List String)
    {footer : List Token} (h : Bare footer) :
    containerIds (indexPage p ctx scripts footer).toList = [] := by
  refine Shell.IsPlain.containerIds_document ⟨?_, ?_, ?_⟩ (Page.bare_courseIndex p _ h)
  · exact fun code hcode => absurd hcode List.not_mem_nil
  · rintro c ⟨⟩
  · exact fun a ha => absurd ha List.not_mem_nil

theorem containerIds_lessonPage (format : Format) (p : Plan) (l : PlannedLesson)
    (ctx : ExportContext) (scripts : List String) {between : List Token} (h : Bare between) :
    containerIds (lessonPage format p l ctx scripts between).toList =
      l.blocks.map fun b => some b.id := by
  have hbody := ((Page.bears_lessonBody format l).append h).append
    (Page.bare_lessonLinks p l (root ++ indexPath) pageName)
  rw [List.append_nil, List.append_nil] at hbody
  refine Shell.IsPlain.containerIds_document ⟨?_, ?_, ?_⟩ hbody
  · exact fun code hcode => absurd hcode List.not_mem_nil
  · rintro c ⟨⟩
  · exact lt_not_mem_lessonName l.lesson.id

theorem bare_finishButton : Bare finishButton :=
  (Bears.element (by decide) .nil <|
    Page.bare_leaf (by decide) (.fixed (by decide) (by decide) <|
      .fixed (by decide) (by decide) <| .fixed (by decide) (by decide) .nil) _).line

theorem bare_completeButton (id : String) : Bare (completeButton id) :=
  (Bears.element (by decide) (Page.unbracketed_class (by decide)) <|
    Page.bare_leaf (by decide) (.fixed (by decide) (by decide) <|
      .fixed (by decide) (by decide) <| .attr (by decide) _ .nil) _).line

theorem Xapi.pagesBear (wrapper navigation : String) :
    PagesBear p lessonPath (Xapi.texts wrapper navigation p ctx) := by
  refine pagesBear_append ?_ ?_ ?_
  · simp only [List.forall_mem_cons, List.not_mem_nil, false_imp_iff, implies_true, and_true]
    refine ⟨?_, ?_, ?_, ?_, ?_, fun _ => containerIds_indexPage p ctx _ bare_finishButton⟩ <;>
      exact absent_of_not_isPage (by decide)
  · intro l
    exact ⟨_, List.mem_cons_self,
      containerIds_lessonPage .xapi p l ctx _ (bare_completeButton l.lesson.id)⟩
  · exact fun l => List.forall_mem_singleton.mpr fun hne => absurd rfl hne

theorem Html5.pagesBear (navigation : String) :
    PagesBear p lessonPath (Html5.texts navigation p ctx) := by
  refine pagesBear_append ?_ ?_ ?_
  · simp only [List.forall_mem_cons, List.not_mem_nil, false_imp_iff, implies_true, and_true]
    refine ⟨?_, ?_, ?_, fun _ => containerIds_indexPage p ctx _ Bears.nil⟩ <;>
      exact absent_of_not_isPage (by decide)
  · intro l
    exact ⟨_, List.mem_cons_self, containerIds_lessonPage .html5 p l ctx _ Bears.nil⟩
  · exact fun l => List.forall_mem_singleton.mpr fun hne => absurd rfl hne

end Bundle

/-! ## Packages -/

/-- The files of a plan are texts, whose pages bear the containers of the lessons. -/
theorem exists_pagesBear (format : Format) {files : FileTree}
    (h : (Exporter.ofFormat format).planFiles p ctx = .ok files) :
    ∃ texts, FileTree.empty.Holds files (texts.map fun f => (f.1, Text.utf8 f.2)) ∧
      PagesBear p (contentPath format) texts := by
  cases format with
  | scorm version =>
    obtain ⟨script, hholds⟩ := Scorm.exists_holds h
    exact ⟨_, hholds, Scorm.pagesBear version script⟩
  | xapi =>
    obtain ⟨wrapper, navigation, -, -, hholds⟩ := Bundle.Xapi.exists_holds h
    exact ⟨_, hholds, Bundle.Xapi.pagesBear wrapper navigation⟩
  | cmi5 =>
    obtain ⟨script, hholds⟩ := Cmi5.exists_holds h
    exact ⟨_, hholds, Cmi5.pagesBear script⟩
  | html5 =>
    obtain ⟨navigation, -, hholds⟩ := Bundle.Html5.exists_holds h
    exact ⟨_, hholds, Bundle.Html5.pagesBear navigation⟩

/-- Paths with the segments of lessons between two fixed parts are different. -/
theorem nodup_map_segment (hp : Plan.ofCourse ctx.course = .ok p) {path : PlannedLesson → String}
    (start stop : String) (h : ∀ l, path l = start ++ l.segment ++ stop) :
    (p.lessons.map path).Nodup := by
  have hinj : Function.Injective fun segment : String => start ++ segment ++ stop := by
    intro a b heq
    have hchars := congrArg String.toList heq
    simp only [String.toList_append, List.append_assoc] at hchars
    exact String.toList_inj.mp (List.append_cancel_right (List.append_cancel_left hchars))
  have hmap : p.lessons.map path =
      (p.lessons.map (·.segment)).map fun segment => start ++ segment ++ stop := by
    rw [List.map_map]
    exact List.map_congr_left fun l _ => h l
  rw [hmap]
  exact (Plan.nodup_segments hp).map hinj

/-- The contents of lessons are different pages. -/
theorem nodup_contentPaths (format : Format) (hp : Plan.ofCourse ctx.course = .ok p) :
    (p.lessons.map (contentPath format)).Nodup := by
  cases format with
  | scorm version => exact nodup_map_segment hp "content/" "/content.html" fun l => rfl
  | xapi => exact nodup_map_segment hp "lessons/" ".html" fun l => (String.append_assoc).symm
  | cmi5 => exact nodup_map_segment hp "au/" "/index.html" fun l => rfl
  | html5 => exact nodup_map_segment hp "lessons/" ".html" fun l => (String.append_assoc).symm

/-- A course that has a plan has a package in each format, in which each of its lessons
has a page of its own that bears the lesson's blocks in order. No other page bears a block,
whatever the texts of the course are. -/
theorem containers_buildFiles (format : Format) (hp : Plan.ofCourse ctx.course = .ok p) :
    ∃ files, (Exporter.ofFormat format).buildFiles ctx = .ok files ∧
      (p.lessons.map (·.lesson)).Perm (ctx.course.modules.flatMap fun m => m.lessons) ∧
      (p.lessons.map (contentPath format)).Nodup ∧
      (∀ l ∈ p.lessons, ∃ page blocks,
        files.get? (contentPath format l) = some (Text.utf8 page) ∧
        IsStableOrder Block.order l.lesson.blocks blocks ∧
        containerIds page.toList = blocks.map fun b => some b.id) ∧
      ∀ path ∈ files.paths, IsPage path → path ∉ p.lessons.map (contentPath format) →
        ∃ page, files.get? path = some (Text.utf8 page) ∧ containerIds page.toList = [] := by
  obtain ⟨files, hfiles⟩ := Exporter.exists_planFiles format hp
  obtain ⟨texts, hholds, hbear⟩ := exists_pagesBear format hfiles
  refine ⟨files, ?_, Plan.perm_lessons hp, nodup_contentPaths format hp, ?_, ?_⟩
  · rw [Exporter.buildFiles_eq hp, hfiles]
  · intro l hl
    obtain ⟨page, hpage, hids⟩ := hbear.bears_content l hl
    refine ⟨page, l.lesson.orderedBlocks, hholds.get?_eq hpage,
      isStableOrder_orderedBlocks l.lesson, ?_⟩
    rw [hids, Plan.blocks_eq hp hl]
  · intro path hpath hpage hother
    obtain ⟨f, hf, rfl⟩ := List.mem_map.mp (hholds.mem_paths_iff.mp hpath)
    exact ⟨f.2, hholds.get?_eq hf, hbear.bare_other f hf hpage hother⟩

/-! ## A forged container -/

section Forged

/-- A block without a known meaning, shown last. -/
def lateBlock : Block := ⟨"late", 2, .unknown "poll" []⟩

/-- A block whose text would end a script, shown first. -/
def earlyBlock : Block := ⟨"early", 1, .paragraph "</script>"⟩

/-- A lesson whose title looks like the container of a block. -/
def forgedLesson : Lesson where
  id := "forged"
  title := "<div class=\"block block-quote\" data-block-id=\"none\">"
  blocks := [lateBlock, earlyBlock]

def forgedModule : Module := { id := "m", lessons := [forgedLesson] }

def forgedCourse : Course := { id := "c", modules := [forgedModule] }

def forgedContext : ExportContext := ⟨forgedCourse, {}, ⟨0, false⟩⟩

def forgedEntry : PlannedLesson :=
  ⟨0, forgedModule, forgedLesson, "forged", forgedLesson.orderedBlocks, []⟩

theorem ofCourse_forgedCourse :
    Plan.ofCourse forgedCourse = .ok ⟨forgedCourse, [⟨forgedModule, 0, [forgedEntry]⟩]⟩ := by
  have hmodules : forgedCourse.orderedModules = [forgedModule] := by
    simp [Course.orderedModules, forgedCourse]
  have hlessons : forgedModule.orderedLessons = [forgedLesson] := by
    simp [Module.orderedLessons, forgedModule]
  have hsegment : Text.pathSegment forgedLesson.id = "forged" := by decide +kernel
  rw [Plan.ofCourse_eq_ok_iff, hmodules]
  refine ⟨?_, ?_⟩
  · rw [checkModules, hlessons]
    decide +kernel
  · have hentry : PlannedLesson.ofLesson forgedModule 0 forgedLesson = forgedEntry := by
      rw [PlannedLesson.ofLesson, hsegment]
      rfl
    simp [planModules, PlannedModule.ofModule, hlessons, hentry]

/-- Two blocks in the wrong order are shown in the right one. -/
theorem eq_of_isStableOrder {blocks : List Block}
    (h : IsStableOrder Block.order [lateBlock, earlyBlock] blocks) :
    blocks = [earlyBlock, lateBlock] := by
  obtain ⟨a, b, rfl⟩ := List.length_eq_two.mp h.perm.length_eq
  have hmem : ∀ x ∈ [a, b], x = lateBlock ∨ x = earlyBlock := fun x hx => by
    simpa using h.perm.mem_iff.mp hx
  have hfirst : a.order ≤ b.order := List.rel_of_pairwise_cons h.sorted List.mem_cons_self
  rcases hmem a (by simp) with rfl | rfl
  · rcases hmem b (by simp) with rfl | rfl
    · exact absurd (congrArg List.length (h.stable 1)) (by decide)
    · exact absurd hfirst (by decide)
  · rcases hmem b (by simp) with rfl | rfl
    · rfl
    · exact absurd (congrArg List.length (h.stable 1)) (by decide)

theorem containers_buildFiles_forged :
    ∃ files page, (Exporter.ofFormat (.scorm .v12)).buildFiles forgedContext = .ok files ∧
      files.get? "content/forged/content.html" = some (Text.utf8 page) ∧
      containerIds page.toList = [some "early", some "late"] := by
  have hplan : Plan.ofCourse forgedContext.course = .ok _ := ofCourse_forgedCourse
  obtain ⟨files, hfiles, -, -, hcontent, -⟩ := containers_buildFiles (.scorm .v12) hplan
  obtain ⟨page, blocks, hpage, horder, hids⟩ := hcontent forgedEntry List.mem_cons_self
  refine ⟨files, page, hfiles, hpage, ?_⟩
  rw [hids, eq_of_isStableOrder horder]
  rfl

end Forged

end Courseware.Package
