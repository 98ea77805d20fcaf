import Courseware.Proofs.Package.Statements
import Courseware.Proofs.Package.Tabs
import Courseware.Proofs.Page.Embedded

/-!
# Values that pages embed for their scripts

Questions, the button that marks a lesson as completed and launch records hand values in JSON
to the scripts of a page, in attributes or inside a script element. All of them are read back
as they were put in.
-/

namespace Courseware.Package

open Markup Markup.Html
open Page (Embeds answerCall answers? choiceArguments embeds_escape firstArgument?
  firstArgument?_quote typedArguments)
open Script (cmi5Launch inlined scormLaunch)

/-! ## The end of a lesson -/

namespace Bundle

theorem tidy_completeButton (lessonId : String) : Tidy (completeButton lessonId) :=
  (Tidy.ofElement (by decide) (.fixed (by decide) (by decide) .nil) <|
    Tidy.ofElement (by decide) (.fixed (by decide) (by decide) <|
      .fixed (by decide) (by decide) <| .attr (by decide) _ .nil) (Tidy.text _)).line

/-- The button passes on the identifier of the lesson and nothing else. -/
theorem embeds_completeButton (lessonId : String) :
    ∃ code, writtenValues "onclick" (render (completeButton lessonId)).toList = [code] ∧
      Embeds (firstArgument? "markLessonComplete") (.string lessonId, ")") code := by
  have hvalues : writtenValues "onclick" (render (completeButton lessonId)).toList =
      [Text.Dialect.html.escape ("markLessonComplete(" ++ Json.quote lessonId ++ ")")] := by
    rw [writtenValues_render (by decide) (tidy_completeButton lessonId)]
    simp [completeButton]
  rw [hvalues]
  exact ⟨_, rfl, embeds_escape
    (firstArgument?_quote _ lessonId (Json.ends_cons (c := ')') (by decide) []))⟩

end Bundle

/-! ## Pages -/

/-- Every block of a lesson stands in the page that shows the lesson. -/
theorem block_infix_pageOf (format : Format) (p : Plan) (ctx : ExportContext) {l : PlannedLesson}
    {b : Block} (h : b ∈ l.blocks) :
    (render (Page.block format b)).toList <:+: (pageOf p ctx l format).toList := by
  have hbody := Page.block_infix_lessonBody format h
  cases format with
  | scorm version =>
    rw [pageOf, Scorm.contentPage]
    exact Page.infix_document _ hbody
  | xapi =>
    rw [pageOf, Bundle.lessonPage, List.append_assoc]
    exact Page.infix_document _ (hbody.trans (List.prefix_append _ _).isInfix)
  | cmi5 =>
    rw [pageOf, Cmi5.unitPage]
    exact Page.infix_document _ (hbody.trans (List.prefix_append _ _).isInfix)
  | html5 =>
    rw [pageOf, Bundle.lessonPage, List.append_assoc]
    exact Page.infix_document _ (hbody.trans (List.prefix_append _ _).isInfix)

/-- So does, in a package that sends statements, the button that marks it as completed. -/
theorem completeButton_infix_pageOf (p : Plan) (ctx : ExportContext) (l : PlannedLesson) :
    (render (Bundle.completeButton l.lesson.id)).toList <:+: (pageOf p ctx l .xapi).toList := by
  rw [pageOf, Bundle.lessonPage]
  exact Page.infix_document _ (List.infix_append _ _ _)

/-- Whether a page has the blocks of a lesson and, in a package that sends statements, the button
that marks the lesson as completed. -/
def HasParts (format : Format) (l : PlannedLesson) (page : String) : Prop :=
  (∀ b ∈ l.blocks, (render (Page.block format b)).toList <:+: page.toList) ∧
    (format = .xapi → (render (Bundle.completeButton l.lesson.id)).toList <:+: page.toList)

theorem hasParts_pageOf (format : Format) (p : Plan) (ctx : ExportContext) (l : PlannedLesson) :
    HasParts format l (pageOf p ctx l format) := by
  refine ⟨fun b hb => block_infix_pageOf format p ctx hb, ?_⟩
  rintro rfl
  exact completeButton_infix_pageOf p ctx l

/-! ## Launch records -/

/-- With minutes that fit in a word, the record of a launcher is read back. -/
theorem ofText_scormLaunch (lessonId title content : String) {s : ScormSettings}
    (h : ∀ minutes ∈ s.timeLimit, minutes < 2 ^ 32) :
    Json.ofText (inlined (scormLaunch lessonId title content s)) =
      .ok (scormLaunch lessonId title content s).sorted := by
  have htime : ∀ m ∈ s.timeLimit, m * 60 < Json.wholeLimit := by
    intro m hm
    have hbound := h m hm
    rw [Json.wholeLimit]
    omega
  exact Json.ofText_inlined (Script.legible_scormLaunch _ _ _ htime)
    ((Script.depth_scormLaunch ..).trans (by decide))

theorem ofText_cmi5Launch (activityId lessonId : String) (s : Settings) :
    Json.ofText (inlined (cmi5Launch activityId lessonId (Cmi5.mastery s))) =
      .ok (cmi5Launch activityId lessonId (Cmi5.mastery s)).sorted :=
  Json.ofText_inlined (Script.legible_cmi5Launch _ _ (Cmi5.legible_mastery s))
    ((Script.depth_cmi5Launch ..).trans (by decide))

/-! ## Whatever is embedded -/

/-- The page of every lesson has the blocks of the lesson, and the button at its end where there
is one. What these embed for the scripts of the page is read back from their attributes once the
entities are decoded, and launch records are read back from where they are written. -/
theorem embedded_values :
    (∀ (format : Format) (ctx : ExportContext) (p : Plan), Plan.ofCourse ctx.course = .ok p →
      ∃ files, (Exporter.ofFormat format).buildFiles ctx = .ok files ∧ ∀ l ∈ p.lessons,
        ∃ page, files.get? (contentPath format l) = some (Text.utf8 page) ∧
          HasParts format l page) ∧
    (∀ (format : Format) (b : Block) (q : MultipleChoice),
      List.Forall₂
        (fun (choice : Nat × Choice) written =>
          Embeds (firstArgument? format.answerHook)
            (.string b.id, ", " ++ choiceArguments choice.1 choice.2.correct ++ ")") written)
        (q.choices.mapIdx Prod.mk)
        (writtenValues "onclick"
          (render (Page.block format { b with content := .multipleChoice q })).toList)) ∧
    (∀ (format : Format) (b : Block) (q : FillInBlank),
      (∃ code, writtenValues "onclick"
          (render (Page.block format { b with content := .fillInBlank q })).toList = [code] ∧
        Embeds (firstArgument? format.answerHook)
          (.string b.id, ", " ++ typedArguments ++ ")") code) ∧
      ∃ answers, writtenValues "data-answers"
          (render (Page.block format { b with content := .fillInBlank q })).toList = [answers] ∧
        Embeds answers? q.answers answers) ∧
    (∀ lessonId : String,
      ∃ code, writtenValues "onclick" (render (Bundle.completeButton lessonId)).toList = [code] ∧
        Embeds (firstArgument? "markLessonComplete") (.string lessonId, ")") code) ∧
    (∀ v : Json, Json.ofText (inlined v) = Json.ofText v.compact) ∧
    (∀ (lessonId title content : String) (s : ScormSettings),
      (∀ minutes ∈ s.timeLimit, minutes < 2 ^ 32) →
        Json.ofText (inlined (scormLaunch lessonId title content s)) =
          .ok (scormLaunch lessonId title content s).sorted) ∧
    ∀ (activityId lessonId : String) (s : Settings),
      Json.ofText (inlined (cmi5Launch activityId lessonId (Cmi5.mastery s))) =
        .ok (cmi5Launch activityId lessonId (Cmi5.mastery s)).sorted := by
  refine ⟨?_, Page.embeds_choices, fun format b q => ⟨?_, ?_⟩, Bundle.embeds_completeButton,
    Json.ofText_inlined_eq, fun _ _ _ _ h => ofText_scormLaunch _ _ _ h, ofText_cmi5Launch⟩
  · intro format ctx p hp
    obtain ⟨files, hbuild, hfiles⟩ := exists_buildFiles format hp
    exact ⟨files, hbuild, fun l hl =>
      ⟨_, get?_contentPath format hfiles hl, hasParts_pageOf format p ctx l⟩⟩
  · exact Page.embeds_typed format b q
  · exact Page.embeds_answers format b q

/-- The button stands in the page of its lesson, and a title that looks like an end tag does not
keep a record from being read. -/
theorem embedded_values_dotted :
    (∃ files page, (Exporter.ofFormat .xapi).buildFiles dottedContext = .ok files ∧
      files.get? "lessons/end.html" = some (Text.utf8 page) ∧
      (render (Bundle.completeButton "end")).toList <:+: page.toList) ∧
    Json.ofText (inlined (scormLaunch "end" "</script>" "a.html" { timeLimit := some 60 })) =
      .ok (scormLaunch "end" "</script>" "a.html" { timeLimit := some 60 }).sorted := by
  obtain ⟨hpages, -, -, -, -, hrecord, -⟩ := embedded_values
  refine ⟨?_, hrecord "end" "</script>" "a.html" { timeLimit := some 60 } (by simp)⟩
  obtain ⟨files, hfiles, hlessons⟩ := hpages .xapi dottedContext dottedPlan ofCourse_dottedCourse
  obtain ⟨page, hpage, -, hbutton⟩ := hlessons lastEntry (by simp [Plan.lessons, dottedPlan])
  have hpath : contentPath .xapi lastEntry = "lessons/end.html" := by decide
  exact ⟨files, page, hfiles, hpath ▸ hpage, hbutton rfl⟩

end Courseware.Package
