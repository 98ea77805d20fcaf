import Courseware.Page.Lesson
import Courseware.Page.Shell
import Courseware.Proofs.Page.Blocks
import Courseware.Script.Config

/-!
# The page around the blocks

The headers, lists and links of a page bear no containers, and neither do its head and
its scripts. So a page bears the containers of its body.
-/

namespace Courseware.Page

open Markup Markup.Html
open Bears

/-! ## Lessons -/

theorem bare_description (level : Nat) {attributes : List Attribute}
    (h : Unbracketed attributes) (s : String) : Bare (description level attributes s) := by
  rw [description]
  split
  · exact nil
  · exact (bare_leaf (by decide) h s).indented level

theorem bare_resourceList (resources : List Resource) : Bare (resourceList resources) := by
  have hitem : ∀ r : Resource, Bare (indented 1 (Markup.element "li" []
      (Markup.element "a"
        [attr "href" (resourceTarget r), fixed "target" "_blank", fixed "rel" "noopener"]
        [Html.text (resourceLabel r)]))) :=
    fun r => (element (by decide) .nil (bare_leaf (by decide)
      (.attr (by decide) _ <| .fixed (by decide) (by decide) <|
        .fixed (by decide) (by decide) .nil) _)).indented 1
  rw [resourceList]
  split
  · exact nil
  · exact bare_elementLine (by decide) (unbracketed_class (by decide)) <| newline_cons <|
      (bare_elementLine (by decide) .nil (text "Resources")).append
        (bare_elementLine (by decide) .nil (flatMap hitem resources).newline_cons)

theorem bare_lessonHeader (l : PlannedLesson) : Bare (lessonHeader l) :=
  bare_elementLine (by decide) (unbracketed_class (by decide)) <| newline_cons <|
    ((bare_elementLine (by decide) (unbracketed_class (by decide))
      (text l.container.title)).append
      (bare_elementLine (by decide) (unbracketed_class (by decide))
        (text l.lesson.title))).append
      (whenSome (bare_description 0 (unbracketed_class (by decide))) l.lesson.description)

/-- What a lesson shows bears the containers of its blocks. -/
theorem bears_lessonBody (format : Format) (l : PlannedLesson) :
    Bears (lessonBody format l) (l.blocks.map fun b => some b.id) := by
  have hmain : Bears
      (elementLine "main" [fixed "class" "lesson-content", attr "id" ("lesson-" ++ l.segment)]
        (.newline :: blocks format l.blocks ++ .newline :: resourceList l.resources))
      (l.blocks.map fun b => some b.id) := by
    have hcontent := (bears_blocks format l.blocks).newline_cons.append
      (bare_resourceList l.resources).newline_cons
    rw [List.append_nil] at hcontent
    exact bare_elementLine (by decide) (.fixed (by decide) (by decide) <|
      .attr (by decide) _ .nil) hcontent
  exact (bare_lessonHeader l).append hmain

/-! ## Links -/

theorem bare_noLink : Bare noLink := (element (by decide) .nil nil).indented 1

/-- A link that is there only sometimes bears no container. -/
theorem bare_orNoLink {o : Option PlannedLesson} {link : PlannedLesson → List Token}
    (h : ∀ q, Bare (link q)) :
    Bare (match o with
      | some q => link q
      | none => noLink) := by
  cases o with
  | none => exact bare_noLink
  | some q => exact h q

theorem bare_lessonLinks (p : Plan) (l : PlannedLesson) (index : String)
    (href : PlannedLesson → String) : Bare (lessonLinks p l index href) := by
  have hlink : ∀ (kind rel target : String), '<' ∉ kind.toList → '<' ∉ rel.toList →
      Unbracketed [fixed "class" kind, fixed "rel" rel, attr "href" target] :=
    fun kind rel target hkind hrel => .fixed (by decide) hkind <| .fixed (by decide) hrel <|
      .attr (by decide) target .nil
  have hprevious : ∀ q : PlannedLesson, Bare (indented 1 (Markup.element "a"
      [fixed "class" "button prev", fixed "rel" "prev", attr "href" (href q)]
      [.text "&larr; ", Html.text q.lesson.title])) := by
    intro q
    have harrow : Bare [.text "&larr; "] := of_text (by decide)
    exact (element (by decide) (hlink "button prev" "prev" _ (by decide) (by decide))
      (harrow.append (text q.lesson.title))).indented 1
  have hnext : ∀ q : PlannedLesson, Bare (indented 1 (Markup.element "a"
      [fixed "class" "button next", fixed "rel" "next", attr "href" (href q)]
      [Html.text q.lesson.title, .text " &rarr;"])) := by
    intro q
    have harrow : Bare [.text " &rarr;"] := of_text (by decide)
    have htitle : Bare [Html.text q.lesson.title, .text " &rarr;"] :=
      (Bears.text q.lesson.title).append harrow
    exact (element (by decide) (hlink "button next" "next" _ (by decide) (by decide))
      htitle).indented 1
  have hhome : Bare (indented 1 (Markup.element "a"
      [fixed "class" "button home", attr "href" index] [Html.text "Course overview"])) :=
    (bare_leaf (by decide) (.fixed (by decide) (by decide) <| .attr (by decide) index .nil)
      "Course overview").indented 1
  exact bare_elementLine (by decide)
    (.fixed (by decide) (by decide) <| .fixed (by decide) (by decide) .nil) <|
    newline_cons (((bare_orNoLink hprevious).append hhome).append (bare_orNoLink hnext))

/-! ## The index -/

theorem bare_indexLesson (href : PlannedLesson → String) (l : PlannedLesson) :
    Bare (indexLesson href l) := by
  have hlink : Bare (Markup.element "a"
      [attr "href" (href l), attr "data-lesson-id" l.lesson.id] [Html.text l.lesson.title]) :=
    bare_leaf (by decide) (.attr (by decide) _ <| .attr (by decide) _ .nil) _
  have hduration : Bare (if 0 < l.lesson.duration then
      .text " " :: Markup.element "span" [fixed "class" "duration"]
        [Html.text ("(" ++ toString l.lesson.duration ++ " min)")]
      else []) := by
    have hspace : Bare [.text " "] := of_text (by decide)
    split
    · exact hspace.append (bare_leaf (by decide) (unbracketed_class (by decide)) _)
    · exact nil
  exact (element (by decide) .nil (hlink.append hduration)).indented 3

theorem bare_blockElement (level : Nat) {name : String} (hname : IsOther name)
    {attributes : List Attribute} (h : Unbracketed attributes) {content : List Token}
    (hcontent : Bare content) : Bare (blockElement level name attributes content) :=
  (((start hname h).indented level).append hcontent).append ((stop hname.2).indented level)

theorem bare_indexModule (href : PlannedLesson → String) (m : PlannedModule) :
    Bare (indexModule href m) :=
  (element (by decide) (.fixed (by decide) (by decide) <| .attr (by decide) _ .nil) <|
    newline_cons <|
    (((((bare_leaf (by decide) .nil m.source.title).indented 2).append
      (whenSome (bare_description 2 .nil) m.source.description)).append
      (bare_blockElement 2 (by decide) (unbracketed_class (by decide))
        (flatMap (bare_indexLesson href) m.lessons))).append
      (indentation 1))).indented 1

theorem bare_progressBar : Bare progressBar := by
  have hbar : Bare (Markup.element "div"
      [fixed "class" "progress-bar", .flag "data-progress"] []) :=
    div (by decide) (by decide) (.flag (by decide) .nil) nil
  exact (div (by decide) (by decide) (.fixed (by decide) (by decide) <|
    .fixed (by decide) (by decide) <| .fixed (by decide) (by decide) .nil) hbar).line

/-- An index bears no containers. -/
theorem bare_courseIndex (p : Plan) (href : PlannedLesson → String) {footer : List Token}
    (hfooter : Bare footer) : Bare (courseIndex p href footer) := by
  exact (bare_elementLine (by decide) (unbracketed_class (by decide)) <| newline_cons <|
    ((bare_elementLine (by decide) (unbracketed_class (by decide))
      (text p.course.title)).append
      (bare_description 0 (unbracketed_class (by decide)) p.course.description)).append
      bare_progressBar).append
    (bare_elementLine (by decide) .nil <| newline_cons <|
      (bare_elementLine (by decide) (unbracketed_class (by decide))
        (flatMap (bare_indexModule href) p.filledModules).newline_cons).append hfooter)

/-! ## Pages -/

/-- Whether the code in a page hands over a record, and what is written as it is in the
tag of the body has no brackets. -/
structure Shell.IsPlain (s : Shell) : Prop where
  code : ∀ code ∈ s.inlineScripts, ∃ record, code = Script.launchCode record
  bodyClass : ∀ c ∈ s.bodyClass, '<' ∉ c.toList
  names : ∀ a ∈ s.bodyAttributes, '<' ∉ a.1.toList

/-- Launch code bears no container, whatever is in the record. -/
theorem bare_launchCode (record : Json) :
    Bare [.raw ("\n" ++ Script.launchCode record ++ "\n")] := by
  intro rest
  have hstart : Json.Spot.idle.run ("\n".toList ++ "window.COURSEPACK_LAUNCH = ".toList) =
      .idle := by decide
  have hcode : Json.Spot.idle.run ("\n" ++ Script.launchCode record).toList ≠ .found := by
    unfold Script.launchCode
    simp only [String.toList_append]
    rw [← List.append_assoc, ← List.append_assoc, Json.Spot.run_append, Json.Spot.run_append,
      hstart]
    rcases Json.settled_inlined record with h | h <;> rw [h] <;> decide
  have hrender : (render [.raw ("\n" ++ Script.launchCode record ++ "\n")]).toList ++ rest =
      ("\n" ++ Script.launchCode record).toList ++ '\n' :: rest := by
    simp [render, Token.render]
  rw [hrender, containerIds_line hcode]
  exact containerIds_append_of_not_mem (by decide : '<' ∉ ['\n']) rest

theorem bare_scriptTokens (src : String) : Bare (scriptTokens src) :=
  (element (by decide) (.attr (by decide) src .nil) nil).line

theorem Shell.IsPlain.bare_headTokens {s : Shell} (h : s.IsPlain) : Bare s.headTokens := by
  have hcharset : Bare [.start "meta" [fixed "charset" "utf-8"]] :=
    start (by decide) (.fixed (by decide) (by decide) .nil)
  have hviewport : Bare [.start "meta"
      [fixed "name" "viewport", fixed "content" "width=device-width, initial-scale=1"]] :=
    start (by decide) (.fixed (by decide) (by decide) <| .fixed (by decide) (by decide) .nil)
  have hstylesheet : ∀ href,
      Bare (Markup.line [.start "link" [fixed "rel" "stylesheet", attr "href" href]]) :=
    fun href => (start (by decide) (.fixed (by decide) (by decide) <|
      .attr (by decide) href .nil)).line
  have hinline : Bare (s.inlineScripts.flatMap inlineScriptTokens) := by
    rw [List.flatMap_def]
    apply flatten
    intro ts hts
    obtain ⟨code, hmem, rfl⟩ := List.mem_map.mp hts
    obtain ⟨record, rfl⟩ := h.code code hmem
    exact (element (by decide) .nil (bare_launchCode record)).line
  exact (element (by decide) .nil <| newline_cons <|
    ((((hcharset.line.append hviewport.line).append
      (bare_leaf (by decide) .nil s.title).line).append
      (whenSome hstylesheet s.stylesheet)).append hinline).append
      (flatMap bare_scriptTokens s.headScripts)).line

theorem Shell.IsPlain.unbracketed {s : Shell} (h : s.IsPlain) :
    Unbracketed s.bodyAttributeList := by
  have hall : ∀ as : List (String × String), (∀ a ∈ as, '<' ∉ a.1.toList) →
      Unbracketed (as.map fun a => attr a.1 a.2) := by
    intro as
    induction as with
    | nil => exact fun _ => .nil
    | cons a as ih =>
      intro has
      exact .attr (has a List.mem_cons_self) a.2 (ih fun b hb => has b (List.mem_cons_of_mem _ hb))
  have hnames := hall s.bodyAttributes h.names
  rw [bodyAttributeList]
  cases hclass : s.bodyClass with
  | none => exact hnames
  | some c => exact .fixed (by decide) (h.bodyClass c hclass) hnames

/-- A page bears the containers of its body. -/
theorem Shell.IsPlain.containerIds_document {s : Shell} (h : s.IsPlain) {body : List Token}
    {ids : List (Option String)} (hbody : Bears body ids) :
    containerIds (s.document body).toList = ids := by
  have hless : '<' ∉ "!DOCTYPE html>".toList ++ [] := by decide
  have hdoctype : Bare [.raw "<!DOCTYPE html>"] := containerIds_tag (by decide) hless
  have hscripts := hbody.newline_cons.append (flatMap bare_scriptTokens s.scripts)
  rw [List.append_nil] at hscripts
  have hrest : Bears (Markup.line (Markup.element "html" [attr "lang" s.language] <|
      .newline :: s.headTokens ++ Markup.line (Markup.element "body" s.bodyAttributeList <|
        .newline :: body ++ s.scripts.flatMap scriptTokens))) ids :=
    (element (by decide) (.attr (by decide) s.language .nil) <|
      h.bare_headTokens.newline_cons.append
        (element (by decide) h.unbracketed hscripts).line).line
  have hall := hdoctype.line.append hrest []
  rwa [List.append_nil, List.nil_append, containerIds, List.append_nil] at hall

end Courseware.Page
