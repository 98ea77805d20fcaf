import Courseware.Page.Lesson
import Courseware.Page.Shell
import Courseware.Proofs.Page.Parts
import Courseware.Proofs.Page.ScriptData
import Courseware.Proofs.Plan

/-!
# The links of pages

Which parts the pages of lessons and the index of a course have, and what their frame adds
to them.
-/

namespace Courseware.Page

open Markup Markup.Html
open Markup.Reader (Lays Pairs Spells IsName isName_ofList IsPlainValue isPlainValue_ofList)

theorem exists_spells_block (format : Format) (b : Block) :
    ∃ n, Spells .html (block format b) [n] := by
  obtain ⟨inner, hinner, -, -⟩ := faithful_content format b.id b.content
  obtain ⟨nodes, hspells, -⟩ := Lays.exists_element
    (show IsName "div" from isName_ofList (by decide)) (by decide)
    (Pairs.attr (show IsName "class" from isName_ofList (by decide))
      ("block block-" ++ contentClass b.content) <|
      Pairs.attr (show IsName "data-block-id" from isName_ofList (by decide)) b.id <|
      Pairs.attr (show IsName "data-block-type" from isName_ofList (by decide)) b.tag .nil)
    (hinner.newline_cons.append Lays.nil.newline_cons)
  exact ⟨_, hspells⟩

theorem exists_spells_blocks (format : Format) (bs : List Block) :
    ∃ nodes, Spells .html (blocks format bs) nodes := by
  induction bs using blocks.induct with
  | case1 => exact ⟨[], Spells.nil⟩
  | case2 b =>
    obtain ⟨n, hn⟩ := exists_spells_block format b
    exact ⟨[n], hn⟩
  | case3 b bs hne ih =>
    obtain ⟨n, hn⟩ := exists_spells_block format b
    obtain ⟨ns, hns⟩ := ih
    refine ⟨[n] ++ ([.character '\n'] ++ ns), ?_⟩
    rw [blocks]
    · exact hn.append (Spells.newline.cons hns)
    · exact hne

section Elements

variable {name : String} {attributes : List Attribute} {pairs : List (String × String)}
  {content : List Token} {inner : List Part}

theorem carries_elementLine (hname : IsName name) (hcontainer : Reader.IsContainer .html name)
    (hattributes : Pairs attributes pairs) (hcontent : Carries content inner)
    (htells : (⟨name, pairs, ""⟩ : Part).tells = false)
    (hlesson : isLessonContent name pairs = false) :
    Carries (elementLine name attributes content) inner :=
  (Carries.quiet hname hcontainer hattributes hcontent htells hlesson).line

theorem carries_leafLine (hname : IsName name) (hcontainer : Reader.IsContainer .html name)
    (hattributes : Pairs attributes pairs) (s : String)
    (htells : (⟨name, pairs, ""⟩ : Part).tells = false)
    (hlesson : isLessonContent name pairs = false) :
    Carries (elementLine name attributes [text s]) [] :=
  carries_elementLine hname hcontainer hattributes (Carries.text s) htells hlesson

theorem carries_blockElement (hname : IsName name) (hcontainer : Reader.IsContainer .html name)
    (hattributes : Pairs attributes pairs) (hcontent : Carries content inner)
    (htells : (⟨name, pairs, ""⟩ : Part).tells = false)
    (hlesson : isLessonContent name pairs = false) (level : Nat) :
    Carries (blockElement level name attributes content) inner := by
  have helement := Carries.quiet hname hcontainer hattributes
    ((hcontent.append (Carries.indentation level)).newline_cons) htells hlesson
  have hsplit : blockElement level name attributes content = Markup.indented level
      (element name attributes (.newline :: (content ++ Markup.indentation level))) := by
    simp [blockElement, Markup.indented, Markup.line, Markup.element]
  rw [hsplit]
  simpa using helement.indented level

end Elements

/-! ## Lessons -/

theorem carries_description (level : Nat) {attributes : List Attribute}
    {pairs : List (String × String)} (hattributes : Pairs attributes pairs)
    (htells : (⟨"p", pairs, ""⟩ : Part).tells = false) (s : String) :
    Carries (description level attributes s) [] := by
  rw [description]
  split
  · exact Carries.nil
  · exact (Carries.leaf (by decide) (by decide) hattributes s htells rfl).indented level

theorem carries_lessonHeader (l : PlannedLesson) : Carries (lessonHeader l) [] := by
  have hcontainer : Carries (elementLine "p" [fixed "class" "module-title"]
      [text l.container.title]) [] :=
    carries_leafLine (by decide) (by decide) (.fixed (by decide) (by decide) .nil) _ rfl rfl
  have htitle : Carries (elementLine "h1" [fixed "class" "lesson-title"]
      [text l.lesson.title]) [] :=
    carries_leafLine (by decide) (by decide) (.fixed (by decide) (by decide) .nil) _ rfl rfl
  have hdescription : Carries (whenSome l.lesson.description
      (description 0 [fixed "class" "lesson-description"])) [] := by
    cases l.lesson.description with
    | none => exact Carries.nil
    | some s => exact carries_description 0 (.fixed (by decide) (by decide) .nil) rfl s
  exact carries_elementLine (by decide) (by decide) (.fixed (by decide) (by decide) .nil)
    ((hcontainer.append htitle).append hdescription).newline_cons rfl rfl

theorem exists_carries_resourceList (resources : List Resource) :
    ∃ parts, Carries (resourceList resources) parts := by
  have hitem (r : Resource) : Carries
      (indented 1 (element "li" [] (element "a"
        [attr "href" (resourceTarget r), fixed "target" "_blank", fixed "rel" "noopener"]
        [text (resourceLabel r)])))
      [⟨"a", [("href", resourceTarget r), ("target", "_blank"), ("rel", "noopener")], ""⟩] :=
    (Carries.quiet (by decide) (by decide) .nil (Carries.telling (by decide) (by decide)
      (.attr (by decide) _ <| .fixed (by decide) (by decide) <|
        .fixed (by decide) (by decide) .nil) (Carries.text _) rfl rfl) rfl rfl).indented 1
  have hheading : Carries (elementLine "h2" [] [text "Resources"]) [] :=
    carries_leafLine (by decide) (by decide) .nil _ rfl rfl
  rw [resourceList]
  split
  · exact ⟨[], Carries.nil⟩
  · exact ⟨_, carries_elementLine (by decide) (by decide) (.fixed (by decide) (by decide) .nil)
      (hheading.append (carries_elementLine (by decide) (by decide) .nil
        (Carries.flatMap fun r _ => hitem r).newline_cons rfl rfl)).newline_cons rfl rfl⟩

/-- All links in the body of a lesson are those of its author. -/
theorem carries_lessonBody (format : Format) (l : PlannedLesson) :
    Carries (lessonBody format l) [] := by
  obtain ⟨blockNodes, hblocks⟩ := exists_spells_blocks format l.blocks
  obtain ⟨-, resourceNodes, hresources, -⟩ := exists_carries_resourceList l.resources
  have hmain : Carries
      (elementLine "main" [fixed "class" "lesson-content", attr "id" ("lesson-" ++ l.segment)]
        (.newline :: blocks format l.blocks ++ .newline :: resourceList l.resources)) [] :=
    (Carries.lessonContent (by decide) (by decide)
      (.fixed (by decide) (by decide) <| .attr (by decide) _ .nil)
      ((Spells.newline.cons hblocks).append (Spells.newline.cons hresources)) rfl rfl).line
  exact (carries_lessonHeader l).append hmain

/-! ## Links between lessons -/

def previousPart (href : String) : Part :=
  ⟨"a", [("class", "button prev"), ("rel", "prev"), ("href", href)], ""⟩

def homePart (href : String) : Part :=
  ⟨"a", [("class", "button home"), ("href", href)], ""⟩

def nextPart (href : String) : Part :=
  ⟨"a", [("class", "button next"), ("rel", "next"), ("href", href)], ""⟩

def lessonLinkParts (p : Plan) (l : PlannedLesson) (index : String)
    (href : PlannedLesson → String) : List Part :=
  (p.previous? l).toList.map (fun q => previousPart (href q)) ++ [homePart index] ++
    (p.next? l).toList.map (fun q => nextPart (href q))

theorem carries_noLink : Carries noLink [] :=
  (Carries.quiet (by decide) (by decide) .nil Carries.nil rfl rfl).indented 1

theorem carries_lessonLinks (p : Plan) (l : PlannedLesson) (index : String)
    (href : PlannedLesson → String) :
    Carries (lessonLinks p l index href) (lessonLinkParts p l index href) := by
  have hleft : Carries [.text "&larr; "] [] :=
    Carries.of_text (show Reader.SpellsText .html "&larr; ".toList ['←', ' '] from fun _ => rfl)
  have hright : Carries [.text " &rarr;"] [] :=
    Carries.of_text (show Reader.SpellsText .html " &rarr;".toList [' ', '→'] from fun _ => rfl)
  have hprevious (q : PlannedLesson) : Carries
      (indented 1 (element "a"
        [fixed "class" "button prev", fixed "rel" "prev", attr "href" (href q)]
        [.text "&larr; ", text q.lesson.title])) [previousPart (href q)] :=
    (Carries.telling (by decide) (by decide)
      (.fixed (by decide) (by decide) <| .fixed (by decide) (by decide) <|
        .attr (by decide) _ .nil) (hleft.append (Carries.text _)) rfl rfl).indented 1
  have hhome : Carries
      (indented 1 (element "a" [fixed "class" "button home", attr "href" index]
        [text "Course overview"])) [homePart index] :=
    (Carries.telling (by decide) (by decide)
      (.fixed (by decide) (by decide) <| .attr (by decide) _ .nil) (Carries.text _) rfl
      rfl).indented 1
  have hnext (q : PlannedLesson) : Carries
      (indented 1 (element "a"
        [fixed "class" "button next", fixed "rel" "next", attr "href" (href q)]
        [text q.lesson.title, .text " &rarr;"])) [nextPart (href q)] :=
    (Carries.telling (by decide) (by decide)
      (.fixed (by decide) (by decide) <| .fixed (by decide) (by decide) <|
        .attr (by decide) _ .nil) ((Carries.text _).append hright) rfl rfl).indented 1
  rw [lessonLinks, lessonLinkParts]
  refine carries_elementLine (by decide) (by decide)
    (.fixed (by decide) (by decide) <| .fixed (by decide) (by decide) .nil)
    (((Carries.newline_cons ?previous).append hhome).append ?next) rfl rfl
  case previous =>
    cases p.previous? l with
    | none => exact carries_noLink
    | some q => exact hprevious q
  case next =>
    cases p.next? l with
    | none => exact carries_noLink
    | some q => exact hnext q

/-! ## The index -/

def indexPart (href : PlannedLesson → String) (l : PlannedLesson) : Part :=
  ⟨"a", [("href", href l), ("data-lesson-id", l.lesson.id)], ""⟩

theorem carries_indexLesson (href : PlannedLesson → String) (l : PlannedLesson) :
    Carries (indexLesson href l) [indexPart href l] := by
  have hlink : Carries
      (element "a" [attr "href" (href l), attr "data-lesson-id" l.lesson.id]
        [text l.lesson.title]) [indexPart href l] :=
    Carries.telling (by decide) (by decide) (.attr (by decide) _ <| .attr (by decide) _ .nil)
      (Carries.text _) rfl rfl
  have hduration : Carries
      (if 0 < l.lesson.duration then
        .text " " :: element "span" [fixed "class" "duration"]
          [text ("(" ++ toString l.lesson.duration ++ " min)")]
      else []) [] := by
    split
    · exact (Carries.plain (s := " ") (by decide)).append
        (Carries.leaf (by decide) (by decide) (.fixed (by decide) (by decide) .nil) _ rfl rfl)
    · exact Carries.nil
  exact (Carries.quiet (by decide) (by decide) .nil (hlink.append hduration) rfl rfl).indented 3

theorem carries_indexModule (href : PlannedLesson → String) (m : PlannedModule) :
    Carries (indexModule href m) (m.lessons.map (indexPart href)) := by
  have htitle : Carries (indented 2 (element "h2" [] [text m.source.title])) [] :=
    (Carries.leaf (by decide) (by decide) .nil _ rfl rfl).indented 2
  have hdescription : Carries (whenSome m.source.description (description 2 [])) [] := by
    cases m.source.description with
    | none => exact Carries.nil
    | some s => exact carries_description 2 .nil rfl s
  have hlessons : Carries
      (blockElement 2 "ol" [fixed "class" "lesson-list"] (m.lessons.flatMap (indexLesson href)))
      (m.lessons.map (indexPart href)) := by
    rw [List.map_eq_flatMap]
    exact carries_blockElement (by decide) (by decide) (.fixed (by decide) (by decide) .nil)
      (Carries.flatMap fun l _ => carries_indexLesson href l) rfl rfl 2
  have hinner := (((htitle.append hdescription).append hlessons).append
    (Carries.indentation 1)).newline_cons
  rw [List.append_nil] at hinner
  exact (Carries.quiet (by decide) (by decide)
    (.fixed (by decide) (by decide) <| .attr (by decide) _ .nil) hinner rfl rfl).indented 1

theorem carries_progressBar : Carries progressBar [] :=
  carries_elementLine (by decide) (by decide)
    (.fixed (by decide) (by decide) <| .fixed (by decide) (by decide) <|
      .fixed (by decide) (by decide) <| .fixed (by decide) (by decide) .nil)
    (Carries.quiet (by decide) (by decide)
      (.fixed (by decide) (by decide) <| .flag (by decide) .nil) Carries.nil rfl rfl) rfl rfl

/-- The index links to each lesson, in the order of the plan. -/
theorem carries_courseIndex (p : Plan) (href : PlannedLesson → String) {footer : List Token}
    {parts : List Part} (hfooter : Carries footer parts) :
    Carries (courseIndex p href footer) (p.lessons.map (indexPart href) ++ parts) := by
  have htitle : Carries
      (elementLine "h1" [fixed "class" "course-title"] [text p.course.title]) [] :=
    carries_leafLine (by decide) (by decide) (.fixed (by decide) (by decide) .nil) _ rfl rfl
  have hdescription : Carries
      (description 0 [fixed "class" "course-description"] p.course.description) [] :=
    carries_description 0 (.fixed (by decide) (by decide) .nil) rfl _
  have hheader : Carries
      (elementLine "header" [fixed "class" "course-header"]
        (.newline :: elementLine "h1" [fixed "class" "course-title"] [text p.course.title] ++
          description 0 [fixed "class" "course-description"] p.course.description ++
          progressBar)) [] :=
    carries_elementLine (by decide) (by decide) (.fixed (by decide) (by decide) .nil)
      ((htitle.append hdescription).append carries_progressBar).newline_cons rfl rfl
  have hmodules : Carries (p.filledModules.flatMap (indexModule href))
      (p.lessons.map (indexPart href)) := by
    rw [← p.lessons_filledModules, List.map_flatMap]
    exact Carries.flatMap fun m _ => carries_indexModule href m
  have houtline : Carries
      (elementLine "ol" [fixed "class" "course-outline"]
        (.newline :: p.filledModules.flatMap (indexModule href)))
      (p.lessons.map (indexPart href)) :=
    carries_elementLine (by decide) (by decide) (.fixed (by decide) (by decide) .nil)
      hmodules.newline_cons rfl rfl
  exact hheader.append (carries_elementLine (by decide) (by decide) .nil
    (houtline.append hfooter).newline_cons rfl rfl)

/-! ## Frames -/

def scriptPart (src : String) : Part := ⟨"script", [("src", src)], ""⟩

def codePart (code : String) : Part := ⟨"script", [], "\n" ++ code ++ "\n"⟩

def stylesheetPart (href : String) : Part :=
  ⟨"link", [("rel", "stylesheet"), ("href", href)], ""⟩

def Shell.bodyPart (s : Shell) : Part :=
  ⟨"body", s.bodyClass.toList.map (fun c => ("class", c)) ++ s.bodyAttributes, ""⟩

/-- The parts of a page by those in its body. -/
def Shell.parts (s : Shell) (inner : List Part) : List Part :=
  s.stylesheet.toList.map stylesheetPart ++ s.inlineScripts.map codePart ++
    s.headScripts.map scriptPart ++ (if s.bodyPart.tells then [s.bodyPart] else []) ++ inner ++
    s.scripts.map scriptPart

/-- Whether what is written as it is in the frame of a page can be read back. -/
structure Shell.Legible (s : Shell) : Prop where
  code : ∀ c ∈ s.inlineScripts, ¬ ['<', '/'] <:+: c.toList
  bodyClass : ∀ c ∈ s.bodyClass, IsPlainValue c
  bodyNames : ∀ a ∈ s.bodyAttributes, IsName a.1

theorem carries_scriptTokens (src : String) : Carries (scriptTokens src) [scriptPart src] :=
  (Carries.script (.attr (by decide) _ .nil) (show render [] = "" from rfl) (by decide)).line

theorem not_infix_cons {c : Char} (hc : c ≠ '<') {cs : List Char} (h : ¬ ['<', '/'] <:+: cs) :
    ¬ ['<', '/'] <:+: c :: cs := by
  rw [List.infix_cons_iff]
  rintro (hstart | hinside)
  · exact hc (List.cons_prefix_cons.mp hstart).1.symm
  · exact h hinside

theorem not_infix_append {before cs : List Char} (hbefore : ∀ c ∈ before, c ≠ '<')
    (h : ¬ ['<', '/'] <:+: cs) : ¬ ['<', '/'] <:+: before ++ cs := by
  induction before with
  | nil => exact h
  | cons c before ih =>
    exact not_infix_cons (hbefore c List.mem_cons_self)
      (ih fun x hx => hbefore x (List.mem_cons_of_mem _ hx))

theorem not_infix_concat {c : Char} (hc : c ≠ '/') {cs : List Char}
    (h : ¬ ['<', '/'] <:+: cs) : ¬ ['<', '/'] <:+: cs ++ [c] := by
  rw [List.infix_concat_iff]
  rintro (hsuffix | hinside)
  · have hlast := hsuffix.getLast (by simp)
    simp only [List.getLast_append_singleton] at hlast
    exact hc hlast.symm
  · exact h hinside

/-- Launch code holds nothing that could start an end tag. -/
theorem not_infix_launchCode (record : Json) :
    ¬ ['<', '/'] <:+: (Script.launchCode record).toList := by
  have hstart : ∀ c ∈ "window.COURSEPACK_LAUNCH = ".toList, c ≠ '<' := by decide
  have hsemicolon : ";".toList = [';'] := rfl
  have hvalue : ¬ ['<', '/'] <:+: (Script.inlined record).toList ++ [';'] :=
    not_infix_concat (by decide) (not_infix_inlined record)
  unfold Script.launchCode
  simp only [String.toList_append, List.append_assoc, hsemicolon]
  exact not_infix_append hstart hvalue

/-- Code that holds nothing that could start an end tag may be put on lines of its own. -/
theorem not_infix_codeLines {code : String} (h : ¬ ['<', '/'] <:+: code.toList) :
    ¬ ['<', '/'] <:+: ("\n" ++ code ++ "\n").toList := by
  have hline := not_infix_cons (c := '\n') (by decide)
    (not_infix_concat (c := '\n') (by decide) h)
  simpa using hline

theorem render_codeLines (code : String) :
    render [.raw ("\n" ++ code ++ "\n")] = "\n" ++ code ++ "\n" := by
  simp [render, Token.render]

theorem carries_inlineScriptTokens {code : String} (h : ¬ ['<', '/'] <:+: code.toList) :
    Carries (inlineScriptTokens code) [codePart code] :=
  (Carries.script .nil (render_codeLines code) (not_infix_codeLines h)).line

theorem carries_headTokens {s : Shell} (h : s.Legible) :
    Carries s.headTokens (s.stylesheet.toList.map stylesheetPart ++ s.inlineScripts.map codePart ++
      s.headScripts.map scriptPart) := by
  have hcharset : Carries (line [.start "meta" [fixed "charset" "utf-8"]]) [] :=
    (Carries.void (by decide) (by decide) (.fixed (by decide) (by decide) .nil)).line
  have hviewport : Carries (line [.start "meta"
      [fixed "name" "viewport", fixed "content" "width=device-width, initial-scale=1"]]) [] :=
    (Carries.void (by decide) (by decide)
      (.fixed (by decide) (by decide) <| .fixed (by decide) (by decide) .nil)).line
  have htitle : Carries (line (element "title" [] [text s.title])) [] :=
    (Carries.leaf (by decide) (by decide) .nil _ rfl rfl).line
  have hstyles : Carries (whenSome s.stylesheet fun href =>
      line [.start "link" [fixed "rel" "stylesheet", attr "href" href]])
      (s.stylesheet.toList.map stylesheetPart) := by
    cases s.stylesheet with
    | none => exact Carries.nil
    | some href =>
      exact (Carries.void (by decide) (by decide)
        (.fixed (by decide) (by decide) <| .attr (by decide) _ .nil)).line
  have hcode : Carries (s.inlineScripts.flatMap inlineScriptTokens)
      (s.inlineScripts.map codePart) := by
    rw [List.map_eq_flatMap]
    exact Carries.flatMap fun c hc => carries_inlineScriptTokens (h.code c hc)
  have hscripts : Carries (s.headScripts.flatMap scriptTokens)
      (s.headScripts.map scriptPart) := by
    rw [List.map_eq_flatMap]
    exact Carries.flatMap fun src _ => carries_scriptTokens src
  exact (Carries.quiet (by decide) (by decide) .nil
    ((((((hcharset.append hviewport).append htitle).append hstyles).append hcode).append
      hscripts).newline_cons) rfl rfl).line

theorem pairs_map {as : List (String × String)} (h : ∀ a ∈ as, IsName a.1) :
    Pairs (as.map fun a => attr a.1 a.2) as := by
  induction as with
  | nil => exact .nil
  | cons a as ih =>
    exact .attr (h a List.mem_cons_self) a.2 (ih fun x hx => h x (List.mem_cons_of_mem _ hx))

theorem Shell.Legible.pairs_body {s : Shell} (h : s.Legible) :
    Pairs s.bodyAttributeList
      (s.bodyClass.toList.map (fun c => ("class", c)) ++ s.bodyAttributes) := by
  have hattributes := pairs_map h.bodyNames
  rw [Shell.bodyAttributeList]
  cases hclass : s.bodyClass with
  | none => exact hattributes
  | some c => exact .fixed (by decide) (h.bodyClass c hclass) hattributes

/-- A page has the parts of its frame and those of its body. -/
theorem parts?_document {s : Shell} (h : s.Legible) {body : List Token} {inner : List Part}
    (hbody : Carries body inner) : parts? (s.document body) = some (s.parts inner) := by
  have hscripts : Carries (s.scripts.flatMap scriptTokens) (s.scripts.map scriptPart) := by
    rw [List.map_eq_flatMap]
    exact Carries.flatMap fun src _ => carries_scriptTokens src
  have hbodyElement : Carries
      (line (element "body" s.bodyAttributeList
        (.newline :: body ++ s.scripts.flatMap scriptTokens)))
      ((if s.bodyPart.tells then [s.bodyPart] else []) ++ (inner ++ s.scripts.map scriptPart)) := by
    obtain ⟨ns, hns, hparts⟩ := (hbody.append hscripts).newline_cons
    refine Carries.line ⟨_, Spells.element (by decide) (by decide) h.pairs_body hns, ?_⟩
    rw [partsOf_element (by decide) ns rfl, hparts]
    rfl
  obtain ⟨ns, hns, hparts⟩ := ((carries_headTokens h).append hbodyElement).newline_cons
  have hpage := Spells.element (show IsName "html" by decide) (by decide)
    (Pairs.attr (show IsName "lang" by decide) s.language .nil) hns
  have hdoctype : Lays .html (line [.raw "<!DOCTYPE html>"]) [] :=
    Lays.declaration (by decide)
  have hroot : root? .html (s.document body) = some _ :=
    (hdoctype.append (Lays.of_element hpage).line).root?_eq
  have hinside : partsIn (.element "html" [("lang", s.language)] ns) = partsOf ns := rfl
  rw [parts?, hroot, Option.map_some, hinside, hparts, Shell.parts]
  simp only [List.append_assoc]

end Courseware.Page
