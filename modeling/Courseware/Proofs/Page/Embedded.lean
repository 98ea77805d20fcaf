import Courseware.Page.Lesson
import Courseware.Page.Shell
import Courseware.Proofs.Markup.Written
import Courseware.Proofs.Page.Faithful
import Courseware.Proofs.Script.Data

/-!
# Values that questions embed

A question tells the scripts of its page what they need in attributes: the calls that its
buttons make and the answers that count. What is found there, as it is written, is decoded
and read as the values that were put in.
-/

namespace Courseware.Page

open Markup Markup.Html
open Markup.Reader (IsPlainValue)
open Text (Dialect)
open Script (value? value?_append dropPrefix?_append)

/-! ## Calls -/

/-- The first argument in the call of a function, which is a value in JSON, and what stands
behind it. -/
def firstArgument? (function code : String) : Option (Json × String) := do
  let cs ← code.toList.dropPrefix? (function ++ "(").toList
  let (v, rest) ← value? cs
  return (v, String.ofList rest)

/-- A string that a call begins with is its first argument. -/
theorem firstArgument?_quote (function s : String) {rest : String}
    (h : Json.Ends rest.toList) :
    firstArgument? function (function ++ "(" ++ Json.quote s ++ rest) =
      some (.string s, rest) := by
  have hvalue := value?_append (v := .string s) (Json.reads_string (Json.spellsString_quote s))
    (Nat.zero_le _) h
  have hsplit : (function ++ "(" ++ Json.quote s ++ rest).toList =
      (function ++ "(").toList ++ ((Json.quote s).toList ++ rest.toList) := by
    rw [String.toList_append, String.toList_append, List.append_assoc]
  rw [firstArgument?, hsplit, dropPrefix?_append, Option.bind_eq_bind, Option.bind_some, hvalue]
  exact congrArg (fun after => some (Json.string s, after)) String.ofList_toList

theorem firstArgument?_answerCall (hook id arguments : String) :
    firstArgument? hook (answerCall hook id arguments) =
      some (.string id, ", " ++ arguments ++ ")") := by
  refine firstArgument?_quote hook id ?_
  have hcomma : (", " ++ arguments ++ ")").toList = ',' :: (" " ++ arguments ++ ")").toList := by
    simp
  rw [hcomma]
  exact Json.ends_cons (by decide) _

/-! ## Attributes -/

/-- Whether a value is written in an attribute without quotes and brackets, and is read from it
when its entities are decoded. -/
structure Embeds {α : Type} (read : String → Option α) (a : α) (written : String) : Prop where
  plain : ∀ c ∈ written.toList, c ≠ '"' ∧ c ≠ '<' ∧ c ≠ '>'
  decoded : read (Dialect.html.unescape written) = some a

theorem plain_escape (s : String) :
    ∀ c ∈ (Dialect.html.escape s).toList, c ≠ '"' ∧ c ≠ '<' ∧ c ≠ '>' := by
  intro c hc
  refine ⟨?_, ?_, ?_⟩ <;> rintro rfl <;> exact Dialect.not_mem_escape (by decide) s hc

/-- What is read from a text is embedded by escaping the text. -/
theorem embeds_escape {α : Type} {read : String → Option α} {a : α} {s : String}
    (h : read s = some a) : Embeds read a (Dialect.html.escape s) :=
  ⟨plain_escape s, by rw [Dialect.unescape_escape, h]⟩

/-- What stands around an escaped part may be written as it is. -/
theorem embeds_between {α : Type} {read : String → Option α} {a : α} {before s after : String}
    (hbefore : ∀ c ∈ before.toList, ¬ Dialect.IsSpecial c)
    (hafter : ∀ c ∈ after.toList, c ≠ '"' ∧ c ≠ '<' ∧ c ≠ '>' ∧ c ≠ '&')
    (h : read (before ++ s ++ after) = some a) :
    Embeds read a (before ++ Dialect.html.escape s ++ after) := by
  have hescape : before ++ Dialect.html.escape s = Dialect.html.escape (before ++ s) := by
    have hself : Dialect.html.escape before = before := by
      rw [Dialect.escape, Dialect.escapeList_eq_self hbefore, String.ofList_toList]
    rw [Dialect.escape_append, hself]
  have hself : Dialect.html.unescape after = after := by
    rw [Dialect.unescape, Dialect.unescapeList_eq_self fun c hc => (hafter c hc).2.2.2,
      String.ofList_toList]
  refine ⟨?_, ?_⟩
  · intro c hc
    rw [hescape, String.toList_append] at hc
    rcases List.mem_append.mp hc with hc | hc
    · exact plain_escape _ c hc
    · obtain ⟨hquote, hless, hgreater, -⟩ := hafter c hc
      exact ⟨hquote, hless, hgreater⟩
  · rw [hescape, Dialect.unescape_append_of_escape, hself, h]

/-! ## Questions -/

theorem tidyAttributes_class {written : String} (h : '"' ∉ written.toList) :
    TidyAttributes [fixed "class" written] :=
  .fixed (by decide) h .nil

theorem tidy_elementLine {name : String} (hname : '"' ∉ name.toList)
    {attributes : List Attribute} (h : TidyAttributes attributes) {tokens : List Token}
    (hcontent : Tidy tokens) : Tidy (elementLine name attributes tokens) :=
  (Tidy.ofElement hname h hcontent).line

theorem quote_not_mem_of_isPlainValue {s : String} (h : IsPlainValue s) : '"' ∉ s.toList :=
  fun hmem => (h _ hmem).1 rfl

theorem tidy_feedback (explanation : Option String) : Tidy (feedback explanation) := by
  have hhidden : TidyAttributes [.flag "hidden"] := .flag (by decide) .nil
  have hplace : Tidy (elementLine "div"
      [fixed "class" "feedback", fixed "aria-live" "polite", .flag "hidden"] []) :=
    tidy_elementLine (by decide)
      (.fixed (by decide) (by decide) (.fixed (by decide) (by decide) hhidden)) .nil
  have hexplanation (s : String) : Tidy
      (elementLine "div" [fixed "class" "explanation", .flag "hidden"] (multiline s)) :=
    tidy_elementLine (by decide) (.fixed (by decide) (by decide) hhidden) (.multiline s)
  exact hplace.append (.whenSome hexplanation explanation)

theorem tidy_multipleChoice (hook id : String) (q : MultipleChoice) :
    Tidy (multipleChoice hook id q) := by
  have hquestion : Tidy (elementLine "p" [fixed "class" "question-text"] [Html.text q.question]) :=
    tidy_elementLine (by decide) (tidyAttributes_class (by decide)) (.text q.question)
  have hbutton (i : Nat) (code : String) : TidyAttributes
      [fixed "type" "button", fixed "class" "choice", fixed "data-choice-index" (toString i),
        attr "onclick" code] :=
    .fixed (by decide) (by decide) <| .fixed (by decide) (by decide) <|
      .fixed (by decide) (quote_not_mem_of_isPlainValue (isPlainValue_toString i)) <|
      .attr (by decide) code .nil
  have hchoice (i : Nat) (choice : Choice) : Tidy (indented 1 (Markup.element "li" []
      (Markup.element "button"
        [fixed "type" "button", fixed "class" "choice", fixed "data-choice-index" (toString i),
          attr "onclick" (hook ++ "(" ++ Json.quote id ++ ", " ++ toString i ++ ", " ++
            scriptBool choice.correct ++ ", this)")]
        [Html.text choice.text]))) :=
    (Tidy.ofElement (by decide) .nil
      (.ofElement (by decide) (hbutton i _) (.text choice.text))).indented 1
  have hchoices := tidy_elementLine (show '"' ∉ "ol".toList by decide)
    (tidyAttributes_class (show '"' ∉ "choices".toList by decide))
    (Tidy.mapIdx hchoice q.choices).newline_cons
  have hcontainer : TidyAttributes [fixed "class" "question multiple-choice",
      attr "data-question-id" id, truth "data-allow-multiple" q.allowMultiple] :=
    .fixed (by decide) (by decide) (.attr (by decide) id (.truth (by decide) _ .nil))
  exact Tidy.ofElement (by decide) hcontainer
    ((hquestion.append hchoices).append (tidy_feedback q.explanation)).newline_cons

theorem tidy_fillInBlank {hook : String} (hhook : '"' ∉ hook.toList) (id : String)
    (q : FillInBlank) : Tidy (fillInBlank hook id q) := by
  have hprompt : Tidy (Markup.element "span" [fixed "class" "question-text"]
      [Html.text q.prompt]) :=
    Tidy.ofElement (by decide) (tidyAttributes_class (by decide)) (.text q.prompt)
  have hinput : Tidy [.start "input"
      [fixed "type" "text", fixed "class" "blank-input", fixed "autocomplete" "off"]] :=
    .start (by decide) <| .fixed (by decide) (by decide) <| .fixed (by decide) (by decide) <|
      .fixed (by decide) (by decide) .nil
  have hlabel := tidy_elementLine (show '"' ∉ "label".toList by decide) .nil
    (hprompt.append hinput.newline_cons)
  have hcall : '"' ∉ (hook ++ "(" ++ Dialect.html.escape (Json.quote id) ++
      ", this.parentNode.querySelector('.blank-input').value, null, this)").toList := by
    have hescape : '"' ∉ (Dialect.html.escape (Json.quote id)).toList :=
      Dialect.not_mem_escape (by decide) _
    simp [hhook, hescape]
  have hbutton : TidyAttributes
      [fixed "type" "button", fixed "class" "check-answer",
        fixed "onclick" (hook ++ "(" ++ Dialect.html.escape (Json.quote id) ++
          ", this.parentNode.querySelector('.blank-input').value, null, this)")] :=
    .fixed (by decide) (by decide) <| .fixed (by decide) (by decide) <|
      .fixed (by decide) hcall .nil
  have hcheck := tidy_elementLine (show '"' ∉ "button".toList by decide) hbutton
    (Tidy.text "Check answer")
  have hcontainer : TidyAttributes [fixed "class" "question fill-in-blank",
      attr "data-question-id" id, attr "data-answers" (Json.strings q.answers).compact,
      truth "data-case-sensitive" q.caseSensitive] :=
    .fixed (by decide) (by decide) <| .attr (by decide) id <| .attr (by decide) _ <|
      .truth (by decide) _ .nil
  exact Tidy.ofElement (by decide) hcontainer
    ((hlabel.append hcheck).append (tidy_feedback q.explanation)).newline_cons

section Blocks

variable (format : Format) (b : Block)

theorem tidy_block (hcontent : Tidy (content format b.id b.content)) :
    Tidy (block format b) :=
  Tidy.ofElement (by decide)
    (.attr (by decide) _ <| .attr (by decide) _ <| .attr (by decide) _ .nil) <|
    (Tidy.newline_cons hcontent).append Tidy.newline

theorem valuesOf_block {name : String}
    (hname : name ∉ ["class", "data-block-id", "data-block-type"]) :
    valuesOf name (block format b) = valuesOf name (content format b.id b.content) := by
  simp only [List.mem_cons, not_or, List.not_mem_nil, not_false_eq_true, and_true] at hname
  obtain ⟨hclass, hid, htype⟩ := hname
  simp [block, Ne.symm hclass, Ne.symm hid, Ne.symm htype]

theorem valuesOf_feedback {name : String} (hname : name ∉ ["class", "aria-live"])
    (explanation : Option String) : valuesOf name (feedback explanation) = [] := by
  simp only [List.mem_cons, not_or, List.not_mem_nil, not_false_eq_true, and_true] at hname
  obtain ⟨hclass, hlive⟩ := hname
  cases explanation <;> simp [feedback, elementLine, whenSome, Ne.symm hclass, Ne.symm hlive]

theorem valuesOf_multipleChoice (hook id : String) (q : MultipleChoice) :
    valuesOf "onclick" (multipleChoice hook id q) = q.choices.mapIdx fun i choice =>
      Dialect.html.escape (answerCall hook id (choiceArguments i choice.correct)) := by
  have hfeedback : valuesOf "onclick" (feedback q.explanation) = [] :=
    valuesOf_feedback (by decide) q.explanation
  simp only [multipleChoice, elementLine, valuesOf_element, valuesOf_newline_cons,
    valuesOf_append, valuesOf_line, hfeedback]
  refine (List.append_nil _).trans (valuesOf_mapIdx (fun i choice => ?_) q.choices)
  rw [choiceCall_eq]
  simp

theorem valuesOf_fillInBlank (hook id : String) (q : FillInBlank) :
    valuesOf "onclick" (fillInBlank hook id q) =
      [hook ++ "(" ++ Dialect.html.escape (Json.quote id) ++ (", " ++ typedArguments ++ ")")] ∧
    valuesOf "data-answers" (fillInBlank hook id q) =
      [Dialect.html.escape (Json.strings q.answers).compact] := by
  have hfeedback (name : String) (hname : name ∉ ["class", "aria-live"]) :=
    valuesOf_feedback hname q.explanation
  simp [fillInBlank, elementLine, hfeedback, typedArguments]

/-- The buttons of a multiple-choice question, in order, pass on the identifier of its block. -/
theorem embeds_choices (q : MultipleChoice) :
    List.Forall₂
      (fun (choice : Nat × Choice) written =>
        Embeds (firstArgument? format.answerHook)
          (.string b.id, ", " ++ choiceArguments choice.1 choice.2.correct ++ ")") written)
      (q.choices.mapIdx Prod.mk)
      (writtenValues "onclick"
        (render (block format { b with content := .multipleChoice q })).toList) := by
  have hvalues := writtenValues_render (show ' ' ∉ "onclick".toList by decide)
    (tidy_block format { b with content := .multipleChoice q }
      (tidy_multipleChoice format.answerHook b.id q))
  rw [hvalues, valuesOf_block format _ (by decide), content, valuesOf_multipleChoice,
    List.mapIdx_eq_zipIdx_map, List.mapIdx_eq_zipIdx_map, List.forall₂_map_left_iff,
    List.forall₂_map_right_iff, List.forall₂_same]
  exact fun choice _ => embeds_escape (firstArgument?_answerCall ..)

theorem writtenValues_fillInBlank {name : String} (hblank : ' ' ∉ name.toList)
    (hname : name ∉ ["class", "data-block-id", "data-block-type"]) (q : FillInBlank) :
    writtenValues name (render (block format { b with content := .fillInBlank q })).toList =
      valuesOf name (fillInBlank format.answerHook b.id q) := by
  have hhook := quote_not_mem_of_isPlainValue (isPlainValue_answerHook format)
  rw [writtenValues_render hblank (tidy_block format { b with content := .fillInBlank q }
    (tidy_fillInBlank hhook b.id q)), valuesOf_block format _ hname, content]

/-- The button of a question with a typed answer passes on the identifier of its block. -/
theorem embeds_typed (q : FillInBlank) :
    ∃ code, writtenValues "onclick"
        (render (block format { b with content := .fillInBlank q })).toList = [code] ∧
      Embeds (firstArgument? format.answerHook)
        (.string b.id, ", " ++ typedArguments ++ ")") code := by
  rw [writtenValues_fillInBlank format b (by decide) (by decide), (valuesOf_fillInBlank ..).1]
  refine ⟨_, rfl, embeds_between ?_ (by decide) (firstArgument?_answerCall ..)⟩
  rcases format with ⟨_ | _⟩ | _ | _ | _ <;> decide

/-- The answers to a question with a typed answer are embedded. -/
theorem embeds_answers (q : FillInBlank) :
    ∃ answers, writtenValues "data-answers"
        (render (block format { b with content := .fillInBlank q })).toList = [answers] ∧
      Embeds answers? q.answers answers := by
  rw [writtenValues_fillInBlank format b (by decide) (by decide), (valuesOf_fillInBlank ..).2]
  exact ⟨_, rfl, embeds_escape (answers?_compact q.answers)⟩

end Blocks

/-! ## Pages -/

theorem toList_render_infix {ts us : List Token} (h : ts <:+: us) :
    (render ts).toList <:+: (render us).toList := by
  obtain ⟨before, after, rfl⟩ := h
  exact ⟨(render before).toList, (render after).toList, by simp [render]⟩

/-- What stands in the body stands in the page. -/
theorem infix_document (s : Shell) {ts body : List Token} (h : ts <:+: body) :
    (render ts).toList <:+: (s.document body).toList := by
  have hbody : body <:+: s.tokens body := by
    refine ⟨line [.raw "<!DOCTYPE html>"] ++
        .start "html" [attr "lang" s.language] :: .newline :: (s.headTokens ++
          .start "body" s.bodyAttributeList :: [.newline]),
      s.scripts.flatMap scriptTokens ++ [.stop "body", .newline, .stop "html", .newline], ?_⟩
    simp [Shell.tokens, line, element]
  exact toList_render_infix (h.trans hbody)

theorem block_infix_blocks (format : Format) {b : Block} {bs : List Block} (h : b ∈ bs) :
    block format b <:+: blocks format bs := by
  induction bs using blocks.induct with
  | case1 => cases h
  | case2 c =>
    obtain rfl := List.mem_singleton.mp h
    exact List.infix_refl _
  | case3 c cs hne ih =>
    rw [blocks]
    · rcases List.mem_cons.mp h with rfl | hb
      · exact (List.prefix_append _ _).isInfix
      · exact (ih hb).trans ((List.suffix_cons _ _).trans (List.suffix_append _ _)).isInfix
    · exact hne

theorem block_infix_lessonBody (format : Format) {l : PlannedLesson} {b : Block}
    (h : b ∈ l.blocks) : block format b <:+: lessonBody format l := by
  refine (block_infix_blocks format h).trans
    ⟨lessonHeader l ++ [.start "main" [fixed "class" "lesson-content",
      attr "id" ("lesson-" ++ l.segment)], .newline],
      .newline :: (resourceList l.resources ++ [.stop "main", .newline]), ?_⟩
  simp [lessonBody, elementLine, line, element]

end Courseware.Page
