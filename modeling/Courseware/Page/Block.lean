import Courseware.Course.Block
import Courseware.Format
import Courseware.Markup.Html

/-!
Blocks as HTML. Each block stands in a container that names its identifier and its tag. Questions call
the function that the package format provides for answers; all else is the same in every format.
-/

namespace Courseware.Page

open Markup Markup.Html

/-- A line in place of content that cannot be shown. -/
def placeholder (s : String) : List Token :=
  element "p" [fixed "class" "placeholder"] [text s]

def elementLine (name : String) (attributes : List Attribute) (content : List Token) :
    List Token :=
  line (element name attributes content)

def figcaption (caption : Option String) : List Token :=
  whenSome caption fun s => elementLine "figcaption" [] [text s]

/-- An image in a figure; one without address cannot be shown. -/
def image (src alt : String) (caption : Option String) : List Token :=
  if Text.blank src then placeholder "[image unavailable]"
  else
    element "figure" [] <|
      .newline ::
        line [.start "img" [attr "src" src, attr "alt" alt, fixed "loading" "lazy"]] ++
        figcaption caption

/-- A video in a figure; one without address cannot be shown. -/
def video (src : String) (title caption poster : Option String) : List Token :=
  if Text.blank src then placeholder "[video unavailable]"
  else
    element "figure" [] <|
      .newline ::
        elementLine "video"
          ([.flag "controls", fixed "preload" "metadata", attr "src" src] ++
            whenSome poster (fun s => [attr "poster" s]) ++
            whenSome title (fun s => [attr "title" s]))
          (element "a" [attr "href" src] [text "Download video"]) ++
        figcaption caption

def quote (s : String) (citation : Option String) : List Token :=
  element "blockquote" [] <|
    .newline :: elementLine "p" [] (multiline s) ++
      whenSome citation fun c => elementLine "cite" [] [text c]

def list (ordered : Bool) (items : List String) : List Token :=
  element (if ordered then "ol" else "ul") [] <|
    .newline :: items.flatMap fun item => indented 1 (element "li" [] [text item])

/-- Panels that open and close. -/
def accordion (sections : List Section) : List Token :=
  element "div" [fixed "class" "accordion"] <|
    .newline :: sections.flatMap fun s =>
      elementLine "details" [fixed "class" "accordion-section"] <|
        .newline :: elementLine "summary" [] [text s.title] ++
          elementLine "div" [fixed "class" "accordion-body"] (multiline s.content)

/-- The name that a panel in a set of tabs is linked by. -/
def tabName (id : String) (index : Nat) : String :=
  id ++ "-tab-" ++ toString index

/-- Panels of which one is shown at a time. They need no script, since their links say which. -/
def tabs (id : String) (panels : List Section) : List Token :=
  element "div" [fixed "class" "tabs"] <|
    .newline ::
      elementLine "nav" [fixed "class" "tab-list"]
        (.newline :: (panels.mapIdx fun i panel =>
          indented 1 (element "a"
            [fixed "class" "tab", attr "href" ("#" ++ tabName id i)] [text panel.title])).flatten) ++
      (panels.mapIdx fun i panel =>
        elementLine "section" [fixed "class" "tab-panel", attr "id" (tabName id i)] <|
          .newline :: elementLine "h4" [fixed "class" "tab-title"] [text panel.title] ++
            elementLine "div" [] (multiline panel.content)).flatten

/-- Where the answer to a question is commented on. -/
def feedback (explanation : Option String) : List Token :=
  elementLine "div" [fixed "class" "feedback", fixed "aria-live" "polite", .flag "hidden"] [] ++
    whenSome explanation fun s =>
      elementLine "div" [fixed "class" "explanation", .flag "hidden"] (multiline s)

def scriptBool (b : Bool) : String := if b then "true" else "false"

/-- A multiple-choice question, whose buttons report the answer. -/
def multipleChoice (hook id : String) (q : MultipleChoice) : List Token :=
  element "div"
    [fixed "class" "question multiple-choice", attr "data-question-id" id,
      truth "data-allow-multiple" q.allowMultiple] <|
    .newline ::
      elementLine "p" [fixed "class" "question-text"] [text q.question] ++
      elementLine "ol" [fixed "class" "choices"]
        (.newline :: (q.choices.mapIdx fun i choice =>
          indented 1 (element "li" [] (element "button"
            [fixed "type" "button", fixed "class" "choice",
              fixed "data-choice-index" (toString i),
              attr "onclick" (hook ++ "(" ++ Json.quote id ++ ", " ++ toString i ++ ", " ++
                scriptBool choice.correct ++ ", this)")]
            [text choice.text]))).flatten) ++
      feedback q.explanation

/-- A question whose answer is typed; its button reports the answer. -/
def fillInBlank (hook id : String) (q : FillInBlank) : List Token :=
  element "div"
    [fixed "class" "question fill-in-blank", attr "data-question-id" id,
      attr "data-answers" (Json.strings q.answers).compact,
      truth "data-case-sensitive" q.caseSensitive] <|
    .newline ::
      elementLine "label" []
        (element "span" [fixed "class" "question-text"] [text q.prompt] ++
          [.newline, .start "input"
            [fixed "type" "text", fixed "class" "blank-input", fixed "autocomplete" "off"]]) ++
      elementLine "button"
        [fixed "type" "button", fixed "class" "check-answer",
          fixed "onclick" (hook ++ "(" ++ Text.Dialect.html.escape (Json.quote id) ++
            ", this.parentNode.querySelector('.blank-input').value, null, this)")]
        [text "Check answer"] ++
      feedback q.explanation

def content (format : Format) (id : String) : Content → List Token
  | .paragraph s => element "p" [] (multiline s)
  | .heading level s => element ("h" ++ toString (max 1 (min level 6))) [] [text s]
  | .image src alt caption => image src alt caption
  | .video src title caption poster => video src title caption poster
  | .quote s citation => quote s citation
  | .list ordered items => list ordered items
  | .divider => [.start "hr" []]
  | .accordion sections => accordion sections
  | .tabs panels => tabs id panels
  | .multipleChoice q => multipleChoice format.answerHook id q
  | .fillInBlank q => fillInBlank format.answerHook id q
  | .unknown tag _ => placeholder ("[" ++ tag ++ " content]")

/-- What the class of a container says about its content. -/
def contentClass : Content → String
  | .unknown _ _ => "unknown"
  | c => c.tag

def block (format : Format) (b : Block) : List Token :=
  element "div"
    [attr "class" ("block block-" ++ contentClass b.content), attr "data-block-id" b.id,
      attr "data-block-type" b.tag] <|
    .newline :: content format b.id b.content ++ [.newline]

/-- Blocks in the given order, on lines of their own. -/
def blocks (format : Format) : List Block → List Token
  | [] => []
  | [b] => block format b
  | b :: bs => block format b ++ .newline :: blocks format bs

end Courseware.Page
