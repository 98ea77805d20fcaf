import Courseware.Proofs.Json.RoundTrip
import Courseware.Proofs.Page.Shape
import Courseware.Proofs.Text.Words

/-!
# What a block shows is read back

A block is read from the tree of its page: its identifier, its tag and its content with
all texts, each from its own place. Content that cannot be shown is read as the line
that stands in its place.
-/

namespace Courseware.Page

open Markup Markup.Html Markup.Node
open Markup.Reader (Lays Pairs Spells isName_ofList isPlainValue_ofList)

/-! ## Reading -/

/-- What a block shows: its content, or a line in its place. -/
inductive Shown
  | content (c : Content)
  | placeholder (text : String)

/-- The line in place of content that cannot be shown. -/
def placeholder? : Node → Option String :=
  inside? "p" [("class", "placeholder")] plain?

def paragraph? (n : Node) : Option Content :=
  (inside? "p" [] lines? n).map .paragraph

/-- The elements of headings, with their levels. -/
def headings : List (String × Nat) :=
  [("h1", 1), ("h2", 2), ("h3", 3), ("h4", 4), ("h5", 5), ("h6", 6)]

def heading? : Node → Option Content
  | .element name [] nodes => do
    let level ← headings.lookup name
    let s ← plain? nodes
    return .heading level s
  | _ => none

def caption? : List Node → Option (Option String) :=
  optional? (inside? "figcaption" [] plain?)

def image? : Node → Option Content :=
  inside? "figure" [] fun nodes => do
    match ← items? nodes with
    | .element "img" [("src", src), ("alt", alt), ("loading", "lazy")] [] :: rest =>
      let caption ← caption? rest
      return .image src alt caption
    | _ => none

/-- The attributes of a video that may be missing. -/
def videoExtras (title poster : Option String) : List (String × String) :=
  poster.toList.map (fun s => ("poster", s)) ++ title.toList.map fun s => ("title", s)

def video? : Node → Option Content :=
  inside? "figure" [] fun nodes => do
    match ← items? nodes with
    | .element "video" (("controls", "") :: ("preload", "metadata") :: ("src", src) :: extras)
        [link] :: rest =>
      let caption ← caption? rest
      let label ← inside? "a" [("href", src)] plain? link
      let title := extras.lookup "title"
      let poster := extras.lookup "poster"
      if label = "Download video" ∧ extras = videoExtras title poster then
        return .video src title caption poster
      else none
    | _ => none

def quote? : Node → Option Content :=
  inside? "blockquote" [] fun nodes => do
    match ← items? nodes with
    | body :: rest =>
      let s ← inside? "p" [] lines? body
      let citation ← optional? (inside? "cite" [] plain?) rest
      return .quote s citation
    | _ => none

def list? : Node → Option Content
  | .element name [] nodes => do
    let ordered ← [("ol", true), ("ul", false)].lookup name
    let items ← items? nodes
    let texts ← items.mapM (inside? "li" [] plain?)
    return .list ordered texts
  | _ => none

def divider? : Node → Option Content
  | .element "hr" [] [] => some .divider
  | _ => none

def section? : Node → Option Section :=
  inside? "details" [("class", "accordion-section")] fun nodes => do
    match ← items? nodes with
    | [title, body] =>
      let title ← inside? "summary" [] plain? title
      let content ← inside? "div" [("class", "accordion-body")] lines? body
      return ⟨title, content⟩
    | _ => none

def accordion? : Node → Option Content :=
  inside? "div" [("class", "accordion")] fun nodes => do
    let items ← items? nodes
    let sections ← items.mapM section?
    return .accordion sections

/-- The link to a panel: where it leads and what it says. -/
def tab? : Node → Option (String × String)
  | .element "a" [("class", "tab"), ("href", href)] nodes => (plain? nodes).map (href, ·)
  | _ => none

def panel? : Node → Option (String × Section)
  | .element "section" [("class", "tab-panel"), ("id", name)] nodes => do
    match ← items? nodes with
    | [title, body] =>
      let title ← inside? "h4" [("class", "tab-title")] plain? title
      let content ← inside? "div" [] lines? body
      return (name, ⟨title, content⟩)
    | _ => none
  | _ => none

/-- The panels of a block with the given identifier. They are named by their positions,
and there is one link to each, with its title. -/
def tabs? (id : String) : Node → Option Content :=
  inside? "div" [("class", "tabs")] fun nodes => do
    match ← items? nodes with
    | nav :: panels =>
      let links ← inside? "nav" [("class", "tab-list")]
        (fun nodes => do (← items? nodes).mapM tab?) nav
      let panels ← panels.mapM panel?
      if panels.map Prod.fst = panels.mapIdx (fun i _ => tabName id i) ∧
          links = panels.map (fun p => ("#" ++ p.1, p.2.title)) then
        return .tabs (panels.map Prod.snd)
      else none
    | _ => none

/-- The identifier in a call of a function, in front of more arguments. -/
def callId? (hook arguments code : String) : Option String := do
  let literal ← Text.between? (hook ++ "(") (", " ++ arguments ++ ")") code
  match Json.ofText literal with
  | .ok (.string s) => some s
  | _ => none

/-- A possible answer with its number. Its button calls the given function with the
identifier, the number and whether the answer is correct. -/
def choice? (hook id : String) : Node → Option (String × Choice) :=
  inside? "li" [] fun
    | [.element "button" [("type", "button"), ("class", "choice"),
        ("data-choice-index", index), ("onclick", code)] nodes] => do
      let s ← plain? nodes
      let correct := ", true, this)".toList.isSuffixOf code.toList
      if callId? hook (index ++ ", " ++ scriptBool correct ++ ", this") code = some id then
        return (index, ⟨s, correct⟩)
      else none
    | _ => none

/-- The explanation of an answer, behind the element that comments on it. -/
def explanation? : List Node → Option (Option String)
  | .element "div" [("class", "feedback"), ("aria-live", "polite"), ("hidden", "")] [] ::
      rest => optional? (inside? "div" [("class", "explanation"), ("hidden", "")] lines?) rest
  | _ => none

def truth? (value : String) : Option Bool :=
  [("true", true), ("false", false)].lookup value

def multipleChoice? (hook id : String) : Node → Option Content
  | .element "div" [("class", "question multiple-choice"), ("data-question-id", questionId),
      ("data-allow-multiple", multiple)] nodes => do
    match ← items? nodes with
    | question :: choices :: rest =>
      let question ← inside? "p" [("class", "question-text")] plain? question
      let choices ← inside? "ol" [("class", "choices")]
        (fun nodes => do (← items? nodes).mapM (choice? hook id)) choices
      let explanation ← explanation? rest
      let allowMultiple ← truth? multiple
      if questionId = id ∧ choices.map Prod.fst = choices.mapIdx (fun i _ => toString i) then
        return .multipleChoice ⟨question, choices.map Prod.snd, explanation, allowMultiple⟩
      else none
    | _ => none
  | _ => none

def answers? (value : String) : Option (List String) :=
  match Json.ofText value with
  | .ok (.array vs) => vs.mapM Json.string?
  | _ => none

/-- What the button of a question with a typed answer passes on beside the identifier. -/
def typedArguments : String :=
  "this.parentNode.querySelector('.blank-input').value, null, this"

def fillInBlank? (hook id : String) : Node → Option Content
  | .element "div" [("class", "question fill-in-blank"), ("data-question-id", questionId),
      ("data-answers", answers), ("data-case-sensitive", sensitive)] nodes => do
    match ← items? nodes with
    | .element "label" [] label :: .element "button" [("type", "button"),
        ("class", "check-answer"), ("onclick", code)] button :: rest =>
      match ← items? label with
      | [prompt, .element "input" [("type", "text"), ("class", "blank-input"),
          ("autocomplete", "off")] []] =>
        let prompt ← inside? "span" [("class", "question-text")] plain? prompt
        let answers ← answers? answers
        let caseSensitive ← truth? sensitive
        let explanation ← explanation? rest
        if questionId = id ∧ plain? button = some "Check answer" ∧
            callId? hook typedArguments code = some id then
          return .fillInBlank ⟨prompt, answers, caseSensitive, explanation⟩
        else none
      | _ => none
    | _ => none
  | _ => none

/-- What is read from an element, or from the line in its place. -/
def orPlaceholder (read : Node → Option Content) (n : Node) : Option Shown :=
  ((read n).map .content).or ((placeholder? n).map .placeholder)

/-- What a block of the given kind shows. -/
def shown? (hook id kind : String) (n : Node) : Option Shown :=
  match kind with
  | "paragraph" => (paragraph? n).map .content
  | "heading" => (heading? n).map .content
  | "image" => orPlaceholder image? n
  | "video" => orPlaceholder video? n
  | "quote" => (quote? n).map .content
  | "list" => (list? n).map .content
  | "divider" => (divider? n).map .content
  | "accordion" => (accordion? n).map .content
  | "tabs" => (tabs? id n).map .content
  | "multiple-choice-question" => (multipleChoice? hook id n).map .content
  | "fill-in-blank-question" => (fillInBlank? hook id n).map .content
  | "unknown" => (placeholder? n).map .placeholder
  | _ => none

/-- A block as a reader of its page sees it. -/
structure ShownBlock where
  id : String
  tag : String
  shown : Shown

/-- Reads a block from its container. -/
def ShownBlock.of? (format : Format) : Node → Option ShownBlock
  | .element "div" [("class", kind), ("data-block-id", id), ("data-block-type", tag)]
      nodes => do
    let kind ← Text.between? "block block-" "" kind
    match ← items? nodes with
    | [n] =>
      let shown ← shown? format.answerHook id kind n
      if kind = "unknown" ∨ kind = tag then return ⟨id, tag, shown⟩ else none
    | _ => none
  | _ => none

/-! ## What is to be read -/

/-- What some content shows: the content itself with the level of a heading between one
and six, or a line where there is no address or no known meaning. -/
def shown : Content → Shown
  | .heading level s => .content (.heading (max 1 (min level 6)) s)
  | .image src alt caption =>
    if Text.blank src then .placeholder "[image unavailable]"
    else .content (.image src alt caption)
  | .video src title caption poster =>
    if Text.blank src then .placeholder "[video unavailable]"
    else .content (.video src title caption poster)
  | .unknown tag _ => .placeholder ("[" ++ tag ++ " content]")
  | c => .content c

end Courseware.Page
