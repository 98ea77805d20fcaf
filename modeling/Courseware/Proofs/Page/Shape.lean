import Courseware.Page.Block
import Courseware.Proofs.Markup.Html

/-!
# The shape of a block

Which tags a block is written with depends on its shape alone: on the kind of its
content, the number of its parts, the optional parts that are there and the number of
line breaks in texts of several lines. The tags of every shape nest.
-/

namespace Courseware.Page

open Markup

/-- What the tags of a block depend on. -/
inductive Shape
  | paragraph (breaks : Nat)
  | heading (level : Nat)
  | image (caption : Bool)
  | video (title caption poster : Bool)
  | quote (breaks : Nat) (citation : Bool)
  | list (ordered : Bool) (items : Nat)
  | divider
  /-- The line breaks in each panel. -/
  | accordion (breaks : List Nat)
  | tabs (breaks : List Nat)
  /-- The line breaks in the explanation, when there is one. -/
  | multipleChoice (choices : Nat) (explanation : Option Nat)
  | fillInBlank (explanation : Option Nat)
  /-- A line in place of content that cannot be shown. -/
  | placeholder
  deriving DecidableEq, Repr

/-- The number of line breaks in a text. -/
def breaks (s : String) : Nat := s.toList.count '\n'

/-- The shape of some content. -/
def shape : Content → Shape
  | .paragraph s => .paragraph (breaks s)
  | .heading level _ => .heading (max 1 (min level 6))
  | .image src _ caption => if Text.blank src then .placeholder else .image caption.isSome
  | .video src title caption poster =>
    if Text.blank src then .placeholder
    else .video title.isSome caption.isSome poster.isSome
  | .quote s citation => .quote (breaks s) citation.isSome
  | .list ordered items => .list ordered items.length
  | .divider => .divider
  | .accordion sections => .accordion (sections.map fun s => breaks s.content)
  | .tabs panels => .tabs (panels.map fun s => breaks s.content)
  | .multipleChoice q => .multipleChoice q.choices.length (q.explanation.map breaks)
  | .fillInBlank q => .fillInBlank (q.explanation.map breaks)
  | .unknown _ _ => .placeholder

namespace Shape

open Markup.Mark (around Nests)

/-! ## Tags -/

def breakMarks (n : Nat) : List Mark :=
  List.replicate n (.start "br" [])

/-- Tags that are there only sometimes. -/
def marksIf (b : Bool) (ms : List Mark) : List Mark :=
  if b then ms else []

/-- The tags of a panel that opens and closes. -/
def sectionMarks (breaks : Nat) : List Mark :=
  around "details" ["class"]
    (around "summary" [] [] ++ around "div" ["class"] (breakMarks breaks))

/-- The tags of the link to a panel. -/
def tabMarks : List Mark :=
  around "a" ["class", "href"] []

/-- The tags of a panel in a set of tabs. -/
def panelMarks (breaks : Nat) : List Mark :=
  around "section" ["class", "id"]
    (around "h4" ["class"] [] ++ around "div" [] (breakMarks breaks))

/-- The tags of a possible answer. -/
def choiceMarks : List Mark :=
  around "li" [] (around "button" ["type", "class", "data-choice-index", "onclick"] [])

/-- The tags of what comments on an answer. -/
def feedbackMarks (explanation : Option Nat) : List Mark :=
  around "div" ["class", "aria-live", "hidden"] [] ++
    explanation.toList.flatMap fun n => around "div" ["class", "hidden"] (breakMarks n)

def contentMarks : Shape → List Mark
  | paragraph n => around "p" [] (breakMarks n)
  | heading level => around ("h" ++ toString level) [] []
  | image caption =>
    around "figure" []
      (.start "img" ["src", "alt", "loading"] :: marksIf caption (around "figcaption" [] []))
  | video title caption poster =>
    around "figure" []
      (around "video"
        (["controls", "preload", "src"] ++ (if poster then ["poster"] else []) ++
          if title then ["title"] else [])
        (around "a" ["href"] []) ++
      marksIf caption (around "figcaption" [] []))
  | quote n citation =>
    around "blockquote" []
      (around "p" [] (breakMarks n) ++ marksIf citation (around "cite" [] []))
  | list ordered n =>
    around (if ordered then "ol" else "ul") []
      ((List.replicate n ()).flatMap fun _ => around "li" [] [])
  | divider => [.start "hr" []]
  | accordion breaks => around "div" ["class"] (breaks.flatMap sectionMarks)
  | tabs breaks =>
    around "div" ["class"]
      (around "nav" ["class"] (breaks.flatMap fun _ => tabMarks) ++ breaks.flatMap panelMarks)
  | multipleChoice n explanation =>
    around "div" ["class", "data-question-id", "data-allow-multiple"]
      (around "p" ["class"] [] ++
        around "ol" ["class"] ((List.replicate n ()).flatMap fun _ => choiceMarks) ++
        feedbackMarks explanation)
  | fillInBlank explanation =>
    around "div" ["class", "data-question-id", "data-answers", "data-case-sensitive"]
      (around "label" []
          (around "span" ["class"] [] ++ [.start "input" ["type", "class", "autocomplete"]]) ++
        around "button" ["type", "class", "onclick"] [] ++
        feedbackMarks explanation)
  | placeholder => around "p" ["class"] []

def marks (s : Shape) : List Mark :=
  around "div" ["class", "data-block-id", "data-block-type"] s.contentMarks

/-! ## Nesting -/

/-- The elements of blocks that have no end tag. -/
def alone : List String := ["hr", "br", "img", "input"]

theorem nests_breakMarks (n : Nat) : Nests alone (breakMarks n) :=
  (Nests.single (by decide) []).replicate n

theorem nests_marksIf {ms : List Mark} (h : Nests alone ms) (b : Bool) :
    Nests alone (marksIf b ms) := by
  cases b with
  | true => exact h
  | false => exact Nests.nil

theorem nests_leaf {name : String} (h : name ∉ alone) (attributes : List String) :
    Nests alone (around name attributes []) :=
  Nests.nil.around h attributes

theorem nests_sectionMarks (n : Nat) : Nests alone (sectionMarks n) :=
  ((nests_leaf (by decide) _).append ((nests_breakMarks n).around (by decide) _)).around
    (by decide) _

theorem nests_panelMarks (n : Nat) : Nests alone (panelMarks n) :=
  ((nests_leaf (by decide) _).append ((nests_breakMarks n).around (by decide) _)).around
    (by decide) _

theorem nests_feedbackMarks (explanation : Option Nat) :
    Nests alone (feedbackMarks explanation) :=
  (nests_leaf (by decide) _).append
    (Nests.flatMap fun n _ => (nests_breakMarks n).around (by decide) _)

/-- The elements of headings have end tags. -/
theorem heading_not_mem_alone (level : Nat) : "h" ++ toString level ∉ alone := by
  intro hmem
  have hfirst : ∀ name ∈ alone, name.toList.head? = some 'h' → name = "hr" := by decide
  have heq : "h" ++ toString level = "hr" := hfirst _ hmem (by simp)
  have hdigits : Nat.toDigits 10 level = ['r'] := by
    have hlist := congrArg String.toList heq
    simpa using hlist
  have hdigit : 'r' ∈ Nat.toDigits 10 level := by simp [hdigits]
  have hr := Nat.isDigit_of_mem_toDigits (by decide) (by decide) hdigit
  exact absurd hr (by decide)

theorem nests_contentMarks (s : Shape) : Nests alone s.contentMarks := by
  cases s with
  | paragraph n => exact (nests_breakMarks n).around (by decide) _
  | heading level => exact nests_leaf (heading_not_mem_alone level) _
  | image caption =>
    have himg : Nests alone [.start "img" ["src", "alt", "loading"]] :=
      Nests.single (by decide) _
    exact (himg.append (nests_marksIf (nests_leaf (by decide) _) caption)).around (by decide) _
  | video title caption poster =>
    exact (((nests_leaf (by decide) _).around (by decide) _).append
      (nests_marksIf (nests_leaf (by decide) _) caption)).around (by decide) _
  | quote n citation =>
    exact (((nests_breakMarks n).around (by decide) _).append
      (nests_marksIf (nests_leaf (by decide) _) citation)).around (by decide) _
  | list ordered n =>
    refine Nests.around ?_ _ (Nests.flatMap fun _ _ => nests_leaf (by decide) _)
    cases ordered <;> decide
  | divider => exact Nests.single (by decide) _
  | accordion breaks =>
    exact (Nests.flatMap fun n _ => nests_sectionMarks n).around (by decide) _
  | tabs breaks =>
    exact (((Nests.flatMap fun _ _ => nests_leaf (by decide) _).around (by decide) _).append
      (Nests.flatMap fun n _ => nests_panelMarks n)).around (by decide) _
  | multipleChoice n explanation =>
    have hchoices : Nests alone ((List.replicate n ()).flatMap fun _ => choiceMarks) :=
      Nests.flatMap fun _ _ => (nests_leaf (by decide) _).around (by decide) _
    exact (((nests_leaf (by decide) _).append (hchoices.around (by decide) _)).append
      (nests_feedbackMarks explanation)).around (by decide) _
  | fillInBlank explanation =>
    exact (((((nests_leaf (by decide) _).append (Nests.single (by decide) _)).around
      (by decide) _).append (nests_leaf (by decide) _)).append
        (nests_feedbackMarks explanation)).around (by decide) _
  | placeholder => exact nests_leaf (by decide) _

/-- The tags of every shape nest. -/
theorem nested_marks (s : Shape) : Mark.nested alone [] s.marks = true :=
  ((nests_contentMarks s).around (by decide) _).nested_eq_true

end Shape

end Courseware.Page
