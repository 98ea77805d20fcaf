import Courseware.Proofs.Page.Anchors
import Courseware.Proofs.Page.Links

/-!
# What stands around a lesson

All pages of lessons have a head, the titles of the lesson, and behind the lesson scripts and the
links to its neighbours. No element of this frame has a name, and none is a section or a tab. What
a reader looks for among these is found in the lesson itself.
-/

namespace Courseware.Page

open Markup Markup.Html Markup.Node
open Markup.Reader (Lays Pairs Spells IsName voidElements IsContainer)

/-! ## Reading past frames -/

/-- Whether an element with a tag can stand in a frame. -/
def isFrameTag (name : String) (pairs : List (String × String)) : Bool :=
  isQuietTag name pairs && name != "section"

/-- Whether a node is no element with another tag. -/
def isFrame : Node → Bool
  | .character _ => true
  | .element name pairs _ => isFrameTag name pairs

theorem quiet_of_isFrame {n : Node} (h : isFrame n = true) :
    named? n = none ∧ tabLink? n = none := by
  cases n with
  | character c => exact ⟨rfl, rfl⟩
  | element name pairs nodes =>
    rw [isFrame, isFrameTag, Bool.and_eq_true] at h
    exact quiet_of_isQuietTag h.1 nodes

theorem filterMap_filter_isFrame {β : Type} {read : Node → Option β}
    (hread : ∀ e, isFrame e = true → read e = none) (es : List Node) :
    (es.filter fun e => !isFrame e).filterMap read = es.filterMap read := by
  rw [List.filterMap_filter]
  refine List.filterMap_congr fun e _ => ?_
  cases hframe : isFrame e with
  | true => exact (hread e hframe).symm
  | false => rfl

/-- Whether tokens are read as nodes with the given elements, besides those of a frame. -/
def HasElements (tokens : List Token) (es : List Node) : Prop :=
  ∃ ns, Spells .html tokens ns ∧ (elementsOf ns).filter (fun e => !isFrame e) = es

/-- Whether tokens have no elements but those of a frame. -/
abbrev Frames (tokens : List Token) : Prop := HasElements tokens []

namespace HasElements

variable {tokens content : List Token} {es : List Node}

theorem nil : Frames [] := ⟨[], Spells.nil, rfl⟩

theorem append {us : List Token} {more : List Node} (ht : HasElements tokens es)
    (hu : HasElements us more) : HasElements (tokens ++ us) (es ++ more) := by
  obtain ⟨ns, hns, rfl⟩ := ht
  obtain ⟨ms, hms, rfl⟩ := hu
  exact ⟨ns ++ ms, hns.append hms, by rw [elementsOf_append, List.filter_append]⟩

theorem frames_append {us : List Token} (ht : Frames tokens) (hu : Frames us) :
    Frames (tokens ++ us) :=
  ht.append hu

theorem flatMap {α : Type} {f : α → List Token} {as : List α} (h : ∀ a ∈ as, Frames (f a)) :
    Frames (as.flatMap f) := by
  induction as with
  | nil => exact nil
  | cons a as ih =>
    exact (h a List.mem_cons_self).append (ih fun x hx => h x (List.mem_cons_of_mem _ hx))

theorem text (s : String) : Frames [Html.text s] :=
  ⟨_, Spells.ofText s, by rw [elementsOf_ofText, List.filter_nil]⟩

/-- Characters between tags are no elements. -/
theorem of_text {written : String} {cs : List Char}
    (h : Reader.SpellsText .html written.toList cs) : Frames [.text written] := by
  have hnone := elementsOf_ofText (String.ofList cs)
  rw [ofText, String.toList_ofList] at hnone
  exact ⟨_, Spells.of_text h, by rw [hnone, List.filter_nil]⟩

theorem of_lays_nil (h : Lays .html tokens []) : Frames tokens := by
  obtain ⟨nodes, hspells, -, hnone⟩ := h
  exact ⟨nodes, hspells, by rw [← elementsOf_elements, hnone, elementsOf, List.filter_nil]⟩

theorem newline : Frames [.newline] := of_lays_nil Lays.nil.newline_cons

theorem newline_cons (h : HasElements content es) : HasElements (.newline :: content) es :=
  newline.append h

theorem line (h : HasElements content es) : HasElements (Markup.line content) es := by
  have hline := h.append newline
  rwa [List.append_nil] at hline

theorem indented (h : HasElements content es) (level : Nat) :
    HasElements (Markup.indented level content) es :=
  (of_lays_nil (Lays.indentation level)).append h.line

section Elements

variable {name : String} {attributes : List Attribute} {pairs : List (String × String)}

/-- An element of a frame has the elements in it. -/
theorem element (hname : IsName name) (hcontainer : IsContainer .html name)
    (hattributes : Pairs attributes pairs) (hcontent : HasElements content es)
    (hframe : isFrameTag name pairs = true) :
    HasElements (Markup.element name attributes content) es := by
  obtain ⟨ns, hspells, rfl⟩ := hcontent
  refine ⟨_, Spells.element hname hcontainer hattributes hspells, ?_⟩
  rw [elementsOf, elementsIn, if_neg hcontainer.1, elementsOf, List.append_nil,
    List.filter_cons_of_neg (by simp [isFrame, hframe])]

theorem elementLine (hname : IsName name) (hcontainer : IsContainer .html name)
    (hattributes : Pairs attributes pairs) (hcontent : HasElements content es)
    (hframe : isFrameTag name pairs = true) :
    HasElements (Page.elementLine name attributes content) es :=
  (element hname hcontainer hattributes hcontent hframe).line

theorem leaf (hname : IsName name) (hcontainer : IsContainer .html name)
    (hattributes : Pairs attributes pairs) (s : String) (hframe : isFrameTag name pairs = true) :
    Frames (Markup.element name attributes [Html.text s]) :=
  element hname hcontainer hattributes (text s) hframe

theorem void (hname : IsName name) (hvoid : name ∈ voidElements)
    (hattributes : Pairs attributes pairs) (hframe : isFrameTag name pairs = true) :
    Frames [.start name attributes] := by
  refine ⟨_, Spells.void hname hvoid hattributes, ?_⟩
  simp [elementsOf, elementsIn, hvoid, isFrame, hframe]

/-- The code in a script holds no elements. -/
theorem script (hattributes : Pairs attributes pairs) {code : String}
    (hcontent : render content = code) (h : ¬ ['<', '/'] <:+: code.toList)
    (hframe : isFrameTag "script" pairs = true) :
    Frames (Markup.element "script" attributes content) := by
  refine ⟨_, Spells.script hattributes hcontent h, ?_⟩
  simp [elementsOf, elementsIn, elementsOf_ofText, isFrame, hframe]

end Elements

/-- A reader that passes over frames finds nothing in one. -/
theorem exists_filterMap_eq_nil (h : Frames tokens) : ∃ ns, Spells .html tokens ns ∧
    ∀ {β : Type} (read : Node → Option β), (∀ e, isFrame e = true → read e = none) →
      (elementsOf ns).filterMap read = [] := by
  obtain ⟨ns, hns, hnone⟩ := h
  refine ⟨ns, hns, fun read hread => ?_⟩
  rw [← filterMap_filter_isFrame hread, hnone, List.filterMap_nil]

theorem plain (h : Frames tokens) : Plain tokens := by
  obtain ⟨ns, hns, hnone⟩ := h.exists_filterMap_eq_nil
  exact ⟨ns, hns, hnone _ fun e he => (quiet_of_isFrame he).1,
    hnone _ fun e he => (quiet_of_isFrame he).2⟩

end HasElements

/-! ## Lessons -/

theorem frames_description (level : Nat) {attributes : List Attribute}
    {pairs : List (String × String)} (hattributes : Pairs attributes pairs)
    (hframe : isFrameTag "p" pairs = true) (s : String) :
    Frames (description level attributes s) := by
  rw [description]
  by_cases hblank : Text.blank s = true
  · rw [if_pos hblank]
    exact HasElements.nil
  · rw [if_neg hblank]
    exact (HasElements.leaf (by decide) (by decide) hattributes s hframe).indented level

theorem frames_lessonHeader (l : PlannedLesson) : Frames (lessonHeader l) := by
  have hcontainer : Frames (elementLine "p" [fixed "class" "module-title"]
      [Html.text l.container.title]) :=
    (HasElements.leaf (by decide) (by decide) (.fixed (by decide) (by decide) .nil) _ rfl).line
  have htitle : Frames (elementLine "h1" [fixed "class" "lesson-title"]
      [Html.text l.lesson.title]) :=
    (HasElements.leaf (by decide) (by decide) (.fixed (by decide) (by decide) .nil) _ rfl).line
  have hdescription : Frames (whenSome l.lesson.description
      (description 0 [fixed "class" "lesson-description"])) := by
    cases l.lesson.description with
    | none => exact HasElements.nil
    | some s => exact frames_description 0 (.fixed (by decide) (by decide) .nil) rfl s
  exact HasElements.elementLine (by decide) (by decide) (.fixed (by decide) (by decide) .nil)
    ((hcontainer.append htitle).append hdescription).newline_cons rfl

theorem frames_noLink : Frames noLink :=
  (HasElements.element (by decide) (by decide) .nil HasElements.nil rfl).indented 1

theorem frames_lessonLinks (p : Plan) (l : PlannedLesson) (index : String)
    (href : PlannedLesson → String) : Frames (lessonLinks p l index href) := by
  have hleft : Frames [.text "&larr; "] :=
    HasElements.of_text
      (show Reader.SpellsText .html "&larr; ".toList ['←', ' '] from fun _ => rfl)
  have hright : Frames [.text " &rarr;"] :=
    HasElements.of_text
      (show Reader.SpellsText .html " &rarr;".toList [' ', '→'] from fun _ => rfl)
  have hprevious (q : PlannedLesson) : Frames
      (indented 1 (element "a"
        [fixed "class" "button prev", fixed "rel" "prev", attr "href" (href q)]
        [.text "&larr; ", Html.text q.lesson.title])) :=
    (HasElements.element (by decide) (by decide)
      (.fixed (by decide) (by decide) <| .fixed (by decide) (by decide) <|
        .attr (by decide) _ .nil) (hleft.append (HasElements.text _)) rfl).indented 1
  have hhome : Frames
      (indented 1 (element "a" [fixed "class" "button home", attr "href" index]
        [Html.text "Course overview"])) :=
    (HasElements.leaf (by decide) (by decide)
      (.fixed (by decide) (by decide) <| .attr (by decide) _ .nil) _ rfl).indented 1
  have hnext (q : PlannedLesson) : Frames
      (indented 1 (element "a"
        [fixed "class" "button next", fixed "rel" "next", attr "href" (href q)]
        [Html.text q.lesson.title, .text " &rarr;"])) :=
    (HasElements.element (by decide) (by decide)
      (.fixed (by decide) (by decide) <| .fixed (by decide) (by decide) <|
        .attr (by decide) _ .nil) ((HasElements.text _).append hright) rfl).indented 1
  rw [lessonLinks]
  refine HasElements.elementLine (by decide) (by decide)
    (.fixed (by decide) (by decide) <| .fixed (by decide) (by decide) .nil)
    (((HasElements.newline.frames_append ?previous).frames_append hhome).frames_append ?next) rfl
  case previous =>
    cases p.previous? l with
    | none => exact frames_noLink
    | some q => exact hprevious q
  case next =>
    cases p.next? l with
    | none => exact frames_noLink
    | some q => exact hnext q

/-! ## Pages -/

theorem frames_scriptTokens (src : String) : Frames (scriptTokens src) :=
  (HasElements.script (.attr (by decide) _ .nil) (show render [] = "" from rfl) (by decide)
    rfl).line

theorem frames_inlineScriptTokens {code : String} (h : ¬ ['<', '/'] <:+: code.toList) :
    Frames (inlineScriptTokens code) :=
  (HasElements.script .nil (render_codeLines code) (not_infix_codeLines h) rfl).line

theorem frames_headTokens {s : Shell} (h : s.Legible) : Frames s.headTokens := by
  have hcharset : Frames (line [.start "meta" [fixed "charset" "utf-8"]]) :=
    (HasElements.void (by decide) (by decide) (.fixed (by decide) (by decide) .nil) rfl).line
  have hviewport : Frames (line [.start "meta"
      [fixed "name" "viewport", fixed "content" "width=device-width, initial-scale=1"]]) :=
    (HasElements.void (by decide) (by decide)
      (.fixed (by decide) (by decide) <| .fixed (by decide) (by decide) .nil) rfl).line
  have htitle : Frames (line (element "title" [] [Html.text s.title])) :=
    (HasElements.leaf (by decide) (by decide) .nil _ rfl).line
  have hstyles : Frames (whenSome s.stylesheet fun href =>
      line [.start "link" [fixed "rel" "stylesheet", attr "href" href]]) := by
    cases s.stylesheet with
    | none => exact HasElements.nil
    | some href =>
      exact (HasElements.void (by decide) (by decide)
        (.fixed (by decide) (by decide) <| .attr (by decide) _ .nil) rfl).line
  have hcode : Frames (s.inlineScripts.flatMap inlineScriptTokens) :=
    HasElements.flatMap fun c hc => frames_inlineScriptTokens (h.code c hc)
  have hscripts : Frames (s.headScripts.flatMap scriptTokens) :=
    HasElements.flatMap fun src _ => frames_scriptTokens src
  exact HasElements.elementLine (by decide) (by decide) .nil
    (((((hcharset.append hviewport).append htitle).append hstyles).append hcode).append
      hscripts).newline_cons rfl

theorem isFrameTag_body {s : Shell} (hnames : ∀ a ∈ s.bodyAttributes, a.1 ≠ "id") :
    isFrameTag "body"
      (s.bodyClass.toList.map (fun c => ("class", c)) ++ s.bodyAttributes) = true := by
  have hid : (s.bodyClass.toList.map (fun c => ("class", c)) ++ s.bodyAttributes).lookup "id" =
      none := by
    rw [List.lookup_eq_none_iff]
    intro a ha
    refine bne_iff_ne.mpr (Ne.symm ?_)
    rcases List.mem_append.mp ha with ha | ha
    · obtain ⟨c, -, rfl⟩ := List.mem_map.mp ha
      exact (by decide : "class" ≠ "id")
    · exact hnames a ha
  rw [isFrameTag, isQuietTag, hid]
  rfl

/-- In a page whose frame has no name, a reader that passes over frames finds just what is in the
body of the page. -/
theorem exists_root?_of_spells {s : Shell} (h : s.Legible)
    (hnames : ∀ a ∈ s.bodyAttributes, a.1 ≠ "id") {body : List Token} {ns : List Node}
    (hbody : Spells .html body ns) :
    ∃ root, root? .html (s.document body) = some root ∧
      ∀ {β : Type} (read : Node → Option β), (∀ e, isFrame e = true → read e = none) →
        (elementsIn root).filterMap read = (elementsOf ns).filterMap read := by
  have hscripts : Frames (s.scripts.flatMap scriptTokens) :=
    HasElements.flatMap fun src _ => frames_scriptTokens src
  have hinner := (HasElements.append ⟨ns, hbody, rfl⟩ hscripts).newline_cons
  rw [List.append_nil] at hinner
  have hbodyElement := HasElements.elementLine (by decide : IsName "body") (by decide)
    h.pairs_body hinner (isFrameTag_body hnames)
  obtain ⟨ms, hms, helements⟩ := ((frames_headTokens h).append hbodyElement).newline_cons
  have hpage := Spells.element (by decide : IsName "html") (by decide)
    (Pairs.attr (by decide : IsName "lang") s.language .nil) hms
  have hdoctype : Lays .html (line [.raw "<!DOCTYPE html>"]) [] :=
    Lays.declaration (by decide)
  refine ⟨_, (hdoctype.append (Lays.of_element hpage).line).root?_eq, fun read hread => ?_⟩
  have hhtml : isFrame (.element "html" [("lang", s.language)] ms) = true := rfl
  rw [elementsIn, if_neg (by decide), List.filterMap_cons, hread _ hhtml,
    ← filterMap_filter_isFrame hread, helements, List.nil_append, filterMap_filter_isFrame hread]

end Courseware.Page
