import Courseware.Proofs.Page.Frame

/-!
# The resources of a page

The page of a lesson has one list of resources when the lesson has some, and none otherwise. In
the list each resource has one link, in order, which leads where the resource says.
-/

namespace Courseware.Page

open Markup Markup.Html Markup.Node
open Markup.Reader (Lays Pairs Spells IsName IsPlainValue IsContainer)

/-! ## Reading -/

/-- Where the link of a resource leads, and what it says. -/
def resourceLink? : Node → Option (String × String)
  | .element "li" [] [.element "a"
      [("href", target), ("target", "_blank"), ("rel", "noopener")] nodes] =>
    (plain? nodes).map (target, ·)
  | _ => none

/-- The links in a list of resources. -/
def resourceLinks? : Node → Option (List (String × String)) :=
  inside? "section" [("class", "resources")] fun nodes => do
    match ← items? nodes with
    | [title, list] =>
      let title ← inside? "h2" [] plain? title
      let items ← inside? "ul" [] items? list
      if title = "Resources" then items.mapM resourceLink? else none
    | _ => none

/-- The links of an element that is marked as a list of resources, if they can be read. -/
def resources? : Node → Option (Option (List (String × String)))
  | .element "section" [("class", "resources")] nodes =>
    some (resourceLinks? (.element "section" [("class", "resources")] nodes))
  | _ => none

/-- The tag that a list of resources starts with. -/
def resourcesMark : Mark := .start "section" ["class"]

theorem resources?_eq_none {name : String} {pairs : List (String × String)}
    (h : Mark.start name (pairs.map Prod.fst) ≠ resourcesMark) (nodes : List Node) :
    resources? (.element name pairs nodes) = none := by
  rw [resources?.eq_def]
  split
  · rename_i heq
    cases heq
    exact absurd rfl h
  · rfl

theorem resources?_of_ne {name : String} (h : name ≠ "section") (pairs : List (String × String))
    (nodes : List Node) : resources? (.element name pairs nodes) = none := by
  refine resources?_eq_none (fun hmark => h ?_) nodes
  rw [resourcesMark, Mark.start.injEq] at hmark
  exact hmark.1

theorem resources?_of_isFrame {n : Node} (h : isFrame n = true) : resources? n = none := by
  cases n with
  | character c => rfl
  | element name pairs nodes =>
    rw [isFrame, isFrameTag, Bool.and_eq_true, bne_iff_ne] at h
    exact resources?_of_ne h.2 pairs nodes

theorem exists_section_of_resourceLinks? {n : Node} {links : List (String × String)}
    (h : resourceLinks? n = some links) :
    ∃ nodes, n = .element "section" [("class", "resources")] nodes := by
  cases n with
  | character c => cases h
  | element name pairs nodes =>
    by_cases htag : name = "section" ∧ pairs = [("class", "resources")]
    · exact ⟨nodes, by rw [htag.1, htag.2]⟩
    · rw [resourceLinks?, inside?, if_neg htag] at h
      cases h

/-! ## Lists of resources -/

def resourceLinks (resources : List Resource) : List (String × String) :=
  resources.map fun r => (resourceTarget r, resourceLabel r)

theorem faithful_resource (r : Resource) :
    Faithful
      (indented 1 (element "li" [] (element "a"
        [attr "href" (resourceTarget r), fixed "target" "_blank", fixed "rel" "noopener"]
        [text (resourceLabel r)])))
      (Mark.around "li" [] (Mark.around "a" ["href", "target", "rel"] []))
      resourceLink? (resourceTarget r, resourceLabel r) := by
  have hlink : Spells .html _ [leafNode "a"
      [("href", resourceTarget r), ("target", "_blank"), ("rel", "noopener")] _] :=
    spells_leaf (by decide) (by decide)
      (.attr (by decide) _ <| .fixed (by decide) (by decide) <|
        .fixed (by decide) (by decide) .nil) (resourceLabel r)
  have hitem := Spells.element (by decide : IsName "li") (by decide) .nil hlink
  refine ⟨_, (Lays.of_element hitem).indented 1, ?_, ?_⟩
  · rw [marks_element (by decide), marksOf, marksOf, marks_leafNode (by decide), List.append_nil]
    rfl
  · simp [resourceLink?, leafNode]

def resourceMarks (resources : List Resource) : List Mark :=
  Mark.around "h2" [] [] ++ Mark.around "ul" []
    (resources.flatMap fun _ => Mark.around "li" [] (Mark.around "a" ["href", "target", "rel"] []))

theorem faithful_resources (resources : List Resource) :
    Faithful
      (elementLine "section" [fixed "class" "resources"] <|
        .newline :: elementLine "h2" [] [text "Resources"] ++
          elementLine "ul" []
            (.newline :: resources.flatMap fun r =>
              indented 1 (element "li" [] (element "a"
                [attr "href" (resourceTarget r), fixed "target" "_blank", fixed "rel" "noopener"]
                [text (resourceLabel r)]))))
      (Mark.around "section" ["class"] (resourceMarks resources))
      resourceLinks? (resourceLinks resources) := by
  have htitle : Lays .html (elementLine "h2" [] [text "Resources"])
      [leafNode "h2" [] "Resources"] :=
    lays_leaf (by decide) (by decide) .nil _
  obtain ⟨items, hlays, hmarks, hread⟩ := exists_flatMap faithful_resource resources
  obtain ⟨listNodes, hlist, hlistItems⟩ := Lays.exists_element
    (by decide : IsName "ul") (by decide) .nil hlays.newline_cons
  obtain ⟨nodes, hspells, hitems⟩ := Lays.exists_element
    (by decide : IsName "section") (by decide)
    (Pairs.fixed (by decide : IsName "class") (by decide : IsPlainValue "resources") .nil)
    (htitle.append (Lays.of_element hlist).line).newline_cons
  refine ⟨_, (Lays.of_element hspells).line, ?_, ?_⟩
  · rw [marks_of_items? (by decide) hitems, List.singleton_append, marksOf, marksOf, marksOf,
      marks_leafNode (by decide), marks_of_items? (by decide) hlistItems, hmarks,
      List.append_nil]
    rfl
  · simp [resourceLinks?, hitems, hlistItems, hread, leafNode, resourceLinks]

/-! ## Writing -/

/-- Without its tag no list of resources is in some nodes. -/
theorem resources?_elementsOf {ns : List Node} (h : resourcesMark ∉ marksOf ns) :
    (elementsOf ns).filterMap resources? = [] := by
  refine List.filterMap_eq_nil_iff.mpr fun e he => ?_
  obtain ⟨name, pairs, nodes, rfl, hmark⟩ := exists_mark_of_mem_elementsOf ns e he
  exact resources?_eq_none (fun htag => h (htag ▸ hmark)) nodes

/-- Whether tokens are read as nodes with the given lists of resources. -/
def Offers (tokens : List Token) (lists : List (Option (List (String × String)))) : Prop :=
  ∃ ns, Spells .html tokens ns ∧ (elementsOf ns).filterMap resources? = lists

/-- Whether tokens have no list of resources. -/
abbrev OffersNone (tokens : List Token) : Prop := Offers tokens []

namespace Offers

variable {tokens content : List Token} {lists : List (Option (List (String × String)))}

theorem nil : OffersNone [] := ⟨[], Spells.nil, rfl⟩

theorem append {us : List Token} {more : List (Option (List (String × String)))}
    (ht : Offers tokens lists) (hu : Offers us more) : Offers (tokens ++ us) (lists ++ more) := by
  obtain ⟨ns, hns, rfl⟩ := ht
  obtain ⟨ms, hms, rfl⟩ := hu
  exact ⟨ns ++ ms, hns.append hms, by rw [elementsOf_append, List.filterMap_append]⟩

theorem of_lays {ns : List Node} (h : Lays .html tokens ns) :
    Offers tokens ((elementsOf ns).filterMap resources?) := by
  obtain ⟨nodes, hspells, -, rfl⟩ := h
  rw [elementsOf_elements]
  exact ⟨nodes, hspells, rfl⟩

/-- Elements without the tag have no list of resources. -/
theorem of_marks {ns : List Node} (h : Lays .html tokens ns) (hmarks : resourcesMark ∉ marksOf ns) :
    OffersNone tokens := by
  have hoffers := of_lays h
  rwa [resources?_elementsOf hmarks] at hoffers

theorem newline : OffersNone [.newline] := of_lays Lays.nil.newline_cons

theorem newline_cons (h : Offers content lists) : Offers (.newline :: content) lists :=
  newline.append h

theorem line (h : Offers content lists) : Offers (Markup.line content) lists := by
  have hline := h.append newline
  rwa [List.append_nil] at hline

/-- An element of another name has the lists in it. -/
theorem element {name : String} {attributes : List Attribute} {pairs : List (String × String)}
    (hname : IsName name) (hcontainer : IsContainer .html name)
    (hattributes : Pairs attributes pairs) (hcontent : Offers content lists)
    (hother : name ≠ "section") : Offers (Markup.element name attributes content) lists := by
  obtain ⟨ns, hspells, rfl⟩ := hcontent
  refine ⟨_, Spells.element hname hcontainer hattributes hspells, ?_⟩
  rw [elementsOf, elementsIn, if_neg hcontainer.1, elementsOf, List.append_nil,
    List.filterMap_cons, resources?_of_ne hother]

end Offers

theorem HasElements.offersNone {tokens : List Token} (h : Frames tokens) : OffersNone tokens := by
  obtain ⟨ns, hns, hnone⟩ := h.exists_filterMap_eq_nil
  exact ⟨ns, hns, hnone _ fun e he => resources?_of_isFrame he⟩

/-! ## Lessons -/

theorem resourcesMark_notMem_contentMarks (s : Shape) : resourcesMark ∉ s.contentMarks := by
  have hbreaks (n : Nat) : Mark.start "section" ["class"] ∉ Shape.breakMarks n := by
    simp [Shape.breakMarks]
  have hoptional (b : Bool) {ms : List Mark} (h : Mark.start "section" ["class"] ∉ ms) :
      Mark.start "section" ["class"] ∉ Shape.marksIf b ms := by
    cases b
    · exact List.not_mem_nil
    · exact h
  cases s <;> simp [resourcesMark, Shape.contentMarks, Mark.around, Shape.sectionMarks,
    Shape.tabMarks, Shape.panelMarks, Shape.choiceMarks, Shape.feedbackMarks, hbreaks, hoptional]

theorem offersNone_block (format : Format) (b : Block) : OffersNone (block format b) := by
  obtain ⟨n, hlays, hmarks, -⟩ := faithful_content format b.id b.content
  have hcontent : OffersNone (content format b.id b.content) := by
    refine Offers.of_marks hlays ?_
    rw [marksOf, marksOf, List.append_nil, hmarks]
    exact resourcesMark_notMem_contentMarks _
  exact Offers.element (by decide) (by decide)
    (.attr (by decide) _ <| .attr (by decide) _ <| .attr (by decide) _ .nil)
    (hcontent.newline_cons.append Offers.newline) (by decide)

theorem offersNone_blocks (format : Format) (bs : List Block) :
    OffersNone (blocks format bs) := by
  induction bs using blocks.induct with
  | case1 => exact Offers.nil
  | case2 b => exact offersNone_block format b
  | case3 b bs hne ih =>
    rw [blocks]
    · exact (offersNone_block format b).append ih.newline_cons
    · exact hne

/-- What is read of the lists in the page of a lesson with some resources. -/
def resourceLists (resources : List Resource) : List (Option (List (String × String))) :=
  if resources.isEmpty then [] else [some (resourceLinks resources)]

theorem offers_resourceList (resources : List Resource) :
    Offers (resourceList resources) (resourceLists resources) := by
  rw [resourceList, resourceLists]
  by_cases hempty : resources.isEmpty = true
  · rw [if_pos hempty, if_pos hempty]
    exact Offers.nil
  · rw [if_neg hempty, if_neg hempty]
    obtain ⟨n, hlays, hmarks, hread⟩ := faithful_resources resources
    obtain ⟨nodes, rfl⟩ := exists_section_of_resourceLinks? hread
    have hinner : resourcesMark ∉ marksOf nodes := by
      rw [marks_element (by decide), Mark.around, Mark.around] at hmarks
      rw [List.append_cancel_right (List.cons.inj hmarks).2]
      simp [resourcesMark, resourceMarks, Mark.around]
    have hoffers := Offers.of_lays hlays
    rw [elementsOf, elementsIn, if_neg (by decide), elementsOf, List.append_nil,
      List.filterMap_cons, resources?, hread, resources?_elementsOf hinner] at hoffers
    exact hoffers

/-- The body of a lesson offers the resources of the lesson. -/
theorem offers_lessonBody (format : Format) (l : PlannedLesson) :
    Offers (lessonBody format l) (resourceLists l.resources) := by
  have hinner := (offersNone_blocks format l.blocks).newline_cons.append
    (offers_resourceList l.resources).newline_cons
  have hmain := Offers.element (by decide : IsName "main") (by decide)
    (.fixed (by decide : IsName "class") (by decide : IsPlainValue "lesson-content") <|
      .attr (by decide : IsName "id") ("lesson-" ++ l.segment) .nil) hinner (by decide)
  exact (frames_lessonHeader l).offersNone.append hmain.line

end Courseware.Page
