import Courseware.Proofs.Page.Shown

/-!
# Blocks are written faithfully

Every block is written as one element whose tags depend on its shape alone, and from
which all that it shows is read back.
-/

namespace Courseware.Page

open Markup Markup.Html Markup.Node
open Markup.Mark (around)
open Markup.Reader (Lays Pairs Spells IsName isName_ofList IsPlainValue isPlainValue_ofList voidElements
  IsContainer)

/-! ## Elements -/

/-- The node of an element with a text. -/
def leafNode (name : String) (pairs : List (String × String)) (s : String) : Node :=
  .element name pairs (ofText s)

/-- The node of an element with a text of several lines. -/
def linesNode (name : String) (pairs : List (String × String)) (s : String) : Node :=
  .element name pairs (ofLines s)

section

variable {name : String} {attributes : List Attribute} {pairs : List (String × String)}

theorem spells_leaf (hname : IsName name) (hcontainer : IsContainer .html name)
    (hattributes : Pairs attributes pairs) (s : String) :
    Spells .html (element name attributes [text s]) [leafNode name pairs s] :=
  Spells.element hname hcontainer hattributes (Spells.ofText s)

theorem spells_lines (hname : IsName name) (hcontainer : IsContainer .html name)
    (hattributes : Pairs attributes pairs) (s : String) :
    Spells .html (element name attributes (multiline s)) [linesNode name pairs s] :=
  Spells.element hname hcontainer hattributes (Spells.lines s)

theorem lays_leaf (hname : IsName name) (hcontainer : IsContainer .html name)
    (hattributes : Pairs attributes pairs) (s : String) :
    Lays .html (elementLine name attributes [text s]) [leafNode name pairs s] :=
  (Lays.of_element (spells_leaf hname hcontainer hattributes s)).line

theorem lays_lines (hname : IsName name) (hcontainer : IsContainer .html name)
    (hattributes : Pairs attributes pairs) (s : String) :
    Lays .html (elementLine name attributes (multiline s)) [linesNode name pairs s] :=
  (Lays.of_element (spells_lines hname hcontainer hattributes s)).line

theorem marks_leafNode (h : name ∉ voidElements) (pairs : List (String × String))
    (s : String) : (leafNode name pairs s).marks = around name (pairs.map Prod.fst) [] := by
  rw [leafNode, marks_element h, marksOf_ofText]

theorem marks_linesNode (h : name ∉ voidElements) (pairs : List (String × String))
    (s : String) :
    (linesNode name pairs s).marks =
      around name (pairs.map Prod.fst) (Shape.breakMarks (breaks s)) := by
  rw [linesNode, marks_element h, marksOf_ofLines]
  rfl

@[simp] theorem inside?_leafNode (name : String) (pairs : List (String × String))
    (s : String) : inside? name pairs plain? (leafNode name pairs s) = some s := by
  simp [leafNode]

@[simp] theorem inside?_linesNode (name : String) (pairs : List (String × String))
    (s : String) : inside? name pairs lines? (linesNode name pairs s) = some s := by
  simp [linesNode]

end

theorem marksOf_optional {α : Type} {g : α → Node} {ms : List Mark}
    (h : ∀ a, (g a).marks = ms) (o : Option α) :
    marksOf (o.toList.map g) = Shape.marksIf o.isSome ms := by
  cases o with
  | none => rfl
  | some a => simp [marksOf, h, Shape.marksIf]

theorem marksOf_map {α : Type} {g : α → Node} {ms : List Mark}
    (h : ∀ a, (g a).marks = ms) (as : List α) :
    marksOf (as.map g) = (List.replicate as.length ()).flatMap fun _ => ms := by
  induction as with
  | nil => rfl
  | cons a as ih =>
    rw [List.map_cons, marksOf, h, ih]
    rfl

/-! ## Contents -/

/-- Whether tokens lay out one element that has the tags of a shape and from which some
content is read. -/
def Faithful {α : Type} (tokens : List Token) (ms : List Mark) (read : Node → Option α)
    (a : α) : Prop :=
  ∃ n, Lays .html tokens [n] ∧ n.marks = ms ∧ read n = some a

theorem faithful_placeholder (s : String) :
    Faithful (placeholder s) Shape.placeholder.contentMarks placeholder? s := by
  refine ⟨_, Lays.of_element (spells_leaf (isName_ofList (by decide)) (by decide)
    (.fixed (isName_ofList (by decide)) (isPlainValue_ofList (by decide)) .nil) s), ?_, ?_⟩
  · exact marks_leafNode (by decide) _ s
  · simp [placeholder?]

theorem faithful_paragraph (s : String) :
    Faithful (element "p" [] (multiline s)) (Shape.paragraph (breaks s)).contentMarks
      paragraph? (.paragraph s) := by
  refine ⟨_, Lays.of_element (spells_lines (isName_ofList (by decide)) (by decide) .nil s),
    ?_, ?_⟩
  · exact marks_linesNode (by decide) _ s
  · simp [paragraph?]

theorem faithful_heading {level : Nat} (hlow : 1 ≤ level) (hhigh : level ≤ 6) (s : String) :
    Faithful (element ("h" ++ toString level) [] [text s]) (Shape.heading level).contentMarks
      heading? (.heading level s) := by
  have hlevels : ∀ l ≤ 6, 1 ≤ l → ("h" ++ toString l).toList ≠ [] ∧
      (∀ c ∈ ("h" ++ toString l).toList, Reader.isNameChar c = true) ∧
      IsContainer .html ("h" ++ toString l) ∧ ("h" ++ toString l) ∉ voidElements ∧
      headings.lookup ("h" ++ toString l) = some l := by
    decide
  obtain ⟨hne, hchars, hcontainer, hvoid, hlookup⟩ := hlevels level hhigh hlow
  refine ⟨_, Lays.of_element (spells_leaf ⟨hne, hchars⟩ hcontainer .nil s), ?_, ?_⟩
  · exact marks_leafNode hvoid _ s
  · simp only [heading?, hlookup, plain?_ofText]
    rfl

theorem lays_figcaption (caption : Option String) :
    Lays .html (figcaption caption) (caption.toList.map (leafNode "figcaption" [])) :=
  Lays.whenSome (lays_leaf (isName_ofList (by decide)) (by decide) .nil) caption

theorem marksOf_figcaption (caption : Option String) :
    marksOf (caption.toList.map (leafNode "figcaption" [])) =
      Shape.marksIf caption.isSome (around "figcaption" [] []) :=
  marksOf_optional (marks_leafNode (by decide) []) caption

@[simp] theorem caption?_leafNode (caption : Option String) :
    caption? (caption.toList.map (leafNode "figcaption" [])) = some caption :=
  optional?_map (inside?_leafNode "figcaption" []) caption

theorem faithful_image {src : String} (h : Text.blank src = false) (alt : String)
    (caption : Option String) :
    Faithful (image src alt caption) (Shape.image caption.isSome).contentMarks image?
      (.image src alt caption) := by
  have himg : Spells .html
      [.start "img" [attr "src" src, attr "alt" alt, fixed "loading" "lazy"]]
      [.element "img" [("src", src), ("alt", alt), ("loading", "lazy")] []] :=
    Spells.void (isName_ofList (by decide)) (by decide)
      (Pairs.attr (isName_ofList (by decide)) _ <|
        Pairs.attr (isName_ofList (by decide)) _ <|
        Pairs.fixed (isName_ofList (by decide)) (isPlainValue_ofList (by decide)) .nil)
  obtain ⟨nodes, hspells, hitems⟩ := Lays.exists_element
    (isName_ofList (by decide) : IsName "figure") (by decide) .nil
    ((Lays.of_element himg).line.append (lays_figcaption caption)).newline_cons
  refine ⟨.element "figure" [] nodes, ?_, ?_, ?_⟩
  · rw [image, h]
    exact Lays.of_element hspells
  · have hvoid : "img" ∈ voidElements := by decide
    rw [marks_of_items? (by decide) hitems, List.singleton_append, marksOf,
      marksOf_figcaption, marks, if_pos hvoid]
    rfl
  · simp [image?, hitems]

theorem faithful_video {src : String} (h : Text.blank src = false)
    (title caption poster : Option String) :
    Faithful (video src title caption poster)
      (Shape.video title.isSome caption.isSome poster.isSome).contentMarks video?
      (.video src title caption poster) := by
  have hlink := spells_leaf (isName_ofList (by decide) : IsName "a") (by decide)
    (Pairs.attr (isName_ofList (by decide) : IsName "href") src .nil) "Download video"
  have hextras : Pairs
      (whenSome poster (fun s => [attr "poster" s]) ++ whenSome title fun s => [attr "title" s])
      (videoExtras title poster) := by
    have hposter := fun s => Pairs.attr (isName_ofList (by decide) : IsName "poster") s .nil
    have htitle := fun s => Pairs.attr (isName_ofList (by decide) : IsName "title") s .nil
    cases poster with
    | none =>
      cases title with
      | none => exact .nil
      | some t => exact htitle t
    | some s =>
      cases title with
      | none => exact hposter s
      | some t => exact Pairs.attr (isName_ofList (by decide)) s (htitle t)
  have hvideo := Spells.element (isName_ofList (by decide) : IsName "video") (by decide)
    (Pairs.flag (isName_ofList (by decide) : IsName "controls") <|
      Pairs.fixed (isName_ofList (by decide) : IsName "preload")
        (isPlainValue_ofList (by decide) : IsPlainValue "metadata") <|
      Pairs.attr (isName_ofList (by decide) : IsName "src") src hextras) hlink
  obtain ⟨nodes, hspells, hitems⟩ := Lays.exists_element
    (isName_ofList (by decide) : IsName "figure") (by decide) .nil
    ((Lays.of_element hvideo).line.append (lays_figcaption caption)).newline_cons
  refine ⟨.element "figure" [] nodes, ?_, ?_, ?_⟩
  · rw [video, h]
    simpa [elementLine] using Lays.of_element hspells
  · rw [marks_of_items? (by decide) hitems, List.singleton_append, marksOf,
      marksOf_figcaption, marks_element (by decide), marksOf, marks_leafNode (by decide)]
    cases poster <;> cases title <;> rfl
  · have hposter : (videoExtras title poster).lookup "poster" = poster := by
      cases poster <;> cases title <;> rfl
    have htitle : (videoExtras title poster).lookup "title" = title := by
      cases poster <;> cases title <;> rfl
    simp [video?, hitems, hposter, htitle]

theorem faithful_quote (s : String) (citation : Option String) :
    Faithful (quote s citation) (Shape.quote (breaks s) citation.isSome).contentMarks quote?
      (.quote s citation) := by
  have hbody := lays_lines (isName_ofList (by decide) : IsName "p") (by decide) .nil s
  have hcitation := Lays.whenSome
    (lays_leaf (isName_ofList (by decide) : IsName "cite") (by decide) .nil) citation
  obtain ⟨nodes, hspells, hitems⟩ := Lays.exists_element
    (isName_ofList (by decide) : IsName "blockquote") (by decide) .nil
    (hbody.append hcitation).newline_cons
  refine ⟨_, Lays.of_element hspells, ?_, ?_⟩
  · rw [marks_of_items? (by decide) hitems, List.singleton_append, marksOf,
      marksOf_optional (marks_leafNode (by decide) []), marks_linesNode (by decide)]
    rfl
  · have hread := optional?_map (inside?_leafNode "cite" []) citation
    simp [quote?, hitems, hread]

theorem faithful_list (ordered : Bool) (items : List String) :
    Faithful (list ordered items) (Shape.list ordered items.length).contentMarks list?
      (.list ordered items) := by
  have hlays : Lays .html
      (items.flatMap fun item => indented 1 (element "li" [] [text item]))
      (items.map (leafNode "li" [])) :=
    Lays.flatMap (fun item => (Lays.of_element
      (spells_leaf (isName_ofList (by decide)) (by decide) .nil item)).indented 1) items
  have hname : IsName (if ordered then "ol" else "ul") := by
    cases ordered <;> exact isName_ofList (by decide)
  have hcontainer : IsContainer .html (if ordered then "ol" else "ul") := by
    cases ordered <;> decide
  have hvoid : (if ordered then "ol" else "ul") ∉ voidElements := by
    cases ordered <;> decide
  obtain ⟨nodes, hspells, hitems⟩ := Lays.exists_element hname hcontainer .nil
    hlays.newline_cons
  refine ⟨_, Lays.of_element hspells, ?_, ?_⟩
  · rw [marks_of_items? hvoid hitems, marksOf_map (marks_leafNode (by decide) [])]
    rfl
  · have hordered : [("ol", true), ("ul", false)].lookup (if ordered then "ol" else "ul") =
        some ordered := by
      cases ordered <;> rfl
    simp only [list?, hordered, hitems, mapM_map (inside?_leafNode "li" []),
      Option.bind_eq_bind, Option.bind_some]
    rfl

theorem faithful_divider :
    Faithful [.start "hr" []] Shape.divider.contentMarks divider? .divider :=
  ⟨_, Lays.of_element (Spells.void (isName_ofList (by decide)) (by decide) .nil), by decide,
    rfl⟩

/-! ## Parts of contents -/

/-- The parts that are written for the members of a list are read as a list. -/
theorem exists_flatMap {α β : Type} {f : α → List Token} {ms : α → List Mark}
    {read : Node → Option β} {g : α → β} (h : ∀ a, Faithful (f a) (ms a) read (g a))
    (as : List α) :
    ∃ ns, Lays .html (as.flatMap f) ns ∧ marksOf ns = as.flatMap ms ∧
      ns.mapM read = some (as.map g) := by
  have hmember : ∀ a ∈ as, ∃ n, Lays .html (f a) [n] ∧ n.marks = ms a ∧ read n = some (g a) :=
    fun a _ => h a
  obtain ⟨ns, hlays, hall⟩ := Lays.exists_flatMap hmember
  exact ⟨ns, hlays, marksOf_of_forall₂ (hall.imp fun _ _ hn => hn.1),
    mapM_of_forall₂ (hall.imp fun _ _ hn => hn.2)⟩

/-- The same of parts that also depend on their positions. -/
theorem exists_mapIdx {α β : Type} {f : Nat → α → List Token} {ms : α → List Mark}
    {read : Node → Option β} {g : Nat → α → β}
    (h : ∀ i a, Faithful (f i a) (ms a) read (g i a)) (as : List α) :
    ∃ ns, Lays .html (as.mapIdx f).flatten ns ∧ marksOf ns = as.flatMap ms ∧
      ns.mapM read = some (as.mapIdx g) := by
  obtain ⟨ns, hlays, hmarks, hread⟩ :=
    exists_flatMap (fun a : α × Nat => h a.2 a.1) as.zipIdx
  refine ⟨ns, ?_, ?_, ?_⟩
  · rwa [List.mapIdx_eq_zipIdx_map, ← List.flatMap_def]
  · rw [hmarks, ← List.flatMap_map, List.zipIdx_map_fst]
  · rw [hread, List.mapIdx_eq_zipIdx_map]

/-- Names that are made of positions are the names of these positions. -/
theorem map_fst_mapIdx {α β : Type} (f : Nat → β) (as : List α) :
    (as.mapIdx fun i a => (f i, a)).map Prod.fst =
      (as.mapIdx fun i a => (f i, a)).mapIdx fun i _ => f i := by
  apply List.ext_getElem?
  intro i
  cases h : as[i]? <;> simp [h]

theorem map_snd_mapIdx {α β : Type} (f : Nat → β) (as : List α) :
    (as.mapIdx fun i a => (f i, a)).map Prod.snd = as := by
  apply List.ext_getElem?
  intro i
  cases h : as[i]? <;> simp [h]

theorem faithful_section (s : Section) :
    Faithful
      (elementLine "details" [fixed "class" "accordion-section"] <|
        .newline :: elementLine "summary" [] [text s.title] ++
          elementLine "div" [fixed "class" "accordion-body"] (multiline s.content))
      (Shape.sectionMarks (breaks s.content)) section? s := by
  have hclass : IsName "class" := isName_ofList (by decide)
  have hsummary : Lays .html (elementLine "summary" [] [text s.title])
      [leafNode "summary" [] s.title] :=
    lays_leaf (isName_ofList (by decide)) (by decide) .nil s.title
  have hbody : Lays .html
      (elementLine "div" [fixed "class" "accordion-body"] (multiline s.content))
      [linesNode "div" [("class", "accordion-body")] s.content] :=
    lays_lines (isName_ofList (by decide)) (by decide)
      (.fixed hclass (isPlainValue_ofList (by decide)) .nil) s.content
  obtain ⟨nodes, hspells, hitems⟩ := Lays.exists_element
    (show IsName "details" from isName_ofList (by decide)) (by decide)
    (Pairs.fixed hclass (show IsPlainValue "accordion-section" from
      isPlainValue_ofList (by decide)) .nil)
    (hsummary.append hbody).newline_cons
  refine ⟨_, (Lays.of_element hspells).line, ?_, ?_⟩
  · rw [marks_of_items? (by decide) hitems, List.singleton_append, marksOf, marksOf, marksOf,
      marks_leafNode (by decide), marks_linesNode (by decide), List.append_nil]
    rfl
  · simp [section?, hitems]

theorem faithful_accordion (sections : List Section) :
    Faithful (accordion sections)
      (Shape.accordion (sections.map fun s => breaks s.content)).contentMarks accordion?
      (.accordion sections) := by
  obtain ⟨ns, hlays, hmarks, hread⟩ := exists_flatMap faithful_section sections
  obtain ⟨nodes, hspells, hitems⟩ := Lays.exists_element
    (show IsName "div" from isName_ofList (by decide)) (by decide)
    (Pairs.fixed (show IsName "class" from isName_ofList (by decide))
      (show IsPlainValue "accordion" from isPlainValue_ofList (by decide)) .nil)
    hlays.newline_cons
  refine ⟨_, Lays.of_element hspells, ?_, ?_⟩
  · rw [marks_of_items? (by decide) hitems, hmarks, Shape.contentMarks, List.flatMap_map]
    rfl
  · rw [List.map_id'] at hread
    simp [accordion?, hitems, hread]

theorem faithful_tab (id : String) (i : Nat) (panel : Section) :
    Faithful
      (indented 1 (element "a" [fixed "class" "tab", attr "href" ("#" ++ tabName id i)]
        [text panel.title]))
      Shape.tabMarks tab? ("#" ++ tabName id i, panel.title) := by
  refine ⟨leafNode "a" [("class", "tab"), ("href", "#" ++ tabName id i)] panel.title,
    (Lays.of_element (spells_leaf (isName_ofList (by decide)) (by decide)
      (.fixed (isName_ofList (by decide)) (isPlainValue_ofList (by decide)) <|
        .attr (isName_ofList (by decide)) _ .nil) _)).indented 1, ?_, ?_⟩
  · exact marks_leafNode (by decide) _ _
  · simp [tab?, leafNode]

theorem faithful_panel (id : String) (i : Nat) (panel : Section) :
    Faithful
      (elementLine "section" [fixed "class" "tab-panel", attr "id" (tabName id i)] <|
        .newline :: elementLine "h4" [fixed "class" "tab-title"] [text panel.title] ++
          elementLine "div" [] (multiline panel.content))
      (Shape.panelMarks (breaks panel.content)) panel? (tabName id i, panel) := by
  have hclass : IsName "class" := isName_ofList (by decide)
  have htitle : Lays .html (elementLine "h4" [fixed "class" "tab-title"] [text panel.title])
      [leafNode "h4" [("class", "tab-title")] panel.title] :=
    lays_leaf (isName_ofList (by decide)) (by decide)
      (.fixed hclass (isPlainValue_ofList (by decide)) .nil) panel.title
  have hbody : Lays .html (elementLine "div" [] (multiline panel.content))
      [linesNode "div" [] panel.content] :=
    lays_lines (isName_ofList (by decide)) (by decide) .nil panel.content
  obtain ⟨nodes, hspells, hitems⟩ := Lays.exists_element
    (show IsName "section" from isName_ofList (by decide)) (by decide)
    (Pairs.fixed hclass (show IsPlainValue "tab-panel" from isPlainValue_ofList (by decide)) <|
      Pairs.attr (show IsName "id" from isName_ofList (by decide)) (tabName id i) .nil)
    (htitle.append hbody).newline_cons
  refine ⟨_, (Lays.of_element hspells).line, ?_, ?_⟩
  · rw [marks_of_items? (by decide) hitems, List.singleton_append, marksOf, marksOf, marksOf,
      marks_leafNode (by decide), marks_linesNode (by decide), List.append_nil]
    rfl
  · simp [panel?, hitems]

theorem faithful_tabs (id : String) (panels : List Section) :
    Faithful (tabs id panels) (Shape.tabs (panels.map fun s => breaks s.content)).contentMarks
      (tabs? id) (.tabs panels) := by
  have hclass : IsName "class" := isName_ofList (by decide)
  have hdiv : IsName "div" := isName_ofList (by decide)
  obtain ⟨links, hlinks, hlinkMarks, hlinkRead⟩ := exists_mapIdx (faithful_tab id) panels
  obtain ⟨navNodes, hnav, hnavItems⟩ := Lays.exists_element
    (show IsName "nav" from isName_ofList (by decide)) (by decide)
    (Pairs.fixed hclass (show IsPlainValue "tab-list" from isPlainValue_ofList (by decide)) .nil)
    hlinks.newline_cons
  obtain ⟨ns, hlays, hmarks, hread⟩ := exists_mapIdx (faithful_panel id) panels
  obtain ⟨nodes, hspells, hitems⟩ := Lays.exists_element hdiv (by decide)
    (Pairs.fixed hclass (show IsPlainValue "tabs" from isPlainValue_ofList (by decide)) .nil)
    ((Lays.of_element hnav).line.append hlays).newline_cons
  refine ⟨_, Lays.of_element hspells, ?_, ?_⟩
  · rw [marks_of_items? (by decide) hitems, List.singleton_append, marksOf,
      marks_of_items? (by decide) hnavItems, hlinkMarks, hmarks, Shape.contentMarks,
      List.flatMap_map, List.flatMap_map]
    rfl
  · have htargets : (panels.mapIdx fun i panel => ("#" ++ tabName id i, panel.title)) =
        (panels.mapIdx fun i panel => (tabName id i, panel)).map
          fun p => ("#" ++ p.1, p.2.title) := by
      simp [List.mapIdx_eq_zipIdx_map]
    simp only [tabs?, inside?_element, hitems, hnavItems, hlinkRead, hread, Option.bind_eq_bind,
      Option.bind_some, List.singleton_append]
    rw [if_pos ⟨map_fst_mapIdx (tabName id) panels, htargets⟩, map_snd_mapIdx]
    rfl

/-! ## Questions -/

/-- A call of a function with an identifier and more arguments. -/
def answerCall (hook id arguments : String) : String :=
  (hook ++ "(") ++ Json.quote id ++ (", " ++ arguments ++ ")")

theorem callId?_answerCall (hook id arguments : String) :
    callId? hook arguments (answerCall hook id arguments) = some id := by
  have hid : Json.ofText (Json.quote id) = .ok (.string id) :=
    Json.ofText_eq (v := .string id) (Json.reads_string (Json.spellsString_quote id))
      (Nat.zero_le _)
  rw [callId?, answerCall, Text.between?_append]
  simp [hid]

/-- What a call passes on that reports a choice. -/
def choiceArguments (i : Nat) (b : Bool) : String :=
  toString i ++ ", " ++ scriptBool b ++ ", this"

theorem choiceCall_eq (hook id : String) (i : Nat) (b : Bool) :
    hook ++ "(" ++ Json.quote id ++ ", " ++ toString i ++ ", " ++ scriptBool b ++ ", this)" =
      answerCall hook id (choiceArguments i b) := by
  simp only [answerCall, choiceArguments, String.append_assoc]
  rfl

theorem isSuffixOf_answerCall (hook id : String) (i : Nat) (b : Bool) :
    ", true, this)".toList.isSuffixOf (answerCall hook id (choiceArguments i b)).toList = b := by
  have hsplit : answerCall hook id (choiceArguments i b) =
      (hook ++ "(" ++ Json.quote id ++ ", " ++ toString i) ++
        (", " ++ scriptBool b ++ ", this" ++ ")") := by
    simp only [answerCall, choiceArguments, String.append_assoc]
  rw [List.isSuffixOf, hsplit, String.toList_append, List.reverse_append]
  cases b with
  | true => rfl
  | false => rfl

theorem isPlainValue_toString (n : Nat) : IsPlainValue (toString n) := by
  intro c hc
  have hdigit : c.isDigit = true :=
    Nat.isDigit_of_mem_toDigits (b := 10) (n := n) (by decide) (by decide) (by simpa using hc)
  refine ⟨?_, ?_, ?_⟩ <;> rintro rfl <;> exact absurd hdigit (by decide)

theorem faithful_choice (hook id : String) (i : Nat) (choice : Choice) :
    Faithful
      (indented 1 (element "li" [] (element "button"
        [fixed "type" "button", fixed "class" "choice",
          fixed "data-choice-index" (toString i),
          attr "onclick" (hook ++ "(" ++ Json.quote id ++ ", " ++ toString i ++ ", " ++
            scriptBool choice.correct ++ ", this)")]
        [text choice.text])))
      Shape.choiceMarks (choice? hook id) (toString i, choice) := by
  have hbutton := spells_leaf (show IsName "button" from isName_ofList (by decide)) (by decide)
    (Pairs.fixed (show IsName "type" from isName_ofList (by decide))
      (show IsPlainValue "button" from isPlainValue_ofList (by decide)) <|
    Pairs.fixed (show IsName "class" from isName_ofList (by decide))
      (show IsPlainValue "choice" from isPlainValue_ofList (by decide)) <|
    Pairs.fixed (show IsName "data-choice-index" from isName_ofList (by decide))
      (isPlainValue_toString i) <|
    Pairs.attr (show IsName "onclick" from isName_ofList (by decide))
      (answerCall hook id (choiceArguments i choice.correct)) .nil) choice.text
  rw [choiceCall_eq]
  refine ⟨_, (Lays.of_element (Spells.element
    (show IsName "li" from isName_ofList (by decide)) (by decide) .nil hbutton)).indented 1,
    ?_, ?_⟩
  · rw [marks_element (by decide), marksOf, marks_leafNode (by decide)]
    rfl
  · have hcall := callId?_answerCall hook id (choiceArguments i choice.correct)
    rw [choiceArguments] at hcall
    simp only [choice?, inside?_element, leafNode, plain?_ofText, Option.bind_eq_bind,
      Option.bind_some, isSuffixOf_answerCall]
    rw [choiceArguments, if_pos hcall]
    rfl

theorem exists_feedback (explanation : Option String) :
    ∃ ns, Lays .html (feedback explanation) ns ∧
      marksOf ns = Shape.feedbackMarks (explanation.map breaks) ∧
      explanation? ns = some explanation := by
  have hdiv : IsName "div" := isName_ofList (by decide)
  have hclass : IsName "class" := isName_ofList (by decide)
  have hhidden : Pairs [.flag "hidden"] [("hidden", "")] :=
    .flag (isName_ofList (by decide)) .nil
  have hfeedback := Spells.element hdiv (by decide)
    (Pairs.fixed hclass (show IsPlainValue "feedback" from isPlainValue_ofList (by decide)) <|
      Pairs.fixed (show IsName "aria-live" from isName_ofList (by decide))
        (show IsPlainValue "polite" from isPlainValue_ofList (by decide)) hhidden) Spells.nil
  have hexplanation := Lays.whenSome (lays_lines hdiv (by decide)
    (Pairs.fixed hclass (show IsPlainValue "explanation" from isPlainValue_ofList (by decide))
      hhidden)) explanation
  refine ⟨_, (Lays.of_element hfeedback).line.append hexplanation, ?_, ?_⟩
  · rw [List.singleton_append, marksOf, marks_element (by decide), marksOf]
    cases explanation with
    | none => rfl
    | some s =>
      rw [Option.toList_some, List.map_singleton, marksOf, marks_linesNode (by decide)]
      rfl
  · exact optional?_map
      (inside?_linesNode "div" [("class", "explanation"), ("hidden", "")]) explanation

theorem truth?_eq (b : Bool) : truth? (if b then "true" else "false") = some b := by
  cases b <;> rfl

theorem faithful_multipleChoice (hook id : String) (q : MultipleChoice) :
    Faithful (multipleChoice hook id q)
      (Shape.multipleChoice q.choices.length (q.explanation.map breaks)).contentMarks
      (multipleChoice? hook id) (.multipleChoice q) := by
  have hclass : IsName "class" := isName_ofList (by decide)
  have hquestion := lays_leaf (show IsName "p" from isName_ofList (by decide)) (by decide)
    (Pairs.fixed hclass
      (show IsPlainValue "question-text" from isPlainValue_ofList (by decide)) .nil) q.question
  obtain ⟨choices, hchoices, hchoiceMarks, hchoiceRead⟩ :=
    exists_mapIdx (faithful_choice hook id) q.choices
  obtain ⟨listNodes, hlist, hlistItems⟩ := Lays.exists_element
    (show IsName "ol" from isName_ofList (by decide)) (by decide)
    (Pairs.fixed hclass (show IsPlainValue "choices" from isPlainValue_ofList (by decide)) .nil)
    hchoices.newline_cons
  obtain ⟨ns, hfeedback, hfeedbackMarks, hexplanation⟩ := exists_feedback q.explanation
  obtain ⟨nodes, hspells, hitems⟩ := Lays.exists_element
    (show IsName "div" from isName_ofList (by decide)) (by decide)
    (Pairs.fixed hclass
      (show IsPlainValue "question multiple-choice" from isPlainValue_ofList (by decide)) <|
      Pairs.attr (show IsName "data-question-id" from isName_ofList (by decide)) id <|
      Pairs.truth (show IsName "data-allow-multiple" from isName_ofList (by decide))
        q.allowMultiple .nil)
    ((hquestion.append (Lays.of_element hlist).line).append hfeedback).newline_cons
  refine ⟨_, Lays.of_element hspells, ?_, ?_⟩
  · have hcount : q.choices.flatMap (fun _ => Shape.choiceMarks) =
        (List.replicate q.choices.length ()).flatMap fun _ => Shape.choiceMarks := by
      induction q.choices with
      | nil => rfl
      | cons c cs ih =>
        rw [List.flatMap_cons, ih]
        rfl
    rw [marks_of_items? (by decide) hitems, marksOf_append, marksOf_append, marksOf, marksOf,
      marksOf, marksOf, marks_leafNode (by decide), marks_of_items? (by decide) hlistItems,
      hchoiceMarks, hfeedbackMarks, hcount]
    simp only [List.append_nil]
    rfl
  · simp only [multipleChoice?, hitems, List.cons_append, List.nil_append, inside?_leafNode,
      inside?_element, hlistItems, hchoiceRead, hexplanation, truth?_eq,
      Option.bind_eq_bind, Option.bind_some]
    rw [if_pos ⟨trivial, map_fst_mapIdx toString q.choices⟩, map_snd_mapIdx]
    rfl

theorem answers?_compact (answers : List String) :
    answers? (Json.strings answers).compact = some answers := by
  have hlegible : (Json.strings answers).Legible := by
    apply Json.legible_array.mpr
    intro v hv
    obtain ⟨s, -, rfl⟩ := List.mem_map.mp hv
    trivial
  have hdepth : (Json.strings answers).depth ≤ Json.Decoder.nestingLimit := by
    have hitems : Json.itemsDepth (answers.map Json.string) ≤ 0 := by
      apply Json.itemsDepth_le_iff.mpr
      intro v hv
      obtain ⟨s, -, rfl⟩ := List.mem_map.mp hv
      exact Nat.le_refl 0
    rw [Json.strings, Json.depth, Nat.le_zero.mp hitems]
    decide
  have hread := Json.ofText_eq (Json.reads_compact Json.rewrites_id hlegible) hdepth
  have hstrings : ∀ ss : List String,
      ((ss.map Json.string).map Json.sorted).mapM Json.string? = some ss := by
    intro ss
    induction ss with
    | nil => rfl
    | cons s ss ih =>
      simp only [List.map_cons, List.mapM_cons, Json.sorted_string, ih, Json.string?]
      rfl
  rw [answers?, hread, Json.strings, Json.sorted, Json.sortedItems_eq]
  exact hstrings answers

/-- The handler of a question with a typed answer, in which the identifier alone is
escaped. -/
theorem spells_typedCall {hook : String} (hhook : IsPlainValue hook) (id : String) :
    Reader.SpellsAttribute .html
      (fixed "onclick" (hook ++ "(" ++ Text.Dialect.html.escape (Json.quote id) ++
        ", this.parentNode.querySelector('.blank-input').value, null, this)"))
      ("onclick", answerCall hook id typedArguments) := by
  refine Reader.spellsAttribute (a := fixed "onclick" _)
    (show Reader.IsGap " " by decide) (isName_ofList (by decide)) rfl ?_
  have hstart : IsPlainValue (hook ++ "(") := hhook.append (isPlainValue_ofList (by decide))
  have hend : IsPlainValue
      ", this.parentNode.querySelector('.blank-input').value, null, this)" :=
    isPlainValue_ofList (by decide)
  have htail : ", " ++ typedArguments ++ ")" =
      ", this.parentNode.querySelector('.blank-input').value, null, this)" := rfl
  rw [answerCall, htail]
  simp only [String.toList_append, Text.Dialect.escape, String.toList_ofList]
  refine ((Reader.spellsValue_self ?_).append (Reader.spellsValue_escapeList _)).append
    (Reader.spellsValue_self hend)
  rw [← String.toList_append]
  exact hstart

/-- The label of a question with a typed answer: the prompt and the place for the answer. -/
theorem exists_blankLabel (prompt : String) :
    ∃ nodes, Spells .html
        (element "label" []
          (element "span" [fixed "class" "question-text"] [text prompt] ++
            [.newline, .start "input"
              [fixed "type" "text", fixed "class" "blank-input", fixed "autocomplete" "off"]]))
        [.element "label" [] nodes] ∧
      Node.items? nodes = some [leafNode "span" [("class", "question-text")] prompt,
        .element "input" [("type", "text"), ("class", "blank-input"), ("autocomplete", "off")]
          []] ∧
      marksOf nodes = around "span" ["class"] [] ++
        [.start "input" ["type", "class", "autocomplete"]] := by
  have hclass : IsName "class" := isName_ofList (by decide)
  have hprompt := spells_leaf (show IsName "span" from isName_ofList (by decide)) (by decide)
    (Pairs.fixed hclass
      (show IsPlainValue "question-text" from isPlainValue_ofList (by decide)) .nil) prompt
  have hinput := Spells.void (show IsName "input" from isName_ofList (by decide)) (by decide)
    (Pairs.fixed (show IsName "type" from isName_ofList (by decide))
        (show IsPlainValue "text" from isPlainValue_ofList (by decide)) <|
      Pairs.fixed hclass (show IsPlainValue "blank-input" from isPlainValue_ofList (by decide)) <|
      Pairs.fixed (show IsName "autocomplete" from isName_ofList (by decide))
        (show IsPlainValue "off" from isPlainValue_ofList (by decide)) .nil)
  obtain ⟨nodes, hlabel, hitems⟩ := Lays.exists_element
    (show IsName "label" from isName_ofList (by decide)) (by decide) .nil
    ((Lays.of_element hprompt).append (Lays.of_element hinput).newline_cons)
  refine ⟨nodes, hlabel, hitems, ?_⟩
  have hvoid : "input" ∈ voidElements := by decide
  rw [marksOf_of_items? hitems, List.singleton_append, marksOf, marksOf, marksOf,
    marks_element (by decide), marksOf_ofText, marks, if_pos hvoid]
  rfl

theorem faithful_fillInBlank {hook : String} (hhook : IsPlainValue hook) (id : String)
    (q : FillInBlank) :
    Faithful (fillInBlank hook id q)
      (Shape.fillInBlank (q.explanation.map breaks)).contentMarks
      (fillInBlank? hook id) (.fillInBlank q) := by
  have hclass : IsName "class" := isName_ofList (by decide)
  obtain ⟨labelNodes, hlabel, hlabelItems, hlabelMarks⟩ := exists_blankLabel q.prompt
  have hbutton := lays_leaf (show IsName "button" from isName_ofList (by decide)) (by decide)
    (Pairs.fixed (show IsName "type" from isName_ofList (by decide))
        (show IsPlainValue "button" from isPlainValue_ofList (by decide)) <|
      Pairs.fixed hclass (show IsPlainValue "check-answer" from isPlainValue_ofList (by decide)) <|
      Pairs.cons (spells_typedCall hhook id) .nil) "Check answer"
  obtain ⟨ns, hfeedback, hfeedbackMarks, hexplanation⟩ := exists_feedback q.explanation
  obtain ⟨nodes, hspells, hitems⟩ := Lays.exists_element
    (show IsName "div" from isName_ofList (by decide)) (by decide)
    (Pairs.fixed hclass
      (show IsPlainValue "question fill-in-blank" from isPlainValue_ofList (by decide)) <|
      Pairs.attr (show IsName "data-question-id" from isName_ofList (by decide)) id <|
      Pairs.attr (show IsName "data-answers" from isName_ofList (by decide))
        (Json.strings q.answers).compact <|
      Pairs.truth (show IsName "data-case-sensitive" from isName_ofList (by decide))
        q.caseSensitive .nil)
    (((Lays.of_element hlabel).line.append hbutton).append hfeedback).newline_cons
  refine ⟨_, Lays.of_element hspells, ?_, ?_⟩
  · rw [marks_of_items? (by decide) hitems, marksOf_append, marksOf_append, marksOf, marksOf,
      marksOf, marksOf, marks_leafNode (by decide), marks_element (by decide), hlabelMarks,
      hfeedbackMarks]
    simp only [List.append_nil]
    rfl
  · have hcall := callId?_answerCall hook id typedArguments
    simp only [fillInBlank?, hitems, hlabelItems, List.cons_append, List.nil_append, leafNode,
      inside?_element, plain?_ofText, answers?_compact, truth?_eq, hexplanation, hcall,
      Option.bind_eq_bind, Option.bind_some]
    rfl

/-! ## Blocks -/

theorem isPlainValue_answerHook (format : Format) : IsPlainValue format.answerHook := by
  cases format <;> exact isPlainValue_ofList (by decide)

/-- What is read may be seen as something else. -/
theorem Faithful.map {α β : Type} {tokens : List Token} {ms : List Mark}
    {read : Node → Option α} {a : α} (h : Faithful tokens ms read a) {read' : Node → Option β}
    {g : α → β} (hread : ∀ n, read n = some a → read' n = some (g a)) :
    Faithful tokens ms read' (g a) := by
  obtain ⟨n, hlays, hmarks, hn⟩ := h
  exact ⟨n, hlays, hmarks, hread n hn⟩

/-- A line in place of a figure is read as no figure. -/
theorem orPlaceholder_figure {read : Node → Option Content} {s : String}
    (hread : ∀ as nodes, read (.element "p" as nodes) = none) (n : Node)
    (h : placeholder? n = some s) : orPlaceholder read n = some (.placeholder s) := by
  cases n with
  | character c => cases h
  | element name as nodes =>
    have hname : name = "p" := by
      by_contra hne
      simp [placeholder?, inside?, hne] at h
    rw [orPlaceholder, hname, hread, ← hname, h]
    rfl

theorem orPlaceholder_content {read : Node → Option Content} {c : Content} (n : Node)
    (h : read n = some c) : orPlaceholder read n = some (.content c) := by
  rw [orPlaceholder, h]
  rfl

/-- From what is written for some content, what it shows is read back. -/
theorem faithful_content (format : Format) (id : String) (c : Content) :
    Faithful (content format id c) (shape c).contentMarks
      (shown? format.answerHook id (contentClass c)) (shown c) := by
  have hnoImage : ∀ as nodes, image? (.element "p" as nodes) = none := fun _ _ => rfl
  have hnoVideo : ∀ as nodes, video? (.element "p" as nodes) = none := fun _ _ => rfl
  cases c with
  | paragraph s =>
    exact (faithful_paragraph s).map fun n hn => by
      simp [shown?, contentClass, Content.tag, hn, shown]
  | heading level s =>
    exact (faithful_heading (by omega) (by omega) s).map fun n hn => by
      simp [shown?, contentClass, Content.tag, hn]
  | image src alt caption =>
    rw [shape, shown, content]
    cases hblank : Text.blank src with
    | true =>
      rw [image, hblank]
      exact (faithful_placeholder _).map (orPlaceholder_figure hnoImage)
    | false => exact (faithful_image hblank alt caption).map orPlaceholder_content
  | video src title caption poster =>
    rw [shape, shown, content]
    cases hblank : Text.blank src with
    | true =>
      rw [video, hblank]
      exact (faithful_placeholder _).map (orPlaceholder_figure hnoVideo)
    | false => exact (faithful_video hblank title caption poster).map orPlaceholder_content
  | quote s citation =>
    exact (faithful_quote s citation).map fun n hn => by
      simp [shown?, contentClass, Content.tag, hn, shown]
  | list ordered items =>
    exact (faithful_list ordered items).map fun n hn => by
      simp [shown?, contentClass, Content.tag, hn, shown]
  | divider =>
    exact faithful_divider.map fun n hn => by simp [shown?, contentClass, Content.tag, hn, shown]
  | accordion sections =>
    exact (faithful_accordion sections).map fun n hn => by
      simp [shown?, contentClass, Content.tag, hn, shown]
  | tabs panels =>
    exact (faithful_tabs id panels).map fun n hn => by
      simp [shown?, contentClass, Content.tag, hn, shown]
  | multipleChoice q =>
    exact (faithful_multipleChoice format.answerHook id q).map fun n hn => by
      simp [shown?, contentClass, Content.tag, hn, shown]
  | fillInBlank q =>
    exact (faithful_fillInBlank (isPlainValue_answerHook format) id q).map fun n hn => by
      simp [shown?, contentClass, Content.tag, hn, shown]
  | unknown tag payload =>
    exact (faithful_placeholder _).map fun n hn => by simp [shown?, contentClass, hn]

/-- Every block is one element. Its tags nest and depend on the shape of its content alone, and its
identifier, its tag and all that it shows are read back from it. -/
theorem block_faithful (format : Format) (b : Block) :
    ∃ n, Reader.nodes? .html (render (block format b)) = some [n] ∧
      n.marks = (shape b.content).marks ∧
      Mark.nested Shape.alone [] n.marks = true ∧
      ShownBlock.of? format n = some ⟨b.id, b.tag, shown b.content⟩ := by
  obtain ⟨inner, hinner, hmarks, hread⟩ := faithful_content format b.id b.content
  have hnewline : Lays .html [.newline] [] := Lays.nil.newline_cons
  obtain ⟨nodes, hspells, hitems⟩ := Lays.exists_element
    (show IsName "div" from isName_ofList (by decide)) (by decide)
    (Pairs.attr (show IsName "class" from isName_ofList (by decide))
      ("block block-" ++ contentClass b.content) <|
      Pairs.attr (show IsName "data-block-id" from isName_ofList (by decide)) b.id <|
      Pairs.attr (show IsName "data-block-type" from isName_ofList (by decide)) b.tag .nil)
    (hinner.newline_cons.append hnewline)
  have hnode : (Node.element "div" [("class", "block block-" ++ contentClass b.content),
      ("data-block-id", b.id), ("data-block-type", b.tag)] nodes).marks =
        (shape b.content).marks := by
    rw [marks_of_items? (by decide) hitems, List.append_nil, marksOf, hmarks, marksOf,
      List.append_nil]
    rfl
  refine ⟨_, hspells.nodes?_eq, hnode, ?_, ?_⟩
  · rw [hnode]
    exact Shape.nested_marks _
  · have hkind : Text.between? "block block-" "" ("block block-" ++ contentClass b.content) =
        some (contentClass b.content) := by
      have h := Text.between?_append "block block-" (contentClass b.content) ""
      rwa [String.append_empty] at h
    have htag : contentClass b.content = "unknown" ∨ contentClass b.content = b.tag := by
      rw [Block.tag]
      cases b.content <;> simp [contentClass]
    rw [List.append_nil] at hitems
    simp only [ShownBlock.of?, hkind, hitems, hread, Option.bind_eq_bind, Option.bind_some]
    rw [if_pos htag]
    rfl

end Courseware.Page
