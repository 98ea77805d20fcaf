import Courseware.Proofs.Page.Frame

/-!
# Panels and their tabs

The page of a lesson names the content of the lesson and the panels in the sets of tabs of its
blocks, and just the tabs lead to these names. A name is made of the identifier of a block and
of the position of a panel, so names are different when blocks are told apart by their
identifiers and none of them spells the name of the content.
-/

namespace Courseware.Page

open Markup Markup.Html Markup.Node
open Markup.Reader (Pairs Spells IsName isName_ofList isPlainValue_ofList IsContainer)

/-! ## Contents without names -/

theorem quiet_feedbackMarks (explanation : Option Nat) :
    Quiet (Shape.feedbackMarks explanation) :=
  (Quiet.leaf rfl).append (Quiet.flatMap fun n _ => (Quiet.breakMarks n).around rfl)

/-- Of all content, sets of tabs alone have names and tabs. -/
theorem quiet_contentMarks {s : Shape} (h : ∀ breaks, s ≠ .tabs breaks) :
    Quiet s.contentMarks := by
  cases s with
  | paragraph n => exact (Quiet.breakMarks n).around rfl
  | heading level => exact Quiet.leaf (by simp [isQuietMark])
  | image caption =>
    exact ((Quiet.start rfl).append ((Quiet.leaf rfl).marksIf caption)).around rfl
  | video title caption poster =>
    have hvideo : Quiet (Mark.around "video"
        (["controls", "preload", "src"] ++ (if poster then ["poster"] else []) ++
          if title then ["title"] else []) (Mark.around "a" ["href"] [])) := by
      refine Quiet.around ?_ (Quiet.leaf rfl)
      cases poster <;> cases title <;> rfl
    exact (hvideo.append ((Quiet.leaf rfl).marksIf caption)).around rfl
  | quote n citation =>
    exact (((Quiet.breakMarks n).around rfl).append ((Quiet.leaf rfl).marksIf citation)).around rfl
  | list ordered n =>
    refine Quiet.around ?_ (Quiet.flatMap fun _ _ => Quiet.leaf rfl)
    cases ordered <;> rfl
  | divider => exact Quiet.start rfl
  | accordion breaks =>
    refine (Quiet.flatMap fun n _ => ?_).around rfl
    exact ((Quiet.leaf rfl).append ((Quiet.breakMarks n).around rfl)).around rfl
  | tabs breaks => exact absurd rfl (h breaks)
  | multipleChoice n explanation =>
    have hchoices : Quiet ((List.replicate n ()).flatMap fun _ => Shape.choiceMarks) :=
      Quiet.flatMap fun _ _ => (Quiet.leaf rfl).around rfl
    exact (((Quiet.leaf rfl).append (hchoices.around rfl)).append
      (quiet_feedbackMarks explanation)).around rfl
  | fillInBlank explanation =>
    exact (((((Quiet.leaf rfl).append (Quiet.start rfl)).around rfl).append
      (Quiet.leaf rfl)).append (quiet_feedbackMarks explanation)).around rfl
  | placeholder => exact Quiet.leaf rfl

/-! ## Blocks -/

/-- The panels in a block, each with the name that it is linked by. -/
def namedPanels (b : Block) : List (String × Section) :=
  match b.content with
  | .tabs panels => panels.mapIdx fun i s => (tabName b.id i, s)
  | _ => []

theorem namedPanels_of_tabs {b : Block} {panels : List Section} (h : b.content = .tabs panels) :
    namedPanels b = panels.mapIdx fun i s => (tabName b.id i, s) := by
  rw [namedPanels, h]

theorem namedPanels_of_ne {b : Block} (h : ∀ panels, b.content ≠ .tabs panels) :
    namedPanels b = [] := by
  rw [namedPanels]
  split
  · rename_i panels hpanels
    exact absurd hpanels (h panels)
  · rfl

/-- Only sets of tabs have their shape. -/
theorem exists_tabs_of_shape {c : Content} {breaks : List Nat} (h : shape c = .tabs breaks) :
    ∃ panels, c = .tabs panels := by
  cases c with
  | tabs panels => exact ⟨panels, rfl⟩
  | image src alt caption =>
    rw [shape] at h
    split at h <;> cases h
  | video src title caption poster =>
    rw [shape] at h
    split at h <;> cases h
  | _ => cases h

/-- The names of panels, as they are read. -/
def panelNames (panels : List (String × Section)) : List (String × Option Section) :=
  panels.map fun panel => (panel.1, some panel.2)

/-- The tabs that link to panels. -/
def panelLinks (panels : List (String × Section)) : List (String × String) :=
  panels.map fun panel => ("#" ++ panel.1, panel.2.title)

theorem anchored_tab (id : String) (i : Nat) (panel : Section) :
    Anchored
      (indented 1 (element "a" [fixed "class" "tab", attr "href" ("#" ++ tabName id i)]
        [Html.text panel.title]))
      [] [("#" ++ tabName id i, panel.title)] := by
  have helement := Anchored.of_element (show IsName "a" from isName_ofList (by decide))
    (by decide)
    (Pairs.fixed (show IsName "class" from isName_ofList (by decide))
      (show Reader.IsPlainValue "tab" from isPlainValue_ofList (by decide)) <|
      Pairs.attr (show IsName "href" from isName_ofList (by decide)) ("#" ++ tabName id i) .nil)
    (Spells.ofText panel.title)
  rw [elementsOf_ofText, List.filterMap_nil, List.filterMap_nil, List.append_nil,
    List.append_nil, tabLink?, content_ofText] at helement
  exact helement.indented 1

/-- What is read as a panel has the name that is read. -/
theorem attribute?_of_panel? {n : Node} {name : String} {s : Section}
    (h : panel? n = some (name, s)) : n.attribute? "id" = some name := by
  rw [panel?.eq_def] at h
  split at h
  · rename_i written nodes
    simp only [Option.bind_eq_bind, Option.bind_eq_some_iff] at h
    obtain ⟨items, -, h⟩ := h
    split at h
    · simp only [Option.bind_eq_some_iff] at h
      obtain ⟨title, -, body, -, h⟩ := h
      cases h
      rfl
    · cases h
  · cases h

theorem named?_of_panel? {n : Node} {name : String} {s : Section}
    (h : panel? n = some (name, s)) : named? n = some (name, some s) := by
  rw [named?, attribute?_of_panel? h, h]
  rfl

theorem panel?_of_named? {n : Node} {name : String} {s : Section}
    (h : named? n = some (name, some s)) : panel? n = some (name, s) := by
  rw [named?, Option.map_eq_some_iff] at h
  obtain ⟨name', hname, h⟩ := h
  obtain ⟨rfl, hpanel⟩ := Prod.mk.inj h
  obtain ⟨⟨other, s'⟩, hread, rfl⟩ := Option.map_eq_some_iff.mp hpanel
  have hother := attribute?_of_panel? hread
  rw [hname, Option.some.injEq] at hother
  rw [hread, hother]

theorem anchored_panel (id : String) (i : Nat) (panel : Section) :
    Anchored
      (elementLine "section" [fixed "class" "tab-panel", attr "id" (tabName id i)] <|
        .newline :: elementLine "h4" [fixed "class" "tab-title"] [Html.text panel.title] ++
          elementLine "div" [] (multiline panel.content))
      [(tabName id i, some panel)] [] := by
  obtain ⟨n, hlays, hmarks, hread⟩ := faithful_panel id i panel
  have hinner : Quiet (Mark.around "h4" ["class"] [] ++
      Mark.around "div" [] (Shape.breakMarks (breaks panel.content))) :=
    (Quiet.leaf rfl).append ((Quiet.breakMarks _).around rfl)
  have hanchored := Anchored.of_around hlays hmarks (by decide) hinner
  rwa [named?_of_panel? hread] at hanchored

/-- A member of a list with its position has what is written for both. -/
theorem Anchored.mapIdx {α : Type} {f : Nat → α → List Token}
    {g : Nat → α → List (String × Option Section)} {g' : Nat → α → List (String × String)}
    (h : ∀ i a, Anchored (f i a) (g i a) (g' i a)) (as : List α) :
    Anchored (as.mapIdx f).flatten (as.mapIdx g).flatten (as.mapIdx g').flatten := by
  have hall : ∀ a ∈ as.zipIdx, Anchored (f a.2 a.1) (g a.2 a.1) (g' a.2 a.1) :=
    fun a _ => h a.2 a.1
  have hsplit := Anchored.flatMap hall
  simpa only [List.mapIdx_eq_zipIdx_map, List.flatMap_def] using hsplit

theorem flatten_mapIdx_nil {α β : Type} (as : List α) :
    (as.mapIdx fun _ _ => ([] : List β)).flatten = [] := by
  simp [List.mapIdx_eq_zipIdx_map]

theorem flatten_mapIdx_singleton {α β : Type} (f : Nat → α → β) (as : List α) :
    (as.mapIdx fun i a => [f i a]).flatten = as.mapIdx f := by
  rw [List.mapIdx_eq_zipIdx_map, List.mapIdx_eq_zipIdx_map, ← List.flatMap_def,
    List.map_eq_flatMap]

/-- A set of tabs has a name for each panel and a link to each. -/
theorem anchored_tabs (id : String) (panels : List Section) :
    Anchored (tabs id panels) (panels.mapIdx fun i s => (tabName id i, some s))
      (panels.mapIdx fun i s => ("#" ++ tabName id i, s.title)) := by
  have hlinks := Anchored.mapIdx (anchored_tab id) panels
  have hpanels := Anchored.mapIdx (anchored_panel id) panels
  rw [flatten_mapIdx_nil, flatten_mapIdx_singleton] at hlinks hpanels
  have hnav := Anchored.quiet (show IsName "nav" from isName_ofList (by decide)) (by decide)
    (Pairs.fixed (show IsName "class" from isName_ofList (by decide))
      (show Reader.IsPlainValue "tab-list" from isPlainValue_ofList (by decide)) .nil)
    hlinks.newline_cons rfl
  have hall := Anchored.quiet (show IsName "div" from isName_ofList (by decide)) (by decide)
    (Pairs.fixed (show IsName "class" from isName_ofList (by decide))
      (show Reader.IsPlainValue "tabs" from isPlainValue_ofList (by decide)) .nil)
    (hnav.line.append hpanels).newline_cons rfl
  rw [List.nil_append, List.append_nil] at hall
  exact hall

/-- What a block holds has the names of its panels and the tabs that link to them. -/
theorem anchored_content (format : Format) (b : Block) :
    Anchored (content format b.id b.content) (panelNames (namedPanels b))
      (panelLinks (namedPanels b)) := by
  by_cases htabs : ∃ panels, b.content = .tabs panels
  · obtain ⟨panels, htabs⟩ := htabs
    have hanchored := anchored_tabs b.id panels
    rw [namedPanels_of_tabs htabs, panelNames, panelLinks, htabs]
    simp only [List.mapIdx_eq_zipIdx_map, List.map_map] at hanchored ⊢
    exact hanchored
  · obtain ⟨n, hlays, hmarks, -⟩ := faithful_content format b.id b.content
    have hquiet : Quiet (marksOf [n]) := by
      rw [marksOf, marksOf, List.append_nil, hmarks]
      exact quiet_contentMarks fun breaks hshape => htabs (exists_tabs_of_shape hshape)
    rw [namedPanels_of_ne fun panels h => htabs ⟨panels, h⟩]
    exact Anchored.of_marks hlays hquiet

theorem anchored_block (format : Format) (b : Block) :
    Anchored (block format b) (panelNames (namedPanels b)) (panelLinks (namedPanels b)) := by
  have hinner := (anchored_content format b).newline_cons.append Anchored.newline
  rw [List.append_nil, List.append_nil] at hinner
  exact Anchored.quiet (show IsName "div" from isName_ofList (by decide)) (by decide)
    (Pairs.attr (show IsName "class" from isName_ofList (by decide))
      ("block block-" ++ contentClass b.content) <|
      Pairs.attr (show IsName "data-block-id" from isName_ofList (by decide)) b.id <|
      Pairs.attr (show IsName "data-block-type" from isName_ofList (by decide)) b.tag .nil)
    hinner rfl

/-- Blocks have the names and tabs of each, in their order. -/
theorem anchored_blocks (format : Format) (bs : List Block) :
    Anchored (blocks format bs) (panelNames (bs.flatMap namedPanels))
      (panelLinks (bs.flatMap namedPanels)) := by
  induction bs using blocks.induct with
  | case1 => exact Anchored.nil
  | case2 b =>
    rw [List.flatMap_singleton]
    exact anchored_block format b
  | case3 b bs hne ih =>
    have hall := (anchored_block format b).append ih.newline_cons
    rw [panelNames, panelLinks, panelNames, panelLinks, ← List.map_append, ← List.map_append]
      at hall
    rw [blocks]
    · exact hall
    · exact hne

/-! ## Lessons -/

section Elements

variable {name : String} {attributes : List Attribute} {pairs : List (String × String)}
  {tokens : List Token} {names : List (String × Option Section)} {links : List (String × String)}

theorem anchored_elementLine (hname : IsName name) (hcontainer : IsContainer .html name)
    (hattributes : Pairs attributes pairs) (hcontent : Anchored tokens names links)
    (hquiet : isQuietTag name pairs = true) :
    Anchored (elementLine name attributes tokens) names links :=
  (Anchored.quiet hname hcontainer hattributes hcontent hquiet).line

theorem plain_leafLine (hname : IsName name) (hcontainer : IsContainer .html name)
    (hattributes : Pairs attributes pairs) (s : String) (hquiet : isQuietTag name pairs = true) :
    Plain (elementLine name attributes [Html.text s]) :=
  anchored_elementLine hname hcontainer hattributes (Anchored.text s) hquiet

end Elements

theorem plain_resourceList (resources : List Resource) : Plain (resourceList resources) := by
  have hitem (r : Resource) : Plain
      (indented 1 (element "li" [] (element "a"
        [attr "href" (resourceTarget r), fixed "target" "_blank", fixed "rel" "noopener"]
        [Html.text (resourceLabel r)]))) :=
    (Anchored.quiet (by decide) (by decide) .nil (Anchored.leaf (by decide) (by decide)
      (.attr (by decide) _ <| .fixed (by decide) (by decide) <|
        .fixed (by decide) (by decide) .nil) _ rfl) rfl).indented 1
  have hheading : Plain (elementLine "h2" [] [Html.text "Resources"]) :=
    plain_leafLine (by decide) (by decide) .nil _ rfl
  rw [resourceList]
  by_cases hempty : resources.isEmpty = true
  · rw [if_pos hempty]
    exact Anchored.nil
  · rw [if_neg hempty]
    exact anchored_elementLine (by decide) (by decide) (.fixed (by decide) (by decide) .nil)
      (hheading.append (anchored_elementLine (by decide) (by decide) .nil
        (Anchored.plain_flatMap fun r _ => hitem r).newline_cons rfl)).newline_cons rfl

/-- The name of the content of a lesson. -/
def contentName (l : PlannedLesson) : String := "lesson-" ++ l.segment

/-- The body of a lesson names its content, and in it the panels of its blocks. -/
theorem anchored_lessonBody (format : Format) (l : PlannedLesson) :
    Anchored (lessonBody format l)
      ((contentName l, none) :: panelNames (l.blocks.flatMap namedPanels))
      (panelLinks (l.blocks.flatMap namedPanels)) := by
  have hinner := (anchored_blocks format l.blocks).newline_cons.append
    (plain_resourceList l.resources).newline_cons
  rw [List.append_nil, List.append_nil] at hinner
  obtain ⟨ns, hspells, hnames, hlinks⟩ := hinner
  have hmain := Anchored.of_element (show IsName "main" from isName_ofList (by decide))
    (by decide)
    (Pairs.fixed (show IsName "class" from isName_ofList (by decide))
      (show Reader.IsPlainValue "lesson-content" from isPlainValue_ofList (by decide)) <|
      Pairs.attr (show IsName "id" from isName_ofList (by decide)) (contentName l) .nil)
    hspells
  rw [hnames, hlinks] at hmain
  exact (frames_lessonHeader l).plain.append hmain.line

/-- A page has the names and tabs of its body, when its frame has no name. -/
theorem exists_root?_document {s : Shell} (h : s.Legible)
    (hnames : ∀ a ∈ s.bodyAttributes, a.1 ≠ "id") {body : List Token}
    {names : List (String × Option Section)} {links : List (String × String)}
    (hbody : Anchored body names links) :
    ∃ root, root? .html (s.document body) = some root ∧
      (elementsIn root).filterMap named? = names ∧
      (elementsIn root).filterMap tabLink? = links := by
  obtain ⟨ns, hns, rfl, rfl⟩ := hbody
  obtain ⟨root, hroot, hread⟩ := exists_root?_of_spells h hnames hns
  exact ⟨root, hroot, hread _ fun e he => (quiet_of_isFrame he).1,
    hread _ fun e he => (quiet_of_isFrame he).2⟩

/-! ## Different names -/

theorem eq_nil_of_cons_eq {α : Type} {a : α} {between behind behind' : List α}
    (h : a :: behind = between ++ a :: behind') (hlast : a ∉ behind) : between = [] := by
  cases between with
  | nil => rfl
  | cons c between =>
    rw [List.cons_append, List.cons.injEq] at h
    rw [h.2] at hlast
    exact absurd (List.mem_append_right _ List.mem_cons_self) hlast

/-- A text is split in one way only at the last place of a mark. -/
theorem eq_of_append_cons {α : Type} {a : α} {before before' behind behind' : List α}
    (h : before ++ a :: behind = before' ++ a :: behind') (hlast : a ∉ behind)
    (hlast' : a ∉ behind') : before = before' ∧ behind = behind' := by
  have hbefore : before = before' := by
    rcases List.append_eq_append_iff.mp h with ⟨between, heq, hrest⟩ | ⟨between, heq, hrest⟩
    · rw [heq, eq_nil_of_cons_eq hrest hlast, List.append_nil]
    · rw [heq, eq_nil_of_cons_eq hrest hlast', List.append_nil]
  rw [hbefore, List.append_cancel_left_eq, List.cons.injEq] at h
  exact ⟨hbefore, h.2⟩

/-- The name of a panel tells its block and its position. -/
theorem tabName_eq_iff {id id' : String} {i j : Nat} :
    tabName id i = tabName id' j ↔ id = id' ∧ i = j := by
  refine ⟨fun h => ?_, fun h => by rw [h.1, h.2]⟩
  have hdigits : ∀ n : Nat, '-' ∉ Nat.toDigits 10 n := fun n hmem =>
    absurd (Nat.isDigit_of_mem_toDigits (by decide) (by decide) hmem) (by decide)
  have hsplit : ∀ (s : String) (n : Nat), (tabName s n).toList =
      (s.toList ++ "-tab".toList) ++ '-' :: Nat.toDigits 10 n := by
    intro s n
    have hnumber : (toString n).toList = Nat.toDigits 10 n := by
      rw [Nat.toString_eq_ofList_toDigits, String.toList_ofList]
    have hmark : "-tab-".toList = "-tab".toList ++ ['-'] := rfl
    rw [tabName, String.toList_append, String.toList_append, hnumber, hmark]
    simp
  have hchars := congrArg String.toList h
  rw [hsplit, hsplit] at hchars
  obtain ⟨hid, hposition⟩ := eq_of_append_cons hchars (hdigits i) (hdigits j)
  have hsame := congrArg (fun ds => Nat.ofDigitChars 10 ds 0) hposition
  simp only [Nat.ofDigitChars_ten_toDigits] at hsame
  exact ⟨String.toList_inj.mp (List.append_cancel_right hid), hsame⟩

/-- The panels of a block are named by their positions. -/
theorem map_fst_namedPanels (b : Block) :
    (namedPanels b).map Prod.fst = (List.range (namedPanels b).length).map (tabName b.id) := by
  by_cases htabs : ∃ panels, b.content = .tabs panels
  · obtain ⟨panels, htabs⟩ := htabs
    rw [namedPanels_of_tabs htabs, map_fst_mapIdx, List.length_mapIdx]
    apply List.ext_getElem
    · simp
    · simp
  · rw [namedPanels_of_ne fun panels h => htabs ⟨panels, h⟩]
    rfl

theorem mem_names_iff {b : Block} {name : String} :
    name ∈ (namedPanels b).map Prod.fst ↔
      ∃ i < (namedPanels b).length, tabName b.id i = name := by
  rw [map_fst_namedPanels, List.mem_map]
  simp only [List.mem_range]

theorem nodup_map_fst_namedPanels (b : Block) : ((namedPanels b).map Prod.fst).Nodup := by
  rw [map_fst_namedPanels]
  exact List.nodup_range.map fun i j h => (tabName_eq_iff.mp h).2

/-- Two blocks share a name when they have one identifier and each of them has a panel. -/
theorem disjoint_names_iff {b b' : Block} :
    List.Disjoint ((namedPanels b).map Prod.fst) ((namedPanels b').map Prod.fst) ↔
      (namedPanels b ≠ [] → namedPanels b' ≠ [] → b.id ≠ b'.id) := by
  constructor
  · intro hdisjoint hb hb' hid
    have hfirst : tabName b.id 0 ∈ (namedPanels b).map Prod.fst :=
      mem_names_iff.mpr ⟨0, List.length_pos_of_ne_nil hb, rfl⟩
    have hother : tabName b.id 0 ∈ (namedPanels b').map Prod.fst :=
      mem_names_iff.mpr ⟨0, List.length_pos_of_ne_nil hb', by rw [hid]⟩
    exact hdisjoint hfirst hother
  · intro hids name hmem hmem'
    obtain ⟨i, hi, rfl⟩ := mem_names_iff.mp hmem
    obtain ⟨j, hj, hname⟩ := mem_names_iff.mp hmem'
    exact hids (List.ne_nil_of_length_pos (Nat.zero_lt_of_lt hi))
      (List.ne_nil_of_length_pos (Nat.zero_lt_of_lt hj)) (tabName_eq_iff.mp hname).1.symm

/-- Whether the blocks with panels are told apart by their identifiers, and none of their panels
has the name of the content. -/
structure TellsApart (l : PlannedLesson) : Prop where
  blocks : ((l.blocks.filter fun b => !(namedPanels b).isEmpty).map (·.id)).Nodup
  content : ∀ b ∈ l.blocks, ∀ panel ∈ namedPanels b, panel.1 ≠ contentName l

/-- The names of a page are different exactly when they are told apart. -/
theorem nodup_names_iff (l : PlannedLesson) :
    (contentName l :: (l.blocks.flatMap namedPanels).map Prod.fst).Nodup ↔ TellsApart l := by
  have hcontent : contentName l ∉ (l.blocks.flatMap namedPanels).map Prod.fst ↔
      ∀ b ∈ l.blocks, ∀ panel ∈ namedPanels b, panel.1 ≠ contentName l := by
    simp only [List.mem_map, List.mem_flatMap, not_exists, not_and]
    constructor
    · exact fun h b hb panel hpanel => h panel ⟨b, hb, hpanel⟩
    · rintro h panel ⟨b, hb, hpanel⟩
      exact h b hb panel hpanel
  have hblocks : ((l.blocks.flatMap namedPanels).map Prod.fst).Nodup ↔
      ((l.blocks.filter fun b => !(namedPanels b).isEmpty).map (·.id)).Nodup := by
    rw [List.map_flatMap, List.nodup_flatMap,
      and_iff_right fun b _ => nodup_map_fst_namedPanels b, List.Nodup, List.pairwise_map,
      List.pairwise_filter]
    simp only [Bool.not_eq_true', List.isEmpty_eq_false_iff]
    exact List.Pairwise.iff fun b b' => disjoint_names_iff
  rw [List.nodup_cons, hcontent, hblocks]
  exact ⟨fun h => ⟨h.2, h.1⟩, fun h => ⟨h.content, h.blocks⟩⟩

/-- What the page of a lesson has of names and tabs. -/
structure LinksPanels (l : PlannedLesson) (root : Node) : Prop where
  /-- The content of the lesson and the panels of its blocks are all that has a name. -/
  names : (elementsIn root).filterMap named? =
    (contentName l, none) :: panelNames (l.blocks.flatMap namedPanels)
  /-- Each panel has a tab that leads to its name, in the same order. -/
  tabs : (elementsIn root).filterMap tabLink? = panelLinks (l.blocks.flatMap namedPanels)
  /-- The names are different exactly when the blocks tell them apart. -/
  distinct : ((elementsIn root).filterMap fun n => n.attribute? "id").Nodup ↔ TellsApart l
  /-- Then just one element has the name that a tab leads to: the panel of the tab. -/
  targets : TellsApart l → ∀ b ∈ l.blocks, ∀ panel ∈ namedPanels b,
    ∃ n, panel? n = some panel ∧
      (elementsIn root).filter (fun n => n.attribute? "id" == some panel.1) = [n]

theorem filterMap_attribute? (ns : List Node) :
    (ns.filterMap fun n => n.attribute? "id") = (ns.filterMap named?).map Prod.fst := by
  rw [List.map_filterMap]
  refine List.filterMap_congr fun n _ => ?_
  rw [named?, Option.map_map]
  exact Option.map_id'.symm

theorem map_fst_panelNames (panels : List (String × Section)) :
    (panelNames panels).map Prod.fst = panels.map Prod.fst := by
  rw [panelNames, List.map_map]
  rfl

/-- The one element with a name that one element has. -/
theorem exists_filter_eq_singleton {ns : List Node} {name : String}
    (h : (ns.filterMap fun n => n.attribute? "id").Nodup)
    (hmem : name ∈ ns.filterMap fun n => n.attribute? "id") :
    ∃ n, ns.filter (fun n => n.attribute? "id" == some name) = [n] := by
  have hcount := List.count_eq_one_of_mem h hmem
  rw [List.count_filterMap, List.countP_eq_length_filter] at hcount
  exact List.length_eq_one_iff.mp hcount

theorem linksPanels_of_names {l : PlannedLesson} {root : Node}
    (hnames : (elementsIn root).filterMap named? =
      (contentName l, none) :: panelNames (l.blocks.flatMap namedPanels))
    (htabs : (elementsIn root).filterMap tabLink? =
      panelLinks (l.blocks.flatMap namedPanels)) : LinksPanels l root := by
  have hids : ((elementsIn root).filterMap fun n => n.attribute? "id") =
      contentName l :: (l.blocks.flatMap namedPanels).map Prod.fst := by
    rw [filterMap_attribute?, hnames, List.map_cons, map_fst_panelNames]
  have hdistinct : ((elementsIn root).filterMap fun n => n.attribute? "id").Nodup ↔
      TellsApart l := by
    rw [hids]
    exact nodup_names_iff l
  refine ⟨hnames, htabs, hdistinct, fun happart b hb panel hpanel => ?_⟩
  have hmem : panel ∈ l.blocks.flatMap namedPanels := List.mem_flatMap.mpr ⟨b, hb, hpanel⟩
  have hread : (panel.1, some panel.2) ∈ (elementsIn root).filterMap named? := by
    rw [hnames]
    exact List.mem_cons_of_mem _ (List.mem_map.mpr ⟨panel, hmem, rfl⟩)
  obtain ⟨n, hn, hnamed⟩ := List.mem_filterMap.mp hread
  have hpanel? := panel?_of_named? hnamed
  have hid : n.attribute? "id" = some panel.1 := attribute?_of_panel? hpanel?
  -- Names that are told apart leave one element for the name of the panel.
  obtain ⟨m, hm⟩ := exists_filter_eq_singleton (hdistinct.mpr happart)
    (List.mem_filterMap.mpr ⟨n, hn, hid⟩)
  have hsame : n ∈ [m] := by
    rw [← hm]
    exact List.mem_filter.mpr ⟨hn, by rw [hid, beq_self_eq_true]⟩
  obtain rfl := List.mem_singleton.mp hsame
  exact ⟨n, hpanel?, hm⟩

end Courseware.Page
