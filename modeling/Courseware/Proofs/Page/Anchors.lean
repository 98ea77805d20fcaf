import Courseware.Proofs.Page.Parts

/-!
# The names and tabs of a page

What a reader of a page finds of names and of tabs that lead to them: all elements of the page
are read in their order, each before those in it. Elements whose tags tell of neither are
passed over.
-/

namespace Courseware.Page

open Markup Markup.Html Markup.Node
open Markup.Reader (Lays Pairs Spells IsName voidElements IsContainer)

/-! ## Reading -/

mutual

/-- The elements in a node, itself the first. Nothing is in an element without end tag. -/
def elementsIn : Node → List Node
  | .character _ => []
  | .element name attributes nodes =>
    .element name attributes nodes :: if name ∈ voidElements then [] else elementsOf nodes

/-- The elements in some nodes, each before those in it. -/
def elementsOf : List Node → List Node
  | [] => []
  | n :: ns => elementsIn n ++ elementsOf ns

end

/-- The name of an element; of a panel, with what the panel shows. -/
def named? (n : Node) : Option (String × Option Section) :=
  (n.attribute? "id").map fun name => (name, (panel? n).map Prod.snd)

/-- Where a tab leads and what it says. -/
def tabLink? (n : Node) : Option (String × String) :=
  if n.name? = some "a" ∧ n.attribute? "class" = some "tab" then
    some ((n.attribute? "href").getD "", n.content)
  else none

theorem elementsOf_append (ns ms : List Node) :
    elementsOf (ns ++ ms) = elementsOf ns ++ elementsOf ms := by
  induction ns with
  | nil => rfl
  | cons n ns ih => rw [List.cons_append, elementsOf, elementsOf, ih, List.append_assoc]

theorem elementsOf_ofText (s : String) : elementsOf (ofText s) = [] := by
  rw [ofText]
  induction s.toList with
  | nil => rfl
  | cons c cs ih => rw [List.map_cons, elementsOf, ih, elementsIn, List.nil_append]

/-- White space between elements does not count. -/
theorem elementsOf_elements (ns : List Node) : elementsOf (elements ns) = elementsOf ns := by
  induction ns with
  | nil => rfl
  | cons n ns ih =>
    cases n with
    | character c => exact ih
    | element name attributes nodes =>
      rw [elementsOf, ← ih]
      rfl

mutual

/-- Each element in a node has its tag among the tags of the node. -/
theorem exists_mark_of_mem_elementsIn : ∀ n : Node, ∀ e ∈ elementsIn n,
    ∃ name pairs nodes, e = .element name pairs nodes ∧
      Mark.start name (pairs.map Prod.fst) ∈ n.marks
  | .character _, _, he => absurd he List.not_mem_nil
  | .element name attributes nodes, e, he => by
    rw [elementsIn] at he
    rw [marks]
    rcases List.mem_cons.mp he with rfl | he
    · exact ⟨name, attributes, nodes, rfl, List.mem_cons_self⟩
    · by_cases hvoid : name ∈ voidElements
      · rw [if_pos hvoid] at he
        cases he
      · rw [if_neg hvoid] at he ⊢
        obtain ⟨inner, pairs, ns, rfl, hmark⟩ := exists_mark_of_mem_elementsOf nodes e he
        exact ⟨inner, pairs, ns, rfl,
          List.mem_cons_of_mem _ (List.mem_append_left _ hmark)⟩

theorem exists_mark_of_mem_elementsOf : ∀ ns : List Node, ∀ e ∈ elementsOf ns,
    ∃ name pairs nodes, e = .element name pairs nodes ∧
      Mark.start name (pairs.map Prod.fst) ∈ marksOf ns
  | [], _, he => absurd he List.not_mem_nil
  | n :: ns, e, he => by
    rw [elementsOf] at he
    rw [marksOf]
    rcases List.mem_append.mp he with he | he
    · obtain ⟨name, pairs, nodes, rfl, hmark⟩ := exists_mark_of_mem_elementsIn n e he
      exact ⟨name, pairs, nodes, rfl, List.mem_append_left _ hmark⟩
    · obtain ⟨name, pairs, nodes, rfl, hmark⟩ := exists_mark_of_mem_elementsOf ns e he
      exact ⟨name, pairs, nodes, rfl, List.mem_append_right _ hmark⟩

end

/-! ## Quiet elements -/

/-- Whether an element with a tag has no name and is no tab. -/
def isQuietTag (name : String) (pairs : List (String × String)) : Bool :=
  (pairs.lookup "id").isNone && (name != "a" || pairs.lookup "class" != some "tab")

theorem quiet_of_isQuietTag {name : String} {pairs : List (String × String)}
    (h : isQuietTag name pairs = true) (nodes : List Node) :
    named? (.element name pairs nodes) = none ∧ tabLink? (.element name pairs nodes) = none := by
  rw [isQuietTag, Bool.and_eq_true, Bool.or_eq_true, Option.isNone_iff_eq_none] at h
  obtain ⟨hname, htab⟩ := h
  refine ⟨?_, ?_⟩
  · rw [named?, attribute?_element, hname, Option.map_none]
  · rw [tabLink?, name?_element, attribute?_element]
    refine if_neg ?_
    rintro ⟨hlink, hclass⟩
    rcases htab with htab | htab
    · exact bne_iff_ne.mp htab (Option.some.inj hlink)
    · exact bne_iff_ne.mp htab hclass

/-- The same of a tag of which only the names of its attributes are known. -/
def isQuietMark : Mark → Bool
  | .start name attributes =>
    !attributes.contains "id" && (name != "a" || !attributes.contains "class")
  | .stop _ => true

theorem lookup_eq_none_of_contains {key : String} {pairs : List (String × String)}
    (h : (pairs.map Prod.fst).contains key = false) : pairs.lookup key = none := by
  rw [List.lookup_eq_none_iff]
  intro pair hpair
  have hne : key ≠ pair.1 := by
    rintro rfl
    have hmem := List.mem_map_of_mem (f := Prod.fst) hpair
    rw [← List.contains_iff_mem, h] at hmem
    cases hmem
  exact bne_iff_ne.mpr hne

theorem isQuietTag_of_isQuietMark {name : String} {pairs : List (String × String)}
    (h : isQuietMark (.start name (pairs.map Prod.fst)) = true) :
    isQuietTag name pairs = true := by
  rw [isQuietMark, Bool.and_eq_true, Bool.or_eq_true, Bool.not_eq_true', Bool.not_eq_true'] at h
  obtain ⟨hid, htab⟩ := h
  rw [isQuietTag, lookup_eq_none_of_contains hid]
  rcases htab with hname | hclass
  · rw [hname]
    rfl
  · rw [lookup_eq_none_of_contains hclass]
    simp

/-- Whether some tags have neither names nor tabs. -/
def Quiet (ms : List Mark) : Prop := ∀ m ∈ ms, isQuietMark m = true

namespace Quiet

variable {ms ns : List Mark}

theorem nil : Quiet [] := fun _ hm => absurd hm List.not_mem_nil

theorem append (hm : Quiet ms) (hn : Quiet ns) : Quiet (ms ++ ns) :=
  List.forall_mem_append.mpr ⟨hm, hn⟩

theorem flatMap {α : Type} {f : α → List Mark} {as : List α} (h : ∀ a ∈ as, Quiet (f a)) :
    Quiet (as.flatMap f) := by
  intro m hm
  obtain ⟨a, ha, hm⟩ := List.mem_flatMap.mp hm
  exact h a ha m hm

theorem start {name : String} {attributes : List String}
    (h : isQuietMark (.start name attributes) = true) : Quiet [.start name attributes] :=
  List.forall_mem_singleton.mpr h

theorem around {name : String} {attributes : List String}
    (h : isQuietMark (.start name attributes) = true) (hm : Quiet ms) :
    Quiet (Mark.around name attributes ms) :=
  ((start h).append hm).append (List.forall_mem_singleton.mpr rfl)

theorem leaf {name : String} {attributes : List String}
    (h : isQuietMark (.start name attributes) = true) : Quiet (Mark.around name attributes []) :=
  around h nil

theorem breakMarks (n : Nat) : Quiet (Shape.breakMarks n) := by
  intro m hm
  rw [List.eq_of_mem_replicate hm]
  rfl

theorem marksIf (h : Quiet ms) (b : Bool) : Quiet (Shape.marksIf b ms) := by
  cases b with
  | true => exact h
  | false => exact nil

end Quiet

theorem quiet_elementsOf {ns : List Node} (h : Quiet (marksOf ns)) :
    ∀ e ∈ elementsOf ns, named? e = none ∧ tabLink? e = none := by
  intro e he
  obtain ⟨name, pairs, nodes, rfl, hmark⟩ := exists_mark_of_mem_elementsOf ns e he
  exact quiet_of_isQuietTag (isQuietTag_of_isQuietMark (h _ hmark)) nodes

/-! ## Writing -/

/-- Whether tokens are read as nodes with the given names and tabs. -/
def Anchored (tokens : List Token) (names : List (String × Option Section))
    (links : List (String × String)) : Prop :=
  ∃ ns, Spells .html tokens ns ∧ (elementsOf ns).filterMap named? = names ∧
    (elementsOf ns).filterMap tabLink? = links

/-- Whether tokens have neither names nor tabs. -/
abbrev Plain (tokens : List Token) : Prop := Anchored tokens [] []

namespace Anchored

variable {tokens content : List Token} {names : List (String × Option Section)}
  {links : List (String × String)}

theorem nil : Plain [] := ⟨[], Spells.nil, rfl, rfl⟩

theorem append {us : List Token} {more : List (String × Option Section)}
    {others : List (String × String)} (ht : Anchored tokens names links)
    (hu : Anchored us more others) : Anchored (tokens ++ us) (names ++ more) (links ++ others) := by
  obtain ⟨ns, hns, rfl, rfl⟩ := ht
  obtain ⟨ms, hms, rfl, rfl⟩ := hu
  refine ⟨ns ++ ms, hns.append hms, ?_, ?_⟩
  · rw [elementsOf_append, List.filterMap_append]
  · rw [elementsOf_append, List.filterMap_append]

theorem flatMap {α : Type} {f : α → List Token} {g : α → List (String × Option Section)}
    {g' : α → List (String × String)} {as : List α}
    (h : ∀ a ∈ as, Anchored (f a) (g a) (g' a)) :
    Anchored (as.flatMap f) (as.flatMap g) (as.flatMap g') := by
  induction as with
  | nil => exact nil
  | cons a as ih =>
    exact (h a List.mem_cons_self).append (ih fun x hx => h x (List.mem_cons_of_mem _ hx))

theorem plain_flatMap {α : Type} {f : α → List Token} {as : List α} (h : ∀ a ∈ as, Plain (f a)) :
    Plain (as.flatMap f) := by
  have hnone : ∀ {β : Type}, (as.flatMap fun _ => ([] : List β)) = [] := by simp
  have hall := flatMap h
  rwa [hnone, hnone] at hall

/-- Elements that are laid out have the names and tabs in them. -/
theorem of_lays {ns : List Node} (h : Lays .html tokens ns) :
    Anchored tokens ((elementsOf ns).filterMap named?) ((elementsOf ns).filterMap tabLink?) := by
  obtain ⟨nodes, hspells, -, rfl⟩ := h
  rw [elementsOf_elements]
  exact ⟨nodes, hspells, rfl, rfl⟩

/-- Elements without such tags have neither names nor tabs. -/
theorem of_marks {ns : List Node} (h : Lays .html tokens ns)
    (hmarks : Quiet (marksOf ns)) : Plain tokens := by
  have hanchored := of_lays h
  have hnames : (elementsOf ns).filterMap named? = [] :=
    List.filterMap_eq_nil_iff.mpr fun e he => (quiet_elementsOf hmarks e he).1
  have hlinks : (elementsOf ns).filterMap tabLink? = [] :=
    List.filterMap_eq_nil_iff.mpr fun e he => (quiet_elementsOf hmarks e he).2
  rwa [hnames, hlinks] at hanchored

/-- An element in which there is nothing else may have a name. -/
theorem of_around {n : Node} {name : String} {attributes : List String} {inner : List Mark}
    (h : Lays .html tokens [n]) (hmarks : n.marks = Mark.around name attributes inner)
    (hname : name ∉ voidElements ∧ name ≠ "a") (hinner : Quiet inner) :
    Anchored tokens (named? n).toList [] := by
  have hanchored := of_lays h
  cases n with
  | character c => cases hmarks
  | element written pairs nodes =>
    have hwritten : written = name := by
      rw [marks, Mark.around, List.cons_append, List.cons.injEq, Mark.start.injEq] at hmarks
      exact hmarks.1.1
    subst hwritten
    rw [marks_element hname.1] at hmarks
    have hsame : marksOf nodes = inner := by
      simp only [Mark.around, List.cons_append, List.cons.injEq, List.append_cancel_right_eq]
        at hmarks
      exact hmarks.2
    -- The tags inside are quiet, so nothing but the element itself may be named.
    have hnodes : Quiet (marksOf nodes) := hsame ▸ hinner
    have hquiet := quiet_elementsOf hnodes
    have hnames : (elementsOf nodes).filterMap named? = [] :=
      List.filterMap_eq_nil_iff.mpr fun e he => (hquiet e he).1
    have hlinks : (elementsOf nodes).filterMap tabLink? = [] :=
      List.filterMap_eq_nil_iff.mpr fun e he => (hquiet e he).2
    have htab : tabLink? (.element written pairs nodes) = none := by
      rw [tabLink?, name?_element, if_neg fun h => hname.2 (Option.some.inj h.1)]
    rw [elementsOf, elementsIn, if_neg hname.1, elementsOf, List.append_nil,
      List.filterMap_cons, List.filterMap_cons, hnames, hlinks, htab] at hanchored
    cases hnamed : named? (.element written pairs nodes) with
    | none =>
      rw [hnamed] at hanchored
      exact hanchored
    | some found =>
      rw [hnamed] at hanchored
      exact hanchored

theorem text (s : String) : Plain [Html.text s] := by
  refine ⟨_, Spells.ofText s, ?_, ?_⟩
  · rw [elementsOf_ofText, List.filterMap_nil]
  · rw [elementsOf_ofText, List.filterMap_nil]

theorem newline : Plain [.newline] := of_lays Lays.nil.newline_cons

theorem newline_cons (h : Anchored content names links) :
    Anchored (.newline :: content) names links :=
  newline.append h

theorem line (h : Anchored content names links) : Anchored (Markup.line content) names links := by
  have hline := h.append newline
  rwa [List.append_nil, List.append_nil] at hline

theorem indented (h : Anchored content names links) (level : Nat) :
    Anchored (Markup.indented level content) names links :=
  (of_lays (Lays.indentation level)).append h.line

section Elements

variable {name : String} {attributes : List Attribute} {pairs : List (String × String)}

/-- An element comes before what is in it. -/
theorem of_element {ns : List Node} (hname : IsName name) (hcontainer : IsContainer .html name)
    (hattributes : Pairs attributes pairs) (hcontent : Spells .html content ns) :
    Anchored (Markup.element name attributes content)
      ((named? (.element name pairs ns)).toList ++ (elementsOf ns).filterMap named?)
      ((tabLink? (.element name pairs ns)).toList ++ (elementsOf ns).filterMap tabLink?) := by
  have helements : elementsOf [.element name pairs ns] =
      .element name pairs ns :: elementsOf ns := by
    rw [elementsOf, elementsIn, if_neg hcontainer.1, elementsOf, List.append_nil]
  refine ⟨_, Spells.element hname hcontainer hattributes hcontent, ?_, ?_⟩
  · rw [helements, List.filterMap_cons]
    cases named? (.element name pairs ns) <;> rfl
  · rw [helements, List.filterMap_cons]
    cases tabLink? (.element name pairs ns) <;> rfl

/-- An element without name that is no tab has the names and tabs in it. -/
theorem quiet (hname : IsName name) (hcontainer : IsContainer .html name)
    (hattributes : Pairs attributes pairs) (hcontent : Anchored content names links)
    (hquiet : isQuietTag name pairs = true) :
    Anchored (Markup.element name attributes content) names links := by
  obtain ⟨ns, hspells, rfl, rfl⟩ := hcontent
  obtain ⟨hnamed, htab⟩ := quiet_of_isQuietTag hquiet ns
  have helement := of_element hname hcontainer hattributes hspells
  rw [hnamed, htab] at helement
  exact helement

theorem leaf (hname : IsName name) (hcontainer : IsContainer .html name)
    (hattributes : Pairs attributes pairs) (s : String) (hquiet : isQuietTag name pairs = true) :
    Plain (Markup.element name attributes [Html.text s]) :=
  quiet hname hcontainer hattributes (text s) hquiet

end Elements

end Anchored

end Courseware.Page
