import Courseware.Proofs.Markup.Spelling

/-!
# Tokens laid out on lines

Descriptors stand on lines that are indented. What matters there are the elements
between the white space, in order.
-/

namespace Courseware.Markup

open Text (Dialect)

namespace Node

/-! ## Elements -/

def elements (nodes : List Node) : List Node :=
  nodes.filter isElement

@[simp] theorem elements_append (ns ms : List Node) :
    elements (ns ++ ms) = elements ns ++ elements ms :=
  List.filter_append ..

def name? : Node → Option String
  | element name _ _ => some name
  | character _ => none

def attribute? (name : String) : Node → Option String
  | element _ attributes _ => attributes.lookup name
  | character _ => none

def children : Node → List Node
  | element _ _ nodes => elements nodes
  | character _ => []

def content : Node → String
  | element _ _ nodes => text nodes
  | character _ => ""

@[simp] theorem name?_element (name : String) (attributes : List (String × String))
    (nodes : List Node) : (element name attributes nodes).name? = some name := rfl

@[simp] theorem attribute?_element (key name : String) (attributes : List (String × String))
    (nodes : List Node) :
    (element name attributes nodes).attribute? key = attributes.lookup key := rfl

@[simp] theorem children_element (name : String) (attributes : List (String × String))
    (nodes : List Node) : (element name attributes nodes).children = elements nodes := rfl

@[simp] theorem text_ofText (s : String) : text (ofText s) = s := by
  have hchars : s.toList.filterMap (character? ∘ character) = s.toList :=
    List.filterMap_some
  rw [text, ofText, List.filterMap_map, hchars, String.ofList_toList]

@[simp] theorem content_ofText (name : String) (attributes : List (String × String))
    (s : String) : (element name attributes (ofText s)).content = s :=
  text_ofText s

def named (name : String) (nodes : List Node) : List Node :=
  nodes.filter fun n => n.name? == some name

@[simp] theorem named_nil (name : String) : named name [] = [] := rfl

@[simp] theorem named_cons (name : String) (n : Node) (ns : List Node) :
    named name (n :: ns) = if n.name? = some name then n :: named name ns else named name ns := by
  simp [named, List.filter_cons]

@[simp] theorem named_append (name : String) (ns ms : List Node) :
    named name (ns ++ ms) = named name ns ++ named name ms :=
  List.filter_append ..

theorem named_eq_self {name : String} {nodes : List Node}
    (h : ∀ n ∈ nodes, n.name? = some name) : named name nodes = nodes := by
  apply List.filter_eq_self.mpr
  intro n hn
  simp [h n hn]

theorem named_eq_nil {name : String} {nodes : List Node}
    (h : ∀ n ∈ nodes, n.name? ≠ some name) : named name nodes = [] := by
  apply List.filter_eq_nil_iff.mpr
  intro n hn
  simp [h n hn]

/-- Elements of one name are all found by it, and none by another name. -/
theorem named_map {α : Type} {f : α → Node} {other : String}
    (h : ∀ a, (f a).name? = some other) (name : String) (as : List α) :
    named name (as.map f) = if other = name then as.map f else [] := by
  induction as with
  | nil => simp
  | cons a as ih =>
    rw [List.map_cons, named_cons, h, ih]
    by_cases hname : other = name <;> simp [hname]

/-- The elements that are reached by a path of names. -/
def select : List String → List Node → List Node
  | [], nodes => nodes
  | [name], nodes => named name nodes
  | name :: path, nodes => select path ((named name nodes).flatMap children)

def only? : List Node → Option Node
  | [n] => some n
  | _ => none

theorem eq_singleton_of_only? {ns : List Node} {n : Node} (h : only? ns = some n) :
    ns = [n] := by
  match ns with
  | [] => cases h
  | [m] => rw [Option.some.inj h]
  | _ :: _ :: _ => cases h

theorem forall_of_forall₂ {α : Type} {p : Node → Prop} {as : List α} {ns : List Node}
    (h : List.Forall₂ (fun _ n => p n) as ns) : ∀ n ∈ ns, p n := by
  induction h with
  | nil => simp
  | cons hn _ ih =>
    intro m hm
    rcases List.mem_cons.mp hm with rfl | hm
    · exact hn
    · exact ih m hm

/-- What is read from nodes that stand for the members of a list. -/
theorem mapM_of_forall₂ {α β : Type} {f : Node → Option β} {g : α → β} {as : List α}
    {ns : List Node} (h : List.Forall₂ (fun a n => f n = some (g a)) as ns) :
    ns.mapM f = some (as.map g) := by
  induction h with
  | nil => rfl
  | cons ha _ ih => simp [List.mapM_cons, ha, ih]

theorem forall₂_of_mapM {β : Type} {f : Node → Option β} {ns : List Node} {bs : List β}
    (h : ns.mapM f = some bs) : List.Forall₂ (fun n b => f n = some b) ns bs := by
  induction ns generalizing bs with
  | nil =>
    obtain rfl := Option.some.inj h
    exact .nil
  | cons n ns ih =>
    simp only [List.mapM_cons, bind, Option.bind_eq_some_iff] at h
    obtain ⟨b, hb, rest, hrest, hbs⟩ := h
    obtain rfl := Option.some.inj hbs
    exact .cons hb (ih hrest)

/-- What is read from the node of a list, where there may be none. -/
def optional? {α : Type} (f : Node → Option α) : List Node → Option (Option α)
  | [] => some none
  | [n] => (f n).map some
  | _ => none

/-- What another reader gets from nodes that may be none. -/
theorem optional?_eq_some {α β : Type} {f : Node → Option α} {g : Node → Option β} {t : α → β}
    (h : ∀ n a, f n = some a → g n = some (t a)) {ns : List Node} {a : Option α}
    (ha : optional? f ns = some a) : optional? g ns = some (a.map t) := by
  match ns with
  | [] =>
    obtain rfl := Option.some.inj ha
    rfl
  | [n] =>
    obtain ⟨b, hb, rfl⟩ := Option.map_eq_some_iff.mp ha
    simp [optional?, h n b hb]
  | _ :: _ :: _ => cases ha

end Node

namespace Reader

variable {d : Dialect}

/-- Whether tokens spell some elements and white space around them. -/
def Lays (d : Dialect) (tokens : List Token) (elements : List Node) : Prop :=
  ∃ nodes, Spells d tokens nodes ∧ (∀ n ∈ nodes, n.isElement = true ∨ n.isSpace = true) ∧
    Node.elements nodes = elements

namespace Lays

theorem nil : Lays d [] [] :=
  ⟨[], Spells.nil, by simp, rfl⟩

theorem append {ts us : List Token} {ns ms : List Node} (ht : Lays d ts ns)
    (hu : Lays d us ms) : Lays d (ts ++ us) (ns ++ ms) := by
  obtain ⟨nodes, hspells, hspace, rfl⟩ := ht
  obtain ⟨nodes', hspells', hspace', rfl⟩ := hu
  refine ⟨nodes ++ nodes', hspells.append hspells', ?_, Node.elements_append _ _⟩
  intro n hn
  rcases List.mem_append.mp hn with hn | hn
  · exact hspace n hn
  · exact hspace' n hn

/-- Elements that are laid out for the members of a list, one for each. -/
theorem exists_flatMap {α : Type} {f : α → List Token} {p : α → Node → Prop} {as : List α}
    (h : ∀ a ∈ as, ∃ n, Lays d (f a) [n] ∧ p a n) :
    ∃ ns, Lays d (as.flatMap f) ns ∧ List.Forall₂ p as ns := by
  induction as with
  | nil => exact ⟨[], nil, List.Forall₂.nil⟩
  | cons a as ih =>
    obtain ⟨n, hn, hp⟩ := h a List.mem_cons_self
    obtain ⟨ns, hns, hps⟩ := ih fun x hx => h x (List.mem_cons_of_mem _ hx)
    exact ⟨n :: ns, hn.append hns, List.Forall₂.cons hp hps⟩

/-- Elements that are laid out for the members of a list, where each is known. -/
theorem flatMap {α : Type} {f : α → List Token} {g : α → Node}
    (h : ∀ a, Lays d (f a) [g a]) (as : List α) : Lays d (as.flatMap f) (as.map g) := by
  induction as with
  | nil => exact nil
  | cons a as ih => exact (h a).append ih

theorem of_element {name : String} {tokens : List Token} {pairs : List (String × String)}
    {nodes : List Node} (h : Spells d tokens [.element name pairs nodes]) :
    Lays d tokens [.element name pairs nodes] :=
  ⟨_, h, by simp [Node.isElement], rfl⟩

/-- White space has no elements. -/
theorem of_space {s : String} (h : ∀ c ∈ s.toList, isSpace c = true) :
    Lays d [.text s] [] := by
  refine ⟨Node.ofText s, Spells.plain ?_, ?_, ?_⟩
  · intro c hc
    have hspace := h c hc
    refine ⟨?_, ?_⟩
    · rintro rfl
      exact absurd hspace (by decide)
    · rintro rfl
      exact absurd hspace (by decide)
  · intro n hn
    obtain ⟨c, hc, rfl⟩ := List.mem_map.mp hn
    exact Or.inr (h c hc)
  · apply List.filter_eq_nil_iff.mpr
    intro n hn
    obtain ⟨c, -, rfl⟩ := List.mem_map.mp hn
    simp [Node.isElement]

theorem line {tokens : List Token} {ns : List Node} (h : Lays d tokens ns) :
    Lays d (Markup.line tokens) ns := by
  have hnewline : Lays d [.newline] [] := of_space (s := "\n") (by decide)
  have hline := h.append hnewline
  rwa [List.append_nil] at hline

theorem indentation (level : Nat) : Lays d (Markup.indentation level) [] := by
  rw [Markup.indentation]
  split
  · exact nil
  · apply of_space
    intro c hc
    rw [String.toList_ofList] at hc
    rw [List.eq_of_mem_replicate hc]
    decide

theorem indented {tokens : List Token} {ns : List Node} (h : Lays d tokens ns)
    (level : Nat) : Lays d (Markup.indented level tokens) ns :=
  (indentation level).append h.line

/-- An element on lines of its own holds what its content holds. -/
theorem exists_blockElement {name : String} (hname : IsName name)
    (hcontainer : IsContainer d name) {attributes : List Attribute}
    {pairs : List (String × String)}
    (hattributes : List.Forall₂ (SpellsAttribute d) attributes pairs)
    {content : List Token} {ns : List Node} (hcontent : Lays d content ns) (level : Nat) :
    ∃ children, Lays d (blockElement level name attributes content)
        [.element name pairs children] ∧ Node.elements children = ns := by
  have hbefore : Lays d [.newline] [] := of_space (s := "\n") (by decide)
  obtain ⟨children, hspells, -, hchildren⟩ :=
    (hbefore.append hcontent).append (indentation level)
  refine ⟨children, ?_, by simpa using hchildren⟩
  have helement := of_element (Spells.element hname hcontainer hattributes hspells)
  have hsplit : blockElement level name attributes content = Markup.indentation level ++
      Markup.line (Markup.element name attributes
        ([.newline] ++ content ++ Markup.indentation level)) := by
    simp [blockElement, Markup.indented, Markup.line, Markup.element]
  rw [hsplit]
  simpa using (indentation level).append helement.line

/-- A text in an element on a line of its own. -/
theorem elementLine {name : String} (hname : IsName name) {attributes : List Attribute}
    {pairs : List (String × String)}
    (hattributes : List.Forall₂ (SpellsAttribute .xml) attributes pairs)
    {content : List Token} {nodes : List Node} (hcontent : Spells .xml content nodes)
    (level : Nat) :
    Lays .xml (Xml.elementLine level name attributes content)
      [.element name pairs nodes] :=
  (of_element (Spells.element hname (isContainer_xml name) hattributes hcontent)).indented level

/-- Any text in an element on a line of its own. -/
theorem leaf {name : String} (hname : IsName name) {attributes : List Attribute}
    {pairs : List (String × String)}
    (hattributes : List.Forall₂ (SpellsAttribute .xml) attributes pairs) (level : Nat)
    (s : String) :
    Lays .xml (Xml.elementLine level name attributes [Xml.text s])
      [.element name pairs (Node.ofText s)] :=
  elementLine hname hattributes (Spells.ofText s) level

theorem declaration {mark : Char} {cs : List Char}
    (h : (mark = '!' ∨ mark = '?') ∧ cs.getLast? = some '>' ∧
      ∀ c ∈ cs.dropLast, c ≠ '<' ∧ c ≠ '>') :
    Lays d (Markup.line [.raw (String.ofList ('<' :: mark :: cs))]) [] :=
  line ⟨[], Spells.declaration h, by simp, rfl⟩

/-- A document that lays out one element is read as that element. -/
theorem root?_eq {tokens : List Token} {n : Node} (h : Lays d tokens [n]) :
    root? d (render tokens) = some n := by
  obtain ⟨nodes, hspells, hspace, helements⟩ := h
  have hnodes := hspells.nodes?_eq
  have hall : (nodes.all fun n => n.isElement || n.isSpace) = true := by
    simpa using hspace
  rw [Node.elements] at helements
  rw [root?, hnodes]
  simp only [bind, Option.bind, hall, if_true, helements]

end Lays

end Reader

end Courseware.Markup
