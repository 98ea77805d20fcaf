import Courseware.Proofs.Markup.Layout

/-!
# Pages as trees

The helpers that pages are written with, as a reader of pages sees them: what texts of
several lines spell, how such texts are told from the tree, and the tags of a tree in
the order in which they are written.
-/

namespace Courseware.Markup

namespace Node

/-! ## Texts -/

/-- The text that some nodes are, when no element is among them. -/
def plain? (nodes : List Node) : Option String :=
  (nodes.mapM character?).map String.ofList

@[simp] theorem plain?_ofText (s : String) : plain? (ofText s) = some s := by
  have hchars : ∀ cs : List Char, (cs.map character).mapM character? = some cs := by
    intro cs
    induction cs with
    | nil => rfl
    | cons c cs ih => simp [List.mapM_cons, character?, ih]
  rw [plain?, ofText, hchars, Option.map_some, String.ofList_toList]

/-- A text of several lines, where an element stands for each line break. -/
def ofLines (s : String) : List Node :=
  s.toList.flatMap fun c =>
    if c = '\n' then [.element "br" [] [], .character c] else [.character c]

/-- The characters of a text of several lines, in which every line break stands
behind its element. -/
def lineChars? : List Node → Option (List Char)
  | [] => some []
  | .element "br" [] [] :: .character '\n' :: nodes => (lineChars? nodes).map ('\n' :: ·)
  | .character c :: nodes => if c = '\n' then none else (lineChars? nodes).map (c :: ·)
  | _ => none

/-- The text of several lines that some nodes are. -/
def lines? (nodes : List Node) : Option String :=
  (lineChars? nodes).map String.ofList

@[simp] theorem lines?_ofLines (s : String) : lines? (ofLines s) = some s := by
  suffices hchars : lineChars? (ofLines s) = some s.toList by
    rw [lines?, hchars, Option.map_some, String.ofList_toList]
  rw [ofLines]
  induction s.toList with
  | nil => rfl
  | cons c cs ih =>
    by_cases hc : c = '\n'
    · simp [hc, lineChars?, ih]
    · simp [hc, lineChars?, ih]

/-! ## Elements between white space -/

/-- The elements among some nodes, when all else is white space. -/
def items? (nodes : List Node) : Option (List Node) :=
  if nodes.all fun n => n.isElement || n.isSpace then some (elements nodes) else none

/-- What is read in an element with a name and attributes. -/
def inside? {α : Type} (name : String) (attributes : List (String × String))
    (read : List Node → Option α) : Node → Option α
  | element n as nodes => if n = name ∧ as = attributes then read nodes else none
  | character _ => none

@[simp] theorem inside?_element {α : Type} (name : String)
    (attributes : List (String × String)) (read : List Node → Option α)
    (nodes : List Node) :
    inside? name attributes read (element name attributes nodes) = read nodes := by
  simp [inside?]

theorem mapM_map {α : Type} {f : Node → Option α} {g : α → Node} (h : ∀ a, f (g a) = some a)
    (as : List α) : (as.map g).mapM f = some as := by
  induction as with
  | nil => rfl
  | cons a as ih => simp only [List.map_cons, List.mapM_cons, h, ih]; rfl

theorem optional?_map {α : Type} {f : Node → Option α} {g : α → Node}
    (h : ∀ a, f (g a) = some a) (o : Option α) :
    optional? f (o.toList.map g) = some o := by
  cases o with
  | none => rfl
  | some a => simp [optional?, h]

end Node

/-! ## Tags -/

/-- A tag as it is written, without the values of its attributes. -/
inductive Mark
  | start (name : String) (attributes : List String)
  | stop (name : String)
  deriving DecidableEq, Repr

mutual

/-- The tags that a node is written with, in order. -/
def Node.marks : Node → List Mark
  | .character _ => []
  | .element name attributes nodes =>
    .start name (attributes.map Prod.fst) ::
      if name ∈ Reader.voidElements then [] else Node.marksOf nodes ++ [.stop name]

/-- The tags that some nodes are written with, in order. -/
def Node.marksOf : List Node → List Mark
  | [] => []
  | n :: ns => n.marks ++ Node.marksOf ns

end

/-- The tags of an element that has a start tag and an end tag. -/
def Mark.around (name : String) (attributes : List String) (inner : List Mark) : List Mark :=
  .start name attributes :: inner ++ [.stop name]

namespace Node

@[simp] theorem marksOf_append (ns ms : List Node) :
    marksOf (ns ++ ms) = marksOf ns ++ marksOf ms := by
  induction ns with
  | nil => rfl
  | cons n ns ih => rw [List.cons_append, marksOf, marksOf, ih, List.append_assoc]

theorem marks_element {name : String} (h : name ∉ Reader.voidElements)
    (attributes : List (String × String)) (nodes : List Node) :
    (element name attributes nodes).marks =
      Mark.around name (attributes.map Prod.fst) (marksOf nodes) := by
  rw [marks, if_neg h]
  rfl

@[simp] theorem marksOf_ofText (s : String) : marksOf (ofText s) = [] := by
  rw [ofText]
  induction s.toList with
  | nil => rfl
  | cons c cs ih => rw [List.map_cons, marksOf, ih, marks, List.nil_append]

/-- The tags of a text of several lines are those of its line breaks. -/
@[simp] theorem marksOf_ofLines (s : String) :
    marksOf (ofLines s) = List.replicate (s.toList.count '\n') (.start "br" []) := by
  have hbreak : "br" ∈ Reader.voidElements := by decide
  rw [ofLines]
  induction s.toList with
  | nil => rfl
  | cons c cs ih =>
    rw [List.flatMap_cons, marksOf_append, ih]
    by_cases hc : c = '\n'
    · simp [hc, marksOf, marks, hbreak, List.replicate_succ]
    · simp [hc, marksOf, marks]

/-- White space between elements has no tags. -/
theorem marksOf_of_items? {nodes items : List Node} (h : items? nodes = some items) :
    marksOf nodes = marksOf items := by
  have helements : elements nodes = items := by
    rw [items?] at h
    split at h
    · exact Option.some.inj h
    · cases h
  rw [← helements]
  clear h helements
  induction nodes with
  | nil => rfl
  | cons n ns ih =>
    cases n with
    | character c =>
      rw [marksOf, ih]
      simp [marks, elements, isElement]
    | element name attributes nodes =>
      rw [marksOf, ih, elements, elements, List.filter_cons_of_pos rfl, marksOf]

theorem marks_of_items? {name : String} (h : name ∉ Reader.voidElements)
    {nodes items : List Node} (hitems : items? nodes = some items)
    (attributes : List (String × String)) :
    (element name attributes nodes).marks =
      Mark.around name (attributes.map Prod.fst) (marksOf items) := by
  rw [marks_element h, marksOf_of_items? hitems]

theorem marksOf_of_forall₂ {α : Type} {m : α → List Mark} {as : List α} {ns : List Node}
    (h : List.Forall₂ (fun a n => n.marks = m a) as ns) : marksOf ns = as.flatMap m := by
  induction h with
  | nil => rfl
  | cons ha _ ih => rw [marksOf, ha, ih, List.flatMap_cons]

end Node

namespace Mark

/-- Whether every start tag is closed by its own end tag and in turn, where the elements
`opened` are open, the innermost first. Some start tags stand alone. -/
def nested (alone : List String) : (opened : List String) → List Mark → Bool
  | opened, [] => opened.isEmpty
  | opened, .start name _ :: ms =>
    nested alone (if name ∈ alone then opened else name :: opened) ms
  | [], .stop _ :: _ => false
  | name :: opened, .stop other :: ms => name == other && nested alone opened ms

/-- Whether tags leave open what was open before them and nothing else. -/
def Nests (alone : List String) (ms : List Mark) : Prop :=
  ∀ opened rest, nested alone opened (ms ++ rest) = nested alone opened rest

namespace Nests

variable {alone : List String}

theorem nil : Nests alone [] := fun _ _ => rfl

theorem append {ms ns : List Mark} (hm : Nests alone ms) (hn : Nests alone ns) :
    Nests alone (ms ++ ns) := by
  intro opened rest
  rw [List.append_assoc, hm, hn]

theorem flatMap {α : Type} {f : α → List Mark} {as : List α}
    (h : ∀ a ∈ as, Nests alone (f a)) : Nests alone (as.flatMap f) := by
  induction as with
  | nil => exact nil
  | cons a as ih =>
    rw [List.flatMap_cons]
    exact (h a List.mem_cons_self).append (ih fun x hx => h x (List.mem_cons_of_mem _ hx))

theorem single {name : String} (h : name ∈ alone) (attributes : List String) :
    Nests alone [.start name attributes] := by
  intro opened rest
  simp [nested, h]

theorem replicate {m : Mark} (h : Nests alone [m]) (n : Nat) :
    Nests alone (List.replicate n m) := by
  induction n with
  | zero => exact nil
  | succ n ih => exact h.append ih

theorem around {name : String} (h : name ∉ alone) (attributes : List String)
    {ms : List Mark} (hms : Nests alone ms) : Nests alone (around name attributes ms) := by
  intro opened rest
  rw [Mark.around, List.cons_append, List.cons_append, List.append_assoc, nested, if_neg h,
    hms]
  simp [nested]

theorem nested_eq_true {ms : List Mark} (h : Nests alone ms) : nested alone [] ms = true := by
  have hms := h [] []
  rwa [List.append_nil] at hms

end Nests

end Mark

namespace Reader

open Text (Dialect)

variable {d : Dialect}

/-! ## Attributes -/

/-- Whether the attributes of a page are read as pairs. -/
abbrev Pairs (attributes : List Attribute) (pairs : List (String × String)) : Prop :=
  List.Forall₂ (SpellsAttribute .html) attributes pairs

namespace Pairs

variable {attributes : List Attribute} {pairs : List (String × String)}

theorem nil : Pairs [] [] := List.Forall₂.nil

theorem attr {name : String} (hname : IsName name) (s : String) (h : Pairs attributes pairs) :
    Pairs (Html.attr name s :: attributes) ((name, s) :: pairs) :=
  List.Forall₂.cons (spellsAttribute_ofText hname s) h

theorem fixed {name written : String} (hname : IsName name) (hplain : IsPlainValue written)
    (h : Pairs attributes pairs) :
    Pairs (Html.fixed name written :: attributes) ((name, written) :: pairs) :=
  List.Forall₂.cons (spellsAttribute_literal hname hplain) h

theorem flag {name : String} (hname : IsName name) (h : Pairs attributes pairs) :
    Pairs (Attribute.flag name :: attributes) ((name, "") :: pairs) :=
  List.Forall₂.cons (spellsAttribute_flag hname) h

theorem truth {name : String} (hname : IsName name) (b : Bool) (h : Pairs attributes pairs) :
    Pairs (Html.truth name b :: attributes) ((name, if b then "true" else "false") :: pairs) := by
  refine List.Forall₂.cons (spellsAttribute_literal hname ?_) h
  cases b with
  | true => exact isPlainValue_ofList (by decide)
  | false => exact isPlainValue_ofList (by decide)

/-- Any attribute in front of others. -/
theorem cons {a : Attribute} {pair : String × String} (ha : SpellsAttribute .html a pair)
    (h : Pairs attributes pairs) : Pairs (a :: attributes) (pair :: pairs) :=
  List.Forall₂.cons ha h

end Pairs

/-! ## Texts -/

theorem Spells.lines (s : String) : Spells .html (Html.multiline s) (Node.ofLines s) := by
  -- The characters of the line that is being read stand before the rest of the text.
  have hfrom : ∀ cs line, ∃ first rest,
      Html.linesFrom line cs = (line ++ first) :: rest ∧
      Spells .html
        (Html.text (String.ofList first) :: (rest.map String.ofList).flatMap fun l =>
          [.start "br" [], .text "\n", Html.text l])
        (Node.ofLines (String.ofList cs)) := by
    intro cs
    induction cs with
    | nil =>
      intro line
      exact ⟨[], [], by simp [Html.linesFrom], Spells.ofText _⟩
    | cons c cs ih =>
      intro line
      by_cases hc : c = '\n'
      · obtain ⟨first, rest, hlines, hspells⟩ := ih []
        refine ⟨[], first :: rest, by simp [Html.linesFrom, hc, hlines], ?_⟩
        have hbreak : Spells .html [.start "br" []] [.element "br" [] []] :=
          Spells.void (isName_ofList (by decide)) (by decide) .nil
        have hempty : Spells .html [Html.text (String.ofList [])] [] := Spells.ofText _
        have hall := hempty.cons (hbreak.cons (Spells.newline.cons hspells))
        simpa [Node.ofLines, hc, Token.newline] using hall
      · obtain ⟨first, rest, hlines, hspells⟩ := ih (line ++ [c])
        refine ⟨c :: first, rest, by simp [Html.linesFrom, hc, hlines], ?_⟩
        intro b
        have hchar := read_escapeChar (d := .html) c b
        have hrest := hspells (b.push [.character c])
        rw [toList_render_cons] at hrest ⊢
        have hsplit : (Html.text (String.ofList (c :: first))).render.toList =
            Dialect.html.escapeChar c ++ (Html.text (String.ofList first)).render.toList := by
          simp [Html.text, Token.ofText, Token.render, Dialect.escape, Dialect.escapeList]
        rw [hsplit, List.append_assoc, read_append_of_eq hchar, hrest, Builder.push_push]
        simp [Node.ofLines, hc]
  obtain ⟨first, rest, hlines, hspells⟩ := hfrom s.toList []
  rw [String.ofList_toList] at hspells
  rw [Html.multiline, Html.lines, hlines]
  simpa using hspells

/-! ## Layout -/

namespace Lays

/-- What an element holds that lays out other elements. -/
theorem exists_element {name : String} (hname : IsName name) (hcontainer : IsContainer d name)
    {attributes : List Attribute} {pairs : List (String × String)}
    (hattributes : List.Forall₂ (SpellsAttribute d) attributes pairs)
    {content : List Token} {ns : List Node} (hcontent : Lays d content ns) :
    ∃ nodes, Spells d (Markup.element name attributes content) [.element name pairs nodes] ∧
      Node.items? nodes = some ns := by
  obtain ⟨nodes, hspells, hspace, helements⟩ := hcontent
  refine ⟨nodes, Spells.element hname hcontainer hattributes hspells, ?_⟩
  have hall : (nodes.all fun n => n.isElement || n.isSpace) = true := by
    simpa using hspace
  rw [Node.items?, if_pos hall, helements]

theorem newline_cons {tokens : List Token} {ns : List Node} (h : Lays d tokens ns) :
    Lays d (.newline :: tokens) ns := by
  have hnewline : Lays d [.newline] [] := of_space (s := "\n") (by decide)
  exact hnewline.append h

theorem whenSome {α : Type} {f : α → List Token} {g : α → Node}
    (h : ∀ a, Lays d (f a) [g a]) (value : Option α) :
    Lays d (Markup.whenSome value f) (value.toList.map g) := by
  cases value with
  | none => exact nil
  | some a => exact h a

end Lays

end Reader

end Courseware.Markup
