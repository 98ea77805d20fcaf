import Courseware.Markup.Html
import Courseware.Markup.Xml
import Courseware.Proofs.Markup.Reader
import Courseware.Proofs.Text.Entity
import Mathlib.Data.List.Forall2

/-!
# What tokens spell

Tokens spell nodes when a reader between two tags, whatever it has read before,
reads exactly these nodes from the written tokens. What spells something can be
put together as markup is.
-/

namespace Courseware.Markup.Reader

open Text (Dialect)

variable {d : Dialect}

/-! ## Runs of the reader -/

@[simp] theorem read_nil (s : State) : read d [] s = some s := rfl

@[simp] theorem read_cons (c : Char) (cs : List Char) (s : State) :
    read d (c :: cs) s = (step d s c).bind (read d cs) := rfl

theorem read_append (cs ds : List Char) (s : State) :
    read d (cs ++ ds) s = (read d cs s).bind (read d ds) :=
  List.foldlM_append

theorem read_append_of_eq {cs : List Char} {s t : State} (h : read d cs s = some t)
    (ds : List Char) : read d (cs ++ ds) s = read d ds t := by
  rw [read_append, h, Option.bind_some]

/-- Characters that only make a word longer are read into it. -/
theorem read_word (mode : List Char → Mode) {p : Char → Prop} {b : Builder}
    (hstep : ∀ w c, p c → step d ⟨mode w, b⟩ c = some ⟨mode (c :: w), b⟩)
    {cs : List Char} (hcs : ∀ c ∈ cs, p c) (w : List Char) :
    read d cs ⟨mode w, b⟩ = some ⟨mode (cs.reverse ++ w), b⟩ := by
  induction cs generalizing w with
  | nil => rfl
  | cons c cs ih =>
    rw [read_cons, hstep w c (hcs c List.mem_cons_self), Option.bind_some,
      ih (fun x hx => hcs x (List.mem_cons_of_mem _ hx)), List.reverse_cons,
      List.append_assoc, List.singleton_append]

namespace Builder

@[simp] theorem push_nil (b : Builder) : b.push [] = b := rfl

theorem push_push (b : Builder) (ns ms : List Node) :
    (b.push ns).push ms = b.push (ns ++ ms) := by
  simp [push]

theorem stop?_start (b : Builder) (name : String) (attributes : List (String × String))
    (nodes : List Node) :
    ((b.start name attributes).push nodes).stop? name =
      some (b.push [.element name attributes nodes]) := by
  simp [push, start, stop?]

end Builder

/-! ## Escaped characters -/

theorem read_escapeChar (c : Char) (b : Builder) :
    read d (d.escapeChar c) ⟨.content, b⟩ = some ⟨.content, b.push [.character c]⟩ := by
  by_cases hspecial : Dialect.IsSpecial c
  · rcases hspecial with rfl | rfl | rfl | rfl | rfl <;> cases d <;> rfl
  · rw [Dialect.escapeChar_of_not_isSpecial hspecial]
    simp only [Dialect.IsSpecial, not_or] at hspecial
    simp [step, hspecial]

theorem read_value_escapeChar (t : Tag) (name : String) (w : List Char) (c : Char)
    (b : Builder) :
    read d (d.escapeChar c) ⟨.value t name w, b⟩ = some ⟨.value t name (c :: w), b⟩ := by
  by_cases hspecial : Dialect.IsSpecial c
  · rcases hspecial with rfl | rfl | rfl | rfl | rfl <;> cases d <;> rfl
  · rw [Dialect.escapeChar_of_not_isSpecial hspecial]
    simp only [Dialect.IsSpecial, not_or] at hspecial
    simp [step, hspecial]

/-! ## Texts -/

/-- Whether characters between tags are read as other characters. -/
def SpellsText (d : Dialect) (written cs : List Char) : Prop :=
  ∀ b, read d written ⟨.content, b⟩ = some ⟨.content, b.push (cs.map .character)⟩

theorem SpellsText.nil : SpellsText d [] [] := fun _ => rfl

theorem SpellsText.append {v w cs ds : List Char} (hv : SpellsText d v cs)
    (hw : SpellsText d w ds) : SpellsText d (v ++ w) (cs ++ ds) := by
  intro b
  rw [read_append_of_eq (hv b), hw, Builder.push_push, List.map_append]

theorem spellsText_escapeList (cs : List Char) : SpellsText d (d.escapeList cs) cs := by
  induction cs with
  | nil => exact SpellsText.nil
  | cons c cs ih =>
    have hc : SpellsText d (d.escapeChar c) [c] := fun b => read_escapeChar c b
    exact SpellsText.append hc ih

/-- Characters that are neither brackets nor ampersands stand for themselves. -/
theorem spellsText_self {cs : List Char} (h : ∀ c ∈ cs, c ≠ '<' ∧ c ≠ '&') :
    SpellsText d cs cs := by
  induction cs with
  | nil => exact SpellsText.nil
  | cons c cs ih =>
    have hc : SpellsText d [c] [c] := by
      intro b
      simp [step, h c List.mem_cons_self]
    exact SpellsText.append hc (ih fun x hx => h x (List.mem_cons_of_mem _ hx))

/-! ## Attributes -/

/-- Whether what is written in quotes is read as a value. -/
def SpellsValue (d : Dialect) (written value : List Char) : Prop :=
  ∀ t name w b, read d written ⟨.value t name w, b⟩ =
    some ⟨.value t name (value.reverse ++ w), b⟩

theorem SpellsValue.nil : SpellsValue d [] [] := fun _ _ _ _ => rfl

theorem SpellsValue.append {v w cs ds : List Char} (hv : SpellsValue d v cs)
    (hw : SpellsValue d w ds) : SpellsValue d (v ++ w) (cs ++ ds) := by
  intro t name r b
  rw [read_append_of_eq (hv t name r b), hw, List.reverse_append, List.append_assoc]

theorem spellsValue_escapeList (cs : List Char) : SpellsValue d (d.escapeList cs) cs := by
  induction cs with
  | nil => exact SpellsValue.nil
  | cons c cs ih =>
    have hc : SpellsValue d (d.escapeChar c) [c] := fun t name w b =>
      read_value_escapeChar t name w c b
    exact SpellsValue.append hc ih

/-- Characters that end nothing in quotes stand for themselves. -/
theorem spellsValue_self {cs : List Char} (h : ∀ c ∈ cs, c ≠ '"' ∧ c ≠ '&' ∧ c ≠ '<') :
    SpellsValue d cs cs := by
  intro t name w b
  refine read_word (.value t name) (p := fun c => c ≠ '"' ∧ c ≠ '&' ∧ c ≠ '<') ?_ h w
  rintro w c ⟨hquote, hamp, hlt⟩
  simp [step, hquote, hamp, hlt]

/-- Whether a character can follow a name or a value in a tag. -/
def EndsAttribute (c : Char) : Prop := isSpace c = true ∨ c = '/' ∨ c = '>'

theorem EndsAttribute.not_isNameChar {c : Char} (h : EndsAttribute c) :
    isNameChar c = false := by
  rcases h with h | rfl | rfl
  · simp [isNameChar, h]
  · decide
  · decide

theorem EndsAttribute.ne_equals {c : Char} (h : EndsAttribute c) : c ≠ '=' := by
  rintro rfl
  rcases h with h | h | h
  · exact absurd h (by decide)
  · exact absurd h (by decide)
  · exact absurd h (by decide)

/-- Whether a character that may follow a name or a value finds the reader as it
is behind the attributes that the tag has. -/
def AtEnd (d : Dialect) (s : State) (t : Tag) (b : Builder) : Prop :=
  ∀ c, EndsAttribute c → step d s c = delimiter d b t c

theorem atEnd_attributeEnd (t : Tag) (b : Builder) : AtEnd d ⟨.attributeEnd t, b⟩ t b :=
  fun _ _ => rfl

/-- Whether an attribute is read as a name and a value. -/
def SpellsAttribute (d : Dialect) (a : Attribute) (pair : String × String) : Prop :=
  ∀ s t b, AtEnd d s t b →
    ∃ s', read d a.render.toList s = some s' ∧ AtEnd d s' (t.add pair.1 pair.2) b

/-- Whether a word can be the name of a tag or an attribute. -/
def IsName (name : String) : Prop :=
  name.toList ≠ [] ∧ ∀ c ∈ name.toList, isNameChar c = true

instance (name : String) : Decidable (IsName name) :=
  inferInstanceAs (Decidable (_ ∧ _))

theorem isName_ofList {cs : List Char} (h : cs ≠ [] ∧ ∀ c ∈ cs, isNameChar c = true) :
    IsName (String.ofList cs) := by
  rw [IsName, String.toList_ofList]
  exact h

theorem IsName.append {s t : String} (hs : IsName s) (ht : IsName t) : IsName (s ++ t) := by
  obtain ⟨hne, hall⟩ := hs
  refine ⟨by simp [hne], ?_⟩
  intro c hc
  rw [String.toList_append] at hc
  rcases List.mem_append.mp hc with hc | hc
  · exact hall c hc
  · exact ht.2 c hc

/-- Whether a text can stand before an attribute. -/
def IsGap (gap : String) : Prop :=
  gap.toList ≠ [] ∧ ∀ c ∈ gap.toList, isSpace c = true

instance (gap : String) : Decidable (IsGap gap) :=
  inferInstanceAs (Decidable (_ ∧ _))

theorem not_isNameChar_of_isSpace {c : Char} (h : isSpace c = true) :
    isNameChar c = false := by
  simp [isNameChar, h]

theorem read_gap {gap : String} (hgap : IsGap gap) {s : State} {t : Tag} {b : Builder}
    (hend : AtEnd d s t b) : read d gap.toList s = some ⟨.gap t, b⟩ := by
  obtain ⟨hne, hall⟩ := hgap
  obtain ⟨c, cs, hcs⟩ := List.exists_cons_of_ne_nil hne
  rw [hcs] at hall ⊢
  have hspace : ∀ c, isSpace c = true → delimiter d b t c = some ⟨.gap t, b⟩ := by
    intro c hc
    rw [delimiter, if_pos hc]
  have hc := hall c List.mem_cons_self
  rw [read_cons, hend c (Or.inl hc), hspace c hc, Option.bind_some]
  have hrest := fun x hx => hall x (List.mem_cons_of_mem _ hx)
  clear hall hcs
  induction cs with
  | nil => rfl
  | cons x cs ih =>
    have hx := hrest x List.mem_cons_self
    rw [read_cons, step]
    simp only [not_isNameChar_of_isSpace hx, hspace x hx, Bool.false_eq_true, if_false,
      Option.bind_some]
    exact ih fun y hy => hrest y (List.mem_cons_of_mem _ hy)

theorem read_attributeName {name : String} (hname : IsName name) (t : Tag) (b : Builder) :
    read d name.toList ⟨.gap t, b⟩ = some ⟨.attributeName t name.toList.reverse, b⟩ := by
  obtain ⟨hne, hall⟩ := hname
  obtain ⟨c, cs, hcs⟩ := List.exists_cons_of_ne_nil hne
  rw [hcs] at hall ⊢
  rw [read_cons, step]
  simp only [hall c List.mem_cons_self, if_true, Option.bind_some]
  rw [read_word (.attributeName t) (p := fun c => isNameChar c = true)
    (fun w x hx => by simp [step, hx])
    (fun x hx => hall x (List.mem_cons_of_mem _ hx)), List.reverse_cons]

theorem not_isNameChar_equals : isNameChar '=' = false := by decide

/-- An attribute with a value is read as what the value spells. -/
theorem spellsAttribute {a : Attribute} (hgap : IsGap a.gap) (hname : IsName a.name)
    {written value : String} (hvalue : a.value = some written)
    (hspells : SpellsValue d written.toList value.toList) :
    SpellsAttribute d a (a.name, value) := by
  intro s t b hend
  refine ⟨⟨.attributeEnd (t.add a.name value), b⟩, ?_, atEnd_attributeEnd _ _⟩
  have hrender : a.render.toList =
      a.gap.toList ++ (a.name.toList ++ ('=' :: '"' :: (written.toList ++ ['"']))) := by
    simp [Attribute.render, hvalue]
  rw [hrender, read_append_of_eq (read_gap hgap hend),
    read_append_of_eq (read_attributeName hname t b), read_cons, step]
  simp only [not_isNameChar_equals, Bool.false_eq_true, if_false, if_true, Option.bind_some,
    List.reverse_reverse, String.ofList_toList]
  rw [read_cons, step]
  simp only [if_true, Option.bind_some]
  rw [read_append_of_eq (hspells t a.name [] b), read_cons, step]
  simp

/-- In pages, a name alone is read as an attribute without value. -/
theorem spellsAttribute_flag {name : String} (hname : IsName name) :
    SpellsAttribute .html (.flag name) (name, "") := by
  intro s t b hend
  refine ⟨⟨.attributeName t name.toList.reverse, b⟩, ?_, ?_⟩
  · have hrender : (Attribute.flag name).render.toList = " ".toList ++ name.toList := by
      simp [Attribute.render, Attribute.flag]
    rw [hrender, read_append_of_eq (read_gap (by decide) hend),
      read_attributeName hname t b]
  · intro c hc
    simp only [step, hc.not_isNameChar, hc.ne_equals, Bool.false_eq_true, if_false, if_true,
      List.reverse_reverse, String.ofList_toList]

theorem spellsAttribute_ofText {name : String} (hname : IsName name) (s : String) :
    SpellsAttribute d (.ofText d name s) (name, s) := by
  refine spellsAttribute (a := .ofText d name s) (show IsGap " " by decide) hname rfl ?_
  rw [Dialect.toList_escape]
  exact spellsValue_escapeList s.toList

/-- Whether a value is written in quotes as it is. -/
def IsPlainValue (s : String) : Prop :=
  ∀ c ∈ s.toList, c ≠ '"' ∧ c ≠ '&' ∧ c ≠ '<'

instance (s : String) : Decidable (IsPlainValue s) :=
  inferInstanceAs (Decidable (∀ c ∈ s.toList, _))

theorem isPlainValue_ofList {cs : List Char} (h : ∀ c ∈ cs, c ≠ '"' ∧ c ≠ '&' ∧ c ≠ '<') :
    IsPlainValue (String.ofList cs) := by
  rw [IsPlainValue, String.toList_ofList]
  exact h

theorem IsPlainValue.append {s t : String} (hs : IsPlainValue s) (ht : IsPlainValue t) :
    IsPlainValue (s ++ t) := by
  intro c hc
  rw [String.toList_append] at hc
  rcases List.mem_append.mp hc with hc | hc
  · exact hs c hc
  · exact ht c hc

theorem spellsAttribute_literal {name written : String} (hname : IsName name)
    (hplain : IsPlainValue written) :
    SpellsAttribute d (.literal name written) (name, written) :=
  spellsAttribute (a := .literal name written) (show IsGap " " by decide) hname rfl
    (spellsValue_self hplain)

theorem spellsAttribute_onLine {name written : String} (hname : IsName name)
    (hplain : IsPlainValue written) :
    SpellsAttribute d (.onLine name written) (name, written) :=
  spellsAttribute (a := .onLine name written) (show IsGap "\n  " by decide) hname rfl
    (spellsValue_self hplain)

/-- Attributes in a tag are read one after the other. -/
theorem read_attributes {attributes : List Attribute} {pairs : List (String × String)}
    (h : List.Forall₂ (SpellsAttribute d) attributes pairs) {s : State} {t : Tag}
    {b : Builder} (hend : AtEnd d s t b) :
    ∃ s', read d (String.join (attributes.map Attribute.render)).toList s = some s' ∧
      AtEnd d s' ⟨t.name, t.attributes ++ pairs⟩ b := by
  induction h generalizing s t with
  | nil => exact ⟨s, rfl, by simpa using hend⟩
  | @cons a pair attributes pairs ha _ ih =>
    obtain ⟨s₁, hfirst, hend₁⟩ := ha s t b hend
    obtain ⟨s₂, hrest, hend₂⟩ := ih hend₁
    refine ⟨s₂, ?_, by simpa [Tag.add] using hend₂⟩
    have hsplit : (String.join ((a :: attributes).map Attribute.render)).toList =
        a.render.toList ++ (String.join (attributes.map Attribute.render)).toList := by
      simp
    rw [hsplit, read_append_of_eq hfirst, hrest]

/-! ## Tokens -/

/-- Whether tokens are read as nodes. -/
def Spells (d : Dialect) (tokens : List Token) (nodes : List Node) : Prop :=
  ∀ b, read d (render tokens).toList ⟨.content, b⟩ = some ⟨.content, b.push nodes⟩

theorem toList_render (ts : List Token) :
    (render ts).toList = ts.flatMap fun t => t.render.toList := by
  simp [render, List.flatMap_map]

theorem toList_render_append (ts us : List Token) :
    (render (ts ++ us)).toList = (render ts).toList ++ (render us).toList := by
  simp [render]

theorem toList_render_cons (t : Token) (ts : List Token) :
    (render (t :: ts)).toList = t.render.toList ++ (render ts).toList := by
  simp [render]

namespace Spells

theorem nil : Spells d [] [] := fun _ => rfl

theorem append {ts us : List Token} {ns ms : List Node} (ht : Spells d ts ns)
    (hu : Spells d us ms) : Spells d (ts ++ us) (ns ++ ms) := by
  intro b
  rw [toList_render_append, read_append_of_eq (ht b), hu, Builder.push_push]

theorem cons {t : Token} {us : List Token} {ns ms : List Node} (ht : Spells d [t] ns)
    (hu : Spells d us ms) : Spells d (t :: us) (ns ++ ms) :=
  ht.append hu

/-- What is spelled is what is read from a whole document. -/
theorem nodes?_eq {tokens : List Token} {nodes : List Node} (h : Spells d tokens nodes) :
    nodes? d (render tokens) = some nodes := by
  rw [nodes?, initial, h]
  simp [Builder.push]

theorem of_text {written : String} {cs : List Char} (h : SpellsText d written.toList cs) :
    Spells d [.text written] (cs.map .character) := by
  intro b
  have hrender : (render [.text written]).toList = written.toList := by
    simp [render, Token.render]
  rw [hrender]
  exact h b

theorem ofText (s : String) : Spells d [.ofText d s] (Node.ofText s) := by
  refine of_text ?_
  rw [Dialect.toList_escape]
  exact spellsText_escapeList s.toList

/-- A text without brackets and ampersands stands for itself. -/
theorem plain {s : String} (h : ∀ c ∈ s.toList, c ≠ '<' ∧ c ≠ '&') :
    Spells d [.text s] (Node.ofText s) :=
  of_text (spellsText_self h)

theorem newline : Spells d [.newline] [.character '\n'] :=
  plain (s := "\n") (by decide)

/-- What a declaration says is passed over. -/
theorem declaration {mark : Char} {cs : List Char}
    (h : (mark = '!' ∨ mark = '?') ∧ cs.getLast? = some '>' ∧
      ∀ c ∈ cs.dropLast, c ≠ '<' ∧ c ≠ '>') :
    Spells d [.raw (String.ofList ('<' :: mark :: cs))] [] := by
  obtain ⟨hmark, hlast, hcs⟩ := h
  intro b
  have hrender : (render [.raw (String.ofList ('<' :: mark :: cs))]).toList =
      '<' :: mark :: (cs.dropLast ++ ['>']) := by
    rw [List.dropLast_append_getLast? '>' hlast]
    simp [render, Token.render]
  have hbody : read d cs.dropLast ⟨.declaration, b⟩ = some ⟨.declaration, b⟩ := by
    refine read_word (fun _ => .declaration) (p := fun c => c ≠ '<' ∧ c ≠ '>') ?_ hcs []
    rintro w c ⟨hopen, hclose⟩
    simp [step, hopen, hclose]
  have hstart : step d ⟨.bracket, b⟩ mark = some ⟨.declaration, b⟩ := by
    rcases hmark with rfl | rfl <;> simp [step]
  have hfirst : step d ⟨.content, b⟩ '<' = some ⟨.bracket, b⟩ := rfl
  rw [hrender, read_cons, hfirst, Option.bind_some, read_cons, hstart, Option.bind_some,
    read_append_of_eq hbody]
  rfl

end Spells

/-! ## Tags -/

theorem read_startName {name : String} (hname : IsName name) (b : Builder) :
    read d name.toList ⟨.bracket, b⟩ = some ⟨.startName name.toList.reverse, b⟩ := by
  obtain ⟨hne, hall⟩ := hname
  obtain ⟨c, cs, hcs⟩ := List.exists_cons_of_ne_nil hne
  rw [hcs] at hall ⊢
  have hc := hall c List.mem_cons_self
  have hmarks : c ≠ '/' ∧ ¬ (c = '!' ∨ c = '?') := by
    refine ⟨?_, ?_⟩
    · rintro rfl
      exact absurd hc (by decide)
    · rintro (rfl | rfl) <;> exact absurd hc (by decide)
  rw [read_cons, step]
  simp only [hmarks.1, hmarks.2, hc, if_true, if_false, Option.bind_some]
  rw [read_word .startName (p := fun c => isNameChar c = true)
    (fun w x hx => by simp [step, hx])
    (fun x hx => hall x (List.mem_cons_of_mem _ hx)), List.reverse_cons]

/-- Behind its attributes a tag has been read up to its end. -/
theorem read_openTag {name : String} (hname : IsName name) {attributes : List Attribute}
    {pairs : List (String × String)}
    (hattributes : List.Forall₂ (SpellsAttribute d) attributes pairs) (b : Builder) :
    ∃ s, read d ('<' :: (name.toList ++
        (String.join (attributes.map Attribute.render)).toList)) ⟨.content, b⟩ = some s ∧
      AtEnd d s ⟨name, pairs⟩ b := by
  have hend : AtEnd d ⟨.startName name.toList.reverse, b⟩ ⟨name, []⟩ b := by
    intro c hc
    simp only [step, hc.not_isNameChar, Bool.false_eq_true, if_false, List.reverse_reverse,
      String.ofList_toList]
  obtain ⟨s, hread, hs⟩ := read_attributes hattributes hend
  refine ⟨s, ?_, hs⟩
  have hfirst : step d ⟨.content, b⟩ '<' = some ⟨.bracket, b⟩ := rfl
  rw [read_cons, hfirst, Option.bind_some, read_append_of_eq (read_startName hname b), hread]

theorem read_start {name : String} (hname : IsName name) {attributes : List Attribute}
    {pairs : List (String × String)}
    (hattributes : List.Forall₂ (SpellsAttribute d) attributes pairs) (b : Builder) :
    read d (Token.start name attributes).render.toList ⟨.content, b⟩ =
      some (startTag d b ⟨name, pairs⟩) := by
  obtain ⟨s, hread, hend⟩ := read_openTag hname hattributes b
  have hrender : (Token.start name attributes).render.toList =
      ('<' :: (name.toList ++ (String.join (attributes.map Attribute.render)).toList)) ++
        ['>'] := by
    simp [Token.render]
  rw [hrender, read_append_of_eq hread, read_cons, hend '>' (by simp [EndsAttribute])]
  rfl

theorem read_stop {name : String} (hname : IsName name) {b b' : Builder}
    (hstop : b.stop? name = some b') :
    read d (Token.stop name).render.toList ⟨.content, b⟩ = some ⟨.content, b'⟩ := by
  have hrender : (Token.stop name).render.toList = '<' :: '/' :: (name.toList ++ ['>']) := by
    simp [Token.render]
  have hword : read d name.toList ⟨.stopName [], b⟩ =
      some ⟨.stopName name.toList.reverse, b⟩ := by
    rw [read_word .stopName (p := fun c => isNameChar c = true) (b := b) ?_ hname.2,
      List.append_nil]
    intro w c hc
    have hne : c ≠ '>' := by
      rintro rfl
      exact absurd hc (by decide)
    simp [step, hc, hne]
  have hfirst : step d ⟨.content, b⟩ '<' = some ⟨.bracket, b⟩ := rfl
  have hsecond : step d ⟨.bracket, b⟩ '/' = some ⟨.stopName [], b⟩ := rfl
  rw [hrender, read_cons, hfirst, Option.bind_some, read_cons, hsecond, Option.bind_some,
    read_append_of_eq hword, read_cons, step]
  simp [hstop]

/-- Whether the start tag of an element is followed by markup and by an end tag. -/
def IsContainer : Dialect → String → Prop
  | .xml, _ => True
  | .html, name => name ∉ voidElements ∧ name ≠ "script"

instance (d : Dialect) (name : String) : Decidable (IsContainer d name) :=
  match d with
  | .xml => inferInstanceAs (Decidable True)
  | .html => inferInstanceAs (Decidable (_ ∧ _))

theorem isContainer_xml (name : String) : IsContainer .xml name := trivial

theorem startTag_of_isContainer {t : Tag} (h : IsContainer d t.name) (b : Builder) :
    startTag d b t = ⟨.content, b.start t.name t.attributes⟩ := by
  cases d with
  | xml => simp [startTag]
  | html => simp [startTag, h.1, h.2]

namespace Spells

/-- An element is read as an element with what its content spells. -/
theorem element {name : String} (hname : IsName name) (hcontainer : IsContainer d name)
    {attributes : List Attribute} {pairs : List (String × String)}
    (hattributes : List.Forall₂ (SpellsAttribute d) attributes pairs)
    {content : List Token} {nodes : List Node} (hcontent : Spells d content nodes) :
    Spells d (Markup.element name attributes content) [.element name pairs nodes] := by
  intro b
  have hstop := Builder.stop?_start b name pairs nodes
  have htail : render [Token.stop name] = (Token.stop name).render := by
    simp [render]
  have htag := startTag_of_isContainer (t := ⟨name, pairs⟩) hcontainer b
  rw [Markup.element, List.cons_append, toList_render_cons,
    read_append_of_eq (read_start hname hattributes b), htag, toList_render_append,
    read_append_of_eq (hcontent _), htail, read_stop hname hstop]

theorem empty {name : String} (hname : IsName name) {attributes : List Attribute}
    {pairs : List (String × String)}
    (hattributes : List.Forall₂ (SpellsAttribute d) attributes pairs) :
    Spells d [.empty name attributes] [.element name pairs []] := by
  intro b
  obtain ⟨s, hread, hend⟩ := read_openTag hname hattributes b
  have hrender : (render [Token.empty name attributes]).toList =
      ('<' :: (name.toList ++ (String.join (attributes.map Attribute.render)).toList)) ++
        ['/', '>'] := by
    simp [render, Token.render]
  rw [hrender, read_append_of_eq hread, read_cons, hend '/' (by simp [EndsAttribute])]
  rfl

/-- In pages, some start tags make an element without content. -/
theorem void {name : String} (hname : IsName name) (hvoid : name ∈ voidElements)
    {attributes : List Attribute} {pairs : List (String × String)}
    (hattributes : List.Forall₂ (SpellsAttribute .html) attributes pairs) :
    Spells .html [.start name attributes] [.element name pairs []] := by
  intro b
  have hrender : render [Token.start name attributes] =
      (Token.start name attributes).render := by
    simp [render]
  rw [hrender, read_start hname hattributes b]
  simp [startTag, hvoid]

end Spells

end Courseware.Markup.Reader
