import Courseware.Markup.Xml
import Courseware.Proofs.Text.Entity
import Courseware.Proofs.Text.Words
import Courseware.Text.Href

/-!
# The characters of documents

XML leaves most control characters out of documents, also out of escaped texts. Escaping
leaves these characters as they are, so a document holds them whenever a text in it does.
-/

namespace Courseware.Text

/-- The characters that a document may hold, by section 2.2 of XML 1.0. -/
def IsXmlChar (c : Char) : Prop :=
  c = '\t' ∨ c = '\n' ∨ c = '\r' ∨ (0x20 ≤ c.toNat ∧ c.toNat ≤ 0xD7FF) ∨
    (0xE000 ≤ c.toNat ∧ c.toNat ≤ 0xFFFD) ∨ (0x10000 ≤ c.toNat ∧ c.toNat ≤ 0x10FFFF)

instance (c : Char) : Decidable (IsXmlChar c) := inferInstanceAs (Decidable (_ ∨ _))

/-- Whether a document may hold all characters of a text. -/
def IsXmlText (s : String) : Prop := ∀ c ∈ s.toList, IsXmlChar c

instance (s : String) : Decidable (IsXmlText s) := decidableForallChars IsXmlChar s.toList

theorem isXmlText_ofList {cs : List Char} :
    IsXmlText (String.ofList cs) ↔ ∀ c ∈ cs, IsXmlChar c := by
  rw [IsXmlText, String.toList_ofList]

@[simp] theorem isXmlText_append {s t : String} :
    IsXmlText (s ++ t) ↔ IsXmlText s ∧ IsXmlText t := by
  rw [IsXmlText, String.toList_append, List.forall_mem_append]
  rfl

theorem isXmlText_join {ss : List String} :
    IsXmlText (String.join ss) ↔ ∀ s ∈ ss, IsXmlText s := by
  induction ss with
  | nil => simp [IsXmlText]
  | cons s ss ih => rw [String.join_cons, isXmlText_append, ih, List.forall_mem_cons]

theorem isXmlText_intercalate {separator : String} (hseparator : IsXmlText separator)
    {ss : List String} (h : ∀ s ∈ ss, IsXmlText s) : IsXmlText (separator.intercalate ss) := by
  induction ss with
  | nil => simp [IsXmlText]
  | cons s ss ih =>
    cases ss with
    | nil => simpa using h s List.mem_cons_self
    | cons t ss =>
      have hrest := ih fun x hx => h x (List.mem_cons_of_mem _ hx)
      rw [String.intercalate_cons_cons]
      simp [h s List.mem_cons_self, hseparator, hrest]

/-- Printable characters of ASCII may stand in a document. -/
theorem isXmlChar_of_range {c : Char} (h : 32 ≤ c.toNat ∧ c.toNat < 128) : IsXmlChar c :=
  Or.inr (Or.inr (Or.inr (Or.inl ⟨h.1, by omega⟩)))

theorem isXmlText_of_range {s : String} (h : ∀ c ∈ s.toList, 32 ≤ c.toNat ∧ c.toNat < 128) :
    IsXmlText s :=
  fun c hc => isXmlChar_of_range (h c hc)

/-- Escaping writes out no other characters than those of a text. -/
theorem forall_mem_escapeChar {d : Dialect} {c : Char} :
    (∀ x ∈ d.escapeChar c, IsXmlChar x) ↔ IsXmlChar c := by
  by_cases hspecial : Dialect.IsSpecial c
  · rcases hspecial with rfl | rfl | rfl | rfl | rfl <;> cases d <;> decide
  · rw [Dialect.escapeChar_of_not_isSpecial hspecial, List.forall_mem_singleton]

@[simp] theorem isXmlText_escape {d : Dialect} {s : String} :
    IsXmlText (d.escape s) ↔ IsXmlText s := by
  rw [Dialect.escape, isXmlText_ofList, Dialect.escapeList, List.forall_mem_flatMap]
  exact forall₂_congr fun _ _ => forall_mem_escapeChar

@[simp] theorem isXmlText_pathSegment (id : String) : IsXmlText (pathSegment id) := by
  refine isXmlText_of_range fun c hc => ?_
  have hrange := isSegmentChar_range (isSegmentChar_of_mem_pathSegment hc)
  omega

theorem isXmlChar_upperHexDigit : ∀ n < 16, IsXmlChar (upperHexDigit n) := by
  decide

/-- A link is written in ASCII. -/
@[simp] theorem isXmlText_encodeHref (path : String) : IsXmlText (encodeHref path) := by
  rw [encodeHref, isXmlText_ofList, List.forall_mem_flatMap]
  intro c _
  rw [percentChar]
  split
  · rename_i hkept
    refine List.forall_mem_singleton.mpr ?_
    rw [isUnreserved, Bool.or_eq_true, Bool.or_eq_true, beq_iff_eq, beq_iff_eq] at hkept
    rcases hkept with rfl | hsegment | rfl
    · decide
    · have hrange := isSegmentChar_range hsegment
      exact isXmlChar_of_range ⟨by omega, by omega⟩
    · decide
  · refine List.forall_mem_flatMap.mpr fun b _ => ?_
    have hbyte := b.toNat_lt
    simp only [percentByte, List.forall_mem_cons, List.not_mem_nil, false_imp_iff, implies_true,
      and_true]
    exact ⟨by decide, isXmlChar_upperHexDigit _ (by omega),
      isXmlChar_upperHexDigit _ (Nat.mod_lt _ (by decide))⟩

end Courseware.Text

namespace Courseware.Markup

open Text (IsXmlText)
open Xml (attr fixed)

/-! ## Tokens -/

/-- Whether a document may hold all that an attribute is written with. -/
def Attribute.IsXml (a : Attribute) : Prop := IsXmlText a.render

/-- Whether a document may hold all that some tokens are written with. -/
def IsXml (tokens : List Token) : Prop := ∀ t ∈ tokens, IsXmlText t.render

theorem isXmlText_render {tokens : List Token} : IsXmlText (render tokens) ↔ IsXml tokens := by
  rw [render, Text.isXmlText_join, List.forall_mem_map]
  rfl

namespace Attribute

@[simp] theorem isXml_attr {name : String} (hname : IsXmlText name) (s : String) :
    (attr name s).IsXml ↔ IsXmlText s := by
  have hgap : IsXmlText " " := by decide
  have hequal : IsXmlText "=\"" := by decide
  have hquote : IsXmlText "\"" := by decide
  simp [IsXml, attr, ofText, literal, render, hgap, hequal, hquote, hname]

@[simp] theorem isXml_fixed {name : String} (hname : IsXmlText name) (written : String) :
    (fixed name written).IsXml ↔ IsXmlText written := by
  have hgap : IsXmlText " " := by decide
  have hequal : IsXmlText "=\"" := by decide
  have hquote : IsXmlText "\"" := by decide
  simp [IsXml, fixed, literal, render, hgap, hequal, hquote, hname]

theorem isXml_onLine {name written : String} (hname : IsXmlText name)
    (hwritten : IsXmlText written) : (onLine name written).IsXml := by
  have hgap : IsXmlText "\n  " := by decide
  have hequal : IsXmlText "=\"" := by decide
  have hquote : IsXmlText "\"" := by decide
  simp [IsXml, onLine, render, hgap, hequal, hquote, hname, hwritten]

end Attribute

@[simp] theorem isXml_nil : IsXml [] := List.forall_mem_nil _

@[simp] theorem isXml_cons {t : Token} {ts : List Token} :
    IsXml (t :: ts) ↔ IsXmlText t.render ∧ IsXml ts :=
  List.forall_mem_cons

@[simp] theorem isXml_append {ts us : List Token} : IsXml (ts ++ us) ↔ IsXml ts ∧ IsXml us :=
  List.forall_mem_append

@[simp] theorem isXml_flatMap {α : Type} {as : List α} {f : α → List Token} :
    IsXml (as.flatMap f) ↔ ∀ a ∈ as, IsXml (f a) :=
  List.forall_mem_flatMap

@[simp] theorem isXml_whenSome {α : Type} {o : Option α} {f : α → List Token} :
    IsXml (whenSome o f) ↔ ∀ a ∈ o, IsXml (f a) := by
  cases o <;> simp [whenSome]

@[simp] theorem isXmlText_text {s : String} : IsXmlText (Xml.text s).render ↔ IsXmlText s :=
  Text.isXmlText_escape

theorem isXmlText_start {name : String} (hname : IsXmlText name) {attributes : List Attribute} :
    IsXmlText (Token.start name attributes).render ↔ ∀ a ∈ attributes, a.IsXml := by
  have hopen : IsXmlText "<" := by decide
  have hclose : IsXmlText ">" := by decide
  simp [Token.render, Text.isXmlText_join, hopen, hclose, hname, Attribute.IsXml]

theorem isXmlText_empty {name : String} (hname : IsXmlText name) {attributes : List Attribute} :
    IsXmlText (Token.empty name attributes).render ↔ ∀ a ∈ attributes, a.IsXml := by
  have hopen : IsXmlText "<" := by decide
  have hclose : IsXmlText "/>" := by decide
  simp [Token.render, Text.isXmlText_join, hopen, hclose, hname, Attribute.IsXml]

theorem isXmlText_stop {name : String} (hname : IsXmlText name) :
    IsXmlText (Token.stop name).render := by
  have hopen : IsXmlText "</" := by decide
  have hclose : IsXmlText ">" := by decide
  simp [Token.render, hopen, hclose, hname]

@[simp] theorem isXml_indented (level : Nat) {tokens : List Token} :
    IsXml (indented level tokens) ↔ IsXml tokens := by
  have hnewline : IsXmlText Token.newline.render := by decide
  have hspace : IsXml (indentation level) := by
    rw [indentation]
    split
    · exact isXml_nil
    · refine List.forall_mem_singleton.mpr (Text.isXmlText_ofList.mpr fun c hc => ?_)
      rw [List.eq_of_mem_replicate hc]
      decide
  simp [indented, line, hspace, hnewline]

@[simp] theorem isXml_element {name : String} (hname : IsXmlText name)
    {attributes : List Attribute} {content : List Token} :
    IsXml (element name attributes content) ↔
      (∀ a ∈ attributes, a.IsXml) ∧ IsXml content := by
  simp [element, isXmlText_start hname, isXmlText_stop hname]

@[simp] theorem isXml_elementLine (level : Nat) {name : String} (hname : IsXmlText name)
    {attributes : List Attribute} {content : List Token} :
    IsXml (Xml.elementLine level name attributes content) ↔
      (∀ a ∈ attributes, a.IsXml) ∧ IsXml content := by
  rw [Xml.elementLine, isXml_indented, isXml_element hname]

/-- An element on a line of its own, with nothing but a text in it. -/
theorem isXml_leaf (level : Nat) {name : String} (hname : IsXmlText name) (s : String) :
    IsXml (Xml.elementLine level name [] [Xml.text s]) ↔ IsXmlText s := by
  simp [isXml_elementLine level hname]

/-- A tag on a line of its own, with one attribute. -/
theorem isXml_reference (level : Nat) {name key : String} (hname : IsXmlText name)
    (hkey : IsXmlText key) (s : String) :
    IsXml (indented level [.empty name [Xml.attr key s]]) ↔ IsXmlText s := by
  rw [isXml_indented, isXml_cons, isXmlText_empty hname, List.forall_mem_singleton,
    Attribute.isXml_attr hkey]
  exact and_iff_left isXml_nil

@[simp] theorem isXml_blockElement (level : Nat) {name : String} (hname : IsXmlText name)
    {attributes : List Attribute} {content : List Token} :
    IsXml (blockElement level name attributes content) ↔
      (∀ a ∈ attributes, a.IsXml) ∧ IsXml content := by
  simp [blockElement, isXmlText_start hname, isXmlText_stop hname]

@[simp] theorem isXml_declaration {written : String} (h : IsXmlText written) :
    IsXml (Xml.declaration written) := by
  refine List.forall_mem_append.mpr ⟨List.forall_mem_singleton.mpr h, ?_⟩
  exact List.forall_mem_singleton.mpr (by decide)

end Courseware.Markup
