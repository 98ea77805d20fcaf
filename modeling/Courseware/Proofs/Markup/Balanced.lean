import Courseware.Markup.Xml
import Courseware.Proofs.Markup.Events

/-!
# Balanced tokens

Tokens are balanced when each is legible and the tags among them match. What is
balanced can be put together as markup is, and a document of balanced tokens is read as
their events.
-/

namespace Courseware.Markup

open Markup.Xml
open Reader (IsName IsPlainValue isName_ofList isPlainValue_ofList)

/-! ## Attributes -/

theorem Attribute.Legible.attr {name : String} (h : IsName name) (s : String) :
    (Xml.attr name s).Legible :=
  Attribute.legible_ofText h s

theorem Attribute.Legible.fixed {name written : String} (hname : IsName name)
    (h : IsPlainValue written) : (Xml.fixed name written).Legible :=
  Attribute.legible_of_isPlainValue (show Reader.IsGap " " by decide) hname rfl h

theorem Attribute.Legible.onLine {name written : String} (hname : IsName name)
    (h : IsPlainValue written) : (Attribute.onLine name written).Legible :=
  Attribute.legible_of_isPlainValue (show Reader.IsGap "\n  " by decide) hname rfl h

@[simp] theorem Attribute.name_attr (name s : String) : (attr name s).name = name := rfl

@[simp] theorem Attribute.name_fixed (name s : String) : (fixed name s).name = name := rfl

@[simp] theorem Attribute.name_onLine (name s : String) :
    (Attribute.onLine name s).name = name := rfl

@[simp] theorem Attribute.pair_attr (name s : String) : (attr name s).pair = (name, s) :=
  Attribute.pair_ofText name s

theorem Attribute.pair_onLine (name : String) {written : String}
    (h : IsPlainValue written) : (Attribute.onLine name written).pair = (name, written) :=
  Prod.ext rfl (unescape_of_isPlainValue h)

/-- Whether attributes can stand in one tag. -/
structure LegibleAttributes (attributes : List Attribute) : Prop where
  each : ∀ a ∈ attributes, a.Legible
  nodup : (attributes.map Attribute.name).Nodup

theorem LegibleAttributes.nil : LegibleAttributes [] :=
  ⟨by simp, by simp⟩

theorem LegibleAttributes.cons {a : Attribute} {attributes : List Attribute}
    (ha : a.Legible) (hnew : a.name ∉ attributes.map Attribute.name)
    (h : LegibleAttributes attributes) : LegibleAttributes (a :: attributes) :=
  ⟨List.forall_mem_cons.mpr ⟨ha, h.each⟩, List.nodup_cons.mpr ⟨hnew, h.nodup⟩⟩

theorem LegibleAttributes.attr {name : String} (h : IsName name) (s : String) :
    LegibleAttributes [Xml.attr name s] :=
  LegibleAttributes.nil.cons (.attr h s) (by simp)

theorem LegibleAttributes.fixed {name written : String} (hname : IsName name)
    (h : IsPlainValue written) : LegibleAttributes [Xml.fixed name written] :=
  LegibleAttributes.nil.cons (.fixed hname h) (by simp)

/-! ## Tokens -/

/-- Whether tokens stand for themselves: each is legible, and the same elements are open
after them as before. -/
structure Balanced (tokens : List Token) : Prop where
  legible : ∀ t ∈ tokens, t.Legible
  closed : ∀ opened rest, openAfter opened (tokens ++ rest) = openAfter opened rest

namespace Balanced

theorem nil : Balanced [] :=
  ⟨by simp, fun _ _ => rfl⟩

theorem append {ts us : List Token} (ht : Balanced ts) (hu : Balanced us) :
    Balanced (ts ++ us) where
  legible := List.forall_mem_append.mpr ⟨ht.legible, hu.legible⟩
  closed opened rest := by
    rw [List.append_assoc, ht.closed, hu.closed]

theorem flatMap {α : Type} {f : α → List Token} {as : List α}
    (h : ∀ a ∈ as, Balanced (f a)) : Balanced (as.flatMap f) := by
  induction as with
  | nil => exact nil
  | cons a as ih =>
    rw [List.flatMap_cons]
    exact (h a List.mem_cons_self).append (ih fun x hx => h x (List.mem_cons_of_mem _ hx))

theorem whenSome {α : Type} {f : α → List Token} (h : ∀ a, Balanced (f a))
    (value : Option α) : Balanced (Markup.whenSome value f) := by
  cases value with
  | none => exact nil
  | some a => exact h a

theorem of_text {w : String} (h : (Token.text w).Legible) : Balanced [.text w] :=
  ⟨List.forall_mem_singleton.mpr h, fun _ _ => rfl⟩

theorem text (s : String) : Balanced [Xml.text s] :=
  of_text ⟨s, rfl⟩

/-- White space is legible as it is. -/
theorem of_space (cs : List Char) (h : ∀ c ∈ cs, isSpace c = true) :
    Balanced [.text (String.ofList cs)] := by
  refine of_text ⟨String.ofList cs, ?_⟩
  have hplain : ∀ c ∈ cs, ¬ Text.Dialect.IsSpecial c := by
    rintro c hc (rfl | rfl | rfl | rfl | rfl) <;> exact absurd (h _ hc) (by decide)
  rw [Text.Dialect.escape, String.toList_ofList, Text.Dialect.escapeList_eq_self hplain]

theorem newline : Balanced [.newline] :=
  of_space ['\n'] (by decide)

theorem line {tokens : List Token} (h : Balanced tokens) : Balanced (Markup.line tokens) :=
  h.append newline

theorem indentation (level : Nat) : Balanced (Markup.indentation level) := by
  rw [Markup.indentation]
  split
  · exact nil
  · apply of_space
    intro c hc
    rw [List.eq_of_mem_replicate hc]
    decide

theorem indented {tokens : List Token} (h : Balanced tokens) (level : Nat) :
    Balanced (Markup.indented level tokens) :=
  (indentation level).append h.line

theorem element {name : String} (hname : IsName name) {attributes : List Attribute}
    (hattributes : LegibleAttributes attributes) {content : List Token}
    (h : Balanced content) : Balanced (Markup.element name attributes content) where
  legible := by
    intro t ht
    rw [Markup.element, List.mem_append, List.mem_cons, List.mem_singleton] at ht
    rcases ht with (rfl | ht) | rfl
    · exact ⟨hname, hattributes.each, hattributes.nodup⟩
    · exact h.legible t ht
    · exact hname
  closed opened rest := by
    rw [Markup.element, List.append_assoc, List.cons_append, openAfter, h.closed,
      List.singleton_append, openAfter, if_pos rfl]

theorem empty {name : String} (hname : IsName name) {attributes : List Attribute}
    (hattributes : LegibleAttributes attributes) : Balanced [.empty name attributes] where
  legible := List.forall_mem_singleton.mpr ⟨hname, hattributes.each, hattributes.nodup⟩
  closed _ _ := rfl

theorem elementLine {name : String} (hname : IsName name) {attributes : List Attribute}
    (hattributes : LegibleAttributes attributes) {content : List Token}
    (h : Balanced content) (level : Nat) :
    Balanced (Xml.elementLine level name attributes content) :=
  (element hname hattributes h).indented level

/-- The indentation and the line break around a tag do not matter to what is open. -/
theorem openAfter_indented (level : Nat) (opened : List String) (t : Token)
    (rest : List Token) :
    openAfter opened (Markup.indented level [t] ++ rest) = openAfter opened (t :: rest) := by
  rw [Markup.indented, Markup.line, List.append_assoc, (indentation level).closed]
  cases t <;> rfl

theorem blockElement {name : String} (hname : IsName name) {attributes : List Attribute}
    (hattributes : LegibleAttributes attributes) {content : List Token}
    (h : Balanced content) (level : Nat) :
    Balanced (Markup.blockElement level name attributes content) where
  legible := by
    have hline : ∀ t : Token, t.Legible → ∀ u ∈ Markup.indented level [t], u.Legible := by
      intro t ht
      have hends := List.forall_mem_append.mpr
        ⟨List.forall_mem_singleton.mpr ht, newline.legible⟩
      exact List.forall_mem_append.mpr ⟨(indentation level).legible, hends⟩
    refine List.forall_mem_append.mpr ⟨List.forall_mem_append.mpr ⟨?_, h.legible⟩, ?_⟩
    · exact hline _ ⟨hname, hattributes.each, hattributes.nodup⟩
    · exact hline _ hname
  closed opened rest := by
    rw [Markup.blockElement, List.append_assoc, List.append_assoc, openAfter_indented,
      openAfter, h.closed, openAfter_indented, openAfter, if_pos rfl]

end Balanced

/-! ## Documents -/

/-- An instruction is legible when no question mark stands in it. -/
theorem Token.legible_instruction {w : String} (c : Char) (cs : List Char)
    (hw : w.toList = '<' :: '?' :: c :: (cs ++ ['?', '>'])) (hc : c ≠ '>')
    (hcs : ∀ x ∈ c :: cs, x ≠ '?') : (Token.raw w).Legible :=
  ⟨c, cs, by rw [← hw, String.ofList_toList], hc, hcs⟩

/-- A declaration and balanced tokens are read as the events of the tokens. -/
theorem Balanced.ofDocument_eq {w : String} (hw : (Token.raw w).Legible)
    {tokens : List Token} (h : Balanced tokens) :
    Event.ofDocument (render (declaration w ++ tokens)) = .ok (eventsFrom ['\n'] tokens) := by
  have hlegible : ∀ t ∈ .raw w :: (.newline :: tokens), t.Legible := by
    have hnewline := List.forall_mem_singleton.mp newline.legible
    exact List.forall_mem_cons.mpr ⟨hw, List.forall_mem_cons.mpr ⟨hnewline, h.legible⟩⟩
  have hopen : openAfter [] (.raw w :: .newline :: tokens) = some [] := by
    have hclosed := h.closed [] []
    rw [List.append_nil] at hclosed
    exact hclosed
  have hevents := Event.ofDocument_render hlegible hopen
  have htokens : declaration w ++ tokens = .raw w :: .newline :: tokens := rfl
  rw [htokens, hevents]
  rfl

end Courseware.Markup
