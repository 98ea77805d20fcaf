import Courseware.Markup.Event
import Courseware.Proofs.Markup.Pieces

/-!
# The events of written tokens

A document that is written as tokens is read as the events of its tags, with the
texts and references between them, when the tags match.
-/

namespace Courseware.Markup

open Text (Dialect)
open Reader (IsName IsGap isNameChar)

/-! ## Attributes -/

/-- Whether an attribute is written so that any reader finds its value. -/
structure Attribute.Legible (a : Attribute) : Prop where
  gap : IsGap a.gap
  name : IsName a.name
  value : ∃ written, a.value = some written ∧ ∀ c ∈ written.toList, c ≠ '"'

/-- The name and the decoded value of an attribute. -/
def Attribute.pair (a : Attribute) : String × String :=
  (a.name, Dialect.xml.unescape (a.value.getD ""))

theorem Attribute.legible_ofText {name : String} (h : IsName name) (s : String) :
    (Attribute.ofText .xml name s).Legible where
  gap := show IsGap " " by decide
  name := h
  value := by
    refine ⟨_, rfl, ?_⟩
    rintro c hc rfl
    exact Dialect.not_mem_escape (by decide) s hc

theorem Attribute.pair_ofText (name s : String) :
    (Attribute.ofText .xml name s).pair = (name, s) :=
  Prod.ext rfl (Dialect.unescape_escape s)

theorem Attribute.legible_of_isPlainValue {a : Attribute} (hgap : IsGap a.gap)
    (hname : IsName a.name) {written : String} (hvalue : a.value = some written)
    (h : Reader.IsPlainValue written) : a.Legible where
  gap := hgap
  name := hname
  value := ⟨written, hvalue, fun c hc => (h c hc).1⟩

theorem unescape_of_isPlainValue {s : String} (h : Reader.IsPlainValue s) :
    Dialect.xml.unescape s = s := by
  rw [Dialect.unescape, Dialect.unescapeList_eq_self fun c hc => (h c hc).2.1,
    String.ofList_toList]

/-- Attributes as they are written in a tag. -/
def written (attributes : List Attribute) : List Char :=
  (String.join (attributes.map Attribute.render)).toList

theorem written_cons (a : Attribute) (attributes : List Attribute) :
    written (a :: attributes) = a.render.toList ++ written attributes := by
  simp [written]

/-- What a legible attribute is written as. -/
theorem Attribute.Legible.render_eq {a : Attribute} (h : a.Legible) :
    ∃ w : List Char, a.render.toList =
        a.gap.toList ++ (a.name.toList ++ '=' :: '"' :: (w ++ ['"'])) ∧
      (∀ c ∈ w, c ≠ '"') ∧ a.pair = (a.name, String.ofList (Dialect.xml.unescapeList w)) := by
  obtain ⟨v, hvalue, hquote⟩ := h.value
  exact ⟨v.toList, by simp [Attribute.render, hvalue], hquote,
    by simp [Attribute.pair, hvalue, Dialect.unescape]⟩

/-- White space starts what is written of attributes. -/
theorem isSpace_of_head?_written {attributes : List Attribute}
    (h : ∀ a ∈ attributes, a.Legible) : ∀ c ∈ (written attributes).head?, isSpace c = true := by
  intro c hc
  cases attributes with
  | nil => simp [written] at hc
  | cons a attributes =>
    have ha := h a List.mem_cons_self
    obtain ⟨g, gs, hgap⟩ := List.exists_cons_of_ne_nil ha.gap.1
    obtain ⟨w, hrender, -, -⟩ := ha.render_eq
    rw [written_cons, hrender, hgap] at hc
    rw [← Option.some.inj hc]
    exact ha.gap.2 g (by rw [hgap]; exact List.mem_cons_self)

theorem not_isSpace_of_isNameChar {c : Char} (h : isNameChar c = true) :
    isSpace c = false := by
  simp only [isNameChar, Bool.and_eq_true, Bool.not_eq_true'] at h
  exact h.1

theorem ne_of_isNameChar {c x : Char} (h : isNameChar c = true) (hx : isNameChar x = false) :
    c ≠ x := by
  rintro rfl
  rw [h] at hx
  exact absurd hx (by simp)

theorem not_endsName_of_isNameChar {c : Char} (h : isNameChar c = true) :
    Event.endsName c = false := by
  have hequals : c ≠ '=' := ne_of_isNameChar h (by decide)
  simp [Event.endsName, not_isSpace_of_isNameChar h, hequals]

namespace Event

/-- A legible attribute is read off the front, whatever stands behind it. -/
theorem writtenAttributes_append {a : Attribute} (ha : a.Legible) {w : List Char}
    (hrender : a.render.toList =
      a.gap.toList ++ (a.name.toList ++ '=' :: '"' :: (w ++ ['"'])))
    (hquote : ∀ c ∈ w, c ≠ '"') {seen : List (List Char)} (hnew : a.name.toList ∉ seen)
    (fuel : Nat) (rest : List Char) :
    writtenAttributes seen (fuel + 1) (a.render.toList ++ rest) =
      (a.name.toList, w) :: writtenAttributes (a.name.toList :: seen) fuel rest := by
  obtain ⟨c, cs, hname⟩ := List.exists_cons_of_ne_nil ha.name.1
  have hchars : ∀ x ∈ c :: cs, isNameChar x = true := by
    rw [← hname]
    exact ha.name.2
  rw [hname] at hrender hnew ⊢
  have hstart : (a.render.toList ++ rest).dropWhile isSpace =
      c :: (cs ++ '=' :: '"' :: (w ++ '"' :: rest)) := by
    rw [hrender, List.append_assoc, List.dropWhile_append_of_pos ha.gap.2]
    simp [not_isSpace_of_isNameChar (hchars c List.mem_cons_self)]
  have hword : ∀ x ∈ cs, (!endsName x) = true := fun x hx => by
    simp [not_endsName_of_isNameChar (hchars x (List.mem_cons_of_mem _ hx))]
  have htake : (cs ++ '=' :: '"' :: (w ++ '"' :: rest)).takeWhile
      (fun d => !endsName d) = cs := by
    rw [List.takeWhile_append_of_pos hword]
    simp [endsName]
  have hdrop : (cs ++ '=' :: '"' :: (w ++ '"' :: rest)).dropWhile
      (fun d => !endsName d) = '=' :: '"' :: (w ++ '"' :: rest) := by
    rw [List.dropWhile_append_of_pos hword]
    simp [endsName]
  have hunseen : seen.contains (c :: cs) = false := by simpa using hnew
  have hvalue : (w ++ '"' :: rest).takeWhile (· != '"') = w := by
    rw [List.takeWhile_append_of_pos fun x hx => by simpa using hquote x hx]
    simp
  have hbehind : (w ++ '"' :: rest).drop (w.length + 1) = rest := by
    rw [← List.drop_drop, List.drop_left, List.drop_one, List.tail_cons]
  have hspaces : isSpace '=' = false ∧ isSpace '"' = false := by decide
  rw [writtenAttributes, hstart]
  simp only [htake, hdrop, List.dropWhile_cons, hspaces.1, Bool.false_eq_true, if_false,
    hunseen, hspaces.2, decide_true, Bool.true_or, if_true, hvalue,
    List.drop_left, List.isEmpty_cons, hbehind]

/-- The attributes of a tag are read in order. -/
theorem writtenAttributes_written {attributes : List Attribute}
    (hlegible : ∀ a ∈ attributes, a.Legible) {seen : List (List Char)}
    (hnew : ∀ a ∈ attributes, a.name.toList ∉ seen)
    (hnodup : (attributes.map Attribute.name).Nodup) {fuel : Nat}
    (hfuel : attributes.length ≤ fuel) :
    (writtenAttributes seen fuel (written attributes)).map (fun a =>
        (String.ofList a.1, String.ofList (Dialect.xml.unescapeList a.2))) =
      attributes.map Attribute.pair := by
  induction attributes generalizing seen fuel with
  | nil => cases fuel <;> simp [writtenAttributes, written]
  | cons a attributes ih =>
    obtain ⟨fuel, rfl⟩ : ∃ k, fuel = k + 1 := ⟨fuel - 1, by simp at hfuel; omega⟩
    have ha := hlegible a List.mem_cons_self
    obtain ⟨hdistinct, hrestNodup⟩ := List.nodup_cons.mp (List.map_cons ▸ hnodup)
    obtain ⟨w, hrender, hquote, hpair⟩ := ha.render_eq
    -- The name that has been read joins those that the rest must not repeat.
    have hstill : ∀ b ∈ attributes, b.name.toList ∉ a.name.toList :: seen := by
      intro b hb hmem
      rcases List.mem_cons.mp hmem with heq | hmem
      · exact hdistinct (List.mem_map.mpr ⟨b, hb, String.toList_inj.mp heq⟩)
      · exact hnew b (List.mem_cons_of_mem _ hb) hmem
    have hrest := ih (fun b hb => hlegible b (List.mem_cons_of_mem _ hb)) hstill hrestNodup
      (Nat.le_of_succ_le_succ hfuel)
    rw [written_cons, writtenAttributes_append ha hrender hquote (hnew a List.mem_cons_self),
      List.map_cons, hrest, List.map_cons, hpair, String.ofList_toList]

/-- The attributes in what is written of them. -/
theorem attributesOf_written {attributes : List Attribute}
    (hlegible : ∀ a ∈ attributes, a.Legible)
    (hnodup : (attributes.map Attribute.name).Nodup) :
    attributesOf (written attributes) = attributes.map Attribute.pair := by
  refine writtenAttributes_written hlegible (by simp) hnodup ?_
  clear hnodup
  induction attributes with
  | nil => simp
  | cons a attributes ih =>
    have hrest := ih fun b hb => hlegible b (List.mem_cons_of_mem _ hb)
    obtain ⟨w, hrender, -, -⟩ := (hlegible a List.mem_cons_self).render_eq
    rw [written_cons, hrender]
    simp only [List.length_cons, List.length_append]
    omega

/-! ## Tags -/

/-- The last character of what is written in a start tag. -/
theorem getLast?_tag {name : String} (hname : IsName name) {attributes : List Attribute}
    (hlegible : ∀ a ∈ attributes, a.Legible) :
    ∃ c, (name.toList ++ written attributes).getLast? = some c ∧ c ≠ '/' := by
  have hlast : written attributes = [] ∨ (written attributes).getLast? = some '"' := by
    induction attributes with
    | nil => exact Or.inl rfl
    | cons a attributes ih =>
      refine Or.inr ?_
      obtain ⟨w, hrender, -, -⟩ := (hlegible a List.mem_cons_self).render_eq
      have ha : a.render.toList.getLast? = some '"' := by
        rw [hrender]
        simp [List.getLast?_append, List.getLast?_cons]
      rw [written_cons]
      rcases ih fun b hb => hlegible b (List.mem_cons_of_mem _ hb) with hnil | hsome
      · rw [hnil, List.append_nil, ha]
      · rw [List.getLast?_append, hsome]
        rfl
  rcases hlast with hnil | hsome
  · obtain ⟨hne, hall⟩ := hname
    refine ⟨name.toList.getLast hne, ?_, ?_⟩
    · rw [hnil, List.append_nil, List.getLast?_eq_some_getLast hne]
    · exact ne_of_isNameChar (hall _ (List.getLast_mem hne)) (by decide)
  · refine ⟨'"', ?_, by decide⟩
    rw [List.getLast?_append, hsome]
    rfl

theorem takeWhile_tag {name : String} (hname : IsName name) {attributes : List Attribute}
    (hlegible : ∀ a ∈ attributes, a.Legible) :
    (name.toList ++ written attributes).takeWhile (fun c => !isSpace c) = name.toList ∧
      (name.toList ++ written attributes).dropWhile (fun c => !isSpace c) =
        written attributes := by
  have hword : ∀ c ∈ name.toList, (!isSpace c) = true := fun c hc => by
    simp [not_isSpace_of_isNameChar (hname.2 c hc)]
  have hspace := isSpace_of_head?_written hlegible
  rw [List.takeWhile_append_of_pos hword, List.dropWhile_append_of_pos hword]
  cases hcs : written attributes with
  | nil => simp
  | cons c cs =>
    have hc : isSpace c = true := hspace c (by rw [hcs]; rfl)
    simp [hc]

theorem tag_of_written {name : String} (hname : IsName name) {attributes : List Attribute}
    (hlegible : ∀ a ∈ attributes, a.Legible)
    (hnodup : (attributes.map Attribute.name).Nodup) :
    tagName (name.toList ++ written attributes) = name ∧
      tagAttributes (name.toList ++ written attributes) =
        attributes.map Attribute.pair := by
  obtain ⟨htake, hdrop⟩ := takeWhile_tag hname hlegible
  rw [tagName, tagAttributes, htake, hdrop, String.ofList_toList,
    attributesOf_written hlegible hnodup]
  exact ⟨rfl, rfl⟩

theorem ofTag_start {name : String} (hname : IsName name) {attributes : List Attribute}
    (hlegible : ∀ a ∈ attributes, a.Legible)
    (hnodup : (attributes.map Attribute.name).Nodup) :
    ofTag (name.toList ++ written attributes) =
      .start name (attributes.map Attribute.pair) := by
  obtain ⟨c, hlast, hc⟩ := getLast?_tag hname hlegible
  obtain ⟨hword, hpairs⟩ := tag_of_written hname hlegible hnodup
  rw [ofTag, hlast, hword, hpairs]
  split
  · rename_i heq
    exact absurd (Option.some.inj heq) hc
  · rfl

theorem ofTag_empty {name : String} (hname : IsName name) {attributes : List Attribute}
    (hlegible : ∀ a ∈ attributes, a.Legible)
    (hnodup : (attributes.map Attribute.name).Nodup) :
    ofTag (name.toList ++ written attributes ++ ['/']) =
      .empty name (attributes.map Attribute.pair) := by
  obtain ⟨hword, hpairs⟩ := tag_of_written hname hlegible hnodup
  rw [ofTag, List.getLast?_concat]
  simp only [List.dropLast_concat, hword, hpairs]

theorem stopName_toList {name : String} (hname : IsName name) :
    stopName name.toList = name := by
  obtain ⟨hne, hall⟩ := hname
  have hkeep : (name.toList.reverse.dropWhile isSpace).reverse = name.toList := by
    have hreverse : name.toList.reverse.dropWhile isSpace = name.toList.reverse := by
      cases hcs : name.toList.reverse with
      | nil => rfl
      | cons c cs =>
        have hmem : c ∈ name.toList := List.mem_reverse.mp (hcs ▸ List.mem_cons_self)
        simp [not_isSpace_of_isNameChar (hall c hmem)]
    rw [hreverse, List.reverse_reverse]
  have hempty : name.toList.isEmpty = false := by simp [hne]
  simp only [stopName, hkeep, hempty, Bool.false_eq_true, if_false, String.ofList_toList]

end Event

/-! ## Tokens -/

/-- Whether a token of a document is written so that any reader understands it: texts
are escaped, tags have names and legible attributes, and what is raw is an
instruction. -/
def Token.Legible : Token → Prop
  | .text w => ∃ s, w = Dialect.xml.escape s
  | .start name attributes =>
    IsName name ∧ (∀ a ∈ attributes, a.Legible) ∧ (attributes.map Attribute.name).Nodup
  | .empty name attributes =>
    IsName name ∧ (∀ a ∈ attributes, a.Legible) ∧ (attributes.map Attribute.name).Nodup
  | .stop name => IsName name
  | .raw w => ∃ c cs, w = String.ofList ('<' :: '?' :: c :: (cs ++ ['?', '>'])) ∧ c ≠ '>' ∧
    ∀ x ∈ c :: cs, x ≠ '?'

/-- The piece that a token other than a text is cut off as. -/
def Token.piece? : Token → Option Piece
  | .text _ => none
  | .start name attributes => some (.tag (name.toList ++ written attributes))
  | .empty name attributes => some (.tag (name.toList ++ written attributes ++ ['/']))
  | .stop name => some (.tag ('/' :: name.toList))
  | .raw _ => some .other

/-- The elements that are open after some tokens, the last one first, when the tags
match. -/
def openAfter (opened : List String) : List Token → Option (List String)
  | [] => some opened
  | .start name _ :: ts => openAfter (name :: opened) ts
  | .stop name :: ts =>
    match opened with
    | [] => none
    | o :: opened => if name = o then openAfter opened ts else none
  | .text _ :: ts => openAfter opened ts
  | .empty _ _ :: ts => openAfter opened ts
  | .raw _ :: ts => openAfter opened ts

def Piece.textEvent? : Piece → Option Event
  | .text w => some (.text (String.ofList w))
  | .reference name => some (.reference (String.ofList name))
  | .tag _ => none
  | .other => none

def textEvents (cs : List Char) : List Event :=
  (Piece.runsFrom [] cs).filterMap Piece.textEvent?

/-- The events of some tokens, where `pending` is the text that has been read since
the last tag. -/
def eventsFrom (pending : List Char) : List Token → List Event
  | [] => textEvents pending
  | .text w :: ts => eventsFrom (pending ++ Dialect.xml.unescapeList w.toList) ts
  | .start name attributes :: ts =>
    textEvents pending ++ .start name (attributes.map Attribute.pair) :: eventsFrom [] ts
  | .empty name attributes :: ts =>
    textEvents pending ++ .empty name (attributes.map Attribute.pair) :: eventsFrom [] ts
  | .stop name :: ts => textEvents pending ++ .stop name :: eventsFrom [] ts
  | .raw _ :: ts => textEvents pending ++ eventsFrom [] ts

namespace Piece

theorem textEvent?_of_mem_flush {run : List Char} {p : Piece} (h : p ∈ flush run) :
    ∃ w, p = .text w := by
  rw [flush] at h
  split at h
  · simp at h
  · exact ⟨_, List.mem_singleton.mp h⟩

/-- Text is cut into texts and references. -/
theorem of_mem_runsFrom {run cs : List Char} {p : Piece} (h : p ∈ runsFrom run cs) :
    (∃ w, p = .text w) ∨ ∃ name, p = .reference name := by
  induction cs generalizing run with
  | nil => exact Or.inl (textEvent?_of_mem_flush h)
  | cons c cs ih =>
    rw [runsFrom] at h
    split at h
    · rcases List.mem_append.mp h with h | h
      · exact Or.inl (textEvent?_of_mem_flush h)
      · rcases List.mem_cons.mp h with rfl | h
        · exact Or.inr ⟨_, rfl⟩
        · exact ih h
    · exact ih h

end Piece

namespace Event

/-- Texts and references become events as they are. -/
theorem ofPieces?_append {texts : List Piece}
    (h : ∀ p ∈ texts, (∃ w, p = .text w) ∨ ∃ name, p = .reference name)
    (opened : List String) (pieces : List Piece) :
    ofPieces? opened (texts ++ pieces) =
      (ofPieces? opened pieces).map (texts.filterMap Piece.textEvent? ++ ·) := by
  induction texts with
  | nil => simp
  | cons p texts ih =>
    have hrest := ih fun q hq => h q (List.mem_cons_of_mem _ hq)
    rcases h p List.mem_cons_self with ⟨w, rfl⟩ | ⟨name, rfl⟩
    · rw [List.cons_append, ofPieces?, hrest, Option.map_map]
      rfl
    · rw [List.cons_append, ofPieces?, hrest, Option.map_map]
      rfl

theorem ofPieces?_text (cs : List Char) (opened : List String) (pieces : List Piece) :
    ofPieces? opened (Piece.runsFrom [] cs ++ pieces) =
      (ofPieces? opened pieces).map (textEvents cs ++ ·) :=
  ofPieces?_append (fun _ => Piece.of_mem_runsFrom) opened pieces

/-- A tag is read by its first character, which is no slash in a start tag. -/
theorem ofPieces?_tag {c : Char} (hc : c ≠ '/') (cs : List Char) (opened : List String)
    (pieces : List Piece) :
    ofPieces? opened (.tag (c :: cs) :: pieces) =
      match ofTag (c :: cs) with
      | start name attributes =>
        (ofPieces? (name :: opened) pieces).map (start name attributes :: ·)
      | event => (ofPieces? opened pieces).map (event :: ·) := by
  have hslash : ∀ content, c :: cs = '/' :: content → False :=
    fun content heq => hc (List.cons.inj heq).1
  cases htag : ofTag (c :: cs) <;> simp only [ofPieces?, htag]

/-! ## Documents -/

/-- What is written of a tag that starts with a name is cut off as one piece. -/
theorem passes_tag {name : String} (hname : IsName name) {attributes : List Attribute}
    (hlegible : ∀ a ∈ attributes, a.Legible) :
    Piece.Passes none (name.toList ++ written attributes) none := by
  have hword : ∀ {s : String}, IsName s → Piece.Passes none s.toList none := by
    intro s hs
    apply Piece.passes_plain
    intro c hc
    have hchar := hs.2 c hc
    exact ⟨ne_of_isNameChar hchar (by decide), ne_of_isNameChar hchar (by decide),
      ne_of_isNameChar hchar (by decide)⟩
  refine (hword hname).append ?_
  induction attributes with
  | nil => exact Piece.Passes.nil none
  | cons a attributes ih =>
    have ha := hlegible a List.mem_cons_self
    obtain ⟨w, hrender, hquote, -⟩ := ha.render_eq
    have hgap : Piece.Passes none a.gap.toList none := by
      apply Piece.passes_plain
      intro c hc
      have hspace := ha.gap.2 c hc
      refine ⟨?_, ?_, ?_⟩
      · rintro rfl
        exact absurd hspace (by decide)
      · rintro rfl
        exact absurd hspace (by decide)
      · rintro rfl
        exact absurd hspace (by decide)
    have hequals : Piece.Passes none ['='] none := Piece.passes_plain (by decide)
    have hvalue := (hequals.append (Piece.passes_quoted hquote))
    rw [written_cons, hrender]
    exact (hgap.append ((hword ha.name).append hvalue)).append
      (ih fun b hb => hlegible b (List.mem_cons_of_mem _ hb))

/-- The first character of what is written in a start tag. -/
theorem exists_tag_eq_cons {name : String} (hname : IsName name) (written : List Char) :
    ∃ c cs, name.toList ++ written = c :: cs ∧ isNameChar c = true := by
  obtain ⟨hne, hall⟩ := hname
  obtain ⟨c, cs, hcs⟩ := List.exists_cons_of_ne_nil hne
  exact ⟨c, cs ++ written, by rw [hcs, List.cons_append],
    hall c (by rw [hcs]; exact List.mem_cons_self)⟩

/-- A tag that starts with a name is cut off with what stands in it. -/
theorem allFrom_name {content : List Char} (hpasses : Piece.Passes none content none)
    {c : Char} {cs : List Char} (hcs : content = c :: cs) (hc : isNameChar c = true)
    (rest : List Char) :
    Piece.allFrom 0 ('<' :: (content ++ '>' :: rest)) =
      (Piece.allFrom 0 rest).map (.tag content :: ·) := by
  apply Piece.allFrom_tag hpasses (c := c)
  · rw [hcs, List.head?_cons]
  · exact ⟨ne_of_isNameChar hc (by decide), ne_of_isNameChar hc (by decide)⟩

/-- An end tag closes the element that was opened last. -/
theorem openAfter_stop {name : String} {opened after : List String} {tokens : List Token}
    (h : openAfter opened (.stop name :: tokens) = some after) :
    ∃ o rest, opened = o :: rest ∧ name = o ∧ openAfter rest tokens = some after := by
  cases opened with
  | nil => simp [openAfter] at h
  | cons o rest =>
    rw [openAfter] at h
    split at h
    · rename_i heq
      exact ⟨o, rest, rfl, heq, h⟩
    · simp at h

/-- A token other than a text starts with a bracket and is cut off as its piece. -/
theorem exists_render_eq_cons {t : Token} (ht : t.Legible) {p : Piece}
    (hp : t.piece? = some p) :
    ∃ w, t.render.toList = '<' :: w ∧ ∀ rest,
      Piece.allFrom 0 ('<' :: (w ++ rest)) = (Piece.allFrom 0 rest).map (p :: ·) := by
  have hslash : Piece.Passes none ['/'] none := Piece.passes_plain (by decide)
  cases t with
  | text w => simp [Token.piece?] at hp
  | start name attributes =>
    obtain ⟨hname, hattributes, -⟩ := ht
    obtain rfl := Option.some.inj hp
    obtain ⟨c, cs, hcs, hc⟩ := exists_tag_eq_cons hname (written attributes)
    refine ⟨name.toList ++ written attributes ++ ['>'], by simp [Token.render, written], ?_⟩
    intro rest
    simpa using allFrom_name (passes_tag hname hattributes) hcs hc rest
  | empty name attributes =>
    obtain ⟨hname, hattributes, -⟩ := ht
    obtain rfl := Option.some.inj hp
    obtain ⟨c, cs, hcs, hc⟩ := exists_tag_eq_cons hname (written attributes ++ ['/'])
    rw [← List.append_assoc] at hcs
    refine ⟨name.toList ++ written attributes ++ ['/', '>'],
      by simp [Token.render, written], ?_⟩
    intro rest
    simpa using allFrom_name ((passes_tag hname hattributes).append hslash) hcs hc rest
  | stop name =>
    obtain rfl := Option.some.inj hp
    have hnone : ∀ a ∈ ([] : List Attribute), a.Legible := by simp
    refine ⟨'/' :: (name.toList ++ ['>']), by simp [Token.render], ?_⟩
    intro rest
    have htag := Piece.allFrom_tag (hslash.append (passes_tag ht hnone)) (c := '/') rfl
      (by decide) rest
    simpa [written] using htag
  | raw w =>
    obtain ⟨c, cs, rfl, hc, hcs⟩ := ht
    obtain rfl := Option.some.inj hp
    refine ⟨'?' :: c :: (cs ++ ['?', '>']), by simp [Token.render], ?_⟩
    intro rest
    simpa using Piece.allFrom_instruction (c :: cs) rfl hc hcs rest

/-- A token other than a text ends the pending text, and nothing is pending behind it. -/
theorem allFrom_pending {t : Token} (ht : t.Legible) {p : Piece} (hp : t.piece? = some p)
    (pending : List Char) {tokens : List Token} {pieces : List Piece}
    (hpieces : Piece.allFrom 0 (Dialect.xml.escapeList [] ++ (render tokens).toList) =
      some pieces) :
    Piece.allFrom 0 (Dialect.xml.escapeList pending ++ (render (t :: tokens)).toList) =
      some (Piece.runsFrom [] pending ++ p :: pieces) := by
  obtain ⟨w, hw, hpiece⟩ := exists_render_eq_cons ht hp
  have hrest : Piece.allFrom 0 (render tokens).toList = some pieces := hpieces
  have htext := Piece.allFrom_escapeList [] (by simp) pending
    (Piece.stops_bracket (w ++ (render tokens).toList))
  rw [List.nil_append] at htext
  rw [Reader.toList_render_cons, hw, List.cons_append, htext, hpiece, hrest]
  rfl

/-- Legible tokens whose tags match are read as their events. -/
theorem exists_pieces {tokens : List Token} (hlegible : ∀ t ∈ tokens, t.Legible)
    (pending : List Char) {opened after : List String}
    (hopen : openAfter opened tokens = some after) :
    ∃ pieces,
      Piece.allFrom 0 (Dialect.xml.escapeList pending ++ (render tokens).toList) =
        some pieces ∧
      ofPieces? opened pieces = some (eventsFrom pending tokens) := by
  -- What is pending is kept decoded, since texts that meet are read as one.
  induction tokens generalizing pending opened with
  | nil =>
    refine ⟨Piece.runsFrom [] pending, ?_, ?_⟩
    · have hall := Piece.allFrom_escapeList [] (by simp) pending Piece.stops_nil
      simpa [render, Piece.allFrom] using hall
    · have htext := ofPieces?_text pending opened []
      simpa [ofPieces?, eventsFrom] using htext
  | cons t tokens ih =>
    have ht := hlegible t List.mem_cons_self
    have hrest := fun u hu => hlegible u (List.mem_cons_of_mem _ hu)
    cases t with
    | text w =>
      obtain ⟨s, rfl⟩ := ht
      have hdecoded : Dialect.xml.unescapeList (Dialect.xml.escape s).toList = s.toList := by
        rw [Dialect.toList_escape, Dialect.unescapeList_escapeList]
      obtain ⟨pieces, hpieces, hevents⟩ := ih hrest (pending ++ s.toList) hopen
      refine ⟨pieces, ?_, ?_⟩
      · rw [← hpieces, Reader.toList_render_cons, Dialect.escapeList_append,
          List.append_assoc, Token.render, Dialect.toList_escape]
      · rw [hevents, eventsFrom, hdecoded]
    | start name attributes =>
      obtain ⟨pieces, hpieces, hevents⟩ := ih hrest [] hopen
      refine ⟨_, allFrom_pending ht rfl pending hpieces, ?_⟩
      obtain ⟨hname, hattributes, hnodup⟩ := ht
      obtain ⟨c, cs, hcs, hc⟩ := exists_tag_eq_cons hname (written attributes)
      rw [ofPieces?_text, hcs, ofPieces?_tag (ne_of_isNameChar hc (by decide)), ← hcs,
        ofTag_start hname hattributes hnodup]
      simp only [hevents, eventsFrom, Option.map_some]
    | empty name attributes =>
      obtain ⟨pieces, hpieces, hevents⟩ := ih hrest [] hopen
      refine ⟨_, allFrom_pending ht rfl pending hpieces, ?_⟩
      obtain ⟨hname, hattributes, hnodup⟩ := ht
      obtain ⟨c, cs, hcs, hc⟩ := exists_tag_eq_cons hname (written attributes ++ ['/'])
      rw [← List.append_assoc] at hcs
      rw [ofPieces?_text, hcs, ofPieces?_tag (ne_of_isNameChar hc (by decide)), ← hcs,
        ofTag_empty hname hattributes hnodup]
      simp only [hevents, eventsFrom, Option.map_some]
    | stop name =>
      obtain ⟨o, rest, rfl, rfl, hinner⟩ := openAfter_stop hopen
      obtain ⟨pieces, hpieces, hevents⟩ := ih hrest [] hinner
      refine ⟨_, allFrom_pending ht rfl pending hpieces, ?_⟩
      rw [ofPieces?_text, ofPieces?, stopName_toList ht, if_pos rfl, hevents]
      rfl
    | raw w =>
      obtain ⟨pieces, hpieces, hevents⟩ := ih hrest [] hopen
      refine ⟨_, allFrom_pending ht rfl pending hpieces, ?_⟩
      rw [ofPieces?_text, ofPieces?, hevents]
      rfl

/-- A document of legible tokens whose tags match, which starts with an instruction, is
read as the events of its tokens. -/
theorem ofDocument_render {w : String} {tokens : List Token}
    (hlegible : ∀ t ∈ .raw w :: tokens, t.Legible) {after : List String}
    (hopen : openAfter [] (.raw w :: tokens) = some after) :
    ofDocument (render (.raw w :: tokens)) = .ok (eventsFrom [] (.raw w :: tokens)) := by
  obtain ⟨pieces, hpieces, hevents⟩ := exists_pieces hlegible [] hopen
  obtain ⟨c, cs, rfl, -, -⟩ := hlegible _ List.mem_cons_self
  have hmark : '<' ≠ Piece.byteOrderMark := by decide
  have hall : Piece.all? (render (.raw (String.ofList ('<' :: '?' :: c ::
      (cs ++ ['?', '>']))) :: tokens)).toList = some pieces := by
    rw [Dialect.escapeList, List.flatMap_nil, List.nil_append] at hpieces
    rw [← hpieces, Reader.toList_render_cons, Token.render, String.toList_ofList,
      List.cons_append, Piece.all?, if_neg hmark]
  rw [ofDocument, hall, Option.bind_some, hevents]

end Event

end Courseware.Markup
