import Courseware.Package.Problem
import Courseware.Proofs.Markup.Balanced
import Courseware.Proofs.Markup.Runs

/-!
# What a check reads in written tokens

The values of attributes, the texts of elements and the declared version that a check
finds among the events of tokens, told from the tokens themselves.
-/

namespace Courseware.Package

open Markup Markup.Xml

/-! ## Opening tags -/

section Gather

variable {α : Type}

/-- What a function gives for the tags that open elements, in order. -/
def gather (f : String → List Attribute → List α) (tokens : List Token) : List α :=
  tokens.flatMap fun
    | .start name attributes => f name attributes
    | .empty name attributes => f name attributes
    | _ => []

variable (f : String → List Attribute → List α)

@[simp] theorem gather_nil : gather f [] = [] := rfl

@[simp] theorem gather_append (ts us : List Token) :
    gather f (ts ++ us) = gather f ts ++ gather f us :=
  List.flatMap_append

@[simp] theorem gather_flatMap {β : Type} (g : β → List Token) (bs : List β) :
    gather f (bs.flatMap g) = bs.flatMap fun b => gather f (g b) :=
  List.flatMap_assoc

@[simp] theorem gather_text (s : String) : gather f [Xml.text s] = [] := rfl

@[simp] theorem gather_empty (name : String) (attributes : List Attribute) :
    gather f [.empty name attributes] = f name attributes :=
  List.append_nil _

@[simp] theorem gather_element (name : String) (attributes : List Attribute)
    (content : List Token) :
    gather f (element name attributes content) = f name attributes ++ gather f content := by
  simp [element, gather]

theorem gather_indentation (level : Nat) : gather f (indentation level) = [] := by
  rw [indentation]
  split <;> rfl

@[simp] theorem gather_indented (level : Nat) (tokens : List Token) :
    gather f (indented level tokens) = gather f tokens := by
  have hnewline : gather f [.newline] = [] := rfl
  rw [indented, line, gather_append, gather_append, gather_indentation, hnewline,
    List.append_nil, List.nil_append]

@[simp] theorem gather_elementLine (level : Nat) (name : String)
    (attributes : List Attribute) (content : List Token) :
    gather f (elementLine level name attributes content) =
      f name attributes ++ gather f content := by
  rw [elementLine, gather_indented, gather_element]

@[simp] theorem gather_blockElement (level : Nat) (name : String)
    (attributes : List Attribute) (content : List Token) :
    gather f (blockElement level name attributes content) =
      f name attributes ++ gather f content := by
  have hstart : gather f [.start name attributes] = f name attributes := List.append_nil _
  have hstop : gather f [.stop name] = [] := rfl
  rw [blockElement, gather_append, gather_append, gather_indented, gather_indented, hstart,
    hstop, List.append_nil]

@[simp] theorem gather_whenSome {β : Type} (value : Option β) (g : β → List Token) :
    gather f (whenSome value g) = value.toList.flatMap fun b => gather f (g b) := by
  cases value with
  | none => rfl
  | some b => simp [whenSome]

end Gather

/-! ## Attributes -/

/-- The values that attributes with a key are given. -/
def keyValues (key : String) (attributes : List Attribute) : List String :=
  ((attributes.map Attribute.pair).filter fun a => a.1 == key).map Prod.snd

/-- The values of an attribute on a tag that opens an element with one of some local
names. -/
def tagValues (elements : List String) (key name : String)
    (attributes : List Attribute) : List String :=
  if elements.contains (Event.localName name) then keyValues key attributes else []

/-- The values of an attribute on some tokens, in order. -/
abbrev valuesIn (elements : List String) (key : String) (tokens : List Token) :
    List String :=
  gather (tagValues elements key) tokens

theorem opening?_of_mem_textEvents {cs : List Char} {e : Event} (h : e ∈ textEvents cs) :
    e.opening? = none := by
  obtain ⟨p, -, hp⟩ := List.mem_filterMap.mp h
  cases p <;> simp [Piece.textEvent?] at hp <;> rw [← hp] <;> rfl

/-- What a function gives for the tags among some events that open elements, in order. -/
def opened {α : Type} (f : String → List (String × String) → List α) (events : List Event) :
    List α :=
  events.flatMap fun e =>
    match e.opening? with
    | some (name, attributes) => f name attributes
    | none => []

section Opened

variable {α : Type} (f : String → List (String × String) → List α)

theorem opened_textEvents (cs : List Char) (events : List Event) :
    opened f (textEvents cs ++ events) = opened f events := by
  rw [opened, opened, List.flatMap_append, List.flatMap_eq_nil_iff.mpr, List.nil_append]
  intro e he
  rw [opening?_of_mem_textEvents he]

/-- The tags that open elements among the events of tokens are those of the tokens. -/
theorem opened_eventsFrom (pending : List Char) (tokens : List Token) :
    opened f (eventsFrom pending tokens) =
      gather (fun name attributes => f name (attributes.map Attribute.pair)) tokens := by
  induction tokens generalizing pending with
  | nil =>
    have htexts := opened_textEvents f pending []
    rw [List.append_nil] at htexts
    rw [eventsFrom, htexts]
    rfl
  | cons t tokens ih =>
    have hcons : gather (fun name attributes => f name (attributes.map Attribute.pair))
        (t :: tokens) =
          gather (fun name attributes => f name (attributes.map Attribute.pair)) [t] ++
            opened f (eventsFrom [] tokens) := by
      rw [ih, ← gather_append]
      rfl
    cases t with
    | text w => exact ih _
    | start name attributes =>
      have hone : gather (fun name attributes => f name (attributes.map Attribute.pair))
          [.start name attributes] = f name (attributes.map Attribute.pair) :=
        List.append_nil _
      rw [eventsFrom, opened_textEvents, hcons, hone]
      rfl
    | empty name attributes =>
      rw [eventsFrom, opened_textEvents, hcons, gather_empty]
      rfl
    | stop name => rw [eventsFrom, opened_textEvents, hcons]; rfl
    | raw w => rw [eventsFrom, opened_textEvents, hcons]; rfl

end Opened

/-- A check finds the attributes that are written. -/
theorem attributeValues_eventsFrom (elements : List String) (key : String)
    (pending : List Char) (tokens : List Token) :
    attributeValues elements key (eventsFrom pending tokens) =
      valuesIn elements key tokens :=
  opened_eventsFrom _ pending tokens

section Keys

variable (elements : List String) (key : String)

theorem tagValues_eq (name : String) (attributes : List Attribute) :
    tagValues elements key name attributes =
      if elements.contains (Event.localName name) then keyValues key attributes else [] :=
  rfl

@[simp] theorem keyValues_nil : keyValues key [] = [] := rfl

@[simp] theorem keyValues_append (as bs : List Attribute) :
    keyValues key (as ++ bs) = keyValues key as ++ keyValues key bs := by
  simp [keyValues]

theorem keyValues_cons (a : Attribute) (attributes : List Attribute) :
    keyValues key (a :: attributes) =
      (if a.name = key then [a.pair.2] else []) ++ keyValues key attributes := by
  by_cases h : a.name = key <;> simp [keyValues, Attribute.pair, h]

end Keys

/-! ## Views of an element -/

section Views

variable {α : Type}

/-- Whether a view of events passes over all of them until an element with a local name
opens. -/
structure Listens (view : List Event → List α) (element : String) : Prop where
  text : ∀ written events, view (.text written :: events) = view events
  reference : ∀ name events, view (.reference name :: events) = view events
  stop : ∀ name events, view (.stop name :: events) = view events
  start : ∀ name attributes events, Event.localName name ≠ element →
    view (.start name attributes :: events) = view events
  empty : ∀ name attributes events, Event.localName name ≠ element →
    view (.empty name attributes :: events) = view events

variable {view : List Event → List α} {element : String}

theorem Listens.textEvents_append (hview : Listens view element) (cs : List Char)
    (events : List Event) : view (textEvents cs ++ events) = view events := by
  rw [textEvents]
  have hpieces : ∀ p ∈ Piece.runsFrom [] cs,
      (∃ w, p = .text w) ∨ ∃ name, p = .reference name :=
    fun _ => Piece.of_mem_runsFrom
  generalize Piece.runsFrom [] cs = pieces at hpieces ⊢
  induction pieces with
  | nil => rfl
  | cons p ps ih =>
    have hrest := ih fun q hq => hpieces q (List.mem_cons_of_mem _ hq)
    rcases hpieces p List.mem_cons_self with ⟨w, rfl⟩ | ⟨name, rfl⟩
    · exact (hview.text _ _).trans hrest
    · exact (hview.reference _ _).trans hrest

/-- Text that is pending does not matter. -/
theorem Listens.eventsFrom_eq (hview : Listens view element) (pending : List Char)
    (tokens : List Token) : view (eventsFrom pending tokens) = view (eventsFrom [] tokens) := by
  induction tokens generalizing pending with
  | nil =>
    have htexts := hview.textEvents_append pending []
    rw [List.append_nil] at htexts
    rw [eventsFrom, htexts]
    rfl
  | cons t tokens ih =>
    cases t with
    | text w => exact (ih _).trans (ih _).symm
    | start name attributes => exact hview.textEvents_append _ _
    | empty name attributes => exact hview.textEvents_append _ _
    | stop name => exact hview.textEvents_append _ _
    | raw w => exact hview.textEvents_append _ _

/-- Whether a view tells something of some tokens, whatever follows them. -/
def Tells (view : List Event → List α) (tokens : List Token) (told : List α) : Prop :=
  ∀ rest, view (eventsFrom [] (tokens ++ rest)) = told ++ view (eventsFrom [] rest)

/-- The local names of the elements that some tokens open. -/
abbrev namesIn (tokens : List Token) : List String :=
  gather (fun name _ => [Event.localName name]) tokens

namespace Tells

theorem nil : Tells view [] [] := fun _ => rfl

theorem append {ts us : List Token} {as bs : List α} (ht : Tells view ts as)
    (hu : Tells view us bs) : Tells view (ts ++ us) (as ++ bs) := by
  intro rest
  rw [List.append_assoc, ht, hu, List.append_assoc]

theorem flatMap {β : Type} {f : β → List Token} {g : β → List α} {bs : List β}
    (h : ∀ b ∈ bs, Tells view (f b) (g b)) :
    Tells view (bs.flatMap f) (bs.flatMap g) := by
  induction bs with
  | nil => exact nil
  | cons b bs ih =>
    rw [List.flatMap_cons, List.flatMap_cons]
    exact (h b List.mem_cons_self).append (ih fun x hx => h x (List.mem_cons_of_mem _ hx))

/-- Nothing is told of tokens that do not open the element. -/
theorem of_not_mem (hview : Listens view element) {tokens : List Token}
    (h : element ∉ namesIn tokens) : Tells view tokens [] := by
  induction tokens with
  | nil => exact nil
  | cons t tokens ih =>
    have hsplit : namesIn (t :: tokens) = namesIn [t] ++ namesIn tokens := by
      rw [← gather_append, List.singleton_append]
    rw [hsplit, List.mem_append, not_or] at h
    intro rest
    have hrest := ih h.2 rest
    cases t with
    | text w => exact (hview.eventsFrom_eq _ (tokens ++ rest)).trans hrest
    | start name attributes =>
      have hname : Event.localName name ≠ element := fun heq => h.1 (by simp [gather, heq])
      exact (hview.start _ _ _ hname).trans hrest
    | empty name attributes =>
      have hname : Event.localName name ≠ element := fun heq => h.1 (by simp [heq])
      exact (hview.empty _ _ _ hname).trans hrest
    | stop name => exact (hview.stop _ _).trans hrest
    | raw w => exact hrest

theorem indented (hview : Listens view element) {tokens : List Token} {told : List α}
    (h : Tells view tokens told) (level : Nat) :
    Tells view (Markup.indented level tokens) told := by
  have hindentation : Tells view (indentation level) [] :=
    of_not_mem hview (by simp [gather_indentation])
  have hnewline : Tells view [.newline] [] := of_not_mem hview (by simp [gather, Token.newline])
  have hline := h.append hnewline
  rw [List.append_nil] at hline
  exact hindentation.append hline

theorem blockElement (hview : Listens view element) {name : String}
    (hname : Event.localName name ≠ element) (attributes : List Attribute)
    {content : List Token} {told : List α} (h : Tells view content told) (level : Nat) :
    Tells view (Markup.blockElement level name attributes content) told := by
  have hstart : Tells view [.start name attributes] [] :=
    fun _ => hview.start _ _ _ hname
  have hstop : Tells view [.stop name] [] := fun _ => hview.stop _ _
  have hall := ((hstart.indented hview level).append h).append (hstop.indented hview level)
  rw [List.append_nil] at hall
  exact hall

/-- What a view tells of a whole document. -/
theorem eventsFrom_eq (hview : Listens view element) (hnone : view [] = [])
    {tokens : List Token} {told : List α} (h : Tells view tokens told)
    (pending : List Char) : view (eventsFrom pending tokens) = told := by
  have hall := h []
  have hend : eventsFrom [] [] = [] := rfl
  rw [List.append_nil, hend, hnone, List.append_nil] at hall
  rw [hview.eventsFrom_eq, hall]

end Tells

end Views

/-! ## Phrases -/

/-- Whether a text is written as it is and neither starts nor ends with a blank. -/
structure IsPhrase (s : String) : Prop where
  nonempty : s.toList ≠ []
  plain : ∀ c ∈ s.toList, ¬ Text.Dialect.IsSpecial c
  first : ∀ c ∈ s.toList.head?, Text.isBlank c = false
  last : ∀ c ∈ s.toList.getLast?, Text.isBlank c = false

theorem isPhrase_of_forall {s : String} (hne : s.toList ≠ [])
    (h : ∀ c ∈ s.toList, ¬ Text.Dialect.IsSpecial c ∧ Text.isBlank c = false) :
    IsPhrase s where
  nonempty := hne
  plain c hc := (h c hc).1
  first c hc := (h c (List.mem_of_mem_head? hc)).2
  last c hc := (h c (List.mem_of_mem_getLast? hc)).2

theorem IsPhrase.trim_eq {s : String} (h : IsPhrase s) : Text.trim s = s := by
  rw [Text.trim, Text.trimList_eq_self_iff.mpr ⟨h.first, h.last⟩, String.ofList_toList]

/-- A phrase is read as it is. -/
theorem IsPhrase.readText_eq {s : String} (h : IsPhrase s) : readText s = s :=
  (readText_eq_iff h.first h.last).mpr (isChain_apart_of_plain h.plain)

theorem map_readText_eq {texts : List String} (h : ∀ s ∈ texts, IsPhrase s) :
    texts.map readText = texts := by
  rw [List.map_congr_left fun s hs => (h s hs).readText_eq]
  exact List.map_id' texts

/-- A phrase between two tags is one event. -/
theorem IsPhrase.textEvents_eq {s : String} (h : IsPhrase s) :
    textEvents s.toList = [.text s] := by
  have hruns : ∀ run cs : List Char, (∀ c ∈ cs, ¬ Text.Dialect.IsSpecial c) →
      Piece.runsFrom run cs = Piece.flush (run ++ cs) := by
    intro run cs hcs
    induction cs generalizing run with
    | nil => rw [Piece.runsFrom, List.append_nil]
    | cons c cs ih =>
      rw [Piece.runsFrom, if_neg (hcs c List.mem_cons_self),
        ih _ fun x hx => hcs x (List.mem_cons_of_mem _ hx), List.append_assoc,
        List.singleton_append]
  have htrim : Text.trimList isSpace s.toList = s.toList :=
    Text.trimList_eq_self_iff.mpr ⟨fun c hc => isSpace_eq_false_of_isBlank (h.first c hc),
      fun c hc => isSpace_eq_false_of_isBlank (h.last c hc)⟩
  rw [textEvents, hruns [] _ h.plain, List.nil_append, Piece.flush, if_neg h.nonempty, htrim]
  simp [Piece.textEvent?]

/-- The events of an element with a text in it. -/
theorem eventsFrom_element (name : String) (attributes : List Attribute) (s : String)
    (rest : List Token) :
    eventsFrom [] (Markup.element name attributes [Xml.text s] ++ rest) =
      .start name (attributes.map Attribute.pair) ::
        (textEvents s.toList ++ .stop name :: eventsFrom [] rest) := by
  have hwritten : Text.Dialect.xml.unescapeList (Text.Dialect.xml.escape s).toList =
      s.toList := by
    rw [Text.Dialect.toList_escape, Text.Dialect.unescapeList_escapeList]
  rw [← hwritten]
  rfl

/-- The events of an element with a phrase in it. -/
theorem IsPhrase.eventsFrom_element {s : String} (h : IsPhrase s) (name : String)
    (attributes : List Attribute) (rest : List Token) :
    eventsFrom [] (Markup.element name attributes [Xml.text s] ++ rest) =
      .start name (attributes.map Attribute.pair) :: .text s :: .stop name ::
        eventsFrom [] rest := by
  rw [Package.eventsFrom_element, h.textEvents_eq]
  rfl

/-! ## Texts of elements -/

theorem listens_elementTexts (element : String) :
    Listens (elementTexts element none) element where
  text _ _ := rfl
  reference _ _ := rfl
  stop _ _ := by simp [elementTexts]
  start _ _ _ h := by rw [elementTexts, if_neg h]
  empty _ _ _ _ := rfl

theorem content_reference {c : Char} (h : Text.Dialect.IsSpecial c) :
    Event.content (.reference (String.ofList (Piece.referenceName c))) = String.ofList [c] := by
  rcases h with rfl | rfl | rfl | rfl | rfl <;> decide

theorem elementTexts_flush (element read : String) (run : List Char) (events : List Event) :
    elementTexts element (some read)
        ((Piece.flush run).filterMap Piece.textEvent? ++ events) =
      elementTexts element (some (read ++ String.ofList (Text.trimList isSpace run))) events := by
  rw [Piece.flush]
  split
  · rename_i hempty
    rw [hempty]
    simp [Text.trimList]
  · rw [List.filterMap_cons, Piece.textEvent?, List.filterMap_nil, List.singleton_append,
      elementTexts]
    · rfl
    · simp
    · simp

/-- The runs of a text and the references between them are put together in an element. -/
theorem elementTexts_runs (element read : String) (run cs : List Char) (events : List Event) :
    elementTexts element (some read)
        ((Piece.runsFrom run cs).filterMap Piece.textEvent? ++ events) =
      elementTexts element (some (read ++ String.ofList (readFrom run cs))) events := by
  induction cs generalizing run read with
  | nil => exact elementTexts_flush element read run events
  | cons c cs ih =>
    rw [Piece.runsFrom, readFrom]
    split
    · rename_i hc
      have hjoin : read ++ String.ofList (Text.trimList isSpace run) ++ String.ofList [c] ++
          String.ofList (readFrom [] cs) =
            read ++ String.ofList (Text.trimList isSpace run ++ c :: readFrom [] cs) := by
        simp [← String.toList_inj]
      rw [List.filterMap_append, List.append_assoc, elementTexts_flush, List.filterMap_cons,
        Piece.textEvent?, List.cons_append, elementTexts, Option.map_some, content_reference hc,
        ih, hjoin]
      · simp
      · simp
    · exact ih read (run ++ [c])

/-- The text in an element is told as far as it is read. -/
theorem tells_elementTexts {element name : String} (h : Event.localName name = element)
    (attributes : List Attribute) (s : String) :
    Tells (elementTexts element none) (Markup.element name attributes [Xml.text s])
      [readText s] := by
  intro rest
  rw [eventsFrom_element, elementTexts, if_pos h, textEvents, elementTexts_runs, elementTexts,
    if_pos h]
  simp only [String.empty_append]
  rfl

/-! ## The declared version -/

/-- The characters of the declared version. -/
def versionChars (events : List Event) : List Char :=
  (declaredVersion false events).toList

theorem listens_versionChars : Listens versionChars versionElement where
  text _ _ := by simp [versionChars, declaredVersion]
  reference _ _ := rfl
  stop _ _ := rfl
  start _ _ _ h := by simp [versionChars, declaredVersion, Event.opening?, h]
  empty _ _ _ h := by simp [versionChars, declaredVersion, Event.opening?, h]

/-- The phrase in an element that declares a version is told. -/
theorem tells_versionChars {name : String} (h : Event.localName name = versionElement)
    (attributes : List Attribute) {s : String} (hs : IsPhrase s) :
    Tells versionChars (Markup.element name attributes [Xml.text s]) s.toList := by
  intro rest
  rw [hs.eventsFrom_element]
  simp [versionChars, declaredVersion, Event.opening?, h]

end Courseware.Package
