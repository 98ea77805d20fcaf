import Courseware.Page.Lesson
import Courseware.Page.Shell
import Courseware.Proofs.Json.Inlined
import Courseware.Proofs.Script.Slot
import Courseware.Proofs.Text.Entity

/-!
# Containers in the text of a page

A page is searched, as it is written, for the places where the container of a block
starts. Texts, attributes and scripts never spell such a place, so what is found are the
blocks of the page, in order.
-/

namespace Courseware.Page

open Markup Markup.Html
open Text (Dialect)

/-! ## Searching -/

/-- What the container of a block starts with. -/
def containerStart : List Char := "<div class=\"block block-".toList

/-- The identifier in the tag at the start of a text, with its references decoded. -/
def containerId? (cs : List Char) : Option String :=
  (Script.cut? " data-block-id=\"".toList (cs.takeWhile (· != '>'))).map fun sides =>
    String.ofList (Dialect.html.unescapeList (sides.2.takeWhile (· != '"')))

/-- The identifiers of all containers that start in a text. -/
def containerIds : List Char → List (Option String)
  | [] => []
  | c :: cs =>
    if containerStart.isPrefixOf (c :: cs) then containerId? (c :: cs) :: containerIds cs
    else containerIds cs

theorem containerIds_cons {c : Char} {cs : List Char} (h : ¬ containerStart <+: c :: cs) :
    containerIds (c :: cs) = containerIds cs := by
  rw [containerIds, if_neg fun hprefix => h (List.isPrefixOf_iff_prefix.mp hprefix)]

/-- Where there is no bracket, no container starts. -/
theorem containerIds_append_of_not_mem {cs : List Char} (h : '<' ∉ cs) (rest : List Char) :
    containerIds (cs ++ rest) = containerIds rest := by
  induction cs with
  | nil => rfl
  | cons c cs ih =>
    have hc : ¬ containerStart <+: c :: (cs ++ rest) := by
      intro hprefix
      have heq : '<' = c := (List.cons_prefix_cons.mp hprefix).1
      exact h (heq ▸ List.mem_cons_self)
    rw [List.cons_append, containerIds_cons hc, ih fun hmem => h (List.mem_cons_of_mem _ hmem)]

/-- Whether a text and the start of a container differ in a character that both have. -/
def Parts (cs : List Char) : Prop := ¬ cs <+: containerStart ∧ ¬ containerStart <+: cs

instance (cs : List Char) : Decidable (Parts cs) := inferInstanceAs (Decidable (_ ∧ _))

theorem Parts.not_prefix {cs : List Char} (h : Parts cs) (rest : List Char) :
    ¬ containerStart <+: cs ++ rest := by
  intro hprefix
  rcases List.prefix_or_prefix_of_prefix hprefix (List.prefix_append cs rest) with h' | h'
  · exact h.2 h'
  · exact h.1 h'

/-- A tag that starts like no container is passed over. -/
theorem containerIds_tag {cs ds : List Char} (hparts : Parts ('<' :: cs))
    (hless : '<' ∉ cs ++ ds) (rest : List Char) :
    containerIds ('<' :: (cs ++ ds) ++ rest) = containerIds rest := by
  have hhead : ¬ containerStart <+: '<' :: ((cs ++ ds) ++ rest) := by
    have h := hparts.not_prefix (ds ++ rest)
    rwa [List.cons_append, ← List.append_assoc] at h
  rw [List.cons_append, containerIds_cons hhead, containerIds_append_of_not_mem hless]

/-- A line in which the start of an attribute is never found has no container. -/
theorem containerIds_line {s : Json.Spot} {cs : List Char} (h : s.run cs ≠ .found)
    (rest : List Char) :
    containerIds (cs ++ '\n' :: rest) = containerIds ('\n' :: rest) := by
  have hfound : ∀ s : Json.Spot, s.run containerStart = .found := by
    intro s
    cases s <;> decide
  induction cs generalizing s with
  | nil => rfl
  | cons c cs ih =>
    have hhead : ¬ containerStart <+: c :: cs ++ '\n' :: rest := by
      intro hprefix
      have hline : (c :: cs) ++ ['\n'] <+: c :: cs ++ '\n' :: rest :=
        ⟨rest, by simp⟩
      have hnewline : '\n' ∉ containerStart := by decide
      rcases List.prefix_or_prefix_of_prefix hprefix hline with hstart | hstart
      · rcases List.prefix_concat_iff.mp hstart with heq | hstart
        · exact hnewline (heq ▸ List.mem_append_right _ List.mem_cons_self)
        · obtain ⟨ds, hds⟩ := hstart
          rw [← hds, Json.Spot.run_append, hfound, Json.Spot.run_found] at h
          exact h rfl
      · exact hnewline (hstart.subset (List.mem_append_right _ List.mem_cons_self))
    rw [List.cons_append] at hhead ⊢
    rw [containerIds_cons hhead, ih h]

theorem lt_not_mem_escape (s : String) : '<' ∉ (Dialect.html.escape s).toList :=
  Dialect.not_mem_escape (Or.inl rfl) s

/-! ## Tokens -/

/-- Whether tokens bear the containers with the given identifiers and no others. -/
def Bears (tokens : List Token) (ids : List (Option String)) : Prop :=
  ∀ rest, containerIds ((render tokens).toList ++ rest) = ids ++ containerIds rest

/-- Whether tokens bear no container. -/
abbrev Bare (tokens : List Token) : Prop := Bears tokens []

namespace Bears

theorem nil : Bare [] := fun _ => rfl

theorem append {ts us : List Token} {ids more : List (Option String)} (ht : Bears ts ids)
    (hu : Bears us more) : Bears (ts ++ us) (ids ++ more) := by
  intro rest
  have hsplit : (render (ts ++ us)).toList = (render ts).toList ++ (render us).toList := by
    simp [render]
  rw [hsplit, List.append_assoc, ht, hu, List.append_assoc]

theorem flatten {ts : List (List Token)} (h : ∀ t ∈ ts, Bare t) : Bare ts.flatten := by
  induction ts with
  | nil => exact nil
  | cons t ts ih =>
    exact (h t List.mem_cons_self).append (ih fun x hx => h x (List.mem_cons_of_mem _ hx))

theorem flatMap {α : Type} {f : α → List Token} (h : ∀ a, Bare (f a)) (as : List α) :
    Bare (as.flatMap f) := by
  rw [List.flatMap_def]
  apply flatten
  intro t ht
  obtain ⟨a, -, rfl⟩ := List.mem_map.mp ht
  exact h a

theorem mapIdx {α : Type} {f : Nat → α → List Token} (h : ∀ i a, Bare (f i a))
    (as : List α) : Bare (as.mapIdx f).flatten := by
  have hsplit : (as.mapIdx f).flatten = as.zipIdx.flatMap fun a => f a.2 a.1 := by
    rw [List.mapIdx_eq_zipIdx_map, List.flatMap_def]
  rw [hsplit]
  have hall : ∀ a : α × Nat, Bare (f a.2 a.1) := fun a => h a.2 a.1
  exact flatMap hall as.zipIdx

theorem whenSome {α : Type} {f : α → List Token} (h : ∀ a, Bare (f a)) (value : Option α) :
    Bare (Markup.whenSome value f) := by
  cases value with
  | none => exact nil
  | some a => exact h a

theorem of_text {s : String} (h : '<' ∉ s.toList) : Bare [.text s] := by
  intro rest
  have hrender : (render [.text s]).toList = s.toList := by simp [render, Token.render]
  rw [hrender]
  exact containerIds_append_of_not_mem h rest

theorem text (s : String) : Bare [Html.text s] :=
  of_text (lt_not_mem_escape s)

theorem newline : Bare [.newline] := of_text (s := "\n") (by decide)

theorem newline_cons {ts : List Token} {ids : List (Option String)} (h : Bears ts ids) :
    Bears (.newline :: ts) ids :=
  newline.append h

theorem line {ts : List Token} {ids : List (Option String)} (h : Bears ts ids) :
    Bears (Markup.line ts) ids := by
  have hline := h.append newline
  rwa [List.append_nil] at hline

theorem indentation (level : Nat) : Bare (Markup.indentation level) := by
  rw [Markup.indentation]
  split
  · exact nil
  · apply of_text
    rw [String.toList_ofList]
    intro hmem
    exact absurd (List.eq_of_mem_replicate hmem) (by decide)

theorem indented {ts : List Token} {ids : List (Option String)} (h : Bears ts ids)
    (level : Nat) : Bears (Markup.indented level ts) ids :=
  (indentation level).append h.line

theorem lines (s : String) : Bare (multiline s) := by
  have hbreak : Bare [.start "br" []] := fun rest => rfl
  rw [multiline]
  split
  · exact nil
  · exact (text _).append (flatMap (fun l => hbreak.append (newline.append (text l))) _)

end Bears

/-! ## Tags -/

/-- Whether attributes are written without brackets. -/
def Unbracketed (attributes : List Attribute) : Prop :=
  '<' ∉ (String.join (attributes.map Attribute.render)).toList

namespace Unbracketed

variable {attributes : List Attribute}

theorem nil : Unbracketed [] := List.not_mem_nil

theorem cons {a : Attribute} (ha : '<' ∉ a.render.toList) (h : Unbracketed attributes) :
    Unbracketed (a :: attributes) := by
  have hsplit : (String.join ((a :: attributes).map Attribute.render)).toList =
      a.render.toList ++ (String.join (attributes.map Attribute.render)).toList := by
    simp
  rw [Unbracketed, hsplit]
  exact List.not_mem_append ha h

theorem fixed {name written : String} (hname : '<' ∉ name.toList)
    (hwritten : '<' ∉ written.toList) (h : Unbracketed attributes) :
    Unbracketed (Html.fixed name written :: attributes) := by
  refine cons ?_ h
  simp [Html.fixed, Attribute.literal, Attribute.render, hname, hwritten]

theorem attr {name : String} (hname : '<' ∉ name.toList) (s : String)
    (h : Unbracketed attributes) : Unbracketed (Html.attr name s :: attributes) :=
  fixed hname (lt_not_mem_escape s) h

theorem truth {name : String} (hname : '<' ∉ name.toList) (b : Bool)
    (h : Unbracketed attributes) : Unbracketed (Html.truth name b :: attributes) :=
  fixed hname (by cases b <;> decide) h

theorem flag {name : String} (hname : '<' ∉ name.toList) (h : Unbracketed attributes) :
    Unbracketed (.flag name :: attributes) := by
  refine cons ?_ h
  simp [Attribute.flag, Attribute.render, hname]

end Unbracketed

/-- Whether a name is one that no container starts with. -/
def IsOther (name : String) : Prop := Parts ('<' :: name.toList) ∧ '<' ∉ name.toList

instance (name : String) : Decidable (IsOther name) := inferInstanceAs (Decidable (_ ∧ _))

namespace Bears

theorem start {name : String} (hname : IsOther name) {attributes : List Attribute}
    (h : Unbracketed attributes) : Bare [.start name attributes] := by
  intro rest
  have hrender : (render [.start name attributes]).toList =
      '<' :: (name.toList ++
        ((String.join (attributes.map Attribute.render)).toList ++ ['>'])) := by
    simp [render, Token.render]
  rw [hrender]
  refine containerIds_tag hname.1 ?_ rest
  exact List.not_mem_append hname.2 (List.not_mem_append h (by decide))

theorem stop {name : String} (hname : '<' ∉ name.toList) : Bare [.stop name] := by
  intro rest
  have hrender : (render [.stop name]).toList = '<' :: (['/'] ++ (name.toList ++ ['>'])) := by
    simp [render, Token.render]
  rw [hrender]
  refine containerIds_tag (by decide) ?_ rest
  exact List.not_mem_append (by decide) (List.not_mem_append hname (by decide))

theorem element {name : String} (hname : IsOther name) {attributes : List Attribute}
    (h : Unbracketed attributes) {content : List Token} {ids : List (Option String)}
    (hcontent : Bears content ids) : Bears (Markup.element name attributes content) ids := by
  have hall := (start hname h).append (hcontent.append (stop hname.2))
  rwa [List.append_nil] at hall

/-- An element of another class is no container. -/
theorem div {written : String} (hwritten : '<' ∉ written.toList)
    (hparts : Parts ("<div class=\"".toList ++ written.toList ++ ['"']))
    {attributes : List Attribute} (h : Unbracketed attributes) {content : List Token}
    {ids : List (Option String)} (hcontent : Bears content ids) :
    Bears (Markup.element "div" (Html.fixed "class" written :: attributes) content) ids := by
  have hstart : Bare [.start "div" (Html.fixed "class" written :: attributes)] := by
    intro rest
    have hrender : (render [.start "div" (Html.fixed "class" written :: attributes)]).toList =
        '<' :: ("div class=\"".toList ++ written.toList ++ ['"'] ++
          ((String.join (attributes.map Attribute.render)).toList ++ ['>'])) := by
      simp [render, Token.render, Html.fixed, Attribute.literal, Attribute.render]
    rw [hrender]
    refine containerIds_tag hparts ?_ rest
    refine List.not_mem_append (List.not_mem_append (List.not_mem_append ?_ hwritten) ?_)
      (List.not_mem_append h (by decide))
    · decide
    · decide
  have hstop : Bare [.stop "div"] := stop (by decide)
  have hall := hstart.append (hcontent.append hstop)
  rwa [List.append_nil] at hall

/-- An element without attributes is no container. -/
theorem plainDiv {content : List Token} {ids : List (Option String)}
    (hcontent : Bears content ids) : Bears (Markup.element "div" [] content) ids := by
  have hless : '<' ∉ "div>".toList ++ [] := by decide
  have hstart : Bare [.start "div" []] := containerIds_tag (by decide) hless
  have hstop : Bare [.stop "div"] := stop (by decide)
  have hall := hstart.append (hcontent.append hstop)
  rwa [List.append_nil] at hall

end Bears

end Courseware.Page
