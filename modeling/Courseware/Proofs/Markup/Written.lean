import Courseware.Markup.Html
import Courseware.Proofs.Text.Entity
import Mathlib.Data.List.Basic

/-!
# Attributes in the text of a page

A page is searched, as it is written, for the values of an attribute. Quotes stand around the
values of attributes and nowhere else, so every second part between quotes is a value, and
what stands right before it names the attribute.
-/

namespace Courseware.Markup

open Text (Dialect)

variable {name : String}

/-! ## Searching -/

/-- What stands before the quote that opens the value of an attribute. -/
def attributeMark (name : String) : List Char := ' ' :: (name.toList ++ ['='])

/-- The values in quotes right behind a mark. The parts are those between the quotes of a text:
they stand in turn outside of quotes and in quotes. -/
def valuesBehind (mark : List Char) : List (List Char) → List String
  | before :: value :: after :: rest =>
    (if mark.isSuffixOf before then [String.ofList value] else []) ++
      valuesBehind mark (after :: rest)
  | _ => []

/-- The values that an attribute has in a text, as they are written. -/
def writtenValues (name : String) (cs : List Char) : List String :=
  valuesBehind (attributeMark name) (cs.splitOn '"')

theorem writtenValues_of_not_mem {cs : List Char} (h : '"' ∉ cs) :
    writtenValues name cs = [] := by
  rw [writtenValues, List.splitOn_eq_singleton h]
  rfl

/-- The first value in quotes counts when the mark stands before it. -/
theorem writtenValues_quoted {before value : List Char} (hbefore : '"' ∉ before)
    (hvalue : '"' ∉ value) (rest : List Char) :
    writtenValues name (before ++ '"' :: (value ++ '"' :: rest)) =
      (if (attributeMark name).isSuffixOf before then [String.ofList value] else []) ++
        writtenValues name rest := by
  obtain ⟨after, parts, hparts⟩ :=
    List.exists_cons_of_ne_nil (List.splitOn_ne_nil '"' rest)
  rw [writtenValues, List.splitOn_append_cons_self_of_not_mem hbefore,
    List.splitOn_append_cons_self_of_not_mem hvalue, writtenValues, hparts]
  rfl

/-- The marks of attributes with other names do not count. -/
theorem attributeMark_suffix_iff {other : String} (hname : ' ' ∉ name.toList)
    (hother : ' ' ∉ other.toList) (before : List Char) :
    attributeMark name <:+ before ++ attributeMark other ↔ other = name := by
  -- Of two marks, the shorter one would begin inside of the other one with a blank.
  have hequal : ∀ {s t : String}, ' ' ∉ t.toList → attributeMark s <:+ attributeMark t →
      t = s := by
    intro s t ht hsuffix
    rcases List.suffix_cons_iff.mp hsuffix with heq | hinside
    · exact String.toList_inj.mp
        (List.append_cancel_right (List.cons.inj heq).2).symm
    · have hblank : ' ' ∈ t.toList ++ ['='] := hinside.subset List.mem_cons_self
      simp [ht] at hblank
  constructor
  · intro hsuffix
    rcases List.suffix_or_suffix_of_suffix hsuffix (List.suffix_append before _) with h | h
    · exact hequal hother h
    · exact (hequal hname h).symm
  · rintro rfl
    exact List.suffix_append before _

/-! ## Tokens -/

def Attribute.valueOf? (name : String) (a : Attribute) : Option String :=
  if a.name = name then a.value else none

def Token.attributes : Token → List Attribute
  | start _ attributes => attributes
  | empty _ attributes => attributes
  | _ => []

/-- The values that an attribute has in some tokens, as they are written. -/
def valuesOf (name : String) (tokens : List Token) : List String :=
  tokens.flatMap fun t => t.attributes.filterMap (Attribute.valueOf? name)

/-- Whether a name ends before any blank and before any quote. -/
def IsTidyName (name : String) : Prop := ' ' ∉ name.toList ∧ '"' ∉ name.toList

instance (name : String) : Decidable (IsTidyName name) := inferInstanceAs (Decidable (_ ∧ _))

/-- Whether an attribute is written on one line, with no quotes but those around its value. -/
structure Attribute.IsTidy (a : Attribute) : Prop where
  gap : a.gap = " "
  name : IsTidyName a.name
  value : ∀ written ∈ a.value, '"' ∉ written.toList

/-- Whether attributes are written with no quotes but those around their values. -/
def TidyAttributes (attributes : List Attribute) : Prop := ∀ a ∈ attributes, a.IsTidy

/-- Whether a token is written with no quotes but those around the values of attributes. -/
def Token.IsTidy : Token → Prop
  | text written => '"' ∉ written.toList
  | start name attributes => '"' ∉ name.toList ∧ TidyAttributes attributes
  | empty name attributes => '"' ∉ name.toList ∧ TidyAttributes attributes
  | stop name => '"' ∉ name.toList
  | raw written => '"' ∉ written.toList

/-- Whether some values are found in some characters, wherever these stand outside of
quotes, and whether what follows them stands outside of quotes again. -/
def Finds (name : String) (cs : List Char) (values : List String) : Prop :=
  ∀ outside rest, '"' ∉ outside → ∃ left, '"' ∉ left ∧
    writtenValues name (outside ++ (cs ++ rest)) = values ++ writtenValues name (left ++ rest)

namespace Finds

theorem of_not_mem {cs : List Char} (h : '"' ∉ cs) : Finds name cs [] := by
  intro outside rest houtside
  refine ⟨outside ++ cs, List.not_mem_append houtside h, ?_⟩
  rw [List.append_assoc, List.nil_append]

theorem append {cs ds : List Char} {vs ws : List String} (hcs : Finds name cs vs)
    (hds : Finds name ds ws) : Finds name (cs ++ ds) (vs ++ ws) := by
  intro outside rest houtside
  obtain ⟨middle, hmiddle, hvs⟩ := hcs outside (ds ++ rest) houtside
  obtain ⟨left, hleft, hws⟩ := hds middle rest hmiddle
  refine ⟨left, hleft, ?_⟩
  rw [List.append_assoc, hvs, hws, List.append_assoc]

theorem join {α : Type} {f : α → String} {g : α → List String} {as : List α}
    (h : ∀ a ∈ as, Finds name (f a).toList (g a)) :
    Finds name (String.join (as.map f)).toList (as.flatMap g) := by
  induction as with
  | nil => exact of_not_mem List.not_mem_nil
  | cons a as ih =>
    obtain ⟨ha, has⟩ := List.forall_mem_cons.mp h
    have hsplit : (String.join ((a :: as).map f)).toList =
        (f a).toList ++ (String.join (as.map f)).toList := by
      simp
    rw [hsplit, List.flatMap_cons]
    exact ha.append (ih has)

/-- The value of a tidy attribute is found when its name is looked for. -/
theorem ofAttribute (hname : ' ' ∉ name.toList) {a : Attribute} (h : a.IsTidy) :
    Finds name a.render.toList (a.valueOf? name).toList := by
  obtain ⟨gap, other, value⟩ := a
  obtain ⟨hgap, ⟨hblank, hquote⟩, hvalue⟩ := h
  dsimp only at hgap hblank hquote hvalue
  subst hgap
  cases value with
  | none =>
    have hnone : (Attribute.valueOf? name ⟨" ", other, none⟩).toList = [] := by
      rw [Attribute.valueOf?]
      split <;> rfl
    rw [hnone]
    exact of_not_mem (by simp [Attribute.render, hquote])
  | some written =>
    intro outside rest houtside
    have hsplit : outside ++ ((Attribute.render ⟨" ", other, some written⟩).toList ++ rest) =
        (outside ++ attributeMark other) ++ '"' :: (written.toList ++ '"' :: rest) := by
      simp [Attribute.render, attributeMark]
    have hbefore : '"' ∉ outside ++ attributeMark other :=
      List.not_mem_append houtside (by simp [attributeMark, hquote])
    refine ⟨[], List.not_mem_nil, ?_⟩
    rw [hsplit, writtenValues_quoted hbefore (hvalue written rfl), List.nil_append]
    by_cases hsame : other = name
    · rw [if_pos (List.isSuffixOf_iff_suffix.mpr
        ((attributeMark_suffix_iff hname hblank outside).mpr hsame)),
        Attribute.valueOf?, if_pos hsame, String.ofList_toList]
      rfl
    · rw [if_neg fun hsuffix => hsame ((attributeMark_suffix_iff hname hblank outside).mp
        (List.isSuffixOf_iff_suffix.mp hsuffix)), Attribute.valueOf?, if_neg hsame]
      rfl

/-- The values in a tag are those of its attributes. -/
theorem ofTag (hname : ' ' ∉ name.toList) {element close : String} {attributes : List Attribute}
    (helement : '"' ∉ element.toList) (hclose : '"' ∉ close.toList)
    (h : TidyAttributes attributes) :
    Finds name ("<" ++ element ++ String.join (attributes.map Attribute.render) ++ close).toList
      (attributes.filterMap (Attribute.valueOf? name)) := by
  have hstart : Finds name ("<" ++ element).toList [] :=
    of_not_mem (by simp [helement])
  have hall := (hstart.append (join fun a ha => ofAttribute hname (h a ha))).append
    (of_not_mem hclose)
  rw [List.nil_append, List.append_nil, ← List.filterMap_eq_flatMap_toList] at hall
  rwa [String.toList_append, String.toList_append]

theorem ofToken (hname : ' ' ∉ name.toList) {t : Token} (h : t.IsTidy) :
    Finds name t.render.toList (t.attributes.filterMap (Attribute.valueOf? name)) := by
  cases t with
  | text written => exact of_not_mem h
  | start element attributes => exact ofTag hname h.1 (by decide) h.2
  | empty element attributes => exact ofTag hname h.1 (by decide) h.2
  | stop element =>
    refine of_not_mem ?_
    have hstop : '"' ∉ element.toList := h
    simp [Token.render, hstop]
  | raw written => exact of_not_mem h

end Finds

/-- Whether tokens are written with no quotes but those around the values of attributes. -/
def Tidy (tokens : List Token) : Prop := ∀ t ∈ tokens, t.IsTidy

/-- What is found in tidy tokens as they are written are the values of their attributes. -/
theorem writtenValues_render (hname : ' ' ∉ name.toList) {tokens : List Token}
    (h : Tidy tokens) :
    writtenValues name (render tokens).toList = valuesOf name tokens := by
  have hfinds : Finds name (render tokens).toList (valuesOf name tokens) :=
    Finds.join fun t ht => Finds.ofToken hname (h t ht)
  obtain ⟨left, hleft, hvalues⟩ := hfinds [] [] List.not_mem_nil
  rwa [List.nil_append, List.append_nil, List.append_nil, writtenValues_of_not_mem hleft,
    List.append_nil] at hvalues

/-! ## Values in markup -/

section Values

variable {tokens : List Token} {attributes : List Attribute}

@[simp] theorem Attribute.valueOf?_fixed (other written : String) :
    (Html.fixed other written).valueOf? name = if other = name then some written else none := rfl

@[simp] theorem Attribute.valueOf?_attr (other s : String) :
    (Html.attr other s).valueOf? name =
      if other = name then some (Dialect.html.escape s) else none := rfl

@[simp] theorem Attribute.valueOf?_truth (other : String) (b : Bool) :
    (Html.truth other b).valueOf? name =
      if other = name then some (if b then "true" else "false") else none := rfl

@[simp] theorem Attribute.valueOf?_flag (other : String) :
    (Attribute.flag other).valueOf? name = none := by
  rw [Attribute.valueOf?]
  split <;> rfl

@[simp] theorem valuesOf_nil : valuesOf name [] = [] := rfl

@[simp] theorem valuesOf_append (ts us : List Token) :
    valuesOf name (ts ++ us) = valuesOf name ts ++ valuesOf name us :=
  List.flatMap_append

@[simp] theorem valuesOf_ofText_cons (s : String) (tokens : List Token) :
    valuesOf name (Html.text s :: tokens) = valuesOf name tokens := rfl

@[simp] theorem valuesOf_start_cons (element : String) (attributes : List Attribute)
    (tokens : List Token) :
    valuesOf name (.start element attributes :: tokens) =
      attributes.filterMap (Attribute.valueOf? name) ++ valuesOf name tokens := rfl

@[simp] theorem valuesOf_element (element : String) (attributes : List Attribute)
    (tokens : List Token) :
    valuesOf name (Markup.element element attributes tokens) =
      attributes.filterMap (Attribute.valueOf? name) ++ valuesOf name tokens := by
  have hstop : valuesOf name [.stop element] = [] := rfl
  rw [Markup.element, valuesOf_append, valuesOf_start_cons, hstop, List.append_nil]

@[simp] theorem valuesOf_newline_cons (tokens : List Token) :
    valuesOf name (.newline :: tokens) = valuesOf name tokens := rfl

@[simp] theorem valuesOf_line (tokens : List Token) :
    valuesOf name (line tokens) = valuesOf name tokens := by
  rw [line, valuesOf_append, valuesOf_newline_cons, valuesOf_nil, List.append_nil]

@[simp] theorem valuesOf_indented (level : Nat) (tokens : List Token) :
    valuesOf name (indented level tokens) = valuesOf name tokens := by
  have hspace : valuesOf name (indentation level) = [] := by
    rw [indentation]
    split <;> rfl
  rw [indented, valuesOf_append, hspace, valuesOf_line, List.nil_append]

theorem valuesOf_flatMap {α : Type} (f : α → List Token) (as : List α) :
    valuesOf name (as.flatMap f) = as.flatMap fun a => valuesOf name (f a) :=
  List.flatMap_assoc

/-- Parts with one value each, which may depend on their positions. -/
theorem valuesOf_mapIdx {α : Type} {f : Nat → α → List Token} {g : Nat → α → String}
    (h : ∀ i a, valuesOf name (f i a) = [g i a]) (as : List α) :
    valuesOf name (as.mapIdx f).flatten = as.mapIdx g := by
  have hparts : (as.mapIdx f).flatten = as.zipIdx.flatMap fun a => f a.2 a.1 := by
    rw [List.mapIdx_eq_zipIdx_map, List.flatMap_def]
  rw [hparts, valuesOf_flatMap, List.mapIdx_eq_zipIdx_map, List.map_eq_flatMap]
  exact List.flatMap_congr fun a _ => h a.2 a.1

/-- Lines of text have no attributes. -/
@[simp] theorem valuesOf_multiline (s : String) : valuesOf name (Html.multiline s) = [] := by
  rw [Html.multiline]
  split
  · rfl
  · rename_i first rest _
    have hrest : valuesOf name (rest.flatMap fun l => [.start "br" [], .text "\n", Html.text l]) =
        [] := by
      rw [valuesOf_flatMap, List.flatMap_eq_nil_iff]
      exact fun l _ => rfl
    exact hrest

end Values

/-! ## Tidy markup -/

namespace TidyAttributes

variable {attributes : List Attribute}

theorem nil : TidyAttributes [] := fun _ ha => absurd ha List.not_mem_nil

theorem fixed {name written : String} (hname : IsTidyName name)
    (hwritten : '"' ∉ written.toList) (h : TidyAttributes attributes) :
    TidyAttributes (Html.fixed name written :: attributes) :=
  List.forall_mem_cons.mpr ⟨⟨rfl, hname, fun _ hv => Option.some.inj hv ▸ hwritten⟩, h⟩

theorem attr {name : String} (hname : IsTidyName name) (s : String)
    (h : TidyAttributes attributes) : TidyAttributes (Html.attr name s :: attributes) :=
  fixed hname (Dialect.not_mem_escape (by decide) s) h

theorem truth {name : String} (hname : IsTidyName name) (b : Bool)
    (h : TidyAttributes attributes) : TidyAttributes (Html.truth name b :: attributes) :=
  fixed hname (by cases b <;> decide) h

theorem flag {name : String} (hname : IsTidyName name) (h : TidyAttributes attributes) :
    TidyAttributes (.flag name :: attributes) :=
  List.forall_mem_cons.mpr ⟨⟨rfl, hname, fun _ hv => nomatch hv⟩, h⟩

end TidyAttributes

namespace Tidy

variable {element : String} {attributes : List Attribute} {ts us : List Token}

theorem nil : Tidy [] := fun _ ht => absurd ht List.not_mem_nil

theorem append (ht : Tidy ts) (hu : Tidy us) : Tidy (ts ++ us) :=
  List.forall_mem_append.mpr ⟨ht, hu⟩

theorem flatten {tss : List (List Token)} (h : ∀ ts ∈ tss, Tidy ts) : Tidy tss.flatten := by
  intro t ht
  obtain ⟨ts, hts, ht⟩ := List.mem_flatten.mp ht
  exact h ts hts t ht

theorem mapIdx {α : Type} {f : Nat → α → List Token} (h : ∀ i a, Tidy (f i a))
    (as : List α) : Tidy (as.mapIdx f).flatten := by
  refine flatten fun ts hts => ?_
  obtain ⟨i, hi, rfl⟩ := List.mem_mapIdx.mp hts
  exact h i _

theorem whenSome {α : Type} {f : α → List Token} (h : ∀ a, Tidy (f a)) (value : Option α) :
    Tidy (Markup.whenSome value f) := by
  cases value with
  | none => exact nil
  | some a => exact h a

theorem text (s : String) : Tidy [Html.text s] :=
  List.forall_mem_singleton.mpr (Dialect.not_mem_escape (by decide) s)

theorem newline : Tidy [.newline] :=
  List.forall_mem_singleton.mpr (show '"' ∉ "\n".toList by decide)

theorem start (hname : '"' ∉ element.toList) (h : TidyAttributes attributes) :
    Tidy [.start element attributes] :=
  List.forall_mem_singleton.mpr ⟨hname, h⟩

theorem ofElement (hname : '"' ∉ element.toList) (h : TidyAttributes attributes)
    (hcontent : Tidy ts) : Tidy (Markup.element element attributes ts) :=
  (start hname h).append (hcontent.append (List.forall_mem_singleton.mpr hname))

theorem newline_cons (h : Tidy ts) : Tidy (.newline :: ts) := newline.append h

theorem line (h : Tidy ts) : Tidy (Markup.line ts) := h.append newline

theorem indented (h : Tidy ts) (level : Nat) : Tidy (Markup.indented level ts) := by
  have hspace : Tidy (indentation level) := by
    rw [indentation]
    split
    · exact nil
    · refine List.forall_mem_singleton.mpr ?_
      rw [Token.IsTidy, String.toList_ofList]
      exact fun hmem => absurd (List.eq_of_mem_replicate hmem) (by decide)
  exact hspace.append h.line

theorem multiline (s : String) : Tidy (Html.multiline s) := by
  rw [Html.multiline]
  split
  · exact nil
  · rename_i first rest _
    refine (text first).append fun t ht => ?_
    obtain ⟨l, -, hl⟩ := List.mem_flatMap.mp ht
    exact ((start (by decide) .nil).append (newline.append (text l))) t hl

end Tidy

end Courseware.Markup
