import Courseware.Proofs.Markup.Scripts
import Courseware.Proofs.Page.Faithful

/-!
# The parts of a page that lead somewhere

What exporters write around the content of lessons: the elements of a page that lead to
other files, that name a lesson or that hold code. A reader of the page finds them in the
order in which they are written.
-/

namespace Courseware.Page

open Markup Markup.Html
open Markup.Reader (Lays Pairs Spells SpellsText IsName isName_ofList IsPlainValue
  isPlainValue_ofList voidElements IsContainer)

/-! ## Reading -/

/-- An element of a page without what stands in it; of a script, with its code. -/
structure Part where
  name : String
  attributes : List (String × String)
  code : String := ""
  deriving DecidableEq, Repr

/-- Whether an element leads to a file, names a lesson or holds code. -/
def Part.tells (p : Part) : Bool :=
  p.name == "script" || p.attributes.any fun a => ["href", "src", "data-lesson-id"].contains a.1

/-- Whether an element holds the content of a lesson, whose links are those of its author. -/
def isLessonContent (name : String) (attributes : List (String × String)) : Bool :=
  name == "main" && attributes.lookup "class" == some "lesson-content"

mutual

/-- The parts in a node, in order. -/
def partsIn : Node → List Part
  | .character _ => []
  | .element name attributes nodes =>
    let part : Part := ⟨name, attributes, if name = "script" then Node.text nodes else ""⟩
    (if part.tells then [part] else []) ++
      if isLessonContent name attributes then [] else partsOf nodes

/-- The parts in some nodes, in order. -/
def partsOf : List Node → List Part
  | [] => []
  | n :: ns => partsIn n ++ partsOf ns

end

/-- The parts of a page. -/
def parts? (page : String) : Option (List Part) :=
  (root? .html page).map partsIn

theorem partsOf_append (ns ms : List Node) :
    partsOf (ns ++ ms) = partsOf ns ++ partsOf ms := by
  induction ns with
  | nil => rfl
  | cons n ns ih => rw [List.cons_append, partsOf, partsOf, ih, List.append_assoc]

theorem partsOf_ofText (s : String) : partsOf (Node.ofText s) = [] := by
  rw [Node.ofText]
  induction s.toList with
  | nil => rfl
  | cons c cs ih => rw [List.map_cons, partsOf, ih, partsIn, List.nil_append]

/-! ## Writing -/

/-- Whether tokens are read as nodes with the given parts. -/
def Carries (tokens : List Token) (parts : List Part) : Prop :=
  ∃ ns, Spells .html tokens ns ∧ partsOf ns = parts

namespace Carries

variable {name : String} {attributes : List Attribute} {pairs : List (String × String)}
  {content : List Token} {inner : List Part}

theorem nil : Carries [] [] := ⟨[], Spells.nil, rfl⟩

theorem append {ts us : List Token} {ps qs : List Part} (ht : Carries ts ps)
    (hu : Carries us qs) : Carries (ts ++ us) (ps ++ qs) := by
  obtain ⟨ns, hns, rfl⟩ := ht
  obtain ⟨ms, hms, rfl⟩ := hu
  exact ⟨ns ++ ms, hns.append hms, partsOf_append ns ms⟩

theorem flatMap {α : Type} {f : α → List Token} {g : α → List Part} {as : List α}
    (h : ∀ a ∈ as, Carries (f a) (g a)) : Carries (as.flatMap f) (as.flatMap g) := by
  induction as with
  | nil => exact nil
  | cons a as ih =>
    exact (h a List.mem_cons_self).append (ih fun x hx => h x (List.mem_cons_of_mem _ hx))

theorem text (s : String) : Carries [Html.text s] [] :=
  ⟨_, Spells.ofText s, partsOf_ofText s⟩

/-- Characters between tags have no parts. -/
theorem of_text {written : String} {cs : List Char} (h : SpellsText .html written.toList cs) :
    Carries [.text written] [] := by
  refine ⟨_, Spells.of_text h, ?_⟩
  have hparts := partsOf_ofText (String.ofList cs)
  rwa [Node.ofText, String.toList_ofList] at hparts

theorem plain {s : String} (h : ∀ c ∈ s.toList, c ≠ '<' ∧ c ≠ '&') : Carries [.text s] [] :=
  of_text (Reader.spellsText_self h)

theorem newline : Carries [.newline] [] := plain (s := "\n") (by decide)

theorem newline_cons (h : Carries content inner) : Carries (.newline :: content) inner :=
  newline.append h

theorem line (h : Carries content inner) : Carries (Markup.line content) inner := by
  have hline := h.append newline
  rwa [List.append_nil] at hline

theorem indentation (level : Nat) : Carries (Markup.indentation level) [] := by
  obtain ⟨ns, hspells, hspace, helements⟩ := Lays.indentation (d := .html) level
  refine ⟨ns, hspells, ?_⟩
  clear hspells
  induction ns with
  | nil => rfl
  | cons n ns ih =>
    cases n with
    | character c =>
      rw [partsOf, ih (fun x hx => hspace x (List.mem_cons_of_mem _ hx)) helements]
      rfl
    | element name attributes nodes => cases helements

theorem indented (h : Carries content inner) (level : Nat) :
    Carries (Markup.indented level content) inner :=
  (indentation level).append h.line

end Carries

/-! ## Elements -/

section Elements

variable {name : String} {attributes : List Attribute} {pairs : List (String × String)}
  {content : List Token} {inner : List Part}

theorem partsOf_element (hscript : name ≠ "script") (nodes : List Node)
    (hlesson : isLessonContent name pairs = false) :
    partsOf [.element name pairs nodes] =
      (if (⟨name, pairs, ""⟩ : Part).tells then [⟨name, pairs, ""⟩] else []) ++ partsOf nodes := by
  simp [partsOf, partsIn, hscript, hlesson]

/-- An element that tells something comes before what is in it. -/
theorem Carries.telling (hname : IsName name) (hcontainer : IsContainer .html name)
    (hattributes : Pairs attributes pairs) (hcontent : Carries content inner)
    (htells : (⟨name, pairs, ""⟩ : Part).tells = true)
    (hlesson : isLessonContent name pairs = false) :
    Carries (element name attributes content) (⟨name, pairs, ""⟩ :: inner) := by
  obtain ⟨ns, hspells, rfl⟩ := hcontent
  refine ⟨_, Spells.element hname hcontainer hattributes hspells, ?_⟩
  rw [partsOf_element hcontainer.2 ns hlesson, if_pos htells, List.singleton_append]

/-- Any other element has the parts of what is in it. -/
theorem Carries.quiet (hname : IsName name) (hcontainer : IsContainer .html name)
    (hattributes : Pairs attributes pairs) (hcontent : Carries content inner)
    (htells : (⟨name, pairs, ""⟩ : Part).tells = false)
    (hlesson : isLessonContent name pairs = false) :
    Carries (element name attributes content) inner := by
  obtain ⟨ns, hspells, rfl⟩ := hcontent
  refine ⟨_, Spells.element hname hcontainer hattributes hspells, ?_⟩
  rw [partsOf_element hcontainer.2 ns hlesson, if_neg (by simp [htells]), List.nil_append]

/-- What is in the content of a lesson does not count. -/
theorem Carries.lessonContent {nodes : List Node} (hname : IsName name)
    (hcontainer : IsContainer .html name) (hattributes : Pairs attributes pairs)
    (hcontent : Spells .html content nodes) (htells : (⟨name, pairs, ""⟩ : Part).tells = false)
    (hlesson : isLessonContent name pairs = true) :
    Carries (element name attributes content) [] := by
  refine ⟨_, Spells.element hname hcontainer hattributes hcontent, ?_⟩
  simp [partsOf, partsIn, hcontainer.2, hlesson, htells]

theorem Carries.void (hname : IsName name) (hvoid : name ∈ voidElements)
    (hattributes : Pairs attributes pairs) :
    Carries [.start name attributes]
      (if (⟨name, pairs, ""⟩ : Part).tells then [⟨name, pairs, ""⟩] else []) := by
  have hscript : name ≠ "script" := by
    rintro rfl
    exact absurd hvoid (by decide)
  refine ⟨_, Spells.void hname hvoid hattributes, ?_⟩
  simp [partsOf, partsIn, hscript]

theorem Carries.script (hattributes : Pairs attributes pairs) {code : String}
    (hcontent : render content = code) (h : ¬ ['<', '/'] <:+: code.toList) :
    Carries (element "script" attributes content) [⟨"script", pairs, code⟩] := by
  refine ⟨_, Spells.script hattributes hcontent h, ?_⟩
  simp [partsOf, partsIn, Part.tells, partsOf_ofText]

theorem Carries.leaf (hname : IsName name) (hcontainer : IsContainer .html name)
    (hattributes : Pairs attributes pairs) (s : String)
    (htells : (⟨name, pairs, ""⟩ : Part).tells = false)
    (hlesson : isLessonContent name pairs = false) :
    Carries (element name attributes [Html.text s]) [] :=
  quiet hname hcontainer hattributes (Carries.text s) htells hlesson

end Elements

end Courseware.Page
