import Courseware.Text.Entity

/-!
# Entities are decoded

What is escaped is decoded to what it was, also in front of other text.
-/

namespace Courseware.Text

/-- Of the characters of a list, each is looked at; there are too many to look at all. -/
instance decidableForallChars (p : Char → Prop) [DecidablePred p] (cs : List Char) :
    Decidable (∀ c ∈ cs, p c) :=
  List.decidableBAll p cs

instance decidableForallChar? (p : Char → Prop) [DecidablePred p] (o : Option Char) :
    Decidable (∀ c ∈ o, p c) :=
  match o with
  | none => isTrue (by simp)
  | some c => decidable_of_iff (p c) (by simp)

end Courseware.Text

namespace Courseware.Text.Dialect

variable {d : Dialect}

/-- The characters that are never written as such. -/
def IsSpecial (c : Char) : Prop :=
  c = '&' ∨ c = '<' ∨ c = '>' ∨ c = '"' ∨ c = '\''

instance (c : Char) : Decidable (IsSpecial c) :=
  inferInstanceAs (Decidable (_ ∨ _))

theorem entity?_eq_none {c : Char} (h : ¬ IsSpecial c) : d.entity? c = none := by
  simp only [IsSpecial, not_or] at h
  obtain ⟨h₁, h₂, h₃, h₄, h₅⟩ := h
  rw [entity?] <;> assumption

theorem escapeChar_of_not_isSpecial {c : Char} (h : ¬ IsSpecial c) :
    d.escapeChar c = [c] := by
  rw [escapeChar, entity?_eq_none h]

theorem escapeList_append (cs ds : List Char) :
    d.escapeList (cs ++ ds) = d.escapeList cs ++ d.escapeList ds :=
  List.flatMap_append ..

/-- A text without special characters is written as it is. -/
theorem escapeList_eq_self {cs : List Char} (h : ∀ c ∈ cs, ¬ IsSpecial c) :
    d.escapeList cs = cs := by
  induction cs with
  | nil => rfl
  | cons c cs ih =>
    have hrest := ih fun x hx => h x (List.mem_cons_of_mem _ hx)
    rw [escapeList, List.flatMap_cons, escapeChar_of_not_isSpecial (h c List.mem_cons_self)]
    exact congrArg (c :: ·) hrest

/-- What is escaped has no brackets and no quotes. -/
theorem not_mem_escapeList {q : Char} (hq : q = '<' ∨ q = '>' ∨ q = '"' ∨ q = '\'')
    (cs : List Char) : q ∉ d.escapeList cs := by
  intro hmem
  obtain ⟨c, -, hc⟩ := List.mem_flatMap.mp hmem
  by_cases hspecial : IsSpecial c
  · rcases hspecial with rfl | rfl | rfl | rfl | rfl <;> cases d <;>
      rcases hq with rfl | rfl | rfl | rfl <;> exact absurd hc (by decide)
  · rw [escapeChar_of_not_isSpecial hspecial] at hc
    have heq := List.mem_singleton.mp hc
    subst heq
    exact hspecial (by rcases hq with rfl | rfl | rfl | rfl <;> decide)

/-- An escaped character is decoded in front of any text. -/
theorem unescapeList_escapeChar (c : Char) (rest : List Char) :
    d.unescapeList (d.escapeChar c ++ rest) = c :: d.unescapeList rest := by
  by_cases hspecial : IsSpecial c
  · rcases hspecial with rfl | rfl | rfl | rfl | rfl <;> cases d <;> rfl
  · have hamp : (c == '&') = false := by
      simpa using fun heq : c = '&' => hspecial (Or.inl heq)
    rw [escapeChar_of_not_isSpecial hspecial, List.singleton_append, unescapeList,
      unescapeFrom, hamp]
    rfl

theorem unescapeList_escapeList_append (cs rest : List Char) :
    d.unescapeList (d.escapeList cs ++ rest) = cs ++ d.unescapeList rest := by
  induction cs with
  | nil => rfl
  | cons c cs ih =>
    rw [escapeList, List.flatMap_cons, List.append_assoc, unescapeList_escapeChar]
    exact congrArg (c :: ·) ih

theorem unescapeList_escapeList (cs : List Char) :
    d.unescapeList (d.escapeList cs) = cs := by
  have h := unescapeList_escapeList_append (d := d) cs []
  rwa [List.append_nil, show d.unescapeList [] = [] from rfl, List.append_nil] at h

/-- A text without ampersands is decoded to itself. -/
theorem unescapeList_eq_self {cs : List Char} (h : ∀ c ∈ cs, c ≠ '&') :
    d.unescapeList cs = cs := by
  induction cs with
  | nil => rfl
  | cons c cs ih =>
    have hamp : (c == '&') = false := by simpa using h c List.mem_cons_self
    rw [unescapeList, unescapeFrom, hamp]
    exact congrArg (c :: ·) (ih fun x hx => h x (List.mem_cons_of_mem _ hx))

/-! ## Texts -/

theorem toList_escape (s : String) : (d.escape s).toList = d.escapeList s.toList :=
  String.toList_ofList

theorem toList_unescape (s : String) : (d.unescape s).toList = d.unescapeList s.toList :=
  String.toList_ofList

/-- An escaped text has no brackets and no quotes. -/
theorem not_mem_escape {q : Char} (hq : q = '<' ∨ q = '>' ∨ q = '"' ∨ q = '\'') (s : String) :
    q ∉ (d.escape s).toList := by
  rw [toList_escape]
  exact not_mem_escapeList hq s.toList

theorem escape_append (s t : String) : d.escape (s ++ t) = d.escape s ++ d.escape t := by
  apply String.toList_injective
  rw [String.toList_append, toList_escape, toList_escape, toList_escape, String.toList_append,
    escapeList_append]

theorem unescape_append_of_escape (s t : String) :
    d.unescape (d.escape s ++ t) = s ++ d.unescape t := by
  apply String.toList_injective
  rw [String.toList_append, toList_unescape, toList_unescape, String.toList_append,
    toList_escape, unescapeList_escapeList_append]

theorem unescape_escape (s : String) : d.unescape (d.escape s) = s := by
  apply String.toList_injective
  rw [toList_unescape, toList_escape, unescapeList_escapeList]

end Courseware.Text.Dialect
