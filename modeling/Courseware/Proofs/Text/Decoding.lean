import Courseware.Proofs.Text.Entity

/-!
# Decoding entities

What decoding makes of any text: at the first place that is not read yet it decodes the entity
that starts there, and where none starts it keeps the character. Since no known entity is the
start of another, this leaves no choice, and escaping can be undone in front of any text.
-/

namespace Courseware.Text.Dialect

variable {d : Dialect}

/-! ## The known entities -/

/-- An ampersand starts every known entity. -/
theorem exists_eq_cons_of_mem_entities {spelling : List Char} {c : Char}
    (h : (spelling, c) ∈ d.entities) : ∃ name, spelling = '&' :: name := by
  have hhead : ∀ e ∈ d.entities, e.1 = '&' :: e.1.tail := by cases d <;> decide
  exact ⟨spelling.tail, hhead _ h⟩

/-- No known entity is the start of another one. -/
theorem eq_of_isPrefix_entities {e f : List Char × Char} (he : e ∈ d.entities)
    (hf : f ∈ d.entities) (h : e.1 <+: f.1) : e = f := by
  have hfree : ∀ e ∈ d.entities, ∀ f ∈ d.entities, e.1 <+: f.1 → e = f := by
    cases d <;> decide
  exact hfree e he f hf h

/-- At most one known entity starts at a place. -/
theorem eq_of_isPrefix_of_isPrefix {e f : List Char × Char} {cs : List Char}
    (he : e ∈ d.entities) (hf : f ∈ d.entities) (hecs : e.1 <+: cs) (hfcs : f.1 <+: cs) :
    e = f := by
  rcases List.prefix_or_prefix_of_prefix hecs hfcs with h | h
  · exact eq_of_isPrefix_entities he hf h
  · exact (eq_of_isPrefix_entities hf he h).symm

/-- The entities that escaping writes are known. -/
theorem mem_entities_of_entity? {c : Char} {e : String} (h : d.entity? c = some e) :
    (e.toList, c) ∈ d.entities := by
  by_cases hspecial : IsSpecial c
  · rcases hspecial with rfl | rfl | rfl | rfl | rfl <;> cases d <;> cases h <;> decide
  · rw [entity?_eq_none hspecial] at h
    cases h

/-! ## The scan -/

theorem unescapeFrom_length_append (table : List (List Char × Char)) (skipped rest : List Char) :
    unescapeFrom table skipped.length (skipped ++ rest) = unescapeFrom table 0 rest := by
  induction skipped with
  | nil => rfl
  | cons c cs ih => rw [List.length_cons, List.cons_append, unescapeFrom, ih]

/-- The entity at the front is decoded and passed over. -/
theorem unescapeList_entity {spelling : List Char} {c : Char}
    (h : (spelling, c) ∈ d.entities) (rest : List Char) :
    d.unescapeList (spelling ++ rest) = c :: d.unescapeList rest := by
  have hfind : d.entities.find? (fun e => e.1.isPrefixOf (spelling ++ rest)) =
      some (spelling, c) := by
    have hself : spelling.isPrefixOf (spelling ++ rest) = true :=
      List.isPrefixOf_iff_prefix.mpr (List.prefix_append ..)
    obtain ⟨f, hf⟩ : ∃ f, d.entities.find? (fun e => e.1.isPrefixOf (spelling ++ rest)) =
        some f :=
      Option.isSome_iff_exists.mp (List.find?_isSome.mpr ⟨_, h, hself⟩)
    have hstarts := List.find?_some hf
    rw [hf, eq_of_isPrefix_of_isPrefix (List.mem_of_find?_eq_some hf) h
      (List.isPrefixOf_iff_prefix.mp hstarts) (List.prefix_append spelling rest)]
  obtain ⟨name, rfl⟩ := exists_eq_cons_of_mem_entities h
  have hlookup : lookup d.entities ('&' :: (name ++ rest)) = some (c, name.length) := by
    rw [lookup, ← List.cons_append, hfind]
    rfl
  rw [List.cons_append, unescapeList, unescapeFrom, if_pos (beq_self_eq_true _), hlookup]
  exact congrArg (c :: ·) (unescapeFrom_length_append ..)

/-- A character at which no known entity starts is kept. -/
theorem unescapeList_cons {c : Char} {rest : List Char}
    (h : ∀ e ∈ d.entities, ¬ e.1 <+: c :: rest) :
    d.unescapeList (c :: rest) = c :: d.unescapeList rest := by
  have hlookup : lookup d.entities (c :: rest) = none := by
    rw [lookup, Option.map_eq_none_iff, List.find?_eq_none]
    exact fun e he hstarts => h e he (List.isPrefixOf_iff_prefix.mp hstarts)
  rw [unescapeList, unescapeFrom, hlookup]
  split <;> rfl

/-! ## What is decoded -/

/-- One reading of a list from left to right. An entity is decoded where it starts and is then
passed over as a whole, so that what it spells takes no part in the reading of the rest. -/
inductive Decodes (d : Dialect) : List Char → List Char → Prop
  | nil : Decodes d [] []
  | entity {spelling rest out : List Char} {c : Char} (hknown : (spelling, c) ∈ d.entities)
      (hrest : Decodes d rest out) : Decodes d (spelling ++ rest) (c :: out)
  | plain {c : Char} {rest out : List Char} (hnone : ∀ e ∈ d.entities, ¬ e.1 <+: c :: rest)
      (hrest : Decodes d rest out) : Decodes d (c :: rest) (c :: out)

theorem Decodes.unescapeList_eq {cs out : List Char} (h : d.Decodes cs out) :
    d.unescapeList cs = out := by
  induction h with
  | nil => rfl
  | entity hknown _ ih => rw [unescapeList_entity hknown, ih]
  | plain hnone _ ih => rw [unescapeList_cons hnone, ih]

/-- The scan reads the list that is left after what it skips. -/
theorem decodes_unescapeFrom (skip : Nat) (cs : List Char) :
    d.Decodes (cs.drop skip) (unescapeFrom d.entities skip cs) := by
  induction cs generalizing skip with
  | nil => simpa [unescapeFrom] using Decodes.nil
  | cons c cs ih =>
    cases skip with
    | succ skip => exact ih skip
    | zero =>
      by_cases hstarts : ∃ e ∈ d.entities, e.1 <+: c :: cs
      · obtain ⟨⟨spelling, x⟩, hknown, rest, happend⟩ := hstarts
        have hread : d.Decodes rest (d.unescapeList rest) := by
          obtain ⟨name, rfl⟩ := exists_eq_cons_of_mem_entities hknown
          obtain ⟨-, rfl⟩ : '&' = c ∧ name ++ rest = cs := List.cons.inj happend
          have htail := ih name.length
          rwa [List.drop_left, unescapeFrom_length_append] at htail
        rw [List.drop_zero, ← happend, ← unescapeList, unescapeList_entity hknown]
        exact .entity hknown hread
      · have hnone : ∀ e ∈ d.entities, ¬ e.1 <+: c :: cs :=
          fun e he hstart => hstarts ⟨e, he, hstart⟩
        rw [List.drop_zero, ← unescapeList, unescapeList_cons hnone]
        exact .plain hnone (ih 0)

theorem decodes_iff {cs out : List Char} : d.Decodes cs out ↔ d.unescapeList cs = out := by
  constructor
  · exact Decodes.unescapeList_eq
  · rintro rfl
    exact decodes_unescapeFrom 0 cs

/-! ## What is escaped -/

theorem escape_inj {s t : String} : d.escape s = d.escape t ↔ s = t := by
  constructor
  · intro h
    rw [← unescape_escape (d := d) s, h, unescape_escape]
  · rintro rfl
    rfl

/-- What is written for a character has an ampersand at its start only, and then it is the
entity of that character. -/
theorem exists_entity_of_escapeChar {c : Char} {before after : List Char}
    (h : d.escapeChar c = before ++ '&' :: after) :
    before = [] ∧ ∃ e, d.entity? c = some e ∧ e.toList = '&' :: after := by
  by_cases hspecial : IsSpecial c
  · have hname : ∀ name, d.escapeChar c = '&' :: name → '&' ∉ name := by
      rcases hspecial with rfl | rfl | rfl | rfl | rfl <;> cases d <;>
        (intro name hname; cases hname; decide)
    obtain ⟨e, he⟩ : ∃ e, d.entity? c = some e := by
      rcases hspecial with rfl | rfl | rfl | rfl | rfl <;> exact ⟨_, rfl⟩
    have hspelling : d.escapeChar c = e.toList := by rw [escapeChar, he]
    obtain ⟨name, hcons⟩ := exists_eq_cons_of_mem_entities (mem_entities_of_entity? he)
    cases before with
    | nil => exact ⟨rfl, e, he, hspelling.symm.trans h⟩
    | cons b before =>
      have hmem : '&' ∈ name := by
        have heq := (hspelling.trans hcons).symm.trans h
        rw [List.cons_append, List.cons.injEq] at heq
        rw [heq.2]
        exact List.mem_append_right _ List.mem_cons_self
      exact absurd hmem (hname name (hspelling.trans hcons))
  · rw [escapeChar_of_not_isSpecial hspecial] at h
    have hamp : '&' ∈ [c] := h ▸ List.mem_append_right _ List.mem_cons_self
    exact absurd (Or.inl (List.mem_singleton.mp hamp).symm) hspecial

/-- Every ampersand of an escaped list starts the entity of a character. -/
theorem exists_entity_of_escapeList {cs before after : List Char}
    (h : d.escapeList cs = before ++ '&' :: after) :
    ∃ c e, d.entity? c = some e ∧ e.toList <+: '&' :: after := by
  induction cs generalizing before with
  | nil => cases before <;> cases h
  | cons c cs ih =>
    rw [escapeList, List.flatMap_cons] at h
    -- the ampersand stands in what is written for `c`, or behind it
    rcases List.append_eq_append_iff.mp h with ⟨middle, rfl, hrest⟩ | ⟨middle, hfirst, hrest⟩
    · exact ih hrest
    · cases middle with
      | nil =>
        have htail : d.escapeList cs = [] ++ '&' :: after := hrest.symm
        exact ih htail
      | cons m middle =>
        rw [List.cons_append, List.cons.injEq] at hrest
        obtain ⟨rfl, rfl⟩ := hrest
        obtain ⟨-, e, he, hspelling⟩ := exists_entity_of_escapeChar hfirst
        exact ⟨c, e, he, hspelling ▸ List.prefix_append ('&' :: middle) _⟩

/-- Escaping is undone in front of any text, keeps texts apart and joins with them; what it
writes has no brackets and no quotes, and no ampersands but those of the five entities. And
of any text decoding makes what one reading of it from left to right gives. -/
theorem escape_lossless (d : Dialect) (s t : String) :
    d.unescape (d.escape s ++ t) = s ++ d.unescape t ∧
      d.unescape (d.escape s) = s ∧
      (d.escape s = d.escape t ↔ s = t) ∧
      d.escape (s ++ t) = d.escape s ++ d.escape t ∧
      (∀ c ∈ (d.escape s).toList, c ≠ '<' ∧ c ≠ '>' ∧ c ≠ '"' ∧ c ≠ '\'') ∧
      (∀ before after, (d.escape s).toList = before ++ '&' :: after →
        ∃ c e, d.entity? c = some e ∧ e.toList <+: '&' :: after) ∧
      ∀ out : String, d.Decodes s.toList out.toList ↔ d.unescape s = out := by
  refine ⟨unescape_append_of_escape s t, unescape_escape s, escape_inj, escape_append s t,
    ?_, ?_, ?_⟩
  · intro c hc
    refine ⟨?_, ?_, ?_, ?_⟩ <;> rintro rfl <;> exact not_mem_escape (by simp) s hc
  · intro before after h
    rw [toList_escape] at h
    exact exists_entity_of_escapeList h
  · intro out
    rw [decodes_iff, ← toList_unescape, String.toList_inj]

/-- What an entity spells is not decoded again, and other ampersands stand for themselves. -/
example : html.unescape "&amp;lt; & &nope; &#x27;" = "&lt; & &nope; '" := by decide

end Courseware.Text.Dialect
