import Courseware.Json.Decoder
import Courseware.Json.Printer

/-!
# What JSON texts are read as

A text stands for a draft when the reader reads exactly this draft from it, whatever
follows. Texts that stand for something can be put together as values are.
-/

namespace Courseware.Json

/-! ## White space -/

/-- Whether the grammar takes a text for white space. -/
def IsSpaces (s : List Char) : Prop :=
  ∀ c ∈ s, (c = ' ' || c = '\n' || c = '\t' || c = '\r') = true

theorem skipSpace_append {s : List Char} (h : IsSpaces s) (cs : List Char) :
    skipSpace (s ++ cs) = skipSpace cs :=
  List.dropWhile_append_of_pos h

theorem skipSpace_idem (cs : List Char) : skipSpace (skipSpace cs) = skipSpace cs := by
  induction cs with
  | nil => rfl
  | cons c cs ih =>
    cases h : (c = ' ' || c = '\n' || c = '\t' || c = '\r' : Bool) with
    | true =>
      have hskip : skipSpace (c :: cs) = skipSpace cs := by
        rw [skipSpace, List.dropWhile_cons, h]
        rfl
      rw [hskip, ih]
    | false =>
      have hkeep : skipSpace (c :: cs) = c :: cs := by
        rw [skipSpace, List.dropWhile_cons, h]
        rfl
      rw [hkeep, hkeep]

theorem skipSpace_cons {c : Char}
    (h : (c = ' ' || c = '\n' || c = '\t' || c = '\r') = false) (cs : List Char) :
    skipSpace (c :: cs) = c :: cs := by
  rw [skipSpace, List.dropWhile_cons, h]
  rfl

theorem readValue_skipSpace (fuel : Nat) (cs : List Char) :
    readValue fuel (skipSpace cs) = readValue fuel cs := by
  cases fuel with
  | zero => rfl
  | succ fuel => rw [readValue, readValue, skipSpace_idem]

theorem readItems_skipSpace (fuel : Nat) (cs : List Char) :
    readItems fuel (skipSpace cs) = readItems fuel cs := by
  cases fuel with
  | zero => rfl
  | succ fuel => rw [readItems, readItems, readValue_skipSpace]

theorem readMembers_skipSpace (fuel : Nat) (cs : List Char) :
    readMembers fuel (skipSpace cs) = readMembers fuel cs := by
  cases fuel with
  | zero => rfl
  | succ fuel => rw [readMembers, readMembers, skipSpace_idem]

/-! ## Strings -/

/-- Whether a part of a string literal adds some characters to the string. -/
def SpellsChars (w cs : List Char) : Prop :=
  ∀ chars rest, readString ⟨chars, none, none⟩ (w ++ rest) =
    readString ⟨cs.reverse ++ chars, none, none⟩ rest

theorem SpellsChars.nil : SpellsChars [] [] := fun _ _ => rfl

theorem SpellsChars.append {v w cs ds : List Char} (hv : SpellsChars v cs)
    (hw : SpellsChars w ds) : SpellsChars (v ++ w) (cs ++ ds) := by
  intro chars rest
  rw [List.append_assoc, hv, hw, List.reverse_append, List.append_assoc]

theorem hexValue?_lowerHexDigit :
    ∀ d < 16, hexValue? (lowerHexDigit d) = some d ∧ (lowerHexDigit d).utf8Size = 1 := by
  decide

/-- A character that stands for itself. -/
theorem spellsChars_self {c : Char} (hquote : c ≠ '"') (hslash : c ≠ '\\')
    (h : ¬ c.toNat < 32) : SpellsChars [c] [c] := by
  intro chars rest
  rw [List.singleton_append, readString]
  · rw [if_neg h]
    rfl
  · exact fun heq => hquote heq
  · intro heq _
    exact hslash heq
  · intro _ heq _
    exact hslash heq
  · intro _ _ heq _
    exact hslash heq

/-- A character that is written by its number. -/
theorem spellsChars_unit {c : Char} (h : c.toNat < 32) :
    SpellsChars ['\\', 'u', '0', '0', lowerHexDigit (c.toNat / 16),
      lowerHexDigit (c.toNat % 16)] [c] := by
  obtain ⟨hhigh, hhighSize⟩ := hexValue?_lowerHexDigit (c.toNat / 16) (by omega)
  obtain ⟨hlow, hlowSize⟩ := hexValue?_lowerHexDigit (c.toNat % 16) (by omega)
  have hzero : hexValue? '0' = some 0 := by decide
  have hzeroSize : ('0' : Char).utf8Size = 1 := by decide
  have hvalue : hexValue4? '0' '0' (lowerHexDigit (c.toNat / 16))
      (lowerHexDigit (c.toNat % 16)) = some c.toNat := by
    simp only [hexValue4?, hzero, hhigh, hlow, bind, Option.bind, pure, Option.some.injEq]
    omega
  have hunit : ∀ chars, Partial.pushUnit ⟨chars, none, none⟩ c.toNat =
      ⟨c :: chars, none, none⟩ := by
    intro chars
    rw [Partial.pushUnit, if_neg (by omega), if_neg (by omega), Char.ofNat_toNat]
    rfl
  intro chars rest
  have hlong : shortOfFour ('0' :: '0' :: lowerHexDigit (c.toNat / 16) ::
      lowerHexDigit (c.toNat % 16) :: rest) = false := by
    simp [shortOfFour, hhighSize, hlowSize, hzeroSize]
  change readString ⟨chars, none, none⟩ ('\\' :: 'u' :: '0' :: '0' ::
    lowerHexDigit (c.toNat / 16) :: lowerHexDigit (c.toNat % 16) :: rest) = _
  rw [readString]
  simp only [hlong, Bool.false_eq_true, if_false, hvalue, hunit]
  rfl

theorem spellsChars_escapeChar (c : Char) : SpellsChars (escapeChar c) [c] := by
  rw [escapeChar]
  -- seven characters have an escape of one letter
  iterate 7
    split
    · rename_i h
      subst h
      exact fun _ _ => rfl
  split
  · rename_i h
    exact spellsChars_unit h
  · rename_i hquote hslash _ _ _ _ _ h
    exact spellsChars_self hquote hslash h

theorem spellsChars_escape (cs : List Char) : SpellsChars (cs.flatMap escapeChar) cs := by
  induction cs with
  | nil => exact SpellsChars.nil
  | cons c cs ih =>
    rw [List.flatMap_cons]
    exact (spellsChars_escapeChar c).append ih

/-- Whether a text is a string literal of a string. -/
def SpellsString (w : List Char) (s : String) : Prop :=
  ∃ inner, w = '"' :: (inner ++ ['"']) ∧ SpellsChars inner s.toList

theorem spellsString_quote (s : String) : SpellsString (quote s).toList s :=
  ⟨s.toList.flatMap escapeChar, by simp [quote], spellsChars_escape s.toList⟩

/-- A string literal is read after its opening quote. -/
theorem readString_inner {inner : List Char} {s : String}
    (h : SpellsChars inner s.toList) (rest : List Char) :
    readString .empty (inner ++ '"' :: rest) = (.string (.ok s), rest) := by
  have hread := h [] ('"' :: rest)
  have hfinish : Partial.finish ⟨s.toList.reverse ++ [], none, none⟩ = .string (.ok s) := by
    simp [Partial.finish, Partial.settle]
  rw [Partial.empty, hread, readString, hfinish]

/-! ## Values -/

/-- Whether no numeral goes on in a text. -/
def Ends (rest : List Char) : Prop :=
  ∀ c ∈ rest.head?, isDigit c = false ∧ c ≠ '.' ∧ c ≠ 'e' ∧ c ≠ 'E'

theorem ends_cons {c : Char} (h : isDigit c = false ∧ c ≠ '.' ∧ c ≠ 'e' ∧ c ≠ 'E')
    (rest : List Char) : Ends (c :: rest) := by
  intro x hx
  rw [← Option.some.inj hx]
  exact h

theorem ends_nil : Ends [] := by
  intro c hc
  cases hc

/-- Whether a text stands for a draft. -/
structure Reads (w : List Char) (d : Draft) : Prop where
  first : ∃ c cs, skipSpace w = c :: cs ∧ c ≠ ']'
  read : ∀ fuel rest, 2 * w.length ≤ fuel → Ends rest → readValue fuel (w ++ rest) = (d, rest)

theorem Reads.skipSpace_append {w : List Char} {d : Draft} (h : Reads w d)
    (rest : List Char) : ∃ c cs, skipSpace (w ++ rest) = c :: cs ∧ c ≠ ']' := by
  obtain ⟨c, cs, hskip, hc⟩ := h.first
  refine ⟨c, cs ++ rest, ?_, hc⟩
  have hne : skipSpace w ≠ [] := by
    rw [hskip]
    exact List.cons_ne_nil _ _
  rw [skipSpace, List.dropWhile_append, if_neg (by simpa [skipSpace] using hne)]
  change skipSpace w ++ rest = _
  rw [hskip, List.cons_append]

/-- White space in front changes nothing. -/
theorem Reads.space {w s : List Char} {d : Draft} (hs : IsSpaces s) (h : Reads w d) :
    Reads (s ++ w) d where
  first := by
    rw [Json.skipSpace_append hs]
    exact h.first
  read fuel rest hfuel hrest := by
    have hskip := readValue_skipSpace fuel (s ++ (w ++ rest))
    rw [Json.skipSpace_append hs, readValue_skipSpace] at hskip
    rw [List.append_assoc, ← hskip]
    refine h.read fuel rest ?_ hrest
    rw [List.length_append] at hfuel
    omega

/-- A text whose first character tells how it is read. -/
theorem reads_of_first {c : Char} (cs : List Char) {d : Draft}
    (hspace : (c = ' ' || c = '\n' || c = '\t' || c = '\r') = false) (hc : c ≠ ']')
    (hread : ∀ fuel rest, 2 * cs.length + 1 ≤ fuel → Ends rest →
      readValue (fuel + 1) (c :: (cs ++ rest)) = (d, rest)) : Reads (c :: cs) d where
  first := ⟨c, cs, skipSpace_cons hspace cs, hc⟩
  read fuel rest hfuel hrest := by
    obtain ⟨fuel, rfl⟩ : ∃ k, fuel = k + 1 := ⟨fuel - 1, by simp at hfuel; omega⟩
    exact hread fuel rest (by simp only [List.length_cons] at hfuel; omega) hrest

theorem reads_null : Reads "null".toList .null :=
  reads_of_first "ull".toList (by decide) (by decide) fun _ _ _ _ => rfl

theorem reads_bool (b : Bool) : Reads (if b then "true" else "false").toList (.bool b) := by
  cases b with
  | true => exact reads_of_first "rue".toList (by decide) (by decide) fun _ _ _ _ => rfl
  | false =>
    exact reads_of_first "alse".toList (by decide) (by decide) fun _ _ _ _ => rfl

theorem reads_string {w : List Char} {s : String} (h : SpellsString w s) :
    Reads w (.string (.ok s)) := by
  obtain ⟨inner, rfl, hinner⟩ := h
  refine reads_of_first _ (by decide) (by decide) fun fuel rest _ _ => ?_
  rw [readValue, skipSpace_cons (by decide), List.append_assoc]
  exact readString_inner hinner rest

/-! ## Arrays -/

theorem ends_comma (rest : List Char) : Ends (',' :: rest) := ends_cons (by decide) rest

/-- White space and a bracket end a numeral. -/
theorem ends_spaces {s : List Char} (hs : IsSpaces s) {c : Char} (hc : c = ']' ∨ c = '\x7d')
    (rest : List Char) : Ends (s ++ c :: rest) := by
  cases s with
  | nil => rcases hc with rfl | rfl <;> exact ends_cons (by decide) rest
  | cons x xs =>
    have hx := hs x List.mem_cons_self
    simp only [Bool.or_eq_true, decide_eq_true_eq] at hx
    rcases hx with ((rfl | rfl) | rfl) | rfl <;> exact ends_cons (by decide) _

/-- Whether a text, with a bracket after it, stands for the items of an array. -/
structure ReadsItems (w : List Char) (ds : List Draft) : Prop where
  first : ∀ rest, ∃ c cs, skipSpace (w ++ rest) = c :: cs ∧ c ≠ ']'
  read : ∀ fuel rest, 2 * w.length + 1 ≤ fuel →
    readItems fuel (w ++ ']' :: rest) = (ds, none, rest)

theorem ReadsItems.single {w s : List Char} {d : Draft} (h : Reads w d) (hs : IsSpaces s) :
    ReadsItems (w ++ s) [d] where
  first rest := by
    rw [List.append_assoc]
    exact h.skipSpace_append _
  read fuel rest hfuel := by
    obtain ⟨fuel, rfl⟩ : ∃ k, fuel = k + 1 := ⟨fuel - 1, by omega⟩
    rw [List.length_append] at hfuel
    have hread := h.read fuel (s ++ ']' :: rest) (by omega) (ends_spaces hs (by simp) rest)
    have hclose : skipSpace (s ++ ']' :: rest) = ']' :: rest := by
      rw [skipSpace_append hs, skipSpace_cons (by decide)]
    rw [List.append_assoc]
    simp only [readItems, hread, hclose]

theorem ReadsItems.cons {w v : List Char} {d : Draft} {ds : List Draft} (h : Reads w d)
    (hv : ReadsItems v ds) : ReadsItems (w ++ ',' :: v) (d :: ds) where
  first rest := by
    rw [List.append_assoc]
    exact h.skipSpace_append _
  read fuel rest hfuel := by
    obtain ⟨fuel, rfl⟩ : ∃ k, fuel = k + 1 := ⟨fuel - 1, by omega⟩
    rw [List.length_append, List.length_cons] at hfuel
    have hread := h.read fuel (',' :: (v ++ ']' :: rest)) (by omega) (ends_comma _)
    have hcomma : skipSpace (',' :: (v ++ ']' :: rest)) = ',' :: (v ++ ']' :: rest) :=
      skipSpace_cons (by decide) _
    rw [List.append_assoc, List.cons_append]
    simp only [readItems, hread, hcomma, hv.read fuel rest (by omega)]

theorem reads_array_nil : Reads ['[', ']'] (.array [] none) := by
  refine reads_of_first _ (by decide) (by decide) fun fuel rest _ _ => ?_
  have hopen : skipSpace ('[' :: (([']'] : List Char) ++ rest)) = '[' :: ']' :: rest :=
    skipSpace_cons (by decide) _
  have hclose : skipSpace (']' :: rest) = ']' :: rest := skipSpace_cons (by decide) _
  simp only [readValue, hopen, Char.reduceEq, if_false, if_true, hclose]

theorem reads_array {w : List Char} {ds : List Draft} (h : ReadsItems w ds) :
    Reads ('[' :: (w ++ [']'])) (.array ds none) := by
  refine reads_of_first _ (by decide) (by decide) fun fuel rest hfuel _ => ?_
  have hread := h.read fuel rest (by
    rw [List.length_append, List.length_singleton] at hfuel
    omega)
  obtain ⟨c, cs, hskip, hc⟩ := h.first (']' :: rest)
  rw [← readItems_skipSpace] at hread
  rw [readValue, skipSpace_cons (by decide)]
  simp only [Char.reduceEq, if_false, if_true, List.append_assoc, List.singleton_append]
  split
  · rename_i heq
    rw [hskip] at heq
    exact absurd (List.cons.inj heq).1 hc
  · rw [hread]

/-! ## Objects -/

/-- Whether a text, with a brace after it, stands for the members of an object. -/
structure ReadsMembers (w : List Char) (ms : List (Draft × Draft)) : Prop where
  first : ∀ rest, ∃ cs, skipSpace (w ++ rest) = '"' :: cs
  read : ∀ fuel rest, 2 * w.length + 1 ≤ fuel →
    readMembers fuel (w ++ '\x7d' :: rest) = (ms, none, rest)

/-- The part of a member before its value: white space, the name, a colon and white
space. -/
structure ReadsKey (w : List Char) (name : String) : Prop where
  first : ∀ rest, ∃ cs, skipSpace (w ++ rest) = '"' :: cs
  read : ∀ fuel rest value after, readValue fuel rest = (value, after) →
    readMembers (fuel + 1) (w ++ rest) =
      match skipSpace after with
      | '\x7d' :: rest => ([(.string (.ok name), value)], none, rest)
      | ',' :: rest =>
        let (members, close, rest) := readMembers fuel rest
        ((.string (.ok name), value) :: members, close, rest)
      | rest => ([(.string (.ok name), value)], some (unexpected rest), [])

theorem readsKey {before key between : List Char} {name : String}
    (hbefore : IsSpaces before) (hkey : SpellsString key name)
    (hbetween : IsSpaces between) : ReadsKey (before ++ (key ++ ':' :: between)) name := by
  obtain ⟨inner, rfl, hinner⟩ := hkey
  have hfirst : ∀ rest, skipSpace (before ++ ('"' :: (inner ++ ['"']) ++ ':' :: between) ++
      rest) = '"' :: (inner ++ '"' :: ':' :: (between ++ rest)) := by
    intro rest
    rw [List.append_assoc, skipSpace_append hbefore, List.cons_append, List.cons_append,
      skipSpace_cons (by decide)]
    simp
  refine ⟨fun rest => ⟨_, hfirst rest⟩, fun fuel rest value after hvalue => ?_⟩
  have hread := readString_inner hinner (':' :: (between ++ rest))
  have hcolon : skipSpace (':' :: (between ++ rest)) = ':' :: (between ++ rest) :=
    skipSpace_cons (by decide) _
  have hbehind : readValue fuel (between ++ rest) = (value, after) := by
    rw [← readValue_skipSpace, skipSpace_append hbetween, readValue_skipSpace, hvalue]
  simp only [readMembers, hfirst rest, hread, hcolon, hbehind] <;> rfl

theorem ReadsMembers.single {k w after : List Char} {name : String} {d : Draft}
    (hkey : ReadsKey k name) (h : Reads w d) (hafter : IsSpaces after) :
    ReadsMembers (k ++ (w ++ after)) [(.string (.ok name), d)] where
  first rest := by
    rw [List.append_assoc]
    exact hkey.first _
  read fuel rest hfuel := by
    obtain ⟨fuel, rfl⟩ : ∃ n, fuel = n + 1 := ⟨fuel - 1, by omega⟩
    simp only [List.length_append] at hfuel
    have hread := h.read fuel (after ++ '\x7d' :: rest) (by omega)
      (ends_spaces hafter (by simp) rest)
    have hclose : skipSpace (after ++ '\x7d' :: rest) = '\x7d' :: rest := by
      rw [skipSpace_append hafter, skipSpace_cons (by decide)]
    rw [List.append_assoc, List.append_assoc]
    simp only [hkey.read fuel _ _ _ hread, hclose]

theorem ReadsMembers.cons {k w v : List Char} {name : String} {d : Draft}
    {ms : List (Draft × Draft)} (hkey : ReadsKey k name) (h : Reads w d)
    (hv : ReadsMembers v ms) :
    ReadsMembers (k ++ (w ++ ',' :: v)) ((.string (.ok name), d) :: ms) where
  first rest := by
    rw [List.append_assoc]
    exact hkey.first _
  read fuel rest hfuel := by
    obtain ⟨fuel, rfl⟩ : ∃ n, fuel = n + 1 := ⟨fuel - 1, by omega⟩
    simp only [List.length_append, List.length_cons] at hfuel
    have hread := h.read fuel (',' :: (v ++ '\x7d' :: rest)) (by omega) (ends_comma _)
    have hcomma : skipSpace (',' :: (v ++ '\x7d' :: rest)) = ',' :: (v ++ '\x7d' :: rest) :=
      skipSpace_cons (by decide) _
    rw [List.append_assoc, List.append_assoc, List.cons_append]
    simp only [hkey.read fuel _ _ _ hread, hcomma, hv.read fuel rest (by omega)]

theorem reads_object_nil : Reads ['\x7b', '\x7d'] (.object [] none) := by
  refine reads_of_first _ (by decide) (by decide) fun fuel rest _ _ => ?_
  have hopen : skipSpace ('\x7b' :: ((['\x7d'] : List Char) ++ rest)) =
      '\x7b' :: '\x7d' :: rest := skipSpace_cons (by decide) _
  have hclose : skipSpace ('\x7d' :: rest) = '\x7d' :: rest := skipSpace_cons (by decide) _
  simp only [readValue, hopen, Char.reduceEq, if_false, if_true, hclose]

theorem reads_object {w : List Char} {ms : List (Draft × Draft)} (h : ReadsMembers w ms) :
    Reads ('\x7b' :: (w ++ ['\x7d'])) (.object ms none) := by
  refine reads_of_first _ (by decide) (by decide) fun fuel rest hfuel _ => ?_
  have hread := h.read fuel rest (by
    rw [List.length_append, List.length_singleton] at hfuel
    omega)
  obtain ⟨cs, hskip⟩ := h.first ('\x7d' :: rest)
  rw [← readMembers_skipSpace] at hread
  rw [readValue, skipSpace_cons (by decide)]
  simp only [Char.reduceEq, if_false, if_true, List.append_assoc, List.singleton_append]
  split
  · rename_i heq
    rw [hskip] at heq
    exact absurd (List.cons.inj heq).1 (by decide)
  · rw [hread]

end Courseware.Json
