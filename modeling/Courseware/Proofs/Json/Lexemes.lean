import Courseware.Proofs.Decimal.RoundTrip
import Courseware.Proofs.Json.Printing

/-!
# The lexemes of a text

A strict reader cuts a text into marks, words, numbers and strings. It keeps whole numbers of any
size, and takes every other numeral for the floating-point number nearest to what the numeral
tells. So every number is found in its text, and white space between lexemes makes no difference.
-/

namespace Courseware.Json

variable {w rest : List Char}

/-! ## Numerals -/

/-- The digits that a text starts with, at least one, and what stands behind them. -/
def digitRun? (cs : List Char) : Option (List Char × List Char) :=
  let (ds, rest) := cs.span isDigit
  if ds.isEmpty then none else some (ds, rest)

theorem digitRun?_append {ds : List Char} (hne : ds ≠ []) (hds : ∀ c ∈ ds, isDigit c = true)
    (hrest : ∀ c ∈ rest.head?, isDigit c = false) : digitRun? (ds ++ rest) = some (ds, rest) := by
  rw [digitRun?, span_digits hds hrest]
  simp [hne]

namespace Numeral

/-- The fraction that a text starts with if it starts with a point. -/
def fraction? : List Char → Option (List Char × List Char)
  | '.' :: cs => digitRun? cs
  | cs => some ([], cs)

/-- The sign and the digits of an exponent behind its mark. -/
def power? : List Char → Option ((Bool × List Char) × List Char)
  | '-' :: cs => (digitRun? cs).map fun (ds, rest) => ((true, ds), rest)
  | '+' :: cs => (digitRun? cs).map fun (ds, rest) => ((false, ds), rest)
  | cs => (digitRun? cs).map fun (ds, rest) => ((false, ds), rest)

/-- The exponent that a text starts with if it starts with the mark of one. -/
def exponent? : List Char → Option (Option (Bool × List Char) × List Char)
  | 'e' :: cs => (power? cs).map fun (e, rest) => (some e, rest)
  | 'E' :: cs => (power? cs).map fun (e, rest) => (some e, rest)
  | cs => some (none, cs)

/-- The numeral that a text starts with behind its sign. No digit follows a zero in front. -/
def unsigned? (negative : Bool) (cs : List Char) : Option (Numeral × List Char) := do
  let (whole, cs) ← digitRun? cs
  if whole.head? = some '0' ∧ whole ≠ ['0'] then none
  let (fraction, cs) ← fraction? cs
  let (exponent, cs) ← exponent? cs
  return (⟨negative, whole, fraction, exponent⟩, cs)

/-- The numeral that a text starts with, and what stands behind it. -/
def ofText? : List Char → Option (Numeral × List Char)
  | '-' :: cs => unsigned? true cs
  | cs => unsigned? false cs

variable {n : Numeral}

theorem Proper.exponent?_text (h : n.Proper) (hrest : Ends rest) :
    exponent? (n.exponentText ++ rest) = some (n.exponent, rest) := by
  rw [exponentText]
  cases hexponent : n.exponent with
  | none =>
    rw [List.nil_append, exponent?]
    · rintro cs rfl
      exact (hrest 'e' rfl).2.2.1 rfl
    · rintro cs rfl
      exact (hrest 'E' rfl).2.2.2 rfl
  | some e =>
    obtain ⟨minus, es⟩ := e
    obtain ⟨hne, hdigits⟩ := h.exponent (minus, es) hexponent
    have hrun := digitRun?_append hne hdigits fun c hc => (hrest c hc).1
    cases minus with
    | false =>
      change exponent? ('e' :: '+' :: (es ++ rest)) = _
      rw [exponent?, power?, hrun]
      rfl
    | true =>
      change exponent? ('e' :: '-' :: (es ++ rest)) = _
      rw [exponent?, power?, hrun]
      rfl

theorem Proper.fraction?_text (h : n.Proper) (hrest : Ends rest) :
    fraction? (n.fractionText ++ (n.exponentText ++ rest)) =
      some (n.fraction, n.exponentText ++ rest) := by
  by_cases hempty : n.fraction = []
  · have htext : n.fractionText = [] := by simp [fractionText, hempty]
    rw [htext, List.nil_append, fraction?, hempty]
    exact fun cs heq => exponentText_append_ne n hrest cs heq
  · have htext : n.fractionText = '.' :: n.fraction := by simp [fractionText, hempty]
    rw [htext, List.cons_append, fraction?]
    exact digitRun?_append hempty h.fraction (isDigit_head?_exponentText n hrest)

/-- A numeral is found in its text, whatever follows that does not go on with it. -/
theorem Proper.ofText?_text (h : n.Proper) (hrest : Ends rest) :
    ofText? (n.text ++ rest) = some (n, rest) := by
  have hzero : ¬ (n.whole.head? = some '0' ∧ n.whole ≠ ['0']) :=
    fun hleading => hleading.2 (h.whole.leading hleading.1)
  have hunsigned : unsigned? n.negative
      (n.whole ++ (n.fractionText ++ (n.exponentText ++ rest))) = some (n, rest) := by
    rw [unsigned?, digitRun?_append h.whole.nonempty h.whole.digits
      (isDigit_head?_fractionText n hrest)]
    simp only [Option.bind_eq_bind, Option.bind_some, if_neg hzero, h.fraction?_text hrest,
      h.exponent?_text hrest]
    rfl
  rw [text, List.append_assoc, List.append_assoc, List.append_assoc]
  cases hsign : n.negative with
  | false =>
    rw [hsign] at hunsigned
    rw [if_neg Bool.false_ne_true, List.nil_append, ofText?, hunsigned]
    obtain ⟨c, ds, hds⟩ := List.exists_cons_of_ne_nil h.whole.nonempty
    rintro cs heq
    rw [hds, List.cons_append] at heq
    have hdigit := h.whole.digits c (hds ▸ List.mem_cons_self)
    rw [(List.cons.inj heq).1] at hdigit
    exact absurd hdigit (by decide)
  | true =>
    rw [hsign] at hunsigned
    rw [if_pos rfl, List.singleton_append, ofText?, hunsigned]

theorem Proper.exists_text_eq_cons (h : n.Proper) :
    ∃ c cs, n.text = c :: cs ∧ (c = '-' ∨ isDigit c = true) := by
  rw [text]
  cases n.negative with
  | false =>
    obtain ⟨c, ds, hds⟩ := List.exists_cons_of_ne_nil h.whole.nonempty
    exact ⟨c, _, by rw [hds]; rfl, .inr (h.whole.digits c (hds ▸ List.mem_cons_self))⟩
  | true => exact ⟨'-', _, rfl, .inl rfl⟩

/-- The number that a numeral stands for: a whole number, or else the floating-point number
nearest to what it tells. -/
def number? (n : Numeral) : Option Number :=
  if n.isInteger then some (.integer (if n.negative then -(n.digits : Int) else n.digits))
  else (Decimal.Binary64.ofRatio? n.negative n.magnitude.num.natAbs n.magnitude.den).map .decimal

end Numeral

/-- Whether a floating-point number is given in its one form. -/
def Number.Canonical : Number → Prop
  | integer _ => True
  | decimal x => x.Canonical

/-- The text of a number is a numeral that stands for the number. -/
theorem Number.Canonical.exists_numeral {v : Number} (h : v.Canonical) :
    ∃ n : Numeral, n.Proper ∧ v.text.toList = n.text ∧ n.number? = some v := by
  cases v with
  | integer i =>
    refine ⟨.ofInt i, Numeral.proper_ofInt i, text_integer i, ?_⟩
    have hdigits : (Numeral.ofInt i).digits = i.natAbs := by
      simp [Numeral.digits, Numeral.ofInt]
    have hvalue : (if (Numeral.ofInt i).negative then -(i.natAbs : Int) else i.natAbs) = i := by
      change (if decide (i < 0) = true then _ else _) = i
      simp only [decide_eq_true_eq]
      omega
    rw [Numeral.number?, hdigits, hvalue]
    rfl
  | decimal x =>
    obtain ⟨n, htells, htext⟩ := exists_numeral_decimal x
    refine ⟨n, htells.proper, htext, ?_⟩
    rw [Numeral.number?, htells.isInteger, htells.magnitude, htells.negative,
      Decimal.negative_shortest .toEven h, Decimal.ofRatio?_shortest .toEven h]
    rfl

/-! ## Lexemes -/

/-- The least parts of a text. -/
inductive Lexeme
  | openArray
  | closeArray
  | openObject
  | closeObject
  | comma
  | colon
  | null
  | bool (value : Bool)
  | number (value : Number)
  | string (value : String)
  deriving Repr

namespace Lexeme

/-- The string that a text starts with behind its opening quote. -/
def string? (cs : List Char) : Option (Lexeme × List Char) :=
  match readString .empty cs with
  | (.string (.ok s), rest) => some (.string s, rest)
  | _ => none

/-- The number that a text starts with. -/
def number? (cs : List Char) : Option (Lexeme × List Char) := do
  let (n, rest) ← Numeral.ofText? cs
  let v ← n.number?
  return (.number v, rest)

/-- The lexeme that a text starts with, and what stands behind it. -/
def ofText? : List Char → Option (Lexeme × List Char)
  | '[' :: cs => some (.openArray, cs)
  | ']' :: cs => some (.closeArray, cs)
  | '\x7b' :: cs => some (.openObject, cs)
  | '\x7d' :: cs => some (.closeObject, cs)
  | ',' :: cs => some (.comma, cs)
  | ':' :: cs => some (.colon, cs)
  | '"' :: cs => string? cs
  | 'n' :: 'u' :: 'l' :: 'l' :: cs => some (.null, cs)
  | 't' :: 'r' :: 'u' :: 'e' :: cs => some (.bool true, cs)
  | 'f' :: 'a' :: 'l' :: 's' :: 'e' :: cs => some (.bool false, cs)
  | cs => number? cs

/-- The lexemes of a text. The fuel bounds their number. -/
def listOf? : (fuel : Nat) → List Char → Option (List Lexeme)
  | 0, _ => none
  | fuel + 1, cs =>
    match skipSpace cs with
    | [] => some []
    | c :: cs => do
      let (l, rest) ← ofText? (c :: cs)
      let ls ← listOf? fuel rest
      return l :: ls

/-- A text that starts as a numeral does is read as one. -/
theorem ofText?_eq_number? {c : Char} (hc : c = '-' ∨ isDigit c = true) (cs : List Char) :
    ofText? (c :: cs) = number? (c :: cs) := by
  have hfirst {x : Char} {ds es : List Char} (heq : c :: ds = x :: es) :
      x = '-' ∨ isDigit x = true := (List.cons.inj heq).1 ▸ hc
  rw [ofText?]
  all_goals
    intro _ heq
    exact absurd (hfirst heq) (by decide)

/-! ## What texts are cut into -/

theorem listOf?_space {s : List Char} (hs : IsSpaces s) (fuel : Nat) (cs : List Char) :
    listOf? fuel (s ++ cs) = listOf? fuel cs := by
  cases fuel with
  | zero => rfl
  | succ fuel => rw [listOf?, listOf?, skipSpace_append hs]

variable {c : Char} {cs : List Char} {l : Lexeme} {ls : List Lexeme}

theorem listOf?_cons (hspace : (c = ' ' || c = '\n' || c = '\t' || c = '\r') = false)
    (hread : ofText? (c :: cs) = some (l, rest)) (fuel : Nat) :
    listOf? (fuel + 1) (c :: cs) = (listOf? fuel rest).map (l :: ·) := by
  rw [listOf?, skipSpace_cons hspace]
  simp only [hread, Option.bind_eq_bind, Option.bind_some]
  cases listOf? fuel rest <;> rfl

end Lexeme

/-- Whether a text is cut into some lexemes, whatever follows that no numeral goes on with. -/
structure Lexes (w : List Char) (ls : List Lexeme) : Prop where
  length_le : ls.length ≤ w.length
  read : ∀ fuel rest, Ends rest →
    Lexeme.listOf? (ls.length + fuel) (w ++ rest) = (Lexeme.listOf? fuel rest).map (ls ++ ·)

namespace Lexes

variable {u v s cs : List Char} {a b ls : List Lexeme} {c : Char} {l : Lexeme}

theorem space (hs : IsSpaces s) (h : Lexes w ls) : Lexes (s ++ w) ls where
  length_le := by
    rw [List.length_append]
    exact h.length_le.trans (Nat.le_add_left _ _)
  read fuel rest hrest := by
    rw [List.append_assoc, Lexeme.listOf?_space hs, h.read fuel rest hrest]

/-- Texts are put together when the second one does not go on with a numeral of the first. -/
theorem append (hu : Lexes u a) (hv : Lexes v b) (hends : ∀ rest, Ends (v ++ rest)) :
    Lexes (u ++ v) (a ++ b) where
  length_le := by
    rw [List.length_append, List.length_append]
    exact Nat.add_le_add hu.length_le hv.length_le
  read fuel rest hrest := by
    rw [List.append_assoc, List.length_append, Nat.add_assoc, hu.read _ _ (hends rest),
      hv.read fuel rest hrest, Option.map_map]
    simp [Function.comp_def]

/-- A lexeme that ends by itself. -/
theorem cons (hspace : (c = ' ' || c = '\n' || c = '\t' || c = '\r') = false)
    (hread : ∀ rest, Lexeme.ofText? (c :: (cs ++ rest)) = some (l, rest)) (h : Lexes w ls) :
    Lexes (c :: (cs ++ w)) (l :: ls) where
  length_le := by
    have := h.length_le
    simp only [List.length_cons, List.length_append]
    omega
  read fuel rest hrest := by
    have hfuel : (l :: ls).length + fuel = ls.length + fuel + 1 := by
      rw [List.length_cons]
      omega
    rw [hfuel, List.cons_append, List.append_assoc, Lexeme.listOf?_cons hspace (hread _),
      h.read fuel rest hrest, Option.map_map]
    rfl

/-- A lexeme of one character. -/
theorem mark (h : Lexes w ls) (c : Char)
    (hspace : (c = ' ' || c = '\n' || c = '\t' || c = '\r') = false)
    (hread : ∀ rest, Lexeme.ofText? (c :: rest) = some (l, rest)) : Lexes (c :: w) (l :: ls) := by
  have hlexeme : ∀ rest, Lexeme.ofText? (c :: ([] ++ rest)) = some (l, rest) := hread
  exact cons hspace hlexeme h

/-- A lexeme that may end with what follows. -/
theorem single (hspace : (c = ' ' || c = '\n' || c = '\t' || c = '\r') = false)
    (hread : ∀ rest, Ends rest → Lexeme.ofText? (c :: (cs ++ rest)) = some (l, rest)) :
    Lexes (c :: cs) [l] where
  length_le := by simp
  read fuel rest hrest := by
    rw [List.length_singleton, Nat.add_comm, List.cons_append,
      Lexeme.listOf?_cons hspace (hread rest hrest)]
    rfl

theorem nil : Lexes [] [] where
  length_le := Nat.le_refl 0
  read fuel rest _ := by
    rw [List.length_nil, Nat.zero_add, List.nil_append]
    cases Lexeme.listOf? fuel rest <;> rfl

theorem null : Lexes "null".toList [.null] :=
  single (by decide) fun _ _ => rfl

theorem bool (x : Bool) : Lexes (if x then "true" else "false").toList [.bool x] := by
  cases x with
  | true => exact single (by decide) fun _ _ => rfl
  | false => exact single (by decide) fun _ _ => rfl

/-- A string literal ends by itself. -/
theorem quote (x : String) (h : Lexes w ls) : Lexes ((quote x).toList ++ w) (.string x :: ls) := by
  obtain ⟨inner, hquote, hinner⟩ := spellsString_quote x
  rw [hquote, List.cons_append]
  refine cons (by decide) (fun rest => ?_) h
  change Lexeme.string? ((inner ++ ['"']) ++ rest) = _
  rw [List.append_assoc, Lexeme.string?, List.singleton_append, readString_inner hinner rest]

theorem number {n : Number} (h : n.Canonical) : Lexes n.text.toList [.number n] := by
  obtain ⟨m, hproper, htext, hnumber⟩ := h.exists_numeral
  obtain ⟨c, cs, hcs, hc⟩ := hproper.exists_text_eq_cons
  have hspace : (c = ' ' || c = '\n' || c = '\t' || c = '\r') = false := by
    have hne {x : Char} (hx : ¬ (x = '-' ∨ isDigit x = true)) : c ≠ x := fun heq => hx (heq ▸ hc)
    simp [hne (x := ' ') (by decide), hne (x := '\n') (by decide), hne (x := '\t') (by decide),
      hne (x := '\r') (by decide)]
  rw [htext, hcs]
  refine single hspace fun rest hrest => ?_
  have hread := hproper.ofText?_text hrest
  rw [hcs, List.cons_append] at hread
  rw [Lexeme.ofText?_eq_number? hc, Lexeme.number?, hread]
  simp only [Option.bind_eq_bind, Option.bind_some, hnumber]
  rfl

end Lexes

end Courseware.Json
