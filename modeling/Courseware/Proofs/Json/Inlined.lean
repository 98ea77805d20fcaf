import Courseware.Proofs.Decimal.Numeral
import Courseware.Proofs.Json.Printing

/-!
# What values cannot spell

A value on one line never has an equals sign, a quote and the letter b in a row: a quote
inside a string stands behind a backslash, and one at the end of a string has no letter
behind it. So no text in a value can spell the attribute that starts a block, and in a
script element no text can spell an end tag.
-/

namespace Courseware.Json

open Script (keepOpen)

/-! ## Attributes -/

/-- How much of the start of an attribute's value has just been read. -/
inductive Spot
  | idle
  | equals
  | quote
  | found
  deriving DecidableEq

/-- Reads a character. What has been found stays found. -/
def Spot.step : Spot → Char → Spot
  | .found, _ => .found
  | .equals, '"' => .quote
  | .quote, 'b' => .found
  | _, '=' => .equals
  | _, _ => .idle

def Spot.run (s : Spot) (cs : List Char) : Spot := cs.foldl step s

namespace Spot

@[simp] theorem run_nil (s : Spot) : s.run [] = s := rfl

@[simp] theorem run_cons (s : Spot) (c : Char) (cs : List Char) :
    s.run (c :: cs) = (s.step c).run cs := rfl

@[simp] theorem run_append (s : Spot) (cs ds : List Char) :
    s.run (cs ++ ds) = (s.run cs).run ds :=
  List.foldl_append

theorem run_found (cs : List Char) : found.run cs = found := by
  induction cs with
  | nil => rfl
  | cons c cs ih => exact ih

/-- Whether no quote stands behind an equals sign. -/
def Unquoted (s : Spot) : Prop := s = idle ∨ s = equals

/-- Whether the start of a value can only be found behind another equals sign. -/
def Settled (s : Spot) : Prop := s = idle ∨ s = quote

theorem step_of_ne {s : Spot} (hs : s.Unquoted) {c : Char} (hquote : c ≠ '"') :
    (s.step c).Unquoted := by
  by_cases hequals : c = '='
  · rcases hs with rfl | rfl <;> exact Or.inr (by rw [hequals]; rfl)
  · rcases hs with rfl | rfl <;> exact Or.inl (by simp [step, hquote])

/-- Without an equals sign nothing is found. -/
theorem run_idle {cs : List Char} (h : '=' ∉ cs) : idle.run cs = idle := by
  induction cs with
  | nil => rfl
  | cons c cs ih =>
    have hc : c ≠ '=' := fun heq => h (heq ▸ List.mem_cons_self)
    have hstep : idle.step c = idle := by simp [step]
    rw [run_cons, hstep, ih fun hmem => h (List.mem_cons_of_mem _ hmem)]

/-- A character that is neither of the three leads back to the start. -/
theorem step_of_settled {s : Spot} (hs : s.Settled) {c : Char} (hequals : c ≠ '=')
    (hletter : c ≠ 'b') : s.step c = idle := by
  rcases hs with rfl | rfl <;> simp [step, hletter]

/-- What keeps a script element open makes no difference. -/
theorem run_keepOpen (s : Spot) (cs : List Char) : s.run (keepOpen cs) = s.run cs := by
  have hless : ∀ s : Spot, ((s.step '<').step '\\').step '/' = (s.step '<').step '/' := by
    intro s
    cases s <;> decide
  induction cs using Script.keepOpen.induct generalizing s with
  | case1 cs ih => rw [keepOpen, run_cons, run_cons, run_cons, hless, ih]; rfl
  | case2 c cs h ih =>
    rw [keepOpen, run_cons, ih]
    · rfl
    · exact h
  | case3 => rfl

end Spot

theorem unquoted_escape {s : Spot} (hs : s.Unquoted) (cs : List Char) :
    (s.run (cs.flatMap escapeChar)).Unquoted := by
  induction cs generalizing s with
  | nil => exact hs
  | cons c cs ih =>
    rw [List.flatMap_cons, Spot.run_append]
    apply ih
    rcases escapeChar_cases c with hself | ⟨ds, hescape, -, hequals⟩
    · have hquote : c ≠ '"' := by
        rintro rfl
        exact absurd hself (by decide)
      rw [hself]
      exact Spot.step_of_ne hs hquote
    · have hslash : s.step '\\' = .idle := by rcases hs with rfl | rfl <;> decide
      rw [hescape, Spot.run_cons, hslash, Spot.run_idle hequals]
      exact Or.inl rfl

theorem settled_quote (s : String) : (Spot.idle.run (quote s).toList).Settled := by
  have hinner := unquoted_escape (Or.inl rfl : Spot.idle.Unquoted) s.toList
  have hopen : Spot.idle.step '"' = .idle := by decide
  rw [quote, String.toList_ofList, List.cons_append, Spot.run_cons, hopen, Spot.run_append]
  rcases hinner with hidle | hequals
  · exact Or.inl (by rw [hidle]; decide)
  · exact Or.inr (by rw [hequals]; decide)

theorem settled_numeral {cs : List Char} (h : Decimal.IsNumeral cs) :
    (Spot.idle.run cs).Settled := by
  refine Or.inl (Spot.run_idle fun hmem => ?_)
  exact absurd (h '=' hmem) (by decide)

/-- Values with delimiters between them. -/
theorem settled_append_cons {u v : List Char} (hu : (Spot.idle.run u).Settled)
    (hv : (Spot.idle.run v).Settled) {c : Char} (hequals : c ≠ '=') (hletter : c ≠ 'b') :
    (Spot.idle.run (u ++ c :: v)).Settled := by
  rw [Spot.run_append, Spot.run_cons, Spot.step_of_settled hu hequals hletter]
  exact hv

theorem settled_compactItems {vs : List Json}
    (h : ∀ v ∈ vs, (Spot.idle.run v.compact.toList).Settled) :
    (Spot.idle.run (compactItems vs).toList).Settled := by
  induction vs with
  | nil => exact Or.inl rfl
  | cons v vs ih =>
    have hv := h v List.mem_cons_self
    cases vs with
    | nil => exact hv
    | cons w ws =>
      have hrest := ih fun x hx => h x (List.mem_cons_of_mem _ hx)
      have hsplit : (compactItems (v :: w :: ws)).toList =
          v.compact.toList ++ ',' :: (compactItems (w :: ws)).toList := by
        rw [compactItems, String.toList_append, String.toList_append, List.append_assoc]
        · rfl
        · exact List.cons_ne_nil _ _
      rw [hsplit]
      exact settled_append_cons hv hrest (by decide) (by decide)

theorem settled_compactMembers {ms : List (String × Json)}
    (h : ∀ m ∈ ms, (Spot.idle.run m.2.compact.toList).Settled) :
    (Spot.idle.run (compactMembers ms).toList).Settled := by
  have hmember : ∀ m ∈ ms,
      (Spot.idle.run ((quote m.1).toList ++ ':' :: m.2.compact.toList)).Settled :=
    fun m hm => settled_append_cons (settled_quote m.1) (h m hm) (by decide) (by decide)
  induction ms with
  | nil => exact Or.inl rfl
  | cons m ms ih =>
    have hm := hmember m List.mem_cons_self
    cases ms with
    | nil =>
      have hsplit : (compactMembers [m]).toList =
          (quote m.1).toList ++ ':' :: m.2.compact.toList := by
        rw [compactMembers, String.toList_append, String.toList_append, List.append_assoc]
        rfl
      rw [hsplit]
      exact hm
    | cons n ns =>
      have hrest := ih (fun x hx => h x (List.mem_cons_of_mem _ hx))
        fun x hx => hmember x (List.mem_cons_of_mem _ hx)
      have hsplit : (compactMembers (m :: n :: ns)).toList =
          ((quote m.1).toList ++ ':' :: m.2.compact.toList) ++
            ',' :: (compactMembers (n :: ns)).toList := by
        rw [compactMembers]
        · simp
        · exact List.cons_ne_nil _ _
      rw [hsplit]
      exact settled_append_cons hm hrest (by decide) (by decide)

/-- In a value on one line the start of an attribute is never found. -/
theorem settled_compact (v : Json) : (Spot.idle.run v.compact.toList).Settled := by
  have hbrackets : ∀ (a b : Char) (w : List Char), a ≠ '=' → a ≠ 'b' → b ≠ '=' → b ≠ 'b' →
      (Spot.idle.run w).Settled → (Spot.idle.run (a :: (w ++ [b]))).Settled := by
    intro a b w ha ha' hb hb' hw
    have hend := settled_append_cons hw (Or.inl rfl : (Spot.idle.run []).Settled) hb hb'
    exact settled_append_cons (u := []) (Or.inl rfl) hend ha ha'
  induction v using Json.induct with
  | hnull => exact Or.inl (by decide)
  | hbool b => cases b <;> exact Or.inl (by decide)
  | hnumber n =>
    apply settled_numeral
    cases n with
    | integer n => exact Decimal.isNumeral_toString n
    | decimal x => exact Decimal.isNumeral_dataText x
  | hstring s => exact settled_quote s
  | harray vs ih =>
    have hsplit : (array vs).compact.toList = '[' :: ((compactItems vs).toList ++ [']']) := by
      simp [compact]
    rw [hsplit]
    exact hbrackets '[' ']' _ (by decide) (by decide) (by decide) (by decide)
      (settled_compactItems ih)
  | hobject ms ih =>
    have hsplit : (object ms).compact.toList =
        '\x7b' :: ((compactMembers ms).toList ++ ['\x7d']) := by
      simp [compact]
    rw [hsplit]
    exact hbrackets '\x7b' '\x7d' _ (by decide) (by decide) (by decide) (by decide)
      (settled_compactMembers ih)

theorem settled_inlined (v : Json) : (Spot.idle.run (Script.inlined v).toList).Settled := by
  rw [Script.inlined, String.toList_ofList, Spot.run_keepOpen]
  exact settled_compact v

/-! ## End tags -/

theorem head?_keepOpen (cs : List Char) : (keepOpen cs).head? = cs.head? := by
  cases cs using Script.keepOpen.fun_cases with
  | case1 cs => rw [keepOpen]; rfl
  | case2 c cs h =>
    rw [keepOpen]
    · rfl
    · exact h
  | case3 => rfl

/-- What keeps a script element open never starts an end tag. -/
theorem not_infix_keepOpen (cs : List Char) : ¬ ['<', '/'] <:+: keepOpen cs := by
  induction cs using Script.keepOpen.induct with
  | case1 cs ih =>
    rw [keepOpen, List.infix_cons_iff, List.infix_cons_iff, List.infix_cons_iff]
    rintro (h | h | h | h)
    · simp at h
    · simp at h
    · simp at h
    · exact ih h
  | case2 c cs hpair ih =>
    rw [keepOpen, List.infix_cons_iff, not_or]
    -- A pair that starts here would stand in the text itself, which this case excludes.
    · refine ⟨?_, ih⟩
      intro h
      obtain ⟨rfl, hslash⟩ := List.cons_prefix_cons.mp h
      have hhead : cs.head? = some '/' := by
        rw [← head?_keepOpen]
        obtain ⟨ds, hds⟩ := hslash
        rw [← hds]
        rfl
      cases cs with
      | nil => cases hhead
      | cons d ds => exact hpair ds rfl (by rw [Option.some.inj hhead])
    · exact hpair
  | case3 => simp [keepOpen]

end Courseware.Json
