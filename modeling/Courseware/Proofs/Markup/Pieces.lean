import Courseware.Proofs.Markup.Spelling

/-!
# The pieces of written tokens

Tags and declarations are cut off as they were written, and text between them is
cut into runs and references.
-/

namespace Courseware.Markup.Piece

open Text (Dialect)

/-! ## One piece after another -/

theorem allFrom_eq_drop (skip : Nat) (cs : List Char) :
    allFrom skip cs = allFrom 0 (cs.drop skip) := by
  induction skip generalizing cs with
  | zero => rfl
  | succ skip ih =>
    cases cs with
    | nil => rfl
    | cons c cs => exact ih cs

/-- The first piece is cut off what follows it. -/
theorem allFrom_of_first? {piece : Piece} {written rest : List Char} (hne : written ≠ [])
    (h : first? (written ++ rest) = some (piece, written.length)) :
    allFrom 0 (written ++ rest) = (allFrom 0 rest).map (piece :: ·) := by
  obtain ⟨c, cs, rfl⟩ := List.exists_cons_of_ne_nil hne
  have hdrop : (cs ++ rest).drop cs.length = rest := List.drop_left
  rw [List.cons_append] at h ⊢
  rw [allFrom, h]
  simp only [List.length_cons, Nat.add_sub_cancel, bind, Option.bind]
  rw [allFrom_eq_drop, hdrop]
  cases allFrom 0 rest <;> rfl

/-! ## Text -/

/-- Whether what follows a text ends it. -/
def Stops (rest : List Char) : Prop := ∀ c ∈ rest.head?, endsText c = true

theorem stops_nil : Stops [] := by simp [Stops]

theorem stops_bracket (rest : List Char) : Stops ('<' :: rest) := by
  intro c hc
  rw [← Option.some.inj hc]
  decide

theorem allFrom_text {run rest : List Char} (hne : run ≠ [])
    (hrun : ∀ c ∈ run, endsText c = false) (hrest : Stops rest) :
    allFrom 0 (run ++ rest) =
      (allFrom 0 rest).map (.text (Text.trimList isSpace run) :: ·) := by
  refine allFrom_of_first? hne ?_
  have htake : (run ++ rest).takeWhile (fun c => !endsText c) = run := by
    have hpass : ∀ c ∈ run, (!endsText c) = true := fun c hc => by simp [hrun c hc]
    rw [List.takeWhile_append_of_pos hpass]
    cases rest with
    | nil => simp
    | cons c rest => simp [hrest c rfl]
  obtain ⟨c, cs, rfl⟩ := List.exists_cons_of_ne_nil hne
  have hc := hrun c List.mem_cons_self
  have hbracket : c ≠ '<' := by
    rintro rfl
    exact absurd hc (by decide)
  have hamp : c ≠ '&' := by
    rintro rfl
    exact absurd hc (by decide)
  rw [first?, htake]
  simp only [List.cons_append, List.head?_cons]
  split
  · rename_i heq
    exact absurd (Option.some.inj heq) hbracket
  · rename_i heq
    exact absurd (Option.some.inj heq) hamp
  · rfl

/-- What stands between the ampersand and the semicolon of a reference to a special
character. -/
def referenceName (c : Char) : List Char :=
  (Dialect.xml.escapeChar c).tail.dropLast

theorem allFrom_special {c : Char} (h : Dialect.IsSpecial c) (rest : List Char) :
    allFrom 0 (Dialect.xml.escapeChar c ++ rest) =
      (allFrom 0 rest).map (.reference (referenceName c) :: ·) := by
  rcases h with rfl | rfl | rfl | rfl | rfl <;>
    exact allFrom_of_first? (List.cons_ne_nil _ _) rfl

def flush (run : List Char) : List Piece :=
  if run = [] then [] else [.text (Text.trimList isSpace run)]

/-- The pieces of a text, where `run` holds what has been read since the last
reference. -/
def runsFrom (run : List Char) : List Char → List Piece
  | [] => flush run
  | c :: cs =>
    if Dialect.IsSpecial c then flush run ++ .reference (referenceName c) :: runsFrom [] cs
    else runsFrom (run ++ [c]) cs

theorem allFrom_flush {run rest : List Char} (hrun : ∀ c ∈ run, endsText c = false)
    (hrest : Stops rest) :
    allFrom 0 (run ++ rest) = (allFrom 0 rest).map (flush run ++ ·) := by
  rw [flush]
  split
  · rename_i hempty
    rw [hempty]
    simp
  · rename_i hne
    exact allFrom_text hne hrun hrest

theorem stops_escapeChar {c : Char} (h : Dialect.IsSpecial c) (rest : List Char) :
    Stops (Dialect.xml.escapeChar c ++ rest) := by
  rcases h with rfl | rfl | rfl | rfl | rfl <;>
    · intro c hc
      rw [← Option.some.inj hc]
      decide

theorem not_endsText {c : Char} (h : ¬ Dialect.IsSpecial c) : endsText c = false := by
  simp only [Dialect.IsSpecial, not_or] at h
  simp [endsText, h]

/-- An escaped text is cut into runs and references. -/
theorem allFrom_escapeList (run : List Char) (hrun : ∀ c ∈ run, endsText c = false)
    (cs : List Char) {rest : List Char} (hrest : Stops rest) :
    allFrom 0 (run ++ (Dialect.xml.escapeList cs ++ rest)) =
      (allFrom 0 rest).map (runsFrom run cs ++ ·) := by
  -- The run grows until a character comes that is written as a reference.
  induction cs generalizing run with
  | nil => exact allFrom_flush hrun hrest
  | cons c cs ih =>
    rw [Dialect.escapeList, List.flatMap_cons, List.append_assoc, runsFrom]
    split
    · rename_i hspecial
      have hnext := ih [] (by simp)
      rw [List.nil_append] at hnext
      rw [allFrom_flush hrun (stops_escapeChar hspecial _), allFrom_special hspecial]
      change ((allFrom 0 (Dialect.xml.escapeList cs ++ rest)).map _).map _ = _
      rw [hnext, Option.map_map, Option.map_map]
      congr 1
      funext pieces
      simp
    · rename_i hspecial
      have hlonger : ∀ x ∈ run ++ [c], endsText x = false := by
        intro x hx
        rcases List.mem_append.mp hx with hx | hx
        · exact hrun x hx
        · rw [List.mem_singleton.mp hx]
          exact not_endsText hspecial
      have hnext := ih _ hlonger
      rw [List.append_assoc] at hnext
      rw [Dialect.escapeChar_of_not_isSpecial hspecial]
      exact hnext

/-! ## Tags -/

/-- Whether a search for the end of a tag passes some characters, before and after
which a quote may be open. -/
def Passes (before : Option Char) (cs : List Char) (after : Option Char) : Prop :=
  ∀ rest, tagLength? before (cs ++ rest) = (tagLength? after rest).map (· + cs.length)

theorem Passes.nil (quote : Option Char) : Passes quote [] quote := by
  intro rest
  simp

theorem Passes.append {q₁ q₂ q₃ : Option Char} {cs ds : List Char} (h₁ : Passes q₁ cs q₂)
    (h₂ : Passes q₂ ds q₃) : Passes q₁ (cs ++ ds) q₃ := by
  intro rest
  rw [List.append_assoc, h₁, h₂, Option.map_map]
  congr 1
  funext n
  simp only [Function.comp_apply, List.length_append]
  omega

theorem Passes.cons {q₁ q₂ q₃ : Option Char} {c : Char} {cs : List Char}
    (h₁ : Passes q₁ [c] q₂) (h₂ : Passes q₂ cs q₃) : Passes q₁ (c :: cs) q₃ :=
  h₁.append h₂

/-- Outside quotes, other characters than brackets and quotes are passed. -/
theorem passes_plain {cs : List Char} (h : ∀ c ∈ cs, c ≠ '>' ∧ c ≠ '\'' ∧ c ≠ '"') :
    Passes none cs none := by
  induction cs with
  | nil => exact Passes.nil none
  | cons c cs ih =>
    obtain ⟨hbracket, hsingle, hdouble⟩ := h c List.mem_cons_self
    have hc : Passes none [c] none := by
      intro rest
      simp [tagLength?, hbracket, hsingle, hdouble]
    exact hc.cons (ih fun x hx => h x (List.mem_cons_of_mem _ hx))

/-- In double quotes, everything else is passed. -/
theorem passes_inQuotes {cs : List Char} (h : ∀ c ∈ cs, c ≠ '"') :
    Passes (some '"') cs (some '"') := by
  induction cs with
  | nil => exact Passes.nil _
  | cons c cs ih =>
    have hc : Passes (some '"') [c] (some '"') := by
      intro rest
      simp [tagLength?, h c List.mem_cons_self]
    exact hc.cons (ih fun x hx => h x (List.mem_cons_of_mem _ hx))

theorem passes_quoted {cs : List Char} (h : ∀ c ∈ cs, c ≠ '"') :
    Passes none ('"' :: (cs ++ ['"'])) none := by
  have hopen : Passes none ['"'] (some '"') := by
    intro rest
    simp [tagLength?]
  have hclose : Passes (some '"') ['"'] none := by
    intro rest
    simp [tagLength?]
  exact hopen.cons ((passes_inQuotes h).append hclose)

/-- A tag is cut off with what stands in it. -/
theorem allFrom_tag {content : List Char} (hpasses : Passes none content none) {c : Char}
    (hfirst : content.head? = some c) (hc : c ≠ '!' ∧ c ≠ '?') (rest : List Char) :
    allFrom 0 ('<' :: (content ++ '>' :: rest)) =
      (allFrom 0 rest).map (.tag content :: ·) := by
  have hsplit : '<' :: (content ++ '>' :: rest) = ('<' :: (content ++ ['>'])) ++ rest := by
    simp
  have hlength : tagLength? none (content ++ '>' :: rest) = some content.length := by
    rw [hpasses]
    simp [tagLength?]
  obtain ⟨cs, rfl⟩ : ∃ cs, content = c :: cs := by
    cases content with
    | nil => simp at hfirst
    | cons d cs => exact ⟨cs, by rw [Option.some.inj hfirst]⟩
  rw [hsplit]
  refine allFrom_of_first? (List.cons_ne_nil _ _) ?_
  rw [← hsplit, first?]
  simp only [List.head?_cons]
  rw [List.cons_append, markup?]
  · rw [List.cons_append] at hlength
    rw [hlength]
    simp
  all_goals simp [hc]

/-- An instruction ends at the first question mark in it. -/
theorem distance?_instruction {cs : List Char} (hcs : ∀ x ∈ cs, x ≠ '?') (rest : List Char) :
    distance? "?>".toList (cs ++ '?' :: '>' :: rest) = some cs.length := by
  induction cs with
  | nil => simp [distance?]
  | cons x cs ih =>
    have hx : ¬ '?' = x := fun heq => hcs x List.mem_cons_self heq.symm
    have hrest := ih fun y hy => hcs y (List.mem_cons_of_mem _ hy)
    simp [distance?, hx] at hrest ⊢
    exact hrest

/-- An instruction at the start of a document is passed over. -/
theorem allFrom_instruction (cs : List Char) {c : Char} (hfirst : cs.head? = some c)
    (hc : c ≠ '>') (hcs : ∀ x ∈ cs, x ≠ '?') (rest : List Char) :
    allFrom 0 ('<' :: '?' :: (cs ++ '?' :: '>' :: rest)) =
      (allFrom 0 rest).map (.other :: ·) := by
  have hsplit : '<' :: '?' :: (cs ++ '?' :: '>' :: rest) =
      ('<' :: '?' :: (cs ++ ['?', '>'])) ++ rest := by
    simp
  obtain ⟨ds, rfl⟩ : ∃ ds, cs = c :: ds := by
    cases cs with
    | nil => simp at hfirst
    | cons d ds => exact ⟨ds, by rw [Option.some.inj hfirst]⟩
  have hspan : span? "<?".toList "?>".toList ('<' :: '?' :: (c :: ds ++ '?' :: '>' :: rest)) =
      some (ds.length + 5) := by
    have hfound := distance?_instruction hcs rest
    simp only [span?]
    rw [if_pos (by simp)]
    change ((distance? "?>".toList (c :: ds ++ '?' :: '>' :: rest)).map _) = _
    rw [hfound]
    simp
    omega
  rw [hsplit]
  refine allFrom_of_first? (List.cons_ne_nil _ _) ?_
  rw [← hsplit, first?]
  simp only [List.head?_cons]
  rw [List.cons_append, markup?]
  · rw [List.cons_append] at hspan
    rw [hspan]
    simp
  · simp [hc]

end Courseware.Markup.Piece
