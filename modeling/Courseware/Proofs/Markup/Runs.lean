import Mathlib.Data.List.Chain
import Courseware.Proofs.Markup.Events

/-!
# What is read of a text

A text between two tags is cut at the characters that are written as references, and of each
run between them the white space at its ends is passed over. So a text is read as it was
exactly when it has no white space at its ends and none next to such a character.
-/

namespace Courseware

namespace Text

/-! ## Trimmed lists -/

variable {p : Char → Bool} {cs : List Char}

theorem dropWhile_eq_self_iff : cs.dropWhile p = cs ↔ ∀ c ∈ cs.head?, p c = false := by
  cases cs with
  | nil => simp
  | cons c cs =>
    by_cases hc : p c = true
    · have hne : cs.dropWhile p ≠ c :: cs := fun heq => by
        have hle := (List.dropWhile_sublist p (l := cs)).length_le
        rw [heq, List.length_cons] at hle
        omega
      simp [hc, hne]
    · simp [hc]

theorem isInfix_trimList (p : Char → Bool) (cs : List Char) : trimList p cs <:+: cs := by
  have hstart := (List.dropWhile_suffix p (l := cs)).isInfix
  have hend : trimList p cs <+: cs.dropWhile p := by
    rw [← List.reverse_suffix, trimList, List.reverse_reverse]
    exact List.dropWhile_suffix p
  exact hend.isInfix.trans hstart

theorem length_trimList_le (p : Char → Bool) (cs : List Char) :
    (trimList p cs).length ≤ cs.length :=
  (isInfix_trimList p cs).length_le

/-- A list stays as it is when neither its first element nor its last one is dropped. -/
theorem trimList_eq_self_iff : trimList p cs = cs ↔
    (∀ c ∈ cs.head?, p c = false) ∧ ∀ c ∈ cs.getLast?, p c = false := by
  constructor
  · intro h
    have hend := (List.dropWhile_sublist p (l := (cs.dropWhile p).reverse)).length_le
    have hlength := congrArg List.length h
    rw [List.length_reverse] at hend
    rw [trimList, List.length_reverse] at hlength
    -- Nothing is dropped at the start, as the list would be shorter then.
    have hkept : cs.dropWhile p = cs :=
      (List.dropWhile_sublist p (l := cs)).eq_of_length_le (by omega)
    rw [trimList, hkept, List.reverse_eq_iff] at h
    refine ⟨dropWhile_eq_self_iff.mp hkept, ?_⟩
    rw [← List.head?_reverse]
    exact dropWhile_eq_self_iff.mp h
  · rintro ⟨hfirst, hlast⟩
    rw [← List.head?_reverse] at hlast
    rw [trimList, dropWhile_eq_self_iff.mpr hfirst, dropWhile_eq_self_iff.mpr hlast,
      List.reverse_reverse]

end Text

namespace Markup

open Text (Dialect)

/-! ## Runs -/

theorem isBlank_of_isSpace {c : Char} (h : isSpace c = true) : Text.isBlank c = true := by
  simp only [isSpace, Bool.or_eq_true, beq_iff_eq] at h
  rcases h with ((rfl | rfl) | rfl) | rfl <;> decide

theorem isSpace_eq_false_of_isBlank {c : Char} (h : Text.isBlank c = false) :
    isSpace c = false := by
  by_contra hspace
  rw [isBlank_of_isSpace (Bool.not_eq_false _ ▸ hspace)] at h
  exact Bool.noConfusion h

theorem isSpace_of_isSpecial {c : Char} (h : Dialect.IsSpecial c) : isSpace c = false := by
  rcases h with rfl | rfl | rfl | rfl | rfl <;> decide

/-- What is read of some characters, where `run` holds those that have been read since the
last one that is written as a reference. -/
def readFrom (run : List Char) : List Char → List Char
  | [] => Text.trimList isSpace run
  | c :: cs =>
    if Dialect.IsSpecial c then Text.trimList isSpace run ++ c :: readFrom [] cs
    else readFrom (run ++ [c]) cs

theorem length_readFrom_le (run cs : List Char) :
    (readFrom run cs).length ≤ (run ++ cs).length := by
  induction cs generalizing run with
  | nil =>
    rw [readFrom, List.append_nil]
    exact Text.length_trimList_le isSpace run
  | cons c cs ih =>
    rw [readFrom]
    split
    · have hrun := Text.length_trimList_le isSpace run
      have hrest := ih []
      simp only [List.length_append, List.length_cons, List.nil_append] at hrest ⊢
      omega
    · have hrest := ih (run ++ [c])
      rwa [List.append_assoc] at hrest

/-- Whether two characters can be neighbours without one of them being lost: no white space
stands next to a character that is written as a reference. -/
def Apart (c d : Char) : Prop :=
  ¬ (Dialect.IsSpecial c ∧ isSpace d = true) ∧ ¬ (isSpace c = true ∧ Dialect.IsSpecial d)

instance (c d : Char) : Decidable (Apart c d) :=
  inferInstanceAs (Decidable (¬ _ ∧ ¬ _))

theorem apart_left_iff {c d : Char} (h : Dialect.IsSpecial c) :
    Apart c d ↔ isSpace d = false := by
  simp [Apart, h, isSpace_of_isSpecial h]

theorem apart_right_iff {c d : Char} (h : Dialect.IsSpecial d) :
    Apart c d ↔ isSpace c = false := by
  simp [Apart, h, isSpace_of_isSpecial h]

theorem isChain_apart_of_plain {cs : List Char} (h : ∀ c ∈ cs, ¬ Dialect.IsSpecial c) :
    cs.IsChain Apart := by
  induction cs with
  | nil => exact .nil
  | cons c cs ih =>
    obtain ⟨hc, hcs⟩ := List.forall_mem_cons.mp h
    refine List.isChain_cons.mpr ⟨fun d hd => ?_, ih hcs⟩
    exact ⟨fun hcd => hc hcd.1, fun hcd => hcs d (List.mem_of_mem_head? hd) hcd.2⟩

/-- Whether a text has no white space at its ends and none next to a character that is written
as a reference. -/
structure Tight (cs : List Char) : Prop where
  first : ∀ c ∈ cs.head?, isSpace c = false
  last : ∀ c ∈ cs.getLast?, isSpace c = false
  apart : cs.IsChain Apart

/-- The characters in front of one that is written as a reference, and those behind it, are
looked at on their own. -/
theorem tight_append_special_iff {run cs : List Char} {c : Char}
    (hrun : ∀ d ∈ run, ¬ Dialect.IsSpecial d) (hc : Dialect.IsSpecial c) :
    Tight (run ++ c :: cs) ↔ Text.trimList isSpace run = run ∧ Tight cs := by
  -- The character is written as a reference, which parts what stands on its two sides.
  have hspace := isSpace_of_isSpecial hc
  have hchain : (run ++ c :: cs).IsChain Apart ↔
      (∀ d ∈ run.getLast?, isSpace d = false) ∧
        (∀ d ∈ cs.head?, isSpace d = false) ∧ cs.IsChain Apart := by
    rw [List.isChain_append, List.isChain_cons]
    simp only [isChain_apart_of_plain hrun, true_and, List.head?_cons, Option.mem_some_iff,
      forall_eq', apart_left_iff hc, apart_right_iff hc]
    tauto
  have hfirst : (∀ d ∈ (run ++ c :: cs).head?, isSpace d = false) ↔
      ∀ d ∈ run.head?, isSpace d = false := by
    cases run with
    | nil => simp [hspace]
    | cons d run => simp
  have hlast : (∀ d ∈ (run ++ c :: cs).getLast?, isSpace d = false) ↔
      ∀ d ∈ cs.getLast?, isSpace d = false := by
    rw [List.getLast?_append_cons]
    cases cs with
    | nil => simp [hspace]
    | cons d cs => rw [List.getLast?_cons_cons]
  rw [Text.trimList_eq_self_iff]
  constructor
  · rintro ⟨h₁, h₂, h₃⟩
    obtain ⟨h₄, h₅, h₆⟩ := hchain.mp h₃
    exact ⟨⟨hfirst.mp h₁, h₄⟩, h₅, hlast.mp h₂, h₆⟩
  · rintro ⟨⟨h₁, h₄⟩, h₅, h₂, h₆⟩
    exact ⟨hfirst.mpr h₁, hlast.mpr h₂, hchain.mpr ⟨h₄, h₅, h₆⟩⟩

theorem tight_plain_iff {run : List Char} (hrun : ∀ d ∈ run, ¬ Dialect.IsSpecial d) :
    Tight run ↔ Text.trimList isSpace run = run := by
  rw [Text.trimList_eq_self_iff]
  exact ⟨fun h => ⟨h.first, h.last⟩, fun h => ⟨h.1, h.2, isChain_apart_of_plain hrun⟩⟩

/-- A text is read as it was exactly when no white space stands at its ends or next to a
character that is written as a reference. -/
theorem readFrom_eq_iff {run cs : List Char} (hrun : ∀ d ∈ run, ¬ Dialect.IsSpecial d) :
    readFrom run cs = run ++ cs ↔ Tight (run ++ cs) := by
  induction cs generalizing run with
  | nil => rw [readFrom, List.append_nil, tight_plain_iff hrun]
  | cons c cs ih =>
    rw [readFrom]
    split
    · rename_i hc
      have hrest : readFrom [] cs = cs ↔ Tight cs := by
        simpa using @ih [] (by simp)
      rw [tight_append_special_iff hrun hc, ← hrest]
      constructor
      · intro h
        -- Neither part is longer than what it is read from, so none is shorter.
        have hshort := Text.length_trimList_le isSpace run
        have hbehind := length_readFrom_le [] cs
        have hlength := congrArg List.length h
        simp only [List.length_append, List.length_cons, List.nil_append] at hlength hbehind
        obtain ⟨hfront, htail⟩ := List.append_inj h (by omega)
        exact ⟨hfront, (List.cons.inj htail).2⟩
      · rintro ⟨hfront, hback⟩
        rw [hfront, hback]
    · rename_i hc
      have hplain : ∀ d ∈ run ++ [c], ¬ Dialect.IsSpecial d :=
        List.forall_mem_append.mpr ⟨hrun, List.forall_mem_singleton.mpr hc⟩
      have hrest := ih hplain
      rwa [List.append_assoc] at hrest

/-- What is read of a text in an element, without blanks at its ends. -/
def readText (s : String) : String := Text.trim (String.ofList (readFrom [] s.toList))

/-- A text without blanks at its ends is read as it was exactly when no white space stands next
to a character that is written as a reference. -/
theorem readText_eq_iff {s : String} (hfirst : ∀ c ∈ s.toList.head?, Text.isBlank c = false)
    (hlast : ∀ c ∈ s.toList.getLast?, Text.isBlank c = false) :
    readText s = s ↔ s.toList.IsChain Apart := by
  have htight : s.toList.IsChain Apart ↔ readFrom [] s.toList = s.toList := by
    have hnone : ∀ c ∈ ([] : List Char), ¬ Dialect.IsSpecial c := by simp
    have hread := @readFrom_eq_iff [] s.toList hnone
    rw [List.nil_append] at hread
    rw [hread]
    exact ⟨fun h => ⟨fun c hc => isSpace_eq_false_of_isBlank (hfirst c hc),
      fun c hc => isSpace_eq_false_of_isBlank (hlast c hc), h⟩, Tight.apart⟩
  rw [htight, readText, Text.trim, String.toList_ofList, ← String.toList_inj,
    String.toList_ofList]
  constructor
  · intro h
    -- Neither step leaves more than it is given, so both leave all of it.
    have hread := length_readFrom_le [] s.toList
    rw [List.nil_append] at hread
    have htrim := Text.isInfix_trimList Text.isBlank (readFrom [] s.toList)
    rw [h] at htrim
    exact (htrim.eq_of_length_le hread).symm
  · intro h
    rw [h]
    exact Text.trimList_eq_self_iff.mpr ⟨hfirst, hlast⟩

end Markup

end Courseware
