import Courseware.Proofs.Text.Entity
import Courseware.Text.Href
import Mathlib.Data.List.Basic

/-!
# Words, parts and path segments

Words with one space between them are read back as they are, joined words consist of what they are
made of and start and end with words, a text is cut out of what stands around it, and a path segment
holds only characters that stand for themselves everywhere.
-/

namespace Courseware.Text

/-! ## Words -/

/-- Whether a text is one word. -/
def IsWord (s : String) : Prop :=
  s.toList ≠ [] ∧ ∀ c ∈ s.toList, isBlank c = false

theorem isWord_ofList {cs : List Char} (h : cs ≠ [] ∧ ∀ c ∈ cs, isBlank c = false) :
    IsWord (String.ofList cs) := by
  rw [IsWord, String.toList_ofList]
  exact h

/-- A word is read up to the next blank. -/
theorem wordsFrom_append {cs : List Char} (h : ∀ c ∈ cs, isBlank c = false)
    (word rest : List Char) :
    wordsFrom word (cs ++ rest) = wordsFrom (word ++ cs) rest := by
  induction cs generalizing word with
  | nil => rw [List.nil_append, List.append_nil]
  | cons c cs ih =>
    have hc : ¬ isBlank c = true := by simp [h c List.mem_cons_self]
    rw [List.cons_append, wordsFrom, if_neg hc, ih fun x hx => h x (List.mem_cons_of_mem _ hx),
      List.append_assoc, List.singleton_append]

theorem wordsFrom_word {s : String} (h : IsWord s) :
    wordsFrom [] s.toList = [s.toList] := by
  have hread := wordsFrom_append h.2 [] []
  rw [List.append_nil, List.nil_append] at hread
  simp [hread, wordsFrom, h.1]

theorem wordsFrom_word_space {s : String} (h : IsWord s) (rest : List Char) :
    wordsFrom [] (s.toList ++ ' ' :: rest) = s.toList :: wordsFrom [] rest := by
  have hspace : isBlank ' ' = true := by decide
  rw [wordsFrom_append h.2, List.nil_append, wordsFrom, if_pos hspace,
    if_neg (by simp [h.1])]

/-- Words with one space between them are read as these words. -/
theorem words_intercalate {ws : List String} (h : ∀ w ∈ ws, IsWord w) :
    words (" ".intercalate ws) = ws := by
  suffices hchars : wordsFrom [] (" ".intercalate ws).toList = ws.map String.toList by
    rw [words, hchars, List.map_map]
    simp [Function.comp_def]
  induction ws with
  | nil => rfl
  | cons w ws ih =>
    have hw := h w List.mem_cons_self
    have hrest := ih fun x hx => h x (List.mem_cons_of_mem _ hx)
    cases ws with
    | nil => simpa using wordsFrom_word hw
    | cons v ws =>
      have hchars : (" ".intercalate (w :: v :: ws)).toList =
          w.toList ++ ' ' :: (" ".intercalate (v :: ws)).toList := by
        simp [String.intercalate_cons_cons]
      rw [hchars, wordsFrom_word_space hw, hrest]
      rfl

/-! ## Joined words -/

section Joined

variable {sep c : Char} {words : List (List Char)}

/-- Behind its first word a joined list has a separator in front of every word. -/
theorem intercalate_cons (sep : Char) (w : List Char) (words : List (List Char)) :
    [sep].intercalate (w :: words) = w ++ words.flatMap (sep :: ·) := by
  induction words generalizing w with
  | nil => simp [List.intercalate]
  | cons v words ih =>
    rw [List.intercalate_cons_cons, ih v, List.flatMap_cons, List.append_assoc]
    rfl

theorem eq_or_exists_mem_of_mem_intercalate (h : c ∈ [sep].intercalate words) :
    c = sep ∨ ∃ w ∈ words, c ∈ w := by
  cases words with
  | nil => cases h
  | cons w words =>
    rw [intercalate_cons, List.mem_append, List.mem_flatMap] at h
    rcases h with h | ⟨v, hv, h⟩
    · exact .inr ⟨w, List.mem_cons_self, h⟩
    · rcases List.mem_cons.mp h with rfl | h
      · exact .inl rfl
      · exact .inr ⟨v, List.mem_cons_of_mem _ hv, h⟩

theorem exists_mem_of_head?_intercalate (hne : ∀ w ∈ words, w ≠ [])
    (h : c ∈ ([sep].intercalate words).head?) : ∃ w ∈ words, c ∈ w := by
  cases words with
  | nil => cases h
  | cons w words =>
    rw [intercalate_cons, List.head?_append_of_ne_nil _ (hne w List.mem_cons_self)] at h
    exact ⟨w, List.mem_cons_self, List.mem_of_head? h⟩

theorem exists_mem_of_getLast?_intercalate (hne : ∀ w ∈ words, w ≠ [])
    (h : c ∈ ([sep].intercalate words).getLast?) : ∃ w ∈ words, c ∈ w := by
  induction words with
  | nil => cases h
  | cons w words ih =>
    obtain ⟨-, hwords⟩ := List.forall_mem_cons.mp hne
    cases words with
    | nil =>
      rw [List.intercalate_singleton] at h
      exact ⟨w, List.mem_cons_self, List.mem_of_getLast? h⟩
    | cons v words =>
      have hjoined : [sep].intercalate (v :: words) ≠ [] := by
        simp [intercalate_cons, hwords v List.mem_cons_self]
      rw [List.intercalate_cons_cons, List.getLast?_append_of_ne_nil _ hjoined] at h
      obtain ⟨x, hx, hc⟩ := ih hwords h
      exact ⟨x, List.mem_cons_of_mem _ hx, hc⟩

end Joined

/-! ## Parts -/

/-- What stands between the start and the end that a text must have. -/
def between? (before after s : String) : Option String := do
  let rest ← s.toList.dropPrefix? before.toList
  let inner ← rest.dropSuffix? after.toList
  return String.ofList inner

theorem between?_append (before inner after : String) :
    between? before after (before ++ inner ++ after) = some inner := by
  have hfirst : (before.toList ++ (inner.toList ++ after.toList)).dropPrefix? before.toList =
      some (inner.toList ++ after.toList) :=
    List.dropPrefix?_eq_some_iff.mpr ⟨before.toList, rfl, by simp⟩
  have hlast : (inner.toList ++ after.toList).dropSuffix? after.toList = some inner.toList :=
    List.dropSuffix?_eq_some_iff.mpr ⟨after.toList, rfl, by simp⟩
  rw [between?, String.toList_append, String.toList_append, List.append_assoc, hfirst]
  simp [hlast]

/-! ## Path segments -/

theorem isSegmentChar_of_mem_pathSegment {id : String} {c : Char}
    (h : c ∈ (pathSegment id).toList) : isSegmentChar c = true := by
  have hunderscore : isSegmentChar '_' = true := by decide
  rw [pathSegment] at h
  split at h
  · have heq : c = '_' := by simpa using h
    rw [heq, hunderscore]
  · rw [String.toList_ofList] at h
    obtain ⟨x, -, rfl⟩ := List.mem_map.mp h
    split
    · assumption
    · exact hunderscore

/-- The characters of a path segment are printed ASCII characters without a special
meaning in markup. -/
theorem isSegmentChar_range {c : Char} (h : isSegmentChar c = true) :
    45 ≤ c.toNat ∧ c.toNat < 123 ∧ c.toNat ≠ 47 ∧ c.toNat ≠ 60 ∧ c.toNat ≠ 62 ∧
      c.toNat ≠ 92 := by
  have hle : ∀ a b : Char, (decide (a ≤ b)) = true → a.toNat ≤ b.toNat := by
    intro a b hab
    exact of_decide_eq_true hab
  simp only [isSegmentChar, isAlnum, Bool.or_eq_true, Bool.and_eq_true, beq_iff_eq] at h
  rcases h with ((((⟨hlow, hhigh⟩ | ⟨hlow, hhigh⟩) | ⟨hlow, hhigh⟩) | rfl) | rfl) | rfl
  · have h₁ := hle _ _ hlow
    have h₂ := hle _ _ hhigh
    have ha : 'a'.toNat = 97 := rfl
    have hz : 'z'.toNat = 122 := rfl
    omega
  · have h₁ := hle _ _ hlow
    have h₂ := hle _ _ hhigh
    have ha : 'A'.toNat = 65 := rfl
    have hz : 'Z'.toNat = 90 := rfl
    omega
  · have h₁ := hle _ _ hlow
    have h₂ := hle _ _ hhigh
    have h0 : '0'.toNat = 48 := rfl
    have h9 : '9'.toNat = 57 := rfl
    omega
  all_goals decide

/-! ## Lower case -/

/-- A character before the small letters is the lower-case form of itself alone. -/
theorem eq_of_lowerChar_eq {c d : Char} (hd : d.toNat < 97) (h : lowerChar c = d) : c = d := by
  have hsmall : ∀ n < 26, (Char.ofNat (65 + n + 32)).toNat = 97 + n := by decide
  rw [lowerChar] at h
  split at h
  · rename_i hcapital
    simp only [Bool.and_eq_true, decide_eq_true_eq] at hcapital
    have hlow : 65 ≤ c.toNat := hcapital.1
    have hhigh : c.toNat ≤ 90 := hcapital.2
    have hletter := hsmall (c.toNat - 65) (by omega)
    rw [show 65 + (c.toNat - 65) + 32 = c.toNat + 32 by omega, h] at hletter
    omega
  · exact h

end Courseware.Text
