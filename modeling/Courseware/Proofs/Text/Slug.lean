import Courseware.Proofs.Text.Words
import Courseware.Text.Slug

/-!
# The words of a slug

An uncut slug is the runs of letters and digits of the title in lower case, joined by single
hyphens. The cut keeps this shape unless it falls right behind a hyphen; then the hyphen is left
at the end, and it is lost when the slug is made into a slug again.
-/

namespace Courseware.Text

/-! ## Words -/

/-- The characters that a slug has besides its hyphens. -/
def isSlugChar (c : Char) : Bool :=
  ('a' ≤ c && c ≤ 'z') || ('0' ≤ c && c ≤ '9')

/-- One of the parts of a slug between hyphens. -/
def IsSlugWord (w : List Char) : Prop :=
  w ≠ [] ∧ ∀ c ∈ w, isSlugChar c = true

/-- Words with one hyphen between them. -/
def hyphenated (words : List (List Char)) : List Char :=
  ['-'].intercalate words

/-- Whether a text is words with one hyphen between them; the empty text has no words. -/
def IsSlug (s : String) : Prop :=
  ∃ words, (∀ w ∈ words, IsSlugWord w) ∧ s.toList = hyphenated words

/-- The parts of a title between the characters that are neither ASCII letters nor digits. -/
def titleParts (title : List Char) : List (List Char) :=
  title.splitOnP fun c => !isAlnum c

/-- The parts that are not empty, in lower case. -/
def keptWords (parts : List (List Char)) : List (List Char) :=
  (parts.filter fun w => !w.isEmpty).map (List.map lowerChar)

/-- The runs of ASCII letters and digits of a title, in lower case. -/
def titleWords (title : List Char) : List (List Char) :=
  keptWords (titleParts title)

@[simp]
theorem keptWords_nil_cons (parts : List (List Char)) :
    keptWords ([] :: parts) = keptWords parts := rfl

@[simp]
theorem keptWords_cons_cons (c : Char) (w : List Char) (parts : List (List Char)) :
    keptWords ((c :: w) :: parts) = (lowerChar c :: w.map lowerChar) :: keptWords parts := rfl

theorem titleParts_gap {c : Char} (h : isAlnum c = false) (title : List Char) :
    titleParts (c :: title) = [] :: titleParts title := by
  rw [titleParts, List.splitOnP_cons_eq_if_modifyHead, if_pos (by simp [h])]
  rfl

theorem titleWords_gap {c : Char} (h : isAlnum c = false) (title : List Char) :
    titleWords (c :: title) = titleWords title := by
  rw [titleWords, titleParts_gap h, keptWords_nil_cons, ← titleWords]

/-- A letter or digit is put in front of the first part. -/
theorem exists_titleParts {c : Char} (h : isAlnum c = true) (title : List Char) :
    ∃ first parts, titleParts title = first :: parts ∧
      titleParts (c :: title) = (c :: first) :: parts := by
  obtain ⟨first, parts, hparts⟩ :=
    List.exists_cons_of_ne_nil (List.splitOnP_ne_nil (fun c => !isAlnum c) title)
  refine ⟨first, parts, hparts, ?_⟩
  rw [titleParts, List.splitOnP_cons_eq_if_modifyHead, if_neg (by simp [h]), hparts]
  rfl

theorem isAlnum_of_isSlugChar {c : Char} (h : isSlugChar c = true) : isAlnum c = true := by
  rw [isSlugChar, Bool.or_eq_true] at h
  rw [isAlnum]
  rcases h with h | h <;> simp [h]

theorem lowerChar_of_isSlugChar {c : Char} (h : isSlugChar c = true) : lowerChar c = c := by
  have hle : ∀ a b : Char, (decide (a ≤ b)) = true → a.toNat ≤ b.toNat :=
    fun a b hab => of_decide_eq_true hab
  rw [lowerChar, if_neg]
  intro hcapital
  rw [Bool.and_eq_true] at hcapital
  have hlow : 65 ≤ c.toNat := hle _ _ hcapital.1
  have hhigh : c.toNat ≤ 90 := hle _ _ hcapital.2
  rw [isSlugChar, Bool.or_eq_true, Bool.and_eq_true, Bool.and_eq_true] at h
  rcases h with ⟨hletter, -⟩ | ⟨-, hdigit⟩
  · have : 97 ≤ c.toNat := hle _ _ hletter
    omega
  · have : c.toNat ≤ 57 := hle _ _ hdigit
    omega

theorem isSlugChar_lowerChar {c : Char} (h : isAlnum c = true) :
    isSlugChar (lowerChar c) = true := by
  have hcapitals : ∀ n < 26, isSlugChar (Char.ofNat (65 + n + 32)) = true := by decide
  rw [lowerChar]
  split
  · rename_i hcapital
    rw [Bool.and_eq_true, decide_eq_true_eq, decide_eq_true_eq] at hcapital
    have hlow : 65 ≤ c.toNat := hcapital.1
    have hhigh : c.toNat ≤ 90 := hcapital.2
    have hletter := hcapitals (c.toNat - 65) (by omega)
    rwa [show 65 + (c.toNat - 65) + 32 = c.toNat + 32 by omega] at hletter
  · rename_i hother
    rw [isAlnum, Bool.or_eq_true, Bool.or_eq_true] at h
    rw [isSlugChar, Bool.or_eq_true]
    rcases h with (h | h) | h
    · exact .inl h
    · exact absurd h hother
    · exact .inr h

theorem IsSlugWord.hyphen_not_mem {w : List Char} (h : IsSlugWord w) : '-' ∉ w :=
  fun hmem => absurd (h.2 _ hmem) (by decide)

/-- No part has a character that separates parts. -/
theorem isAlnum_of_mem_titleParts {title part : List Char} {c : Char}
    (hpart : part ∈ titleParts title) (hc : c ∈ part) : isAlnum c = true := by
  induction title generalizing part with
  | nil =>
    rw [titleParts, List.splitOnP_nil, List.mem_singleton] at hpart
    subst hpart
    cases hc
  | cons t title ih =>
    cases ht : isAlnum t with
    | false =>
      rw [titleParts_gap ht] at hpart
      rcases List.mem_cons.mp hpart with rfl | hmem
      · cases hc
      · exact ih hmem hc
    | true =>
      obtain ⟨first, parts, hparts, hcons⟩ := exists_titleParts ht title
      rw [hparts] at ih
      rw [hcons] at hpart
      rcases List.mem_cons.mp hpart with rfl | hmem
      · rcases List.mem_cons.mp hc with rfl | hc
        · exact ht
        · exact ih List.mem_cons_self hc
      · exact ih (List.mem_cons_of_mem _ hmem) hc

theorem isSlugWord_of_mem_titleWords {title w : List Char} (h : w ∈ titleWords title) :
    IsSlugWord w := by
  obtain ⟨part, hpart, rfl⟩ := List.mem_map.mp h
  obtain ⟨hmem, hne⟩ := List.mem_filter.mp hpart
  refine ⟨by simpa using hne, fun c hc => ?_⟩
  obtain ⟨x, hx, rfl⟩ := List.mem_map.mp hc
  exact isSlugChar_lowerChar (isAlnum_of_mem_titleParts hmem hx)

/-! ## Joining -/

theorem hyphenated_nil : hyphenated [] = [] := rfl

/-- Behind its first word a joined list has a hyphen in front of every word. -/
theorem hyphenated_cons (w : List Char) (words : List (List Char)) :
    hyphenated (w :: words) = w ++ words.flatMap ('-' :: ·) :=
  intercalate_cons '-' w words

/-- The scan behind a kept character, where it is in the first part, and behind a separator. -/
theorem slugChars_started (title : List Char) :
    (∀ first parts, titleParts title = first :: parts →
      slugChars true false title =
        first.map lowerChar ++ (keptWords parts).flatMap ('-' :: ·)) ∧
    slugChars true true title = (titleWords title).flatMap ('-' :: ·) := by
  induction title with
  | nil =>
    refine ⟨fun first parts h => ?_, rfl⟩
    obtain ⟨rfl, rfl⟩ := List.cons.inj (List.splitOnP_nil.symm.trans h)
    rfl
  | cons c title ih =>
    -- A kept character joins the first part; a separator starts the next one.
    cases hc : isAlnum c with
    | true =>
      obtain ⟨first, parts, hparts, hcons⟩ := exists_titleParts hc title
      have hword := ih.1 first parts hparts
      refine ⟨fun first' parts' h => ?_, ?_⟩
      · obtain ⟨rfl, rfl⟩ := List.cons.inj (hcons.symm.trans h)
        simp [slugChars, hc, hword]
      · simp [slugChars, hc, hword, titleWords, hcons]
    | false =>
      have hcons := titleParts_gap hc title
      have hgap := ih.2
      refine ⟨fun first' parts' h => ?_, ?_⟩
      · obtain ⟨rfl, rfl⟩ := List.cons.inj (hcons.symm.trans h)
        simp [slugChars, hc, hgap, titleWords]
      · simp [slugChars, hc, hgap, titleWords, hcons]

/-- The whole scan joins the words of the title. -/
theorem slugChars_eq (pending : Bool) (title : List Char) :
    slugChars false pending title = hyphenated (titleWords title) := by
  induction title generalizing pending with
  | nil => rfl
  | cons c title ih =>
    cases hc : isAlnum c with
    | true =>
      obtain ⟨first, parts, hparts, hcons⟩ := exists_titleParts hc title
      rw [titleWords, hcons, keptWords_cons_cons, hyphenated_cons]
      simp [slugChars, hc, (slugChars_started title).1 first parts hparts]
    | false =>
      rw [titleWords_gap hc, ← ih true]
      simp [slugChars, hc]

/-! ## Cutting -/

/-- What is cut off a list of words, each with its hyphen in front: words again, and behind them
the hyphen of a word that is cut off as a whole. -/
theorem exists_take_flatMap {words : List (List Char)} (h : ∀ w ∈ words, IsSlugWord w) (n : Nat) :
    ∃ kept : List (List Char), (∀ w ∈ kept, IsSlugWord w) ∧
      ((words.flatMap ('-' :: ·)).take n = kept.flatMap ('-' :: ·) ∨
        (words.flatMap ('-' :: ·)).take n = kept.flatMap ('-' :: ·) ++ ['-']) := by
  induction words generalizing n with
  | nil => exact ⟨[], by simp, .inl (by simp)⟩
  | cons v words ih =>
    obtain ⟨hv, hwords⟩ := List.forall_mem_cons.mp h
    have hkeep : ∀ k, k ≠ 0 → IsSlugWord (v.take k) := fun k hk =>
      ⟨by simp [List.take_eq_nil_iff, hk, hv.1], fun c hc => hv.2 c (List.mem_of_mem_take hc)⟩
    rw [List.flatMap_cons, List.cons_append]
    match n with
    | 0 => exact ⟨[], by simp, .inl rfl⟩
    | 1 => exact ⟨[], by simp, .inr rfl⟩
    | k + 2 =>
      rw [List.take_succ_cons, List.take_append]
      -- The cut goes through this word, or through a later one.
      rcases Nat.le_total (k + 1) v.length with hle | hle
      · refine ⟨[v.take (k + 1)], by simpa using hkeep (k + 1) (by omega), .inl ?_⟩
        simp [Nat.sub_eq_zero_of_le hle]
      · obtain ⟨kept, hkept, hcut⟩ := ih hwords (k + 1 - v.length)
        refine ⟨v :: kept, List.forall_mem_cons.mpr ⟨hv, hkept⟩, ?_⟩
        rw [List.take_of_length_le hle, List.flatMap_cons, List.cons_append]
        rcases hcut with hcut | hcut
        · exact .inl (by rw [hcut])
        · exact .inr (by rw [hcut, List.cons_append, List.append_assoc])

/-- A joined list of words that is cut is one again, or has the hyphen behind its last word. -/
theorem exists_take_hyphenated {words : List (List Char)} (h : ∀ w ∈ words, IsSlugWord w)
    (n : Nat) :
    ∃ kept, (∀ w ∈ kept, IsSlugWord w) ∧
      ((hyphenated words).take n = hyphenated kept ∨
        kept ≠ [] ∧ (hyphenated words).take n = hyphenated kept ++ ['-']) := by
  cases words with
  | nil => exact ⟨[], by simp, .inl (by simp [hyphenated_nil])⟩
  | cons w words =>
    obtain ⟨hw, hwords⟩ := List.forall_mem_cons.mp h
    rw [hyphenated_cons, List.take_append]
    rcases Nat.le_total n w.length with hle | hle
    · have htail : ∀ tail : List Char, tail.take (n - w.length) = [] := by
        simp [Nat.sub_eq_zero_of_le hle]
      rw [htail, List.append_nil]
      cases n with
      | zero => exact ⟨[], by simp, .inl rfl⟩
      | succ k =>
        refine ⟨[w.take (k + 1)], ?_, .inl (by simp [hyphenated_cons])⟩
        rw [List.forall_mem_singleton]
        exact ⟨by simp [List.take_eq_nil_iff, hw.1], fun c hc => hw.2 c (List.mem_of_mem_take hc)⟩
    · obtain ⟨kept, hkept, hcut⟩ := exists_take_flatMap hwords (n - w.length)
      refine ⟨w :: kept, List.forall_mem_cons.mpr ⟨hw, hkept⟩, ?_⟩
      rw [List.take_of_length_le hle, hyphenated_cons]
      rcases hcut with hcut | hcut
      · exact .inl (by rw [hcut])
      · exact .inr ⟨List.cons_ne_nil _ _, by rw [hcut, List.append_assoc]⟩

/-- Joined words do not end in a hyphen. -/
theorem getLast?_hyphenated_ne {words : List (List Char)} (h : ∀ w ∈ words, IsSlugWord w) :
    (hyphenated words).getLast? ≠ some '-' := by
  intro hlast
  obtain ⟨w, hw, hmem⟩ := exists_mem_of_getLast?_intercalate (fun w hw => (h w hw).1) hlast
  exact (h w hw).hyphen_not_mem hmem

/-! ## The words of a slug -/

theorem titleWords_nil : titleWords [] = [] := rfl

theorem keptWords_word_cons {w : List Char} (h : IsSlugWord w) (parts : List (List Char)) :
    keptWords (w :: parts) = w :: keptWords parts := by
  obtain ⟨c, cs, rfl⟩ := List.exists_cons_of_ne_nil h.1
  have hlower : (c :: cs).map lowerChar = (c :: cs).map id :=
    List.map_congr_left fun x hx => lowerChar_of_isSlugChar (h.2 x hx)
  rw [keptWords_cons_cons, ← List.map_cons, hlower, List.map_id]

theorem titleWords_word {w : List Char} (h : IsSlugWord w) : titleWords w = [w] := by
  rw [titleWords, titleParts, List.splitOnP_eq_singleton, keptWords_word_cons h]
  · rfl
  · exact fun c hc => by simp [isAlnum_of_isSlugChar (h.2 c hc)]

theorem titleWords_word_hyphen {w : List Char} (h : IsSlugWord w) (rest : List Char) :
    titleWords (w ++ '-' :: rest) = w :: titleWords rest := by
  rw [titleWords, titleParts, List.splitOnP_append_cons_of_forall_mem, keptWords_word_cons h]
  · rfl
  · exact fun c hc => by simp [isAlnum_of_isSlugChar (h.2 c hc)]
  · decide

/-- Joined words are taken apart into these words, also when a hyphen is left behind them. -/
theorem titleWords_hyphenated {words : List (List Char)} (h : ∀ w ∈ words, IsSlugWord w) :
    titleWords (hyphenated words) = words ∧
      (words ≠ [] → titleWords (hyphenated words ++ ['-']) = words) := by
  cases words with
  | nil => exact ⟨rfl, fun hne => absurd rfl hne⟩
  | cons w words =>
    induction words generalizing w with
    | nil =>
      have hw := h w List.mem_cons_self
      simp [hyphenated_cons, titleWords_word hw, titleWords_word_hyphen hw, titleWords_nil]
    | cons v words ih =>
      obtain ⟨hw, hrest⟩ := List.forall_mem_cons.mp h
      obtain ⟨hplain, hleft⟩ := ih v hrest
      have hjoin : ∀ tail, hyphenated (w :: v :: words) ++ tail =
          w ++ '-' :: (hyphenated (v :: words) ++ tail) := by
        simp [hyphenated_cons]
      constructor
      · have hjoin := hjoin []
        rw [List.append_nil, List.append_nil] at hjoin
        rw [hjoin, titleWords_word_hyphen hw, hplain]
      · intro _
        rw [hjoin, titleWords_word_hyphen hw, hleft (List.cons_ne_nil _ _)]

/-! ## Slugs -/

/-- The slug of a title before the cut. -/
def uncutSlug (title : String) : List Char :=
  hyphenated (titleWords title.toList)

/-- Whether the last character before the cut is a hyphen. -/
def CutAtHyphen (title : String) : Prop :=
  (uncutSlug title)[slugLimit - 1]? = some '-'

instance (title : String) : Decidable (CutAtHyphen title) :=
  inferInstanceAs (Decidable (_ = _))

theorem toList_slug (title : String) :
    (slug title).toList = (uncutSlug title).take slugLimit := by
  rw [slug, String.toList_ofList, slugChars_eq]
  rfl

theorem length_slug_le (title : String) : (slug title).toList.length ≤ slugLimit := by
  rw [toList_slug]
  exact List.length_take_le ..

/-- The slug ends in a hyphen just when the cut falls behind one. -/
theorem getLast?_slug_eq_iff (title : String) :
    (slug title).toList.getLast? = some '-' ↔ CutAtHyphen title := by
  have hend : (uncutSlug title).getLast? ≠ some '-' :=
    getLast?_hyphenated_ne fun _ hw => isSlugWord_of_mem_titleWords hw
  rw [toList_slug, List.getLast?_take, if_neg (by decide), CutAtHyphen]
  cases (uncutSlug title)[slugLimit - 1]? with
  | none => simpa using hend
  | some c => rfl

/-- A slug is words with one hyphen between them, which its own slug consists of, and behind them
the hyphen at which the title was cut. -/
theorem exists_words_slug (title : String) :
    ∃ kept, (∀ w ∈ kept, IsSlugWord w) ∧ (slug (slug title)).toList = hyphenated kept ∧
      (slug title).toList = hyphenated kept ++ (if CutAtHyphen title then ['-'] else []) ∧
      (CutAtHyphen title → kept ≠ []) := by
  have hwords : ∀ w ∈ titleWords title.toList, IsSlugWord w :=
    fun _ hw => isSlugWord_of_mem_titleWords hw
  -- A word that is cut remains a word, so at most a hyphen is left over.
  obtain ⟨kept, hkept, hslug⟩ := exists_take_hyphenated hwords slugLimit
  rw [← uncutSlug, ← toList_slug] at hslug
  have hlength := length_slug_le title
  have hshort : (hyphenated kept).length ≤ slugLimit := by
    rcases hslug with hslug | ⟨-, hslug⟩ <;> rw [hslug] at hlength
    · exact hlength
    · rw [List.length_append] at hlength
      omega
  have hagain : titleWords (slug title).toList = kept := by
    obtain ⟨hplain, hleft⟩ := titleWords_hyphenated hkept
    rcases hslug with hslug | ⟨hne, hslug⟩ <;> rw [hslug]
    · exact hplain
    · exact hleft hne
  refine ⟨kept, hkept, ?_, ?_, ?_⟩
  · rw [toList_slug, uncutSlug, hagain, List.take_of_length_le hshort]
  · rcases hslug with hslug | ⟨-, hslug⟩
    · have hcut : ¬ CutAtHyphen title := by
        rw [← getLast?_slug_eq_iff, hslug]
        exact getLast?_hyphenated_ne hkept
      rw [if_neg hcut, List.append_nil, hslug]
    · have hcut : CutAtHyphen title := by
        rw [← getLast?_slug_eq_iff, hslug, List.getLast?_concat]
      rw [if_pos hcut, hslug]
  · rcases hslug with hslug | ⟨hne, -⟩
    · intro hcut
      rw [← getLast?_slug_eq_iff, hslug] at hcut
      exact absurd hcut (getLast?_hyphenated_ne hkept)
    · exact fun _ => hne

theorem isSlug_slug_slug (title : String) : IsSlug (slug (slug title)) := by
  obtain ⟨kept, hkept, hslug, -⟩ := exists_words_slug title
  exact ⟨kept, hkept, hslug⟩

/-- What the cut leaves behind the last word is lost in the slug of the slug. -/
theorem slug_eq_append (title : String) :
    slug title = slug (slug title) ++ (if CutAtHyphen title then "-" else "") := by
  obtain ⟨kept, -, hagain, hslug, -⟩ := exists_words_slug title
  apply String.toList_injective
  rw [hslug, String.toList_append, hagain]
  split <;> rfl

theorem isSlug_slug_iff (title : String) : IsSlug (slug title) ↔ ¬ CutAtHyphen title := by
  constructor
  · rintro ⟨words, hwords, heq⟩
    rw [← getLast?_slug_eq_iff, heq]
    exact getLast?_hyphenated_ne hwords
  · intro hcut
    have heq := slug_eq_append title
    rw [if_neg hcut, String.append_empty] at heq
    rw [heq]
    exact isSlug_slug_slug title

theorem slug_slug_eq_iff (title : String) :
    slug (slug title) = slug title ↔ ¬ CutAtHyphen title := by
  constructor
  · intro heq
    rw [← isSlug_slug_iff, ← heq]
    exact isSlug_slug_slug title
  · intro hcut
    have heq := slug_eq_append title
    rw [if_neg hcut, String.append_empty] at heq
    exact heq.symm

theorem titleWords_eq_nil_iff (title : List Char) :
    titleWords title = [] ↔ ∀ c ∈ title, isAlnum c = false := by
  induction title with
  | nil => simp [titleWords_nil]
  | cons c title ih =>
    cases hc : isAlnum c with
    | true =>
      obtain ⟨first, parts, -, hcons⟩ := exists_titleParts hc title
      simp [titleWords, hcons, hc]
    | false =>
      rw [titleWords_gap hc, ih, List.forall_mem_cons, and_iff_right hc]

/-- The slug is empty just when the title has no ASCII letters and digits. -/
theorem slug_eq_empty_iff (title : String) :
    slug title = "" ↔ ∀ c ∈ title.toList, isAlnum c = false := by
  rw [← String.toList_eq_nil_iff, toList_slug, ← titleWords_eq_nil_iff, List.take_eq_nil_iff,
    or_iff_right (by decide), uncutSlug]
  cases hwords : titleWords title.toList with
  | nil => simp [hyphenated_nil]
  | cons w words =>
    have hw : IsSlugWord w := isSlugWord_of_mem_titleWords (hwords ▸ List.mem_cons_self)
    simp [hyphenated_cons, hw.1]

end Courseware.Text
