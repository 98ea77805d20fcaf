import Courseware.Page.Block
import Courseware.Proofs.Tags

/-!
# Tags in capitals

A capital gets a hyphen before it unless it comes first or there is a hyphen already, also when it
stands behind another capital. So a word in capitals is spelled out letter by letter: the tag `MCQ`
is normalised to `m-c-q`, and no tag without small letters stands for a known kind of content.
-/

namespace Courseware

open Text (isBlank isSlugChar lowerChar trimList hyphenated IsSlugWord)

/-! ## Words in capitals -/

/-- The small ASCII letters. -/
def isSmall (c : Char) : Bool := 'a' ≤ c && c ≤ 'z'

/-- A word with all its letters as capitals. -/
def capitals (w : List Char) : List Char := w.map Char.toUpper

/-- A tag of some words with a separator between them. -/
def joinedTag (sep : Char) (ws : List (List Char)) : String :=
  String.ofList ([sep].intercalate ws)

/-- A character behind another one of its word, with a hyphen before a letter. -/
def spelledLetter (c : Char) : List Char := if isSmall c then ['-', c] else [c]

/-- A word with a hyphen before every letter but the one that it starts with. -/
def spelledOut : List Char → List Char
  | [] => []
  | c :: cs => c :: cs.flatMap spelledLetter

theorem isSmall_iff {c : Char} : isSmall c = true ↔ 97 ≤ c.toNat ∧ c.toNat ≤ 122 := by
  rw [isSmall, Bool.and_eq_true, decide_eq_true_eq, decide_eq_true_eq]
  rfl

theorem toUpper_of_not_isSmall {c : Char} (h : isSmall c = false) : c.toUpper = c := by
  have hrange : ¬ ('a' ≤ c ∧ c ≤ 'z') := fun hsmall =>
    Bool.false_ne_true (h.symm.trans (isSmall_iff.mpr hsmall))
  exact dif_neg hrange

theorem tagChar_toUpper {c : Char} (h : isSlugChar c = true) :
    isCapital c.toUpper = isSmall c ∧ tagChar c.toUpper = c := by
  cases hsmall : isSmall c with
  | true =>
    obtain ⟨hcapital, hlower⟩ := isCapital_toUpper (isSmall_iff.mp hsmall)
    exact ⟨hcapital, (tagChar_of_isCapital hcapital).trans hlower⟩
  | false =>
    rw [toUpper_of_not_isSmall hsmall]
    exact ⟨not_isCapital_of_isSlugChar h, tagChar_of_isSlugChar h⟩

/-! ## The scan -/

/-- Inside a word every capital gets a hyphen. -/
theorem plainTagFrom_capitals {cs : List Char} (h : ∀ c ∈ cs, isSlugChar c = true)
    (rest : List Char) :
    plainTagFrom false false (capitals cs ++ rest) =
      cs.flatMap spelledLetter ++ plainTagFrom false false rest := by
  induction cs with
  | nil => rfl
  | cons c cs ih =>
    obtain ⟨hc, hcs⟩ := List.forall_mem_cons.mp h
    obtain ⟨hcapital, hchar⟩ := tagChar_toUpper hc
    rw [capitals, List.map_cons, List.cons_append, plainTagFrom_cons, hcapital, hchar,
      ne_hyphen_of_isSlugChar hc, ← capitals, ih hcs, List.flatMap_cons, spelledLetter]
    cases isSmall c <;> rfl

/-- What is scanned as some text in front of any rest, at the start or behind a hyphen. -/
def ScannedAs (given scanned : List Char) : Prop :=
  ∀ first hyphen rest, (first || hyphen) = true →
    plainTagFrom first hyphen (given ++ rest) = scanned ++ plainTagFrom false false rest

theorem scannedAs_self {w : List Char} (h : IsSlugWord w) : ScannedAs w w :=
  fun first hyphen rest _ => plainTagFrom_slugWord first hyphen h rest

theorem scannedAs_capitals {w : List Char} (h : IsSlugWord w) :
    ScannedAs (capitals w) (spelledOut w) := by
  intro first hyphen rest hstart
  obtain ⟨c, cs, rfl⟩ := List.exists_cons_of_ne_nil h.1
  obtain ⟨hc, hcs⟩ := List.forall_mem_cons.mp h.2
  rw [capitals, List.map_cons, List.cons_append, plainTagFrom_cons, hstart, Bool.not_true,
    Bool.and_false, (tagChar_toUpper hc).2, ne_hyphen_of_isSlugChar hc, ← capitals,
    plainTagFrom_capitals hcs, spelledOut]
  rfl

/-- Words that are scanned one by one are scanned with hyphens between them. -/
theorem plainTagFrom_joined {sep : Char} (hsep : sep ∈ ['-', '_', ' '])
    (given scanned : List Char → List Char) {ws : List (List Char)}
    (h : ∀ w ∈ ws, ScannedAs (given w) (scanned w)) :
    plainTagFrom true false ([sep].intercalate (ws.map given)) =
      hyphenated (ws.map scanned) := by
  have hseparator : isCapital sep = false ∧ tagChar sep = '-' := by
    revert sep
    decide
  -- Behind a word the scan is neither at the start nor behind a hyphen, and it comes to the
  -- next word behind the separator.
  have hbehind (ws : List (List Char)) (h : ∀ w ∈ ws, ScannedAs (given w) (scanned w)) :
      plainTagFrom false false ((ws.map given).flatMap (sep :: ·)) =
        (ws.map scanned).flatMap ('-' :: ·) := by
    induction ws with
    | nil => rfl
    | cons w ws ih =>
      obtain ⟨hw, hws⟩ := List.forall_mem_cons.mp h
      rw [List.map_cons, List.map_cons, List.flatMap_cons, List.flatMap_cons, List.cons_append,
        plainTagFrom_cons, hseparator.1, hseparator.2, hw _ _ _ rfl, ih hws]
      rfl
  cases ws with
  | nil => rfl
  | cons w ws =>
    obtain ⟨hw, hws⟩ := List.forall_mem_cons.mp h
    rw [List.map_cons, List.map_cons, Text.intercalate_cons, Text.hyphenated_cons,
      hw _ _ _ rfl, hbehind ws hws]

theorem trimList_joined {sep : Char} {ws : List (List Char)} (hne : ∀ w ∈ ws, w ≠ [])
    (h : ∀ w ∈ ws, ∀ c ∈ w, isBlank c = false) :
    trimList isBlank ([sep].intercalate ws) = [sep].intercalate ws := by
  rw [Text.trimList_eq_self_iff]
  constructor
  · intro c hc
    obtain ⟨w, hw, hcw⟩ := Text.exists_mem_of_head?_intercalate hne hc
    exact h w hw c hcw
  · intro c hc
    obtain ⟨w, hw, hcw⟩ := Text.exists_mem_of_getLast?_intercalate hne hc
    exact h w hw c hcw

theorem isBlank_toUpper {c : Char} (h : isSlugChar c = true) : isBlank c.toUpper = false := by
  cases hsmall : isSmall c with
  | true =>
    exact isBlank_of_isAlnum (isAlnum_of_isCapital (isCapital_toUpper (isSmall_iff.mp hsmall)).1)
  | false =>
    rw [toUpper_of_not_isSmall hsmall]
    exact isBlank_of_isAlnum (Text.isAlnum_of_isSlugChar h)

/-- The normal form of a tag of words that are given in some form. -/
theorem plainTag_joinedTag {sep : Char} (hsep : sep ∈ ['-', '_', ' '])
    (given scanned : List Char → List Char) {ws : List (List Char)}
    (h : ∀ w ∈ ws, ScannedAs (given w) (scanned w))
    (hne : ∀ w ∈ ws, given w ≠ []) (hblank : ∀ w ∈ ws, ∀ c ∈ given w, isBlank c = false) :
    plainTag (joinedTag sep (ws.map given)) = String.ofList (hyphenated (ws.map scanned)) := by
  rw [plainTag, joinedTag, String.toList_ofList, trimList_joined,
    plainTagFrom_joined hsep given scanned h]
  · exact List.forall_mem_map.mpr hne
  · exact List.forall_mem_map.mpr hblank

/-- Words in small letters keep their spelling. -/
theorem plainTag_small {sep : Char} (hsep : sep ∈ ['-', '_', ' ']) {ws : List (List Char)}
    (hws : ∀ w ∈ ws, IsSlugWord w) :
    plainTag (joinedTag sep ws) = String.ofList (hyphenated ws) := by
  have hplain := plainTag_joinedTag hsep id id (fun w hw => scannedAs_self (hws w hw))
    (fun w hw => (hws w hw).1)
    fun w hw c hc => isBlank_of_isAlnum (Text.isAlnum_of_isSlugChar ((hws w hw).2 c hc))
  rwa [List.map_id] at hplain

/-- Words in capitals are spelled out. -/
theorem plainTag_capitals {sep : Char} (hsep : sep ∈ ['-', '_', ' ']) {ws : List (List Char)}
    (hws : ∀ w ∈ ws, IsSlugWord w) :
    plainTag (joinedTag sep (ws.map capitals)) =
      String.ofList (hyphenated (ws.map spelledOut)) := by
  refine plainTag_joinedTag hsep capitals spelledOut (fun w hw => scannedAs_capitals (hws w hw))
    (fun w hw => List.map_eq_nil_iff.not.mpr (hws w hw).1) fun w hw c hc => ?_
  obtain ⟨x, hx, rfl⟩ := List.mem_map.mp hc
  exact isBlank_toUpper ((hws w hw).2 x hx)

/-! ## When nothing is spelled out -/

theorem flatMap_spelledLetter_eq_self {cs : List Char} (h : ∀ c ∈ cs, isSmall c = false) :
    cs.flatMap spelledLetter = cs := by
  induction cs with
  | nil => rfl
  | cons c cs ih =>
    obtain ⟨hc, hcs⟩ := List.forall_mem_cons.mp h
    rw [List.flatMap_cons, spelledLetter, hc, ih hcs]
    rfl

theorem spelledOut_eq_self {w : List Char} (h : ∀ c ∈ w.tail, isSmall c = false) :
    spelledOut w = w := by
  cases w with
  | nil => rfl
  | cons c cs =>
    rw [List.tail_cons] at h
    rw [spelledOut, flatMap_spelledLetter_eq_self h]

theorem hyphen_mem_spelledOut {w : List Char} {c : Char} (hc : c ∈ w.tail)
    (hsmall : isSmall c = true) : '-' ∈ spelledOut w := by
  cases w with
  | nil => cases hc
  | cons x cs =>
    refine List.mem_cons_of_mem _ (List.mem_flatMap.mpr ⟨c, hc, ?_⟩)
    rw [spelledLetter, if_pos hsmall]
    exact List.mem_cons_self

/-- Joined words have their own hyphens and those between them. -/
theorem count_hyphenated_cons (w : List Char) (ws : List (List Char)) :
    (hyphenated (w :: ws)).count '-' = (w :: ws).flatten.count '-' + ws.length := by
  rw [Text.hyphenated_cons, List.flatten_cons, List.count_append, List.count_append,
    Nat.add_assoc, Nat.add_left_cancel_iff]
  induction ws with
  | nil => rfl
  | cons v ws ih =>
    rw [List.flatMap_cons, List.count_append, ih, List.count_cons_self, List.flatten_cons,
      List.count_append, List.length_cons]
    omega

/-- Words are spelled as they are only if no letter stands inside them. -/
theorem hyphenated_spelledOut_iff {ws : List (List Char)} (hws : ∀ w ∈ ws, IsSlugWord w) :
    hyphenated (ws.map spelledOut) = hyphenated ws ↔
      ∀ w ∈ ws, ∀ c ∈ w.tail, isSmall c = false := by
  constructor
  · intro heq w hw c hc
    -- There are as many words on both sides, so no word has got a hyphen.
    have hnone : '-' ∉ (ws.map spelledOut).flatten := by
      obtain ⟨v, vs, rfl⟩ := List.exists_cons_of_ne_nil (List.ne_nil_of_mem hw)
      have hplain : '-' ∉ (v :: vs).flatten := by
        rw [List.mem_flatten]
        rintro ⟨x, hx, hhyphen⟩
        exact (hws x hx).hyphen_not_mem hhyphen
      have hsame := congrArg (List.count '-') heq
      rw [List.map_cons, count_hyphenated_cons, count_hyphenated_cons,
        List.count_eq_zero.mpr hplain, List.length_map] at hsame
      rw [← List.count_eq_zero, List.map_cons]
      omega
    cases hsmall : isSmall c with
    | false => rfl
    | true =>
      have hhyphen := hyphen_mem_spelledOut hc hsmall
      exact absurd (List.mem_flatten.mpr ⟨_, List.mem_map_of_mem hw, hhyphen⟩) hnone
  · intro h
    rw [List.map_congr_left fun w hw => spelledOut_eq_self (h w hw), List.map_id']

/-! ## Letters stand apart -/

/-- Whether not both of two characters are small letters. -/
def LettersApart (a b : Char) : Prop := ¬ (isSmall a = true ∧ isSmall b = true)

instance : DecidableRel LettersApart := fun a b =>
  inferInstanceAs (Decidable (¬ (isSmall a = true ∧ isSmall b = true)))

theorem isCapital_of_isSmall_tagChar {c : Char} (h : isSmall c = false)
    (hsmall : isSmall (tagChar c) = true) : isCapital c = true := by
  by_contra hcapital
  rw [Bool.not_eq_true] at hcapital
  rw [tagChar] at hsmall
  split at hsmall
  · cases hsmall
  · rw [lowerChar_of_not_isCapital hcapital, h] at hsmall
    cases hsmall

/-- Without small letters in the tag, what is written has no two small letters side by side, and
it starts with one only where a capital needs no hyphen. -/
theorem isChain_lettersApart_plainTagFrom {cs : List Char} (h : ∀ c ∈ cs, isSmall c = false)
    (first hyphen : Bool) :
    (plainTagFrom first hyphen cs).IsChain LettersApart ∧
      ((first || hyphen) = false →
        ∀ c ∈ (plainTagFrom first hyphen cs).head?, isSmall c = false) := by
  induction cs generalizing first hyphen with
  | nil => exact ⟨List.isChain_nil, fun _ c hc => nomatch hc⟩
  | cons c cs ih =>
    obtain ⟨hc, hcs⟩ := List.forall_mem_cons.mp h
    obtain ⟨hchain, hhead⟩ := ih hcs false (tagChar c == '-')
    have hrest : (tagChar c :: plainTagFrom false (tagChar c == '-') cs).IsChain LettersApart := by
      rw [List.isChain_cons]
      refine ⟨fun x hx hboth => ?_, hchain⟩
      -- Behind a letter a capital is written with a hyphen in front of it.
      have hletter : (tagChar c == '-') = false := by
        rw [beq_eq_false_iff_ne]
        intro heq
        rw [heq] at hboth
        exact absurd hboth.1 (by decide)
      rw [hhead hletter x hx] at hboth
      cases hboth.2
    rw [plainTagFrom_cons]
    split
    · rw [List.singleton_append, List.isChain_cons]
      refine ⟨⟨fun x _ hboth => absurd hboth.1 (by decide), hrest⟩, fun _ x hx => ?_⟩
      rw [← Option.some.inj hx]
      rfl
    · rename_i hplain
      refine ⟨hrest, fun hinside x hx => ?_⟩
      rw [List.nil_append, List.head?_cons, Option.mem_some] at hx
      rw [hinside, Bool.not_false, Bool.and_true] at hplain
      by_contra hsmall
      rw [Bool.not_eq_false, ← hx] at hsmall
      exact hplain (isCapital_of_isSmall_tagChar hc hsmall)

theorem isChain_lettersApart_plainTag {tag : String} (h : ∀ c ∈ tag.toList, isSmall c = false) :
    (plainTag tag).toList.IsChain LettersApart := by
  have htrimmed : ∀ c ∈ trimList isBlank tag.toList, isSmall c = false :=
    fun c hc => h c ((Text.isInfix_trimList _ _).subset hc)
  rw [toList_plainTag]
  exact (isChain_lettersApart_plainTagFrom htrimmed true false).1

/-- Every known tag has small letters side by side, so a tag without small letters is not known. -/
theorem Content.ofPayload_of_no_small {tag : String} (h : ∀ c ∈ tag.toList, isSmall c = false)
    (p : Payload) : ofPayload tag p = unknown tag p := by
  have hchain := isChain_lettersApart_plainTag h
  simp only [ofPayload]
  split
  all_goals first
    | rfl
    | (rename_i htag
       rw [htag] at hchain
       exact absurd hchain (by decide))

theorem isSmall_toUpper (c : Char) : isSmall c.toUpper = false := by
  by_contra hsmall
  rw [Bool.not_eq_false] at hsmall
  cases hletter : isSmall c with
  | true =>
    have hcapital := isCapital_iff.mp (isCapital_toUpper (isSmall_iff.mp hletter)).1
    have hrange := isSmall_iff.mp hsmall
    omega
  | false =>
    rw [toUpper_of_not_isSmall hletter, hletter] at hsmall
    cases hsmall

theorem isSmall_of_mem_capitals {sep : Char} (hsep : sep ∈ ['-', '_', ' '])
    (ws : List (List Char)) :
    ∀ c ∈ (joinedTag sep (ws.map capitals)).toList, isSmall c = false := by
  have hseparator : isSmall sep = false := by
    revert sep
    decide
  intro c hc
  rw [joinedTag, String.toList_ofList] at hc
  rcases Text.eq_or_exists_mem_of_mem_intercalate hc with rfl | ⟨w, hw, hcw⟩
  · exact hseparator
  · obtain ⟨v, -, rfl⟩ := List.mem_map.mp hw
    obtain ⟨x, -, rfl⟩ := List.mem_map.mp hcw
    exact isSmall_toUpper x

/-- A tag of words in small letters is normalised to the words with hyphens between them. In
capitals each word is spelled out instead, so the two tags have the same normal form only if no word
has a letter behind its first character, and whatever the words are, content with the tag in
capitals is of no known kind and shown as a placeholder. -/
theorem Content.ofPayload_capitals {sep : Char} (hsep : sep ∈ ['-', '_', ' '])
    {ws : List (List Char)} (hws : ∀ w ∈ ws, IsSlugWord w) :
    plainTag (joinedTag sep ws) = String.ofList (hyphenated ws) ∧
      plainTag (joinedTag sep (ws.map capitals)) =
        String.ofList (hyphenated (ws.map spelledOut)) ∧
      (plainTag (joinedTag sep (ws.map capitals)) = plainTag (joinedTag sep ws) ↔
        ∀ w ∈ ws, ∀ c ∈ w.tail, isSmall c = false) ∧
      ∀ p, ofPayload (joinedTag sep (ws.map capitals)) p =
          unknown (joinedTag sep (ws.map capitals)) p ∧
        ∀ format id, Page.content format id (ofPayload (joinedTag sep (ws.map capitals)) p) =
          Page.placeholder ("[" ++ joinedTag sep (ws.map capitals) ++ " content]") := by
  have hsmall := plainTag_small hsep hws
  have hcapitals := plainTag_capitals hsep hws
  refine ⟨hsmall, hcapitals, ?_, fun p => ?_⟩
  · rw [hsmall, hcapitals, String.ofList_inj, hyphenated_spelledOut_iff hws]
  · have hunknown := ofPayload_of_no_small (isSmall_of_mem_capitals hsep ws) p
    refine ⟨hunknown, fun format id => ?_⟩
    rw [hunknown, Page.content]

/-- The words of a tag for questions whose answers are typed. -/
def typedWords : List (List Char) := [['f', 'i', 'l', 'l'], ['i', 'n'], ['b', 'l', 'a', 'n', 'k']]

theorem Content.ofPayload_capitals_typed :
    '_' ∈ ['-', '_', ' '] ∧ (∀ w ∈ typedWords, IsSlugWord w) ∧
      plainTag "fill_in_blank" = "fill-in-blank" ∧
      plainTag "FILL_IN_BLANK" = "f-i-l-l-i-n-b-l-a-n-k" ∧
      ofPayload "FILL_IN_BLANK" [("answer", .string "Ferris")] =
        unknown "FILL_IN_BLANK" [("answer", .string "Ferris")] := by
  have hsep : '_' ∈ ['-', '_', ' '] := by decide
  have hws : ∀ w ∈ typedWords, IsSlugWord w := by
    simp only [IsSlugWord]
    decide
  have hsmall : joinedTag '_' typedWords = "fill_in_blank" := by decide +kernel
  have hcapitals : joinedTag '_' (typedWords.map capitals) = "FILL_IN_BLANK" := by decide +kernel
  obtain ⟨hplain, hspelled, -, hcontent⟩ := ofPayload_capitals hsep hws
  rw [hsmall] at hplain
  rw [hcapitals] at hspelled hcontent
  exact ⟨hsep, hws, hplain.trans (by decide +kernel), hspelled.trans (by decide +kernel),
    (hcontent _).1⟩

/-- Two spellings of one tag, the first in capitals, with different normal forms and contents. -/
theorem Content.ofPayload_mcq :
    joinedTag '_' [capitals ['m', 'c', 'q']] = "MCQ" ∧ joinedTag '_' [['m', 'c', 'q']] = "mcq" ∧
      plainTag "MCQ" ≠ plainTag "mcq" ∧ ofPayload "MCQ" [] = unknown "MCQ" [] ∧
      ofPayload "mcq" [] = multipleChoice (.ofPayload []) := by
  have hcapitals : plainTag "MCQ" = "m-c-q" := by decide +kernel
  have hsmall : plainTag "mcq" = "mcq" := by decide +kernel
  refine ⟨by decide +kernel, by decide +kernel, ?_, ?_, ?_⟩
  · rw [hcapitals, hsmall]
    decide
  · exact ofPayload_of_no_small (by decide +kernel) []
  · simp only [ofPayload, hsmall]

end Courseware
