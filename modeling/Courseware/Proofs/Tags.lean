import Courseware.Course.Block
import Courseware.Proofs.Markup.Runs
import Courseware.Proofs.Text.Slug
import Mathlib.Data.List.TakeWhile

/-!
# Spellings of tags

The words of a tag may be joined by hyphens, underscores or spaces, or run together where capitals
start new words. All of these are normalised to the words with one hyphen between them, so the kind
of a block does not depend on how its tag is spelled. A tag that has been normalised stays as it is.
-/

namespace Courseware

open Text (isAlnum isBlank isSlugChar lowerChar trimList hyphenated IsSlugWord)

/-! ## One character -/

/-- The ASCII capitals. -/
def isCapital (c : Char) : Bool := 'A' ≤ c && c ≤ 'Z'

/-- What is written for a character of a tag. -/
def tagChar (c : Char) : Char :=
  if c = '_' ∨ c = ' ' then '-' else lowerChar c

theorem isCapital_iff {c : Char} : isCapital c = true ↔ 65 ≤ c.toNat ∧ c.toNat ≤ 90 := by
  rw [isCapital, Bool.and_eq_true, decide_eq_true_eq, decide_eq_true_eq]
  rfl

theorem lowerChar_of_not_isCapital {c : Char} (h : isCapital c = false) : lowerChar c = c := by
  rw [isCapital] at h
  rw [lowerChar, h, if_neg Bool.false_ne_true]

theorem isAlnum_of_isCapital {c : Char} (h : isCapital c = true) : isAlnum c = true := by
  rw [isCapital] at h
  rw [isAlnum, h, Bool.or_true, Bool.true_or]

theorem isBlank_of_isAlnum {c : Char} (h : isAlnum c = true) : isBlank c = false := by
  have hrange := Text.isSegmentChar_range (c := c) (by rw [Text.isSegmentChar, h]; rfl)
  simp only [isBlank, Bool.or_eq_false_iff, Bool.and_eq_false_iff, decide_eq_false_iff_not,
    beq_eq_false_iff_ne]
  omega

theorem isSlugChar_lowerChar_of_isCapital {c : Char} (h : isCapital c = true) :
    isSlugChar (lowerChar c) = true :=
  Text.isSlugChar_lowerChar (isAlnum_of_isCapital h)

theorem not_isCapital_of_isSlugChar {c : Char} (h : isSlugChar c = true) :
    isCapital c = false := by
  by_contra hcapital
  have hrange := isCapital_iff.mp (Bool.not_eq_false _ ▸ hcapital)
  rw [isSlugChar, Bool.or_eq_true, Bool.and_eq_true, Bool.and_eq_true, decide_eq_true_eq,
    decide_eq_true_eq, decide_eq_true_eq, decide_eq_true_eq] at h
  rcases h with ⟨hletter, -⟩ | ⟨-, hdigit⟩
  · have : 97 ≤ c.toNat := hletter
    omega
  · have : c.toNat ≤ 57 := hdigit
    omega

theorem tagChar_of_isSlugChar {c : Char} (h : isSlugChar c = true) : tagChar c = c := by
  rw [tagChar, if_neg, Text.lowerChar_of_isSlugChar h]
  rintro (rfl | rfl) <;> exact absurd h (by decide)

theorem tagChar_of_isCapital {c : Char} (h : isCapital c = true) : tagChar c = lowerChar c := by
  rw [tagChar, if_neg]
  rintro (rfl | rfl) <;> exact absurd h (by decide)

theorem ne_hyphen_of_isSlugChar {c : Char} (h : isSlugChar c = true) : (c == '-') = false := by
  rw [beq_eq_false_iff_ne]
  rintro rfl
  exact absurd h (by decide)

/-- A small letter is the lower-case form of its capital. -/
theorem isCapital_toUpper {c : Char} (h : 'a' ≤ c ∧ c ≤ 'z') :
    isCapital c.toUpper = true ∧ lowerChar c.toUpper = c := by
  have hletters : ∀ n < 26, isCapital (Char.ofNat (97 + n)).toUpper = true ∧
      lowerChar (Char.ofNat (97 + n)).toUpper = Char.ofNat (97 + n) := by decide
  have hlow : 97 ≤ c.toNat := h.1
  have hhigh : c.toNat ≤ 122 := h.2
  have hletter := hletters (c.toNat - 97) (by omega)
  rwa [show 97 + (c.toNat - 97) = c.toNat by omega, Char.ofNat_toNat] at hletter

theorem tagChar_tagChar (c : Char) : tagChar (tagChar c) = tagChar c := by
  by_cases hgap : c = '_' ∨ c = ' '
  · rw [tagChar, tagChar, if_pos hgap]
    decide
  · cases hcapital : isCapital c with
    | true =>
      rw [tagChar_of_isCapital hcapital,
        tagChar_of_isSlugChar (isSlugChar_lowerChar_of_isCapital hcapital)]
    | false =>
      have hself : tagChar c = c := by
        rw [tagChar, if_neg hgap, lowerChar_of_not_isCapital hcapital]
      rw [hself, hself]

theorem not_isCapital_of_tagChar_eq {c : Char} (h : tagChar c = c) : isCapital c = false := by
  by_contra hcapital
  have htrue : isCapital c = true := Bool.not_eq_false _ ▸ hcapital
  have hslug := isSlugChar_lowerChar_of_isCapital htrue
  rw [← tagChar_of_isCapital htrue, h] at hslug
  rw [not_isCapital_of_isSlugChar hslug] at htrue
  cases htrue

theorem isBlank_tagChar {c : Char} (h : isBlank c = false) : isBlank (tagChar c) = false := by
  by_cases hgap : c = '_' ∨ c = ' '
  · rw [tagChar, if_pos hgap]
    decide
  · cases hcapital : isCapital c with
    | true =>
      rw [tagChar_of_isCapital hcapital]
      exact isBlank_of_isAlnum
        (Text.isAlnum_of_isSlugChar (isSlugChar_lowerChar_of_isCapital hcapital))
    | false => rwa [tagChar, if_neg hgap, lowerChar_of_not_isCapital hcapital]

/-! ## The scan -/

/-- One step of the scan: a character is written behind the hyphen that a capital inside needs,
and what the scan remembers of the text before is whether the last character is a hyphen. -/
theorem plainTagFrom_cons (first hyphen : Bool) (c : Char) (cs : List Char) :
    plainTagFrom first hyphen (c :: cs) =
      (if isCapital c && !(first || hyphen) then ['-'] else []) ++
        tagChar c :: plainTagFrom false (tagChar c == '-') cs := by
  by_cases hgap : c = '_' ∨ c = ' '
  · have hcapital : isCapital c = false := by rcases hgap with rfl | rfl <;> rfl
    rw [plainTagFrom, if_pos hgap, tagChar, if_pos hgap, hcapital]
    rfl
  · cases hcapital : isCapital c with
    | true =>
      have hrange : 'A' ≤ c ∧ c ≤ 'Z' := isCapital_iff.mp hcapital
      have hletter := ne_hyphen_of_isSlugChar (isSlugChar_lowerChar_of_isCapital hcapital)
      rw [plainTagFrom, if_neg hgap, if_pos hrange, tagChar_of_isCapital hcapital, hletter]
      cases first <;> cases hyphen <;> rfl
    | false =>
      have hrange : ¬ ('A' ≤ c ∧ c ≤ 'Z') := fun h => by
        rw [isCapital_iff.mpr h] at hcapital
        cases hcapital
      rw [plainTagFrom, if_neg hgap, if_neg hrange, tagChar, if_neg hgap,
        lowerChar_of_not_isCapital hcapital]
      rfl

theorem tagChar_of_mem_plainTagFrom {first hyphen : Bool} {cs : List Char} {c : Char}
    (h : c ∈ plainTagFrom first hyphen cs) : tagChar c = c := by
  induction cs generalizing first hyphen with
  | nil => cases h
  | cons x cs ih =>
    rw [plainTagFrom_cons] at h
    rcases List.mem_append.mp h with h | h
    · split at h
      · rw [List.mem_singleton.mp h]
        decide
      · cases h
    · rcases List.mem_cons.mp h with rfl | h
      · exact tagChar_tagChar x
      · exact ih h

theorem plainTagFrom_eq_self {first hyphen : Bool} {cs : List Char}
    (h : ∀ c ∈ cs, tagChar c = c) : plainTagFrom first hyphen cs = cs := by
  induction cs generalizing first hyphen with
  | nil => rfl
  | cons c cs ih =>
    obtain ⟨hc, hcs⟩ := List.forall_mem_cons.mp h
    rw [plainTagFrom_cons, not_isCapital_of_tagChar_eq hc, hc, ih hcs]
    rfl

theorem head?_plainTagFrom (hyphen : Bool) (cs : List Char) :
    (plainTagFrom true hyphen cs).head? = cs.head?.map tagChar := by
  cases cs with
  | nil => rfl
  | cons c cs =>
    rw [plainTagFrom_cons, Bool.true_or, Bool.not_true, Bool.and_false]
    rfl

theorem getLast?_plainTagFrom (first hyphen : Bool) (cs : List Char) :
    (plainTagFrom first hyphen cs).getLast? = cs.getLast?.map tagChar := by
  induction cs generalizing first hyphen with
  | nil => rfl
  | cons c cs ih =>
    rw [plainTagFrom_cons, List.getLast?_append_cons, List.getLast?_cons, List.getLast?_cons, ih,
      Option.map_some]
    cases cs.getLast? <;> rfl

theorem plainTagFrom_append {cs : List Char} (h : ∀ c ∈ cs, isSlugChar c = true)
    (rest : List Char) :
    plainTagFrom false false (cs ++ rest) = cs ++ plainTagFrom false false rest := by
  induction cs with
  | nil => rfl
  | cons c cs ih =>
    obtain ⟨hc, hcs⟩ := List.forall_mem_cons.mp h
    rw [List.cons_append, plainTagFrom_cons, not_isCapital_of_isSlugChar hc,
      tagChar_of_isSlugChar hc, ne_hyphen_of_isSlugChar hc, ih hcs]
    rfl

/-- A word in small letters is written as it is. -/
theorem plainTagFrom_slugWord (first hyphen : Bool) {w : List Char} (h : IsSlugWord w)
    (rest : List Char) :
    plainTagFrom first hyphen (w ++ rest) = w ++ plainTagFrom false false rest := by
  obtain ⟨c, cs, rfl⟩ := List.exists_cons_of_ne_nil h.1
  obtain ⟨hc, hcs⟩ := List.forall_mem_cons.mp h.2
  rw [List.cons_append, plainTagFrom_cons, not_isCapital_of_isSlugChar hc,
    tagChar_of_isSlugChar hc, ne_hyphen_of_isSlugChar hc, plainTagFrom_append hcs]
  rfl

/-! ## Trimming -/

section Trimming

variable {p : Char → Bool}

theorem of_mem_head?_dropWhile {c : Char} {cs : List Char} (h : c ∈ (cs.dropWhile p).head?) :
    p c = false := by
  have hnot := List.head?_dropWhile_not p cs
  rw [Option.mem_def.mp h] at hnot
  exact hnot

theorem trimList_trimList (cs : List Char) : trimList p (trimList p cs) = trimList p cs := by
  rw [Text.trimList_eq_self_iff]
  constructor
  · intro c hc
    -- The list starts with what is left when its front has been dropped.
    have hprefix : trimList p cs <+: cs.dropWhile p := by
      rw [← List.reverse_suffix, trimList, List.reverse_reverse]
      exact List.dropWhile_suffix p
    obtain ⟨rest, hrest⟩ := hprefix
    have hhead : c ∈ (cs.dropWhile p).head? := by
      rw [← hrest, List.head?_append]
      exact Option.or_eq_some_iff.mpr (.inl hc)
    exact of_mem_head?_dropWhile hhead
  · intro c hc
    rw [trimList, List.getLast?_reverse] at hc
    exact of_mem_head?_dropWhile hc

theorem trimList_around {before after : List Char} (hbefore : ∀ c ∈ before, p c = true)
    (hafter : ∀ c ∈ after, p c = true) (cs : List Char) :
    trimList p (before ++ cs ++ after) = trimList p cs := by
  have hall : after.reverse.dropWhile p = [] :=
    List.dropWhile_eq_nil_iff.mpr fun c hc => hafter c (List.mem_reverse.mp hc)
  rw [trimList, trimList, List.append_assoc, List.dropWhile_append_of_pos hbefore,
    List.dropWhile_append]
  split
  · rename_i hempty
    rw [List.isEmpty_iff.mp hempty, List.dropWhile_eq_nil_iff.mpr hafter]
  · rw [List.reverse_append, List.dropWhile_append, hall]
    rfl

end Trimming

/-! ## Tags that are normalised twice -/

theorem toList_plainTag (tag : String) :
    (plainTag tag).toList = plainTagFrom true false (trimList isBlank tag.toList) :=
  String.toList_ofList

theorem trimList_plainTag (tag : String) :
    trimList isBlank (plainTag tag).toList = (plainTag tag).toList := by
  have htrim := trimList_trimList (p := isBlank) tag.toList
  rw [Text.trimList_eq_self_iff] at htrim
  rw [Text.trimList_eq_self_iff, toList_plainTag, head?_plainTagFrom, getLast?_plainTagFrom]
  constructor
  · intro c hc
    obtain ⟨x, hx, rfl⟩ := Option.map_eq_some_iff.mp hc
    exact isBlank_tagChar (htrim.1 x hx)
  · intro c hc
    obtain ⟨x, hx, rfl⟩ := Option.map_eq_some_iff.mp hc
    exact isBlank_tagChar (htrim.2 x hx)

/-- A tag that has been normalised stays as it is. -/
theorem plainTag_plainTag (tag : String) : plainTag (plainTag tag) = plainTag tag := by
  rw [plainTag, trimList_plainTag, plainTagFrom_eq_self, String.ofList_toList]
  intro c hc
  rw [toList_plainTag] at hc
  exact tagChar_of_mem_plainTagFrom hc

/-! ## Words -/

/-- A word of a tag: small letters and digits, the first of which is a letter. -/
structure TagWord where
  first : Char
  rest : List Char
  first_small : 'a' ≤ first ∧ first ≤ 'z'
  rest_plain : ∀ c ∈ rest, isSlugChar c = true

namespace TagWord

def toList (w : TagWord) : List Char := w.first :: w.rest

/-- The word with a capital. -/
def capitalized (w : TagWord) : List Char := w.first.toUpper :: w.rest

variable (w : TagWord)

theorem isSlugChar_first : isSlugChar w.first = true := by
  rw [isSlugChar, decide_eq_true w.first_small.1, decide_eq_true w.first_small.2]
  rfl

theorem isSlugChar_of_mem {c : Char} (h : c ∈ w.toList) : isSlugChar c = true := by
  rcases List.mem_cons.mp h with rfl | h
  · exact w.isSlugChar_first
  · exact w.rest_plain c h

theorem isSlugWord_toList : IsSlugWord w.toList :=
  ⟨List.cons_ne_nil _ _, fun _ hc => w.isSlugChar_of_mem hc⟩

theorem lowerChar_toUpper :
    isCapital w.first.toUpper = true ∧ lowerChar w.first.toUpper = w.first :=
  isCapital_toUpper w.first_small

theorem isBlank_of_mem_capitalized {c : Char} (h : c ∈ w.capitalized) : isBlank c = false := by
  refine isBlank_of_isAlnum ?_
  rcases List.mem_cons.mp h with rfl | h
  · exact isAlnum_of_isCapital w.lowerChar_toUpper.1
  · exact Text.isAlnum_of_isSlugChar (w.rest_plain c h)

theorem isBlank_of_mem {c : Char} (h : c ∈ w.toList) : isBlank c = false :=
  isBlank_of_isAlnum (Text.isAlnum_of_isSlugChar (w.isSlugChar_of_mem h))

end TagWord

/-! ## Spellings -/

/-- How the words of a tag are put together. -/
inductive Spelling
  | kebab
  | snake
  | spaced
  | camel
  | pascal
  deriving DecidableEq, Repr

namespace Spelling

open TagWord (toList capitalized)

/-- The tag that is spelled with some words. -/
def chars : Spelling → List TagWord → List Char
  | kebab, ws => hyphenated (ws.map toList)
  | snake, ws => ['_'].intercalate (ws.map toList)
  | spaced, ws => [' '].intercalate (ws.map toList)
  | camel, [] => []
  | camel, w :: ws => w.toList ++ ws.flatMap capitalized
  | pascal, ws => ws.flatMap capitalized

def tag (s : Spelling) (ws : List TagWord) : String := String.ofList (s.chars ws)

/-- What stands for the first word. -/
def start : Spelling → TagWord → List Char
  | pascal, w => w.capitalized
  | _, w => w.toList

/-- What stands for a word behind another one. -/
def next : Spelling → TagWord → List Char
  | kebab, w => '-' :: w.toList
  | snake, w => '_' :: w.toList
  | spaced, w => ' ' :: w.toList
  | camel, w => w.capitalized
  | pascal, w => w.capitalized

theorem intercalate_cons_eq (sep : Char) (w : TagWord) (ws : List TagWord) :
    [sep].intercalate ((w :: ws).map toList) = w.toList ++ ws.flatMap (sep :: ·.toList) := by
  rw [List.map_cons, Text.intercalate_cons, List.flatMap_map]

theorem chars_cons (s : Spelling) (w : TagWord) (ws : List TagWord) :
    s.chars (w :: ws) = s.start w ++ ws.flatMap s.next := by
  cases s with
  | kebab => exact intercalate_cons_eq '-' w ws
  | snake => exact intercalate_cons_eq '_' w ws
  | spaced => exact intercalate_cons_eq ' ' w ws
  | camel => rfl
  | pascal => rfl

/-! ## Normalising -/

variable (first hyphen : Bool) (w : TagWord) (rest : List Char)

theorem plainTagFrom_word :
    plainTagFrom first hyphen (w.toList ++ rest) =
      w.toList ++ plainTagFrom false false rest :=
  plainTagFrom_slugWord first hyphen w.isSlugWord_toList rest

/-- The capital of a word becomes its small letter, behind a hyphen unless it comes first or there
is a hyphen already. -/
theorem plainTagFrom_capitalized :
    plainTagFrom first hyphen (w.capitalized ++ rest) =
      (if first || hyphen then [] else ['-']) ++ w.toList ++ plainTagFrom false false rest := by
  obtain ⟨hcapital, hlower⟩ := w.lowerChar_toUpper
  rw [capitalized, List.cons_append, plainTagFrom_cons, hcapital, tagChar_of_isCapital hcapital,
    hlower, ne_hyphen_of_isSlugChar w.isSlugChar_first, plainTagFrom_append w.rest_plain]
  cases first <;> cases hyphen <;> rfl

variable (s : Spelling)

theorem plainTagFrom_start :
    plainTagFrom true false (s.start w ++ rest) = w.toList ++ plainTagFrom false false rest := by
  cases s with
  | pascal => exact plainTagFrom_capitalized true false w rest
  | _ => exact plainTagFrom_word true false w rest

theorem plainTagFrom_next :
    plainTagFrom false false (s.next w ++ rest) =
      '-' :: w.toList ++ plainTagFrom false false rest := by
  have hseparator (sep : Char) (hsep : isCapital sep = false) (hyphen : tagChar sep = '-') :
      plainTagFrom false false (sep :: w.toList ++ rest) =
        '-' :: w.toList ++ plainTagFrom false false rest := by
    rw [List.cons_append, plainTagFrom_cons, hsep, hyphen, plainTagFrom_word]
    rfl
  cases s with
  | kebab => exact hseparator '-' (by decide) (by decide)
  | snake => exact hseparator '_' (by decide) (by decide)
  | spaced => exact hseparator ' ' (by decide) (by decide)
  | camel => exact plainTagFrom_capitalized false false w rest
  | pascal => exact plainTagFrom_capitalized false false w rest

theorem plainTagFrom_chars (ws : List TagWord) :
    plainTagFrom true false (s.chars ws) = kebab.chars ws := by
  -- Behind a word the scan is neither at the start nor behind a hyphen, whatever the spelling, so
  -- all further words are scanned from the same state.
  have hwords (ws : List TagWord) : plainTagFrom false false (ws.flatMap s.next) =
      ws.flatMap kebab.next := by
    induction ws with
    | nil => rfl
    | cons w ws ih =>
      rw [List.flatMap_cons, plainTagFrom_next, ih]
      rfl
  cases ws with
  | nil => cases s <;> rfl
  | cons w ws =>
    rw [chars_cons, chars_cons, plainTagFrom_start, hwords]
    rfl

/-! ## White space around a tag -/

theorem isBlank_of_mem_start {c : Char} (h : c ∈ s.start w) : isBlank c = false := by
  cases s with
  | pascal => exact w.isBlank_of_mem_capitalized h
  | _ => exact w.isBlank_of_mem h

theorem isBlank_of_mem_getLast?_next {c : Char} (h : c ∈ (s.next w).getLast?) :
    isBlank c = false := by
  have hword (hc : c ∈ w.toList.getLast?) : isBlank c = false :=
    w.isBlank_of_mem (List.mem_of_getLast? hc)
  -- A separator has a word behind it, so that a space is not at the end.
  cases s with
  | kebab => exact hword h
  | snake => exact hword h
  | spaced => exact hword h
  | camel => exact w.isBlank_of_mem_capitalized (List.mem_of_getLast? h)
  | pascal => exact w.isBlank_of_mem_capitalized (List.mem_of_getLast? h)

theorem isBlank_of_mem_getLast? {cs : List Char} (hcs : ∀ c ∈ cs.getLast?, isBlank c = false)
    (ws : List TagWord) : ∀ c ∈ (cs ++ ws.flatMap s.next).getLast?, isBlank c = false := by
  induction ws generalizing cs with
  | nil => rwa [List.flatMap_nil, List.append_nil]
  | cons w ws ih =>
    rw [List.flatMap_cons, ← List.append_assoc]
    refine ih fun c hc => ?_
    rw [List.getLast?_append] at hc
    rcases Option.or_eq_some_iff.mp hc with hc | ⟨-, hc⟩
    · exact s.isBlank_of_mem_getLast?_next w hc
    · exact hcs c hc

theorem trimList_chars (ws : List TagWord) : trimList isBlank (s.chars ws) = s.chars ws := by
  cases ws with
  | nil => cases s <;> rfl
  | cons w ws =>
    rw [Text.trimList_eq_self_iff, chars_cons]
    refine ⟨fun c hc => ?_, s.isBlank_of_mem_getLast?
      (fun c hc => s.isBlank_of_mem_start w (List.mem_of_getLast? hc)) ws⟩
    have hstart : ∃ x xs, s.start w = x :: xs := by cases s <;> exact ⟨_, _, rfl⟩
    obtain ⟨x, xs, hx⟩ := hstart
    rw [hx, List.cons_append, List.head?_cons, Option.mem_some] at hc
    exact s.isBlank_of_mem_start w (hx ▸ hc ▸ List.mem_cons_self)

end Spelling

/-- Whether a tag is spelled with some words, with any white space around it. -/
inductive Spelled (ws : List TagWord) : String → Prop
  | intro (s : Spelling) (before after : String) (hbefore : Text.blank before = true)
      (hafter : Text.blank after = true) : Spelled ws (before ++ s.tag ws ++ after)

/-- All spellings are normalised to the words with hyphens between them. -/
theorem Spelled.plainTag_eq {ws : List TagWord} {tag : String} (h : Spelled ws tag) :
    plainTag tag = Spelling.kebab.tag ws := by
  obtain ⟨s, before, after, hbefore, hafter⟩ := h
  rw [plainTag, String.toList_append, String.toList_append,
    trimList_around (List.all_eq_true.mp hbefore) (List.all_eq_true.mp hafter), Spelling.tag,
    String.toList_ofList, s.trimList_chars, s.plainTagFrom_chars]
  rfl

/-! ## Kinds of blocks -/

/-- Content depends on the tag as it is normalised, and on the tag itself only when it is not
known. -/
theorem Content.ofPayload_eq_or {tag tag' : String} (h : plainTag tag = plainTag tag')
    (p : Payload) :
    ofPayload tag p = ofPayload tag' p ∨
      ofPayload tag p = unknown tag p ∧ ofPayload tag' p = unknown tag' p := by
  simp only [ofPayload, h]
  -- Only the last case keeps the tag itself.
  split
  all_goals first | exact .inl rfl | exact .inr ⟨rfl, rfl⟩

/-- However the words of a tag are put together and whatever white space stands around them, the
tag is normalised to the words with hyphens between them. So a block of a known kind is understood
as the same content by all these tags. A tag that has been normalised stays as it is. -/
theorem Content.ofPayload_spelled (ws : List TagWord) :
    (∀ tag, Spelled ws tag → plainTag tag = Spelling.kebab.tag ws) ∧
      (∀ tag tag' p, Spelled ws tag → Spelled ws tag' →
        (ofPayload tag p).unknownTag? = none → ofPayload tag' p = ofPayload tag p) ∧
      ∀ tag, plainTag (plainTag tag) = plainTag tag := by
  refine ⟨fun tag h => h.plainTag_eq, fun tag tag' p h h' hknown => ?_, plainTag_plainTag⟩
  have hsame : plainTag tag = plainTag tag' := by rw [h.plainTag_eq, h'.plainTag_eq]
  rcases ofPayload_eq_or hsame p with heq | ⟨hunknown, -⟩
  · exact heq.symm
  · rw [hunknown] at hknown
    cases hknown

/-- The words of a tag for questions whose answers are typed, the middle one of two letters. -/
def blankWords : List TagWord :=
  [⟨'f', ['i', 'l', 'l'], by decide, by decide⟩, ⟨'i', ['n'], by decide, by decide⟩,
    ⟨'b', ['l', 'a', 'n', 'k'], by decide, by decide⟩]

theorem Content.ofPayload_spelled_blank :
    Spelled blankWords "\tfillInBlank " ∧ Spelled blankWords "fill in blank" ∧
      plainTag "\tfillInBlank " = "fill-in-blank" ∧
      (ofPayload "\tfillInBlank " [("answer", .string "Ferris")]).unknownTag? = none ∧
      ofPayload "fill in blank" [("answer", .string "Ferris")] =
        ofPayload "\tfillInBlank " [("answer", .string "Ferris")] := by
  have hcamel : Spelled blankWords "\tfillInBlank " :=
    (by decide +kernel : "\t" ++ Spelling.camel.tag blankWords ++ " " = "\tfillInBlank ") ▸
      Spelled.intro .camel "\t" " " (by decide) (by decide)
  have hspaced : Spelled blankWords "fill in blank" :=
    (by decide +kernel : "" ++ Spelling.spaced.tag blankWords ++ "" = "fill in blank") ▸
      Spelled.intro .spaced "" "" (by decide) (by decide)
  have hknown : (ofPayload "\tfillInBlank " [("answer", .string "Ferris")]).unknownTag? = none := by
    decide +kernel
  have hkebab : Spelling.kebab.tag blankWords = "fill-in-blank" := by decide +kernel
  obtain ⟨hplain, hcontent, -⟩ := ofPayload_spelled blankWords
  exact ⟨hcamel, hspaced, (hplain _ hcamel).trans hkebab, hknown,
    hcontent _ _ _ hcamel hspaced hknown⟩

end Courseware
