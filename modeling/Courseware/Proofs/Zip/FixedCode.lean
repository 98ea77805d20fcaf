import Courseware.Proofs.Zip.BitStream

/-!
# The fixed code

Every symbol is read back from its word in the fixed code, whatever follows:
literals, the end of a block, and copies with their lengths and distances.
-/

namespace Courseware.Zip

namespace PrefixCode

/-- Finds the place of a code word among the symbols. The arguments are those
of `readWord`. -/
def wordPlace (word first index : Nat) :
    List Nat → List Bool → Option (Nat × List Bool)
  | count :: counts, b :: bits =>
    let word := 2 * word + b.toNat
    let first := 2 * first
    if word < first + count then some (index + (word - first), bits)
    else wordPlace word (first + count) (index + count) counts bits
  | _, _ => none

/-- Reading a word is finding its place and looking the symbol up. -/
theorem readWord_eq_wordPlace (symbols : Array Nat)
    (word first index : Nat) (counts : List Nat) (bits : List Bool) :
    readWord symbols word first index counts bits =
      (wordPlace word first index counts bits).bind fun p =>
        (symbols[p.1]?).map (·, p.2) := by
  induction counts generalizing word first index bits with
  | nil => simp [readWord, wordPlace]
  | cons count counts ih =>
    cases bits with
    | nil => simp [readWord, wordPlace]
    | cons b bits =>
      simp only [readWord, wordPlace]
      split
      · rfl
      · exact ih _ _ _ _

/-- What follows a word does not change its place. -/
theorem wordPlace_append {word first index place : Nat} {counts : List Nat}
    {bits left : List Bool} (rest : List Bool)
    (h : wordPlace word first index counts bits = some (place, left)) :
    wordPlace word first index counts (bits ++ rest) =
      some (place, left ++ rest) := by
  induction counts generalizing word first index bits with
  | nil => simp [wordPlace] at h
  | cons count counts ih =>
    cases bits with
    | nil => simp [wordPlace] at h
    | cons b bits =>
      simp only [wordPlace, List.cons_append] at h ⊢
      split at h
      · rename_i hlt
        simp only [Option.some.injEq, Prod.mk.injEq] at h
        rw [if_pos hlt, h.1, h.2]
      · rename_i hnlt
        rw [if_neg hnlt]
        exact ih h

end PrefixCode

/-! ## Words -/

/-- The place of a symbol among those of the fixed code, whose words have
seven, eight and nine bits. -/
def fixedPlace (symbol : Nat) : Nat :=
  if symbol < 144 then 24 + symbol
  else if symbol < 256 then 32 + symbol
  else if symbol < 280 then symbol - 256
  else symbol - 112

/-- The words of the fixed code are counted, put in order and found. -/
theorem fixedLengths_eq :
    fixedLengths.counts = [0, 0, 0, 0, 0, 0, 24, 152, 112, 0, 0, 0, 0, 0, 0] ∧
      fixedLengths.symbols.toList =
        List.range' 256 24 ++ List.range' 0 144 ++ List.range' 280 8 ++
          List.range' 144 112 ∧
      ∀ symbol < 288,
        PrefixCode.wordPlace 0 0 0 [0, 0, 0, 0, 0, 0, 24, 152, 112, 0, 0, 0, 0, 0, 0]
          (fixedWord symbol) = some (fixedPlace symbol, []) := by
  decide +kernel

theorem getElem?_fixedPlace {symbol : Nat} (h : symbol < 288) :
    fixedLengths.symbols[fixedPlace symbol]? = some symbol := by
  rw [← Array.getElem?_toList, fixedLengths_eq.2.1, fixedPlace]
  split
  · rw [List.getElem?_append_left (by simp; omega),
      List.getElem?_append_left (by simp; omega),
      List.getElem?_append_right (by simp), List.getElem?_range' (by simp; omega)]
    simp
  · split
    · rw [List.getElem?_append_right (by simp; omega),
        List.getElem?_range' (by simp; omega)]
      simp
      omega
    · split
      · rw [List.getElem?_append_left (by simp; omega),
          List.getElem?_append_left (by simp; omega),
          List.getElem?_append_left (by simp; omega), List.getElem?_range' (by omega)]
        simp
        omega
      · rw [List.getElem?_append_left (by simp; omega),
          List.getElem?_append_right (by simp; omega),
          List.getElem?_range' (by simp; omega)]
        simp
        omega

theorem read_fixedWord {symbol : Nat} (h : symbol < 288) (rest : List Bool) :
    fixedLengths.read (fixedWord symbol ++ rest) = some (symbol, rest) := by
  obtain ⟨hcounts, -, hwords⟩ := fixedLengths_eq
  have hplace := PrefixCode.wordPlace_append rest (hwords symbol h)
  rw [PrefixCode.read, PrefixCode.readWord_eq_wordPlace, hcounts, hplace]
  simp [getElem?_fixedPlace h]

theorem fixedDistances_eq :
    fixedDistances.counts = [0, 0, 0, 0, 32, 0, 0, 0, 0, 0, 0, 0, 0, 0, 0] ∧
      fixedDistances.symbols.toList = List.range' 0 32 ∧
      ∀ code < 32,
        PrefixCode.wordPlace 0 0 0 [0, 0, 0, 0, 32, 0, 0, 0, 0, 0, 0, 0, 0, 0, 0]
          (codeWord 5 code) = some (code, []) := by
  decide +kernel

theorem read_distanceWord {code : Nat} (h : code < 32) (rest : List Bool) :
    fixedDistances.read (codeWord 5 code ++ rest) = some (code, rest) := by
  obtain ⟨hcounts, hsymbols, hwords⟩ := fixedDistances_eq
  have hplace := PrefixCode.wordPlace_append rest (hwords code h)
  have hsymbol : fixedDistances.symbols[code]? = some code := by
    rw [← Array.getElem?_toList, hsymbols]
    simp [List.getElem?_range' h]
  rw [PrefixCode.read, PrefixCode.readWord_eq_wordPlace, hcounts, hplace]
  simp [hsymbol]

/-! ## Lengths and distances -/

/-- Whether the values from the first code on and below `limit` are covered:
each code reaches up to the least value of the next one. -/
def covers (limit : Nat) : List (Nat × Nat) → Bool
  | [] => true
  | [c] => limit ≤ c.1 + 2 ^ c.2
  | c :: d :: rest =>
    (c.1 < d.1 && d.1 ≤ c.1 + 2 ^ c.2) && covers limit (d :: rest)

/-- The choice that `codeFor` makes between what it has found and a code. -/
def laterCode (value : Nat) (best : Nat × Nat × Nat) (e : (Nat × Nat) × Nat) :
    Nat × Nat × Nat :=
  if e.1.1 ≤ value then (e.2, e.1) else best

theorem lt_of_covers {limit : Nat} {c : Nat × Nat} {rest : List (Nat × Nat)}
    (h : covers limit (c :: rest) = true) : ∀ d ∈ rest, c.1 < d.1 := by
  induction rest generalizing c with
  | nil => simp
  | cons d rest ih =>
    simp only [covers, Bool.and_eq_true, decide_eq_true_eq] at h
    intro x hx
    rcases List.mem_cons.mp hx with rfl | hx
    · exact h.1.1
    · exact Nat.lt_trans h.1.1 (ih h.2 x hx)

/-- Codes that start beyond a value are not chosen for it. -/
theorem foldl_laterCode_of_lt {value start : Nat} {best : Nat × Nat × Nat}
    {codes : List (Nat × Nat)} (h : ∀ c ∈ codes, value < c.1) :
    (codes.zipIdx start).foldl (laterCode value) best = best := by
  induction codes generalizing start with
  | nil => rfl
  | cons c codes ih =>
    have hc : ¬ c.1 ≤ value := Nat.not_le.mpr (h c List.mem_cons_self)
    simp only [List.zipIdx_cons, List.foldl_cons, laterCode, if_neg hc]
    exact ih fun d hd => h d (List.mem_cons_of_mem _ hd)

/-- Of codes that cover a value, the one that is chosen starts at most at the
value and reaches it. -/
theorem foldl_laterCode {limit value : Nat} {rest : List (Nat × Nat)}
    (start : Nat) (c : Nat × Nat) (hcovers : covers limit (c :: rest) = true)
    (hle : c.1 ≤ value) (hlt : value < limit) :
    ∃ place d,
      (rest.zipIdx (start + 1)).foldl (laterCode value) (start, c) =
          (start + place, d) ∧
        (c :: rest)[place]? = some d ∧ d.1 ≤ value ∧ value < d.1 + 2 ^ d.2 := by
  induction rest generalizing start c with
  | nil =>
    simp only [covers, decide_eq_true_eq] at hcovers
    exact ⟨0, c, rfl, rfl, hle, Nat.lt_of_lt_of_le hlt hcovers⟩
  | cons d rest ih =>
    have hlater := lt_of_covers hcovers
    simp only [covers, Bool.and_eq_true, decide_eq_true_eq] at hcovers
    obtain ⟨⟨-, hreach⟩, hrest⟩ := hcovers
    -- Codes are ordered by their least value, so the first that is too great ends the search.
    by_cases hd : d.1 ≤ value
    · obtain ⟨place, found, hfold, hplace, hfound⟩ := ih (start + 1) d hrest hd
      refine ⟨place + 1, found, ?_, hplace, hfound⟩
      simp only [List.zipIdx_cons, List.foldl_cons, laterCode, if_pos hd]
      simp only [Nat.add_assoc, Nat.add_comm 1 place] at hfold ⊢
      exact hfold
    · have hbeyond : ∀ x ∈ d :: rest, value < x.1 := by
        intro x hx
        rcases List.mem_cons.mp hx with rfl | hx
        · exact Nat.not_le.mp hd
        · exact Nat.lt_trans (Nat.not_le.mp hd) (lt_of_covers hrest x hx)
      exact ⟨0, c, foldl_laterCode_of_lt hbeyond, rfl, hle, by omega⟩

/-- The code for a value that is covered, and what is left to write of it. -/
theorem codeFor_spec (limit : Nat) (c : Nat × Nat) (rest : List (Nat × Nat))
    {value : Nat} (hcovers : covers limit (c :: rest) = true) (hle : c.1 ≤ value)
    (hlt : value < limit) :
    ∃ place base extra,
      codeFor (c :: rest) value = (place, base, extra) ∧
        (c :: rest)[place]? = some (base, extra) ∧
        base ≤ value ∧ value - base < 2 ^ extra := by
  obtain ⟨place, ⟨base, extra⟩, hfold, hplace, hbase, hreach⟩ :=
    foldl_laterCode 0 c hcovers hle hlt
  refine ⟨place, base, extra, ?_, hplace, hbase, by simp only at hreach hbase; omega⟩
  simp only [Nat.zero_add] at hfold
  simp only [codeFor, List.zipIdx_cons, List.foldl_cons, if_pos hle]
  exact hfold

theorem readValue_append {codes : List (Nat × Nat)} {place base extra value : Nat}
    (hplace : codes[place]? = some (base, extra)) (hbase : base ≤ value)
    (hextra : value - base < 2 ^ extra) (rest : List Bool) :
    readValue codes place (bitsOfNat extra (value - base) ++ rest) =
      some (value, rest) := by
  have hvalue : base + (value - base) = value := by omega
  simp [readValue, hplace, takeBits_bitsOfNat hextra, hvalue]

/-! ## Symbols -/

/-- Whether the format can write a symbol. -/
def Symbol.Writable : Symbol → Prop
  | literal _ => True
  | copy length distance =>
    3 ≤ length ∧ length ≤ longestCopy ∧ 1 ≤ distance ∧ distance ≤ farthestCopy

theorem readSymbol_literal (b : UInt8) (rest : List Bool) :
    readSymbol fixedLengths fixedDistances ((Symbol.literal b).bits ++ rest) =
      some (some (.literal b), rest) := by
  have hlt : b.toNat < 256 := b.toNat_lt
  simp [readSymbol, Symbol.bits, read_fixedWord (Nat.lt_trans hlt (by decide)),
    endOfBlock, hlt]

theorem readSymbol_copy {length distance : Nat}
    (h : (Symbol.copy length distance).Writable) (rest : List Bool) :
    readSymbol fixedLengths fixedDistances
        ((Symbol.copy length distance).bits ++ rest) =
      some (some (.copy length distance), rest) := by
  obtain ⟨hlow, hhigh, hnear, hfar⟩ := h
  have hlength : length < 259 := by simp only [longestCopy] at hhigh; omega
  have hdistance : distance < 32769 := by simp only [farthestCopy] at hfar; omega
  obtain ⟨l, lengthBase, lengthExtra, hl, hlplace, hlbase, hlextra⟩ :=
    codeFor_spec 259 (3, 0) lengthCodes.tail (by decide) hlow hlength
  obtain ⟨d, distanceBase, distanceExtra, hd, hdplace, hdbase, hdextra⟩ :=
    codeFor_spec 32769 (1, 0) distanceCodes.tail (by decide) hnear hdistance
  have hlcount : l < 29 := (List.getElem?_eq_some_iff.mp hlplace).1
  have hdcount : d < 30 := (List.getElem?_eq_some_iff.mp hdplace).1
  have hwide : ¬ 257 + l < endOfBlock := by simp only [endOfBlock]; omega
  have hopen : ¬ 257 + l = endOfBlock := by simp only [endOfBlock]; omega
  have hcode : 257 + l - 257 = l := by omega
  have hlcodes : (3, 0) :: lengthCodes.tail = lengthCodes := rfl
  have hdcodes : (1, 0) :: distanceCodes.tail = distanceCodes := rfl
  rw [hlcodes] at hl hlplace
  rw [hdcodes] at hd hdplace
  simp only [Symbol.bits, hl, hd, List.append_assoc, readSymbol]
  rw [read_fixedWord (by omega)]
  simp only [bind, Option.bind, if_neg hwide, if_neg hopen, hcode]
  rw [readValue_append hlplace hlbase hlextra]
  simp only
  rw [read_distanceWord (by omega)]
  simp only
  rw [readValue_append hdplace hdbase hdextra]
  rfl

/-- A symbol is read back from its bits. -/
theorem readSymbol_bits {s : Symbol} (h : s.Writable) (rest : List Bool) :
    readSymbol fixedLengths fixedDistances (s.bits ++ rest) = some (some s, rest) := by
  cases s with
  | literal b => exact readSymbol_literal b rest
  | copy length distance => exact readSymbol_copy h rest

/-- The end of a block is read back from its word. -/
theorem readSymbol_endOfBlock (rest : List Bool) :
    readSymbol fixedLengths fixedDistances (fixedWord endOfBlock ++ rest) =
      some (none, rest) := by
  have hread : fixedLengths.read (fixedWord endOfBlock ++ rest) = some (endOfBlock, rest) :=
    read_fixedWord (by decide) rest
  simp only [readSymbol, hread, bind, Option.bind]
  rfl

end Courseware.Zip
