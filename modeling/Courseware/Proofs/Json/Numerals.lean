import Mathlib.Data.List.TakeDrop
import Mathlib.Data.List.TakeWhile
import Courseware.Proofs.Json.Reading

/-!
# Numerals are read back

Whole numbers of 64 bits and the fractions that percentages are written as are read
as they were before they were written.
-/

namespace Courseware.Json

/-! ## Digits -/

/-- Whether some digits may stand before the point of a numeral. -/
structure IsWhole (ds : List Char) : Prop where
  nonempty : ds ≠ []
  digits : ∀ c ∈ ds, isDigit c = true
  /-- No digit follows a zero in front. -/
  leading : ds.head? = some '0' → ds = ['0']

theorem isWhole_toDigits (n : Nat) : IsWhole (Nat.toDigits 10 n) where
  nonempty := Nat.toDigits_ne_nil
  digits c hc := Nat.isDigit_of_mem_toDigits (by decide) (by decide) hc
  leading := by
    induction n using Nat.strongRecOn with
    | ind n ih =>
      intro hhead
      by_cases hsmall : n < 10
      · have hall : ∀ k < 10, (Nat.toDigits 10 k).head? = some '0' →
            Nat.toDigits 10 k = ['0'] := by decide
        exact hall n hsmall hhead
      · rw [Nat.toDigits_of_base_le (by decide) (by omega)] at hhead
        have hne : Nat.toDigits 10 (n / 10) ≠ [] := Nat.toDigits_ne_nil
        obtain ⟨d, ds, hds⟩ := List.exists_cons_of_ne_nil hne
        rw [hds] at hhead
        have hzero := ih (n / 10) (by omega) (by rw [hds]; exact hhead)
        have hvalue := Nat.ofDigitChars_ten_toDigits (n := n / 10)
        rw [hzero] at hvalue
        have hpositive : Nat.ofDigitChars 10 ['0'] 0 = 0 := by decide
        omega

theorem span_digits {ds rest : List Char} (hds : ∀ c ∈ ds, isDigit c = true)
    (hrest : ∀ c ∈ rest.head?, isDigit c = false) : (ds ++ rest).span isDigit = (ds, rest) := by
  rw [List.span_eq_takeWhile_dropWhile, List.takeWhile_append_of_pos hds,
    List.dropWhile_append_of_pos hds]
  cases rest with
  | nil => simp
  | cons c cs => simp [hrest c rfl]

/-! ## Forms -/

/-- After a zero, or other digits, come the fraction and the exponent. -/
theorem readNumber_whole (negative : Bool) {ds rest : List Char} (hds : IsWhole ds)
    (hrest : ∀ c ∈ rest.head?, isDigit c = false) :
    readNumber negative (ds ++ rest) = readFraction negative ds rest := by
  obtain ⟨d, ds', rfl⟩ := List.exists_cons_of_ne_nil hds.nonempty
  by_cases hzero : d = '0'
  · subst hzero
    have hone := hds.leading rfl
    rw [hone]
    cases rest with
    | nil => rfl
    | cons c cs =>
      have hc := hrest c rfl
      simp [readNumber, hc]
  · rw [readNumber]
    · rw [span_digits hds.digits hrest]
      simp
    · intro cs heq
      exact hzero (List.cons.inj heq).1

/-- A numeral without fraction and exponent. -/
theorem readNumber_integer (negative : Bool) {ds rest : List Char} (hds : IsWhole ds)
    (hrest : Ends rest) :
    readNumber negative (ds ++ rest) =
      (.number (Numeral.value ⟨negative, ds, [], none⟩), rest) := by
  rw [readNumber_whole negative hds fun c hc => (hrest c hc).1]
  cases rest with
  | nil => rfl
  | cons c cs =>
    obtain ⟨-, hpoint, he, hE⟩ := hrest c rfl
    rw [readFraction]
    · simp [readExponent, he, hE]
    · intro cs heq
      exact hpoint (List.cons.inj heq).1

/-- A numeral with a fraction. -/
theorem readNumber_fraction (negative : Bool) {ds fs rest : List Char} (hds : IsWhole ds)
    (hne : fs ≠ []) (hfs : ∀ c ∈ fs, isDigit c = true) (hrest : Ends rest) :
    readNumber negative (ds ++ '.' :: (fs ++ rest)) =
      (.number (Numeral.value ⟨negative, ds, fs, none⟩), rest) := by
  have hpoint : ∀ c ∈ ('.' :: (fs ++ rest)).head?, isDigit c = false := by
    intro c hc
    rw [← Option.some.inj hc]
    decide
  rw [readNumber_whole negative hds hpoint, readFraction,
    span_digits hfs fun c hc => (hrest c hc).1]
  simp only [List.isEmpty_eq_false_iff.mpr hne, Bool.false_eq_true, if_false]
  cases rest with
  | nil => rfl
  | cons c cs =>
    obtain ⟨-, -, he, hE⟩ := hrest c rfl
    simp [readExponent, he, hE]

/-- A numeral is read as a value by its first digit. -/
theorem reads_numeral {ds more : List Char} {d : Draft} (hds : IsWhole ds)
    (hread : ∀ rest, Ends rest → readNumber false (ds ++ (more ++ rest)) = (d, rest)) :
    Reads (ds ++ more) d := by
  obtain ⟨c, ds', rfl⟩ := List.exists_cons_of_ne_nil hds.nonempty
  have hdigit := hds.digits c List.mem_cons_self
  have hne : ∀ x : Char, isDigit x = false → c ≠ x := by
    rintro x hx rfl
    rw [hdigit] at hx
    exact Bool.noConfusion hx
  have hspace : (c = ' ' || c = '\n' || c = '\t' || c = '\r') = false := by
    simp [hne ' ' (by decide), hne '\n' (by decide), hne '\t' (by decide),
      hne '\r' (by decide)]
  rw [List.cons_append]
  refine reads_of_first _ hspace (hne ']' (by decide)) fun fuel rest _ hrest => ?_
  rw [readValue, skipSpace_cons hspace]
  simp only [hne '"' (by decide), hne '[' (by decide), hne '\x7b' (by decide),
    hne '-' (by decide), if_false, hdigit, if_true]
  rw [← hread rest hrest, List.append_assoc, List.cons_append]

/-! ## Whole numbers -/

theorem le_ofDigitChars (ds : List Char) (value : Nat) :
    value ≤ Nat.ofDigitChars 10 ds value := by
  induction ds generalizing value with
  | nil => simp
  | cons d ds ih =>
    rw [Nat.ofDigitChars_cons]
    have hrest := ih (10 * value + (d.toNat - '0'.toNat))
    omega

theorem takeDigits_eq {ds : List Char} {value : Nat}
    (h : Nat.ofDigitChars 10 ds value < wholeLimit) :
    takeDigits value ds = (Nat.ofDigitChars 10 ds value, []) := by
  induction ds generalizing value with
  | nil => simp [takeDigits]
  | cons d ds ih =>
    have hstep : value * 10 + digitValue d = 10 * value + (d.toNat - '0'.toNat) := by
      rw [digitValue]
      have hzero : '0'.toNat = 48 := rfl
      omega
    rw [Nat.ofDigitChars_cons] at h ⊢
    have hle := le_ofDigitChars ds (10 * value + (d.toNat - '0'.toNat))
    rw [takeDigits, hstep, if_pos (by omega), ih h]

/-- Whether a number is read back from its text, which looks like no tag. -/
structure Number.Legible (n : Number) : Prop where
  read : Reads n.text.toList (.number (.ok n))
  plain : '<' ∉ n.text.toList

theorem legible_nat {n : Nat} (h : n < wholeLimit) : (Number.integer n).Legible := by
  have htext : (Number.integer n).text.toList = Nat.toDigits 10 n := by
    change (toString n).toList = _
    rw [Nat.toString_eq_ofList_toDigits, String.toList_ofList]
  have hvalue : Numeral.value ⟨false, Nat.toDigits 10 n, [], none⟩ = .ok (.integer n) := by
    have htake : takeDigits 0 (Nat.toDigits 10 n) = (n, []) := by
      rw [takeDigits_eq, Nat.ofDigitChars_ten_toDigits]
      rwa [Nat.ofDigitChars_ten_toDigits]
    simp [Numeral.value, htake]
  have hread : Reads (Nat.toDigits 10 n ++ []) (.number (.ok (.integer n))) := by
    refine reads_numeral (isWhole_toDigits n) fun rest hrest => ?_
    rw [List.nil_append, readNumber_integer false (isWhole_toDigits n) hrest, hvalue]
  rw [List.append_nil] at hread
  refine ⟨htext ▸ hread, fun hmem => ?_⟩
  rw [htext] at hmem
  exact absurd ((isWhole_toDigits n).digits '<' hmem) (by decide)

/-! ## Percentages -/

/-- Whether a text is a numeral with a fraction that stands for a number. -/
def spellsFraction (n : Number) (cs : List Char) : Bool :=
  let whole := cs.takeWhile isDigit
  let fraction := cs.drop (whole.length + 1)
  cs == whole ++ '.' :: fraction && !whole.isEmpty && !fraction.isEmpty &&
    fraction.all isDigit && (whole.head? != some '0' || whole == ['0']) &&
    match Numeral.value ⟨false, whole, fraction, none⟩ with
    | .ok m => m == n
    | .error _ => false

theorem legible_of_spellsFraction {n : Number} (h : spellsFraction n n.text.toList = true) :
    n.Legible := by
  simp only [spellsFraction, Bool.and_eq_true, beq_iff_eq, Bool.not_eq_true',
    List.isEmpty_eq_false_iff, Bool.or_eq_true, bne_iff_ne, ne_eq] at h
  obtain ⟨⟨⟨⟨⟨hsplit, hwhole⟩, hfraction⟩, hdigits⟩, hleading⟩, hvalue⟩ := h
  have hds : IsWhole (n.text.toList.takeWhile isDigit) :=
    ⟨hwhole, fun c hc => List.mem_takeWhile_imp hc,
      fun hhead => hleading.resolve_left fun hne => hne hhead⟩
  have hnumber : Numeral.value ⟨false, n.text.toList.takeWhile isDigit,
      n.text.toList.drop ((n.text.toList.takeWhile isDigit).length + 1), none⟩ = .ok n := by
    split at hvalue
    · rename_i m heq
      rw [heq, eq_of_beq hvalue]
    · cases hvalue
  have hread := reads_numeral (d := .number (.ok n)) hds fun rest hrest => by
    have hfs := readNumber_fraction false hds hfraction
      (List.all_eq_true.mp hdigits) hrest
    rw [hnumber, ← List.cons_append] at hfs
    exact hfs
  rw [← hsplit] at hread
  refine ⟨hread, fun hmem => ?_⟩
  rw [hsplit, List.mem_append, List.mem_cons] at hmem
  rcases hmem with hmem | hmem | hmem
  · exact absurd (hds.digits '<' hmem) (by decide)
  · exact absurd hmem (by decide)
  · exact absurd (List.all_eq_true.mp hdigits '<' hmem) (by decide)

/-- The score to pass with is read back. -/
theorem legible_ofPercent {percent : Nat} (h : percent ≤ 100) :
    (Number.decimal (.ofPercent percent)).Legible := by
  have hall : ∀ n < 101, spellsFraction (.decimal (.ofPercent n))
      (Number.decimal (.ofPercent n)).text.toList = true := by
    decide +kernel
  exact legible_of_spellsFraction (hall percent (Nat.lt_succ_of_le h))

end Courseware.Json
