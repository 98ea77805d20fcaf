import Courseware.Proofs.Decimal.Interval
import Courseware.Proofs.Decimal.Numeral
import Courseware.Proofs.Json.Numerals

/-!
# Numbers are written as numerals

The text of every number is a numeral: a sign that may be missing, digits without a needless zero
in front, and a fraction and an exponent that may be missing. A numeral is read up to its end and
not beyond, if not always as the number that was written. What it tells is a decimal, and the
numeral of a floating-point number tells the shortest decimal of that number.
-/

namespace Courseware.Json

open Decimal (Scientific)

/-! ## The text of a numeral -/

namespace Numeral

def fractionText (n : Numeral) : List Char :=
  if n.fraction.isEmpty then [] else '.' :: n.fraction

def exponentText (n : Numeral) : List Char :=
  match n.exponent with
  | none => []
  | some (negative, ds) => 'e' :: (if negative then '-' else '+') :: ds

def text (n : Numeral) : List Char :=
  (if n.negative then ['-'] else []) ++ (n.whole ++ (n.fractionText ++ n.exponentText))

/-- Whether a numeral obeys the grammar. -/
structure Proper (n : Numeral) : Prop where
  whole : IsWhole n.whole
  fraction : ∀ c ∈ n.fraction, isDigit c = true
  exponent : ∀ e ∈ n.exponent, e.2 ≠ [] ∧ ∀ c ∈ e.2, isDigit c = true

variable {n : Numeral} {rest : List Char}

/-- No digit goes on behind a fraction. -/
theorem isDigit_head?_exponentText (n : Numeral) (hrest : Ends rest) :
    ∀ c ∈ (n.exponentText ++ rest).head?, isDigit c = false := by
  rw [exponentText]
  split
  · exact fun c hc => (hrest c hc).1
  · intro c hc
    rw [← Option.some.inj hc]
    decide

/-- No digit goes on behind the digits before the point. -/
theorem isDigit_head?_fractionText (n : Numeral) (hrest : Ends rest) :
    ∀ c ∈ (n.fractionText ++ (n.exponentText ++ rest)).head?, isDigit c = false := by
  rw [fractionText]
  split
  · exact isDigit_head?_exponentText n hrest
  · intro c hc
    rw [← Option.some.inj hc]
    decide

/-- An exponent does not look like a fraction. -/
theorem exponentText_append_ne (n : Numeral) (hrest : Ends rest) (cs : List Char) :
    n.exponentText ++ rest ≠ '.' :: cs := by
  intro heq
  rw [exponentText] at heq
  split at heq
  · rw [List.nil_append] at heq
    subst heq
    exact (hrest '.' rfl).2.1 rfl
  · cases heq

theorem readExponent_text (h : n.Proper) (hrest : Ends rest) :
    readExponent n.negative n.whole n.fraction (n.exponentText ++ rest) =
      (.number n.value, rest) := by
  obtain ⟨negative, whole, fraction, exponent⟩ := n
  cases exponent with
  | none =>
    cases rest with
    | nil => rfl
    | cons c cs =>
      obtain ⟨-, -, he, hE⟩ := hrest c rfl
      simp [exponentText, readExponent, he, hE]
  | some e =>
    obtain ⟨minus, es⟩ := e
    obtain ⟨hne, hdigits⟩ := h.exponent (minus, es) rfl
    have hspan : (es ++ rest).span isDigit = (es, rest) :=
      span_digits hdigits fun c hc => (hrest c hc).1
    have hmark : (decide ('e' = 'e') || decide ('e' = 'E')) = true := by decide
    cases minus with
    | false =>
      change readExponent negative whole fraction ('e' :: '+' :: (es ++ rest)) = _
      rw [readExponent, if_pos hmark]
      simp only [hspan, List.isEmpty_eq_false_iff.mpr hne, Bool.false_eq_true, if_false]
    | true =>
      change readExponent negative whole fraction ('e' :: '-' :: (es ++ rest)) = _
      rw [readExponent, if_pos hmark]
      simp only [hspan, List.isEmpty_eq_false_iff.mpr hne, Bool.false_eq_true, if_false]

theorem readFraction_text (h : n.Proper) (hrest : Ends rest) :
    readFraction n.negative n.whole (n.fractionText ++ (n.exponentText ++ rest)) =
      (.number n.value, rest) := by
  by_cases hempty : n.fraction = []
  · have htext : n.fractionText = [] := by simp [fractionText, hempty]
    have hread := readExponent_text h hrest
    rw [hempty] at hread
    rw [htext, List.nil_append, readFraction, hread]
    exact fun cs heq => exponentText_append_ne n hrest cs heq
  · have htext : n.fractionText = '.' :: n.fraction := by simp [fractionText, hempty]
    rw [htext, List.cons_append, readFraction,
      span_digits h.fraction (isDigit_head?_exponentText n hrest)]
    simp [hempty, readExponent_text h hrest]

/-- A numeral is read up to its end. -/
theorem Proper.reads_text (h : n.Proper) : Reads n.text (.number n.value) := by
  have hread (rest : List Char) (hrest : Ends rest) :
      readNumber n.negative (n.whole ++ ((n.fractionText ++ n.exponentText) ++ rest)) =
        (.number n.value, rest) := by
    rw [List.append_assoc,
      readNumber_whole n.negative h.whole (isDigit_head?_fractionText n hrest),
      readFraction_text h hrest]
  rw [text]
  cases hsign : n.negative with
  | false =>
    rw [hsign] at hread
    rw [if_neg Bool.false_ne_true, List.nil_append]
    exact reads_numeral h.whole hread
  | true =>
    rw [hsign] at hread
    rw [if_pos rfl, List.singleton_append]
    refine reads_of_first _ (by decide) (by decide) fun fuel rest _ hrest => ?_
    rw [readValue, skipSpace_cons (by decide), List.append_assoc]
    exact hread rest hrest

end Numeral

/-! ## The decimal that a numeral tells -/

namespace Numeral

/-- The digits before and behind the point, as one number. -/
def digits (n : Numeral) : Nat := Nat.ofDigitChars 10 (n.whole ++ n.fraction) 0

/-- The power of ten that the exponent tells. -/
def power (n : Numeral) : Int :=
  match n.exponent with
  | none => 0
  | some (negative, ds) =>
    if negative then -(Nat.ofDigitChars 10 ds 0 : Int) else Nat.ofDigitChars 10 ds 0

/-- What a numeral tells, but for its sign. -/
def magnitude (n : Numeral) : ℚ := n.digits * 10 ^ (n.power - n.fraction.length)

/-- Whether a numeral has neither a fraction nor an exponent. -/
def isInteger (n : Numeral) : Bool := n.fraction.isEmpty && n.exponent.isNone

/-- Whether a numeral tells a decimal, with a fraction or an exponent. -/
structure Tells (n : Numeral) (d : Scientific) : Prop where
  proper : n.Proper
  isInteger : n.isInteger = false
  negative : n.negative = d.negative
  magnitude : n.magnitude = d.magnitude

/-- The same digits tell the same, with zeros behind them that the power of ten makes up for. -/
theorem magnitude_eq {n : Numeral} {d : Scientific} {k : Nat}
    (hdigits : n.digits = d.digits * 10 ^ k)
    (hpower : n.power - n.fraction.length + k = d.exponent) : n.magnitude = d.magnitude := by
  have hten : (10 : ℚ) ≠ 0 := by norm_num
  rw [magnitude, Scientific.magnitude, hdigits, ← hpower, zpow_add₀ hten, zpow_natCast]
  push_cast
  ring

end Numeral

/-! ## The texts of numbers -/

theorem isDigit_toDigits (n : Nat) : ∀ c ∈ Nat.toDigits 10 n, isDigit c = true :=
  (isWhole_toDigits n).digits

theorem isDigit_zeros (n : Nat) : ∀ c ∈ List.replicate n '0', isDigit c = true := by
  intro c hc
  rw [List.eq_of_mem_replicate hc]
  decide

/-- The first digits of a whole number have no needless zero in front. -/
theorem IsWhole.take {ds : List Char} (h : IsWhole ds) {n : Nat} (hn : n ≠ 0) :
    IsWhole (ds.take n) where
  nonempty := by simp [hn, h.nonempty]
  digits c hc := h.digits c (List.mem_of_mem_take hc)
  leading := by
    intro hhead
    rw [List.head?_take, if_neg hn] at hhead
    rw [h.leading hhead]
    exact List.take_of_length_le (Nat.one_le_iff_ne_zero.mpr hn)

/-- Zeros may be put behind a whole number other than zero. -/
theorem isWhole_append_zeros {n k : Nat} (h : n = 0 → k = 0) :
    IsWhole (Nat.toDigits 10 n ++ List.replicate k '0') where
  nonempty := by simp [(isWhole_toDigits n).nonempty]
  digits c hc := (List.mem_append.mp hc).elim (isDigit_toDigits n c) (isDigit_zeros k c)
  leading := by
    intro hhead
    obtain ⟨d, ds, hds⟩ := List.exists_cons_of_ne_nil (isWhole_toDigits n).nonempty
    rw [hds] at hhead
    have hzero := (isWhole_toDigits n).leading (by rw [hds]; exact hhead)
    have hn : n = 0 := by
      rw [← Nat.ofDigitChars_ten_toDigits (n := n), hzero]
      rfl
    rw [hzero, h hn]
    rfl

theorem toList_sign (d : Scientific) : d.sign.toList = if d.negative then ['-'] else [] := by
  rw [Scientific.sign]
  split <;> rfl

section Places

variable {d : Scientific} {front back : List Char} {k : Nat}

/-- Digits on both sides of a point tell a decimal. -/
theorem tells_of_places (hfront : IsWhole front) (hne : back ≠ [])
    (hback : ∀ c ∈ back, isDigit c = true)
    (hdigits : Nat.ofDigitChars 10 (front ++ back) 0 = d.digits * 10 ^ k)
    (hplaces : (k : Int) - back.length = d.exponent) :
    Numeral.Tells ⟨d.negative, front, back, none⟩ d where
  proper := ⟨hfront, hback, by simp⟩
  isInteger := by simp [Numeral.isInteger, hne]
  negative := rfl
  magnitude := by
    refine Numeral.magnitude_eq (k := k) hdigits ?_
    change (0 : Int) - back.length + k = d.exponent
    omega

theorem text_of_places (hne : back ≠ []) :
    Numeral.text ⟨d.negative, front, back, none⟩ = d.sign.toList ++ (front ++ '.' :: back) := by
  simp [Numeral.text, Numeral.fractionText, Numeral.exponentText, toList_sign, hne]

/-- The point stands behind the digits, and a zero behind the point. -/
theorem tells_behind (hk : d.exponent = k) (hzero : d.digits = 0 → k = 0) :
    Numeral.Tells ⟨d.negative, Nat.toDigits 10 d.digits ++ List.replicate k '0',
      List.replicate 1 '0', none⟩ d := by
  refine tells_of_places (k := k + 1) (isWhole_append_zeros hzero) (by simp)
    (isDigit_zeros 1) ?_ ?_
  · rw [Nat.ofDigitChars_append, Nat.ofDigitChars_append, Nat.ofDigitChars_ten_toDigits,
      Nat.ofDigitChars_replicate_zero, Nat.ofDigitChars_replicate_zero]
    ring
  · rw [hk, List.length_replicate]
    omega

theorem drop_toDigits_ne_nil {place : Nat}
    (hplace : (place : Int) < (Nat.toDigits 10 d.digits).length) :
    (Nat.toDigits 10 d.digits).drop place ≠ [] := by
  rw [Ne, List.drop_eq_nil_iff]
  omega

/-- The point stands between two digits. -/
theorem tells_between {place : Nat} (hpositive : 0 < place)
    (hplace : (place : Int) = (Nat.toDigits 10 d.digits).length + d.exponent)
    (hexponent : d.exponent < 0) :
    Numeral.Tells ⟨d.negative, (Nat.toDigits 10 d.digits).take place,
      (Nat.toDigits 10 d.digits).drop place, none⟩ d := by
  refine tells_of_places (k := 0) ((isWhole_toDigits d.digits).take (by omega))
    (drop_toDigits_ne_nil (by omega))
    (fun c hc => isDigit_toDigits _ c (List.mem_of_mem_drop hc)) ?_ ?_
  · rw [List.take_append_drop, Nat.ofDigitChars_ten_toDigits, Nat.pow_zero, Nat.mul_one]
  · rw [List.length_drop]
    omega

theorem zeros_append_toDigits_ne_nil (zeros n : Nat) :
    List.replicate zeros '0' ++ Nat.toDigits 10 n ≠ [] :=
  List.append_ne_nil_of_right_ne_nil _ (isWhole_toDigits n).nonempty

/-- The point stands before all digits, with zeros between it and them. -/
theorem tells_before {zeros : Nat}
    (hzeros : -(zeros : Int) = (Nat.toDigits 10 d.digits).length + d.exponent) :
    Numeral.Tells ⟨d.negative, ['0'], List.replicate zeros '0' ++ Nat.toDigits 10 d.digits,
      none⟩ d := by
  refine tells_of_places (k := 0) (isWhole_toDigits 0) (zeros_append_toDigits_ne_nil _ _)
    (fun c hc => (List.mem_append.mp hc).elim (isDigit_zeros _ c) (isDigit_toDigits _ c))
    ?_ ?_
  · have hfront : Nat.ofDigitChars 10 ['0'] 0 = 0 := by decide
    rw [Nat.ofDigitChars_append, hfront, Nat.ofDigitChars_append,
      Nat.ofDigitChars_replicate_zero, Nat.mul_zero, Nat.ofDigitChars_ten_toDigits,
      Nat.pow_zero, Nat.mul_one]
  · rw [List.length_append, List.length_replicate]
    omega

end Places

/-- A decimal in positional notation is a numeral with a fraction. -/
theorem exists_positional {d : Scientific} (hzero : d.digits = 0 → d.exponent ≤ 0) :
    ∃ n : Numeral, n.Tells d ∧ (d.positional ".0").toList = n.text := by
  rw [Scientific.positional]
  dsimp only
  by_cases hwhole : 0 ≤ d.exponent
  · obtain ⟨k, hk⟩ := Int.eq_ofNat_of_zero_le hwhole
    have hnone : d.digits = 0 → k = 0 := fun h => by
      have hexponent := hzero h
      omega
    refine ⟨_, tells_behind hk hnone, ?_⟩
    rw [text_of_places (by simp)]
    simp [hk]
  · rw [if_neg hwhole]
    by_cases hpoint : 0 < ((Nat.toDigits 10 d.digits).length : Int) + d.exponent
    · obtain ⟨place, hplace⟩ := Int.eq_ofNat_of_zero_le hpoint.le
      refine ⟨_, tells_between (by omega) hplace.symm (by omega), ?_⟩
      rw [text_of_places (drop_toDigits_ne_nil (by omega)), if_pos hpoint, hplace]
      simp
    · obtain ⟨zeros, hzeros⟩ := Int.eq_ofNat_of_zero_le (Int.neg_nonneg.mpr (not_lt.mp hpoint))
      have hbefore : -(zeros : Int) = (Nat.toDigits 10 d.digits).length + d.exponent := by omega
      refine ⟨_, tells_before hbefore, ?_⟩
      rw [text_of_places (zeros_append_toDigits_ne_nil _ _), if_neg hpoint, hzeros]
      simp

/-- The numeral of a decimal with one digit before the point, and an exponent. -/
def Numeral.exponential (d : Scientific) : Numeral :=
  let ds := Nat.toDigits 10 d.digits
  let e : Int := ds.length + d.exponent - 1
  ⟨d.negative, ds.take 1, ds.drop 1, some (e < 0, Nat.toDigits 10 e.natAbs)⟩

theorem tells_exponential (d : Scientific) : (Numeral.exponential d).Tells d where
  proper := by
    refine ⟨(isWhole_toDigits d.digits).take Nat.one_ne_zero,
      fun c hc => isDigit_toDigits _ c (List.mem_of_mem_drop hc), ?_⟩
    rintro _ ⟨⟩
    exact ⟨Nat.toDigits_ne_nil, isDigit_toDigits _⟩
  isInteger := by simp [Numeral.isInteger, Numeral.exponential]
  negative := rfl
  magnitude := by
    have hlength : 0 < (Nat.toDigits 10 d.digits).length := Nat.length_toDigits_pos
    refine Numeral.magnitude_eq (k := 0) ?_ ?_
    · rw [Numeral.digits, Numeral.exponential, List.take_append_drop,
        Nat.ofDigitChars_ten_toDigits, Nat.pow_zero, Nat.mul_one]
    · simp only [Numeral.power, Numeral.exponential, Nat.ofDigitChars_ten_toDigits,
        List.length_drop]
      generalize hpower : ((Nat.toDigits 10 d.digits).length : Int) + d.exponent - 1 = e
      by_cases hnegative : e < 0
      · rw [if_pos (decide_eq_true hnegative)]
        omega
      · rw [if_neg (by simpa using hnegative)]
        omega

theorem toList_exponential (d : Scientific) :
    d.exponential.toList = (Numeral.exponential d).text := by
  have htail (ds : List Char) :
      (if ds.length ≤ 1 then "" else "." ++ String.ofList (ds.drop 1)).toList =
        if (ds.drop 1).isEmpty then [] else '.' :: ds.drop 1 := by
    have hdrop : (ds.drop 1).isEmpty = decide (ds.length ≤ 1) := by
      rw [Bool.eq_iff_iff, List.isEmpty_iff, List.drop_eq_nil_iff, decide_eq_true_iff]
    simp only [hdrop, decide_eq_true_eq]
    split
    · rfl
    · simp
  have hmark (e : Int) :
      (if e < 0 then "e-" else "e+").toList = ['e', if e < 0 then '-' else '+'] := by
    split <;> rfl
  rw [Scientific.exponential]
  simp only [String.toList_append, toList_sign, String.toList_ofList, htail, hmark,
    Nat.toString_eq_ofList_toDigits]
  simp [Numeral.text, Numeral.fractionText, Numeral.exponentText, Numeral.exponential]

/-! ## The numerals of numbers -/

/-- The numeral of a floating-point number tells its shortest decimal. -/
theorem exists_numeral_decimal (x : Decimal.Binary64) :
    ∃ n : Numeral, n.Tells (Decimal.shortest .toEven x) ∧
      (Number.decimal x).text.toList = n.text := by
  have hpositional := exists_positional (d := Decimal.shortest .toEven x) fun h =>
    (Decimal.exponent_shortest_of_digits_eq_zero .toEven x h).le
  change ∃ n : Numeral, n.Tells _ ∧ (Decimal.dataText x).toList = n.text
  rw [Decimal.dataText]
  split
  · exact hpositional
  · split
    · exact hpositional
    · exact ⟨_, tells_exponential _, toList_exponential _⟩

/-- The numeral of a whole number. -/
def Numeral.ofInt (n : Int) : Numeral := ⟨n < 0, Nat.toDigits 10 n.natAbs, [], none⟩

theorem Numeral.proper_ofInt (n : Int) : (ofInt n).Proper :=
  ⟨isWhole_toDigits _, by simp [ofInt], by simp [ofInt]⟩

theorem text_integer (n : Int) : (Number.integer n).text.toList = (Numeral.ofInt n).text := by
  change (toString n).toList = _
  cases n with
  | ofNat n =>
    change (toString n).toList = _
    simp [Numeral.ofInt, Numeral.text, Numeral.fractionText, Numeral.exponentText]
  | negSucc n =>
    change ("-" ++ toString (n + 1)).toList = _
    simp [Numeral.ofInt, Numeral.text, Numeral.fractionText, Numeral.exponentText]

/-- The text of every number is read as a number. -/
theorem exists_reads_text (n : Number) : ∃ r, Reads n.text.toList (.number r) := by
  cases n with
  | integer n => exact ⟨_, text_integer n ▸ (Numeral.proper_ofInt n).reads_text⟩
  | decimal x =>
    obtain ⟨n, htells, htext⟩ := exists_numeral_decimal x
    exact ⟨_, htext ▸ htells.proper.reads_text⟩

theorem lt_not_mem_text (n : Number) : '<' ∉ n.text.toList := by
  have hnumeral : Decimal.IsNumeral n.text.toList := by
    cases n with
    | integer n => exact Decimal.isNumeral_toString n
    | decimal x => exact Decimal.isNumeral_dataText x
  exact fun hmem => absurd (hnumeral '<' hmem) (by decide)

end Courseware.Json
