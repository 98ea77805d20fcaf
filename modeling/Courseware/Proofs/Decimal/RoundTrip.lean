import Courseware.Proofs.Decimal.Interval
import Courseware.Proofs.Decimal.Value

/-!
# Floating-point numbers are read back

The text of a number tells a decimal, and the number is the one nearest to that decimal.
-/

namespace Courseware.Decimal

/-! ## Numbers that are rounded to -/

section Canonical

theorem le_roundHalfEven {n d m : Nat} (hd : 0 < d) (h : m * d ≤ n) : m ≤ roundHalfEven n d := by
  have hle : m ≤ n / d := (Nat.le_div_iff_mul_le hd).mpr h
  rw [roundHalfEven]
  split_ifs <;> omega

theorem roundHalfEven_le {n d m : Nat} (hd : 0 < d) (h : n < m * d) : roundHalfEven n d ≤ m := by
  have hlt : n / d < m := (Nat.div_lt_iff_lt_mul hd).mpr h
  rw [roundHalfEven]
  split_ifs <;> omega

namespace Binary64

theorem canonical_zero (negative : Bool) : (zero negative).Canonical :=
  ⟨Nat.two_pow_pos 53, le_refl _, by decide +revert, Or.inr rfl⟩

/-- A quotient is rounded to a number in its canonical form. -/
theorem canonical_ofRatio? {negative : Bool} {num den : Nat} {x : Binary64} (hden : 0 < den)
    (h : ofRatio? negative num den = some x) : x.Canonical ∧ x.negative = negative := by
  rw [ofRatio?] at h
  by_cases hnum : num = 0
  · rw [if_pos hnum] at h
    obtain rfl := Option.some.inj h
    exact ⟨canonical_zero negative, rfl⟩
  · have hfits := fits_exponentFor (Nat.pos_of_ne_zero hnum) hden
    obtain ⟨hd, hratio⟩ := ratio_scaled num hden (exponentFor num den)
    rw [if_neg hnum] at h
    dsimp only at h
    generalize exponentFor num den = e at *
    have hscale := two_zpow_pos e
    have hd' : (0 : ℚ) < (scaled num den e).2 := by exact_mod_cast hd
    have hle : roundHalfEven (scaled num den e).1 (scaled num den e).2 ≤ mantissaLimit := by
      apply roundHalfEven_le hd
      have hlt := (div_lt_iff₀ hscale).mpr hfits.lt
      rw [← hratio, div_lt_iff₀ hd'] at hlt
      exact_mod_cast hlt
    have hnormal : leastNormal ≤ roundHalfEven (scaled num den e).1 (scaled num den e).2 ∨
        e = minExponent := by
      refine hfits.le.imp_left fun hge => le_roundHalfEven hd ?_
      rw [← le_div_iff₀ hscale, ← hratio, le_div_iff₀ hd'] at hge
      exact_mod_cast hge
    have hmin := hfits.min_le
    generalize roundHalfEven (scaled num den e).1 (scaled num den e).2 = m at *
    by_cases hlimit : m = mantissaLimit
    · rw [if_pos hlimit] at h
      dsimp only at h
      by_cases hmax : maxExponent < e + 1
      · rw [if_pos hmax] at h
        cases h
      · rw [if_neg hmax] at h
        obtain rfl := Option.some.inj h
        have hlt : leastNormal < mantissaLimit := by decide
        exact ⟨⟨hlt, hmin.trans (Int.le_add_one le_rfl), not_lt.mp hmax, Or.inl le_rfl⟩, rfl⟩
    · rw [if_neg hlimit] at h
      dsimp only at h
      by_cases hmax : maxExponent < e
      · rw [if_pos hmax] at h
        cases h
      · rw [if_neg hmax] at h
        obtain rfl := Option.some.inj h
        exact ⟨⟨lt_of_le_of_ne hle hlimit, hmin, not_lt.mp hmax, hnormal⟩, rfl⟩

theorem canonical_ofPercent (percent : Nat) :
    (ofPercent percent).Canonical ∧ (ofPercent percent).negative = false := by
  rw [ofPercent]
  cases h : ofRatio? false percent 100 with
  | none => exact ⟨canonical_zero false, rfl⟩
  | some x => exact canonical_ofRatio? (by decide) h

end Binary64

end Canonical

/-! ## Decimals as text -/

section Text

theorem digits?_toDigits (n : Nat) : digits? (Nat.toDigits 10 n) = some n :=
  digits?_of_number? (Time.number?_toDigits n)

/-- The digits behind the point are parts of the digits of the whole. -/
theorem value?_of_places {s : String} {whole places : List Char} {n k : Nat}
    (hs : s.toList = whole ++ '.' :: places) (hwhole : digits? whole = some n)
    (hplaces : digits? places = some k) :
    value? s = some (((10 ^ places.length * n + k : Nat) : ℚ) / 10 ^ places.length) := by
  have hpower : (10 : ℚ) ^ places.length ≠ 0 := by positivity
  simp only [value?, hs, Time.cutAt_append (forall_ne_point hwhole), hwhole, hplaces, bind,
    Option.bind, pure]
  congr 1
  push_cast
  field_simp

theorem value?_positional {d : Scientific} (h : d.negative = false) :
    value? (d.positional "") = some d.magnitude := by
  have hsign : d.sign = "" := by rw [Scientific.sign, h]; rfl
  have hdigits := digits?_toDigits d.digits
  rw [Scientific.positional, hsign, Scientific.magnitude]
  dsimp only
  generalize Nat.toDigits 10 d.digits = ds at *
  -- The point stands behind the digits, between two of them, or before all of them.
  by_cases hwhole : 0 ≤ d.exponent
  · obtain ⟨k, hk⟩ := Int.eq_ofNat_of_zero_le hwhole
    have hall := digits?_append_eq hdigits (digits?_zeros k)
    rw [List.length_replicate, Nat.add_zero] at hall
    rw [if_pos hwhole, hk, value?_of_whole (by simpa using hall), zpow_natCast, mul_comm]
    push_cast
    rfl
  · rw [if_neg hwhole]
    obtain ⟨k, hk⟩ : ∃ k : Nat, d.exponent = -k := ⟨(-d.exponent).toNat, by omega⟩
    by_cases hpoint : 0 < (ds.length : Int) + d.exponent
    · have hsplit := List.take_append_drop ((ds.length : Int) + d.exponent).toNat ds
      have hlength : (ds.drop ((ds.length : Int) + d.exponent).toNat).length = k := by
        rw [List.length_drop]
        omega
      rw [← hsplit] at hdigits
      obtain ⟨a, b, hbefore, hafter, heq⟩ := digits?_append hdigits
      rw [if_pos hpoint, value?_of_places (by simp) hbefore hafter, ← heq, hlength, hk, zpow_neg,
        zpow_natCast, div_eq_mul_inv]
    · have hzeros := digits?_append_eq (digits?_zeros (-(ds.length + d.exponent)).toNat) hdigits
      have hzero : digits? ['0'] = some 0 := by decide
      have hlength : (List.replicate (-((ds.length : Int) + d.exponent)).toNat '0' ++ ds).length
          = k := by
        rw [List.length_append, List.length_replicate]
        omega
      rw [if_neg hpoint, value?_of_places (by simp) hzero hzeros, hlength, hk, zpow_neg,
        zpow_natCast, div_eq_mul_inv]
      simp

end Text

/-! ## The round trip -/

section RoundTrip

variable {x : Binary64}

/-- The only number without a mantissa is zero, with one sign or the other. -/
theorem Binary64.Canonical.eq_zero (hx : x.Canonical) (h : x.mantissa = 0) :
    x = .zero x.negative := by
  have hexponent : x.exponent = minExponent := hx.normal.resolve_left (by rw [h]; decide)
  obtain ⟨negative, mantissa, exponent⟩ := x
  dsimp only at h hexponent
  rw [h, hexponent]
  rfl

theorem negative_shortest (tie : Tie) (hx : x.Canonical) :
    (shortest tie x).negative = x.negative := by
  by_cases hzero : x.mantissa = 0
  · rw [shortest, if_pos hzero]
  · exact (attracts_shortest tie hx (Nat.pos_of_ne_zero hzero)).1

/-- The shortest decimal of a number is rounded to the number. -/
theorem ofRatio?_shortest (tie : Tie) (hx : x.Canonical) :
    Binary64.ofRatio? x.negative (shortest tie x).magnitude.num.natAbs
      (shortest tie x).magnitude.den = some x := by
  by_cases hzero : x.mantissa = 0
  · have hmagnitude : (shortest tie x).magnitude = 0 := by
      rw [shortest, if_pos hzero, Scientific.magnitude, Nat.cast_zero, zero_mul]
    have hnum : (0 : ℚ).num.natAbs = 0 := rfl
    rw [hmagnitude, hnum, Binary64.ofRatio?, if_pos rfl]
    exact congrArg some (hx.eq_zero hzero).symm
  · have hpos := Nat.pos_of_ne_zero hzero
    have hattracts := (attracts_shortest tie hx hpos).2
    generalize (shortest tie x).magnitude = q at *
    have hratio : (q.num.natAbs / q.den : ℚ) = q := by
      have hnum : ((q.num.natAbs : Int) : ℚ) = q.num := by
        rw [Int.natAbs_of_nonneg (Rat.num_nonneg.mpr (hattracts.pos hpos).le)]
      rw [← Int.cast_natCast, hnum, Rat.num_div_den]
    have hnearest : x.Attracts (q.num.natAbs / q.den) := by rwa [hratio]
    exact hnearest.ofRatio?_eq q.den_pos hx hpos

/-- Every number without a sign is the one nearest to what its text tells. -/
theorem nearest?_plainText (hx : x.Canonical) (hsign : x.negative = false) :
    (value? (plainText x)).bind Binary64.nearest? = some x := by
  have hnonneg : 0 ≤ (shortest .away x).magnitude := by
    rw [Scientific.magnitude]
    positivity
  have hnegative : (shortest .away x).negative = false :=
    (negative_shortest .away hx).trans hsign
  have hnearest := ofRatio?_shortest .away hx
  rw [plainText, value?_positional hnegative, Option.bind_some, Binary64.nearest?,
    decide_eq_false (not_lt.mpr hnonneg), ← hsign]
  exact hnearest

end RoundTrip

end Courseware.Decimal
