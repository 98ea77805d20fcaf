import Mathlib.Algebra.Order.Field.Power
import Mathlib.Algebra.Order.Field.Rat
import Mathlib.Tactic.FieldSimp
import Mathlib.Tactic.Linarith
import Mathlib.Tactic.NormNum
import Mathlib.Tactic.Positivity
import Mathlib.Tactic.Ring
import Courseware.Decimal.Binary64

/-!
# The nearest floating-point number

A floating-point number attracts the rational numbers that are nearer to it than to its
neighbours, and a number half way between two only if its own mantissa is even. The quotient
of two natural numbers is rounded to the number that attracts it.
-/

namespace Courseware.Decimal

/-! ## Rounding to integers -/

theorem roundHalfEven_eq {n d m : Nat} (hd : 0 < d) (hlow : 2 * (m * d) ≤ 2 * n + d)
    (hhigh : 2 * n ≤ 2 * (m * d) + d)
    (htie : 2 * (m * d) = 2 * n + d ∨ 2 * n = 2 * (m * d) + d → m % 2 = 0) :
    roundHalfEven n d = m := by
  have hsplit : d * (n / d) + n % d = n := Nat.div_add_mod n d
  have hrest : n % d < d := Nat.mod_lt n hd
  rw [roundHalfEven]
  generalize n / d = q at *
  generalize n % d = r at *
  subst hsplit
  -- So `m` is the quotient or the number above it, and the remainder says which.
  have hle : m ≤ q + 1 := by
    by_contra hlt
    have hstep : (q + 2) * d ≤ m * d := Nat.mul_le_mul_right d (by omega)
    nlinarith
  have hge : q ≤ m := by
    by_contra hlt
    have hstep : (m + 1) * d ≤ q * d := Nat.mul_le_mul_right d (by omega)
    nlinarith
  rcases Nat.lt_or_eq_of_le hle with hlt | rfl
  · obtain rfl : m = q := by omega
    rw [Nat.mul_comm d m] at hlow hhigh htie
    by_cases hfirst : 2 * r < d
    · simp [hfirst]
    · have heq : 2 * r = d := by omega
      have heven : m % 2 = 0 := htie (Or.inr (by omega))
      simp [heq, heven]
  · have hexpand : (q + 1) * d = d * q + d := by ring
    rw [hexpand] at hlow hhigh htie
    by_cases hsecond : d < 2 * r
    · have hfirst : ¬ 2 * r < d := by omega
      simp [hfirst, hsecond]
    · have heq : 2 * r = d := by omega
      have heven : (q + 1) % 2 = 0 := htie (Or.inl (by omega))
      have hodd : ¬ q % 2 = 0 := by omega
      simp [heq, hodd]

theorem roundHalfEven_of_ratio {n d m : Nat} {s : ℚ} (hd : 0 < d) (hs : (n / d : ℚ) = s)
    (hlow : m - 1 / 2 ≤ s) (hhigh : s ≤ m + 1 / 2)
    (htie : s = m - 1 / 2 ∨ s = m + 1 / 2 → m % 2 = 0) : roundHalfEven n d = m := by
  have hd' : (0 : ℚ) < d := by exact_mod_cast hd
  have hn : (n : ℚ) = s * d := by rw [← hs, div_mul_cancel₀ _ hd'.ne']
  refine roundHalfEven_eq hd ?_ ?_ ?_
  · have hcast : (2 * (m * d) : ℚ) ≤ 2 * n + d := by
      rw [hn]
      nlinarith
    exact_mod_cast hcast
  · have hcast : (2 * n : ℚ) ≤ 2 * (m * d) + d := by
      rw [hn]
      nlinarith
    exact_mod_cast hcast
  · rintro (heq | heq)
    · have hcast : (2 * (m * d) : ℚ) = 2 * n + d := by exact_mod_cast heq
      have hzero : d * (s - (m - 1 / 2)) = 0 := by linarith [hn]
      exact htie (Or.inl (sub_eq_zero.mp ((mul_eq_zero.mp hzero).resolve_left hd'.ne')))
    · have hcast : (2 * n : ℚ) = 2 * (m * d) + d := by exact_mod_cast heq
      have hzero : d * (s - (m + 1 / 2)) = 0 := by linarith [hn]
      exact htie (Or.inr (sub_eq_zero.mp ((mul_eq_zero.mp hzero).resolve_left hd'.ne')))

namespace Binary64

/-! ## The exponent of a quotient -/

section Quotient

variable {num den : Nat}

theorem two_zpow_pos (e : Int) : (0 : ℚ) < 2 ^ e := by positivity

theorem two_zpow_succ (e : Int) : (2 : ℚ) ^ (e + 1) = 2 * 2 ^ e := by
  rw [zpow_add_one₀ (by norm_num), mul_comm]

theorem two_zpow_mono {e f : Int} (h : e ≤ f) : (2 : ℚ) ^ e ≤ 2 ^ f :=
  zpow_le_zpow_right₀ (by norm_num) h

theorem ratio_scaled (num : Nat) (hden : 0 < den) (e : Int) :
    0 < (scaled num den e).2 ∧
      ((scaled num den e).1 : ℚ) / (scaled num den e).2 = num / den / 2 ^ e := by
  rw [scaled]
  by_cases he : 0 ≤ e
  · obtain ⟨k, rfl⟩ := Int.eq_ofNat_of_zero_le he
    rw [if_pos he]
    refine ⟨Nat.mul_pos hden (Nat.two_pow_pos k), ?_⟩
    simp [div_div]
  · obtain ⟨k, rfl⟩ : ∃ k : Nat, e = -k := ⟨(-e).toNat, by omega⟩
    rw [if_neg he]
    refine ⟨hden, ?_⟩
    simp [div_mul_eq_mul_div]

/-- A quotient lies between two powers of two with neighbouring exponents. -/
theorem ratio_between (hnum : 0 < num) (hden : 0 < den) :
    (2 : ℚ) ^ ((Nat.log2 num : Int) - Nat.log2 den - 1) < num / den ∧
      (num / den : ℚ) < 2 ^ ((Nat.log2 num : Int) - Nat.log2 den + 1) := by
  have hbounds {n : Nat} (hn : 0 < n) :
      (2 : ℚ) ^ Nat.log2 n ≤ n ∧ (n : ℚ) < 2 ^ Nat.log2 n * 2 := by
    constructor
    · exact_mod_cast Nat.log2_self_le hn.ne'
    · rw [← pow_succ]
      exact_mod_cast Nat.lt_log2_self
  obtain ⟨hnumLow, hnumHigh⟩ := hbounds hnum
  obtain ⟨hdenLow, hdenHigh⟩ := hbounds hden
  have hdenPos : (0 : ℚ) < den := by exact_mod_cast hden
  have hpow : (0 : ℚ) < 2 ^ Nat.log2 den := by positivity
  constructor
  · rw [zpow_sub₀ (by norm_num), zpow_sub₀ (by norm_num), zpow_natCast, zpow_natCast, zpow_one,
      div_div, div_lt_div_iff₀ (by positivity) hdenPos]
    nlinarith
  · rw [zpow_add₀ (by norm_num), zpow_sub₀ (by norm_num), zpow_natCast, zpow_natCast, zpow_one,
      div_mul_eq_mul_div, div_lt_div_iff₀ hdenPos hpow]
    nlinarith

theorem cast_mantissaLimit : (mantissaLimit : ℚ) = 2 ^ 53 := by norm_num [mantissaLimit]

theorem cast_leastNormal : (leastNormal : ℚ) = 2 ^ 52 := by norm_num [leastNormal]

/-- Whether a number fits an exponent: its mantissa has 53 bits, or fewer at the least
exponent. -/
structure Fits (q : ℚ) (e : Int) : Prop where
  min_le : minExponent ≤ e
  lt : q < mantissaLimit * 2 ^ e
  le : leastNormal * 2 ^ e ≤ q ∨ e = minExponent

theorem fits_of_normal {q : ℚ} {e : Int} (hlt : q < mantissaLimit * 2 ^ e)
    (hle : leastNormal * 2 ^ e ≤ q) : Fits q (if e < minExponent then minExponent else e) := by
  by_cases hmin : e < minExponent
  · have hmono := two_zpow_mono hmin.le
    have hlimit : (0 : ℚ) ≤ mantissaLimit := by positivity
    rw [if_pos hmin]
    exact ⟨le_refl _, hlt.trans_le (mul_le_mul_of_nonneg_left hmono hlimit), Or.inr rfl⟩
  · rw [if_neg hmin]
    exact ⟨not_lt.mp hmin, hlt, Or.inl hle⟩

/-- An exponent that leaves 53 or 54 bits is right, or one too small. -/
theorem normal_of_scaled {q : ℚ} {n d : Nat} {e : Int} (hd : 0 < d)
    (hratio : (n / d : ℚ) = q / 2 ^ e) (hlow : 2 ^ 52 * 2 ^ e < q) (hhigh : q < 2 ^ 54 * 2 ^ e) :
    q < mantissaLimit * 2 ^ (if mantissaLimit ≤ n / d then e + 1 else e) ∧
      leastNormal * 2 ^ (if mantissaLimit ≤ n / d then e + 1 else e) ≤ q := by
  have hscale := two_zpow_pos e
  have hd' : (0 : ℚ) < d := by exact_mod_cast hd
  rw [cast_mantissaLimit, cast_leastNormal]
  by_cases hlarge : mantissaLimit ≤ n / d
  · have hmul : mantissaLimit * d ≤ n := (Nat.le_div_iff_mul_le hd).mp hlarge
    have hge : (2 : ℚ) ^ 53 ≤ n / d := by
      rw [le_div_iff₀ hd', ← cast_mantissaLimit]
      exact_mod_cast hmul
    rw [hratio, le_div_iff₀ hscale] at hge
    rw [if_pos hlarge, two_zpow_succ]
    constructor <;> linarith
  · have hmul : n < mantissaLimit * d := (Nat.div_lt_iff_lt_mul hd).mp (not_le.mp hlarge)
    have hlt : (n / d : ℚ) < 2 ^ 53 := by
      rw [div_lt_iff₀ hd', ← cast_mantissaLimit]
      exact_mod_cast hmul
    rw [hratio, div_lt_iff₀ hscale] at hlt
    rw [if_neg hlarge]
    exact ⟨hlt, hlow.le⟩

theorem fits_exponentFor (hnum : 0 < num) (hden : 0 < den) :
    Fits (num / den) (exponentFor num den) := by
  obtain ⟨hlow, hhigh⟩ := ratio_between hnum hden
  obtain ⟨hpos, hratio⟩ := ratio_scaled num hden (Nat.log2 num - Nat.log2 den - 53)
  have hshift (k : Nat) (l : Int) : (2 : ℚ) ^ (l + k - 53) = 2 ^ k * 2 ^ (l - 53) := by
    rw [← zpow_natCast, ← zpow_add₀ (by norm_num)]
    congr 1
    ring
  rw [exponentFor]
  dsimp only
  generalize (Nat.log2 num : Int) - Nat.log2 den = l at *
  have hbelow : (2 : ℚ) ^ (l - 1) = 2 ^ 52 * 2 ^ (l - 53) := by
    rw [← hshift]
    congr 1
    ring
  have habove : (2 : ℚ) ^ (l + 1) = 2 ^ 54 * 2 ^ (l - 53) := by
    rw [← hshift]
    congr 1
    ring
  obtain ⟨hlt, hle⟩ := normal_of_scaled hpos hratio (hbelow ▸ hlow) (habove ▸ hhigh)
  exact fits_of_normal hlt hle

end Quotient

/-! ## Attraction -/

/-- Whether a number is written with the mantissa and the exponent that are meant for it. -/
structure Canonical (x : Binary64) : Prop where
  lt : x.mantissa < mantissaLimit
  min_le : minExponent ≤ x.exponent
  le_max : x.exponent ≤ maxExponent
  normal : leastNormal ≤ x.mantissa ∨ x.exponent = minExponent

def magnitude (x : Binary64) : ℚ := x.mantissa * 2 ^ x.exponent

/-- Half the gap to the number below. Below a power of two the gap is half as wide. -/
def halfBelow (x : Binary64) : ℚ :=
  if x.mantissa = leastNormal ∧ minExponent < x.exponent then 2 ^ x.exponent / 4
  else 2 ^ x.exponent / 2

def halfAbove (x : Binary64) : ℚ := 2 ^ x.exponent / 2

/-- Whether the numbers with a given magnitude are rounded to a number. -/
structure Attracts (x : Binary64) (q : ℚ) : Prop where
  low : x.magnitude - x.halfBelow ≤ q
  high : q ≤ x.magnitude + x.halfAbove
  tie : q = x.magnitude - x.halfBelow ∨ q = x.magnitude + x.halfAbove → x.mantissa % 2 = 0

variable {x : Binary64} {q : ℚ}

theorem halfBelow_le (x : Binary64) : x.halfBelow ≤ x.halfAbove := by
  have hpos := two_zpow_pos x.exponent
  rw [halfBelow, halfAbove]
  split <;> linarith

theorem Attracts.pos (h : x.Attracts q) (hx : 0 < x.mantissa) : 0 < q := by
  have hpos := two_zpow_pos x.exponent
  have hle := x.halfBelow_le
  have hlow := h.low
  have hone : (1 : ℚ) ≤ x.mantissa := by exact_mod_cast hx
  rw [magnitude] at hlow
  rw [halfAbove] at hle
  nlinarith

theorem Attracts.roundHalfEven_eq (h : x.Attracts q) {n d : Nat} (hd : 0 < d)
    (hratio : (n / d : ℚ) = q / 2 ^ x.exponent) : roundHalfEven n d = x.mantissa := by
  have hpos := two_zpow_pos x.exponent
  have hle := x.halfBelow_le
  obtain ⟨hlow, hhigh, htie⟩ := h
  rw [magnitude] at hlow hhigh htie
  rw [halfAbove] at hle hhigh htie
  refine roundHalfEven_of_ratio hd hratio ?_ ?_ ?_
  · rw [le_div_iff₀ hpos]
    linarith
  · rw [div_le_iff₀ hpos]
    linarith
  · rintro (heq | heq)
    · rw [div_eq_iff hpos.ne'] at heq
      exact htie (Or.inl (by linarith))
    · rw [div_eq_iff hpos.ne'] at heq
      exact htie (Or.inr (by linarith))

/-- An exponent below that of the number leaves the number only when its mantissa is the least
one, and it is then one too small. -/
theorem Attracts.of_exponent_lt (h : x.Attracts q) (hx : x.Canonical) {e : Int} (hfits : Fits q e)
    (hlt : e < x.exponent) :
    x.mantissa = leastNormal ∧ e + 1 = x.exponent ∧ mantissaLimit - 1 / 2 ≤ q / 2 ^ e := by
  have hpos := two_zpow_pos e
  have hnormal : leastNormal ≤ x.mantissa :=
    hx.normal.resolve_right (ne_of_gt (hfits.min_le.trans_lt hlt))
  have hlow := h.low
  have hupper := hfits.lt
  have hscale : (2 : ℚ) * 2 ^ e ≤ 2 ^ x.exponent := by
    rw [← two_zpow_succ]
    exact two_zpow_mono hlt
  rw [magnitude] at hlow
  -- Half a step below a greater mantissa is already beyond what the exponent reaches.
  have hmantissa : x.mantissa = leastNormal := by
    by_contra hne
    have hnext : (leastNormal + 1 : ℚ) ≤ x.mantissa := by
      exact_mod_cast Nat.lt_of_le_of_ne hnormal (Ne.symm hne)
    have hhalf := x.halfBelow_le
    rw [halfAbove] at hhalf
    rw [cast_mantissaLimit] at hupper
    rw [cast_leastNormal] at hnext
    nlinarith
  have hbelow : x.halfBelow = 2 ^ x.exponent / 4 :=
    if_pos ⟨hmantissa, hfits.min_le.trans_lt hlt⟩
  rw [hmantissa, hbelow, cast_leastNormal] at hlow
  rw [cast_mantissaLimit] at hupper ⊢
  have hexponent : e + 1 = x.exponent := by
    by_contra hne
    have hfour : (2 : ℚ) * (2 * 2 ^ e) ≤ 2 ^ x.exponent := by
      rw [← two_zpow_succ, ← two_zpow_succ]
      exact two_zpow_mono (by omega)
    linarith
  refine ⟨hmantissa, hexponent, ?_⟩
  rw [← hexponent, two_zpow_succ] at hlow
  rw [le_div_iff₀ hpos]
  linarith

theorem Attracts.exponent_le (h : x.Attracts q) (hx : x.Canonical) {e : Int}
    (hfits : Fits q e) : e ≤ x.exponent := by
  by_contra hlt
  have hlt : x.exponent < e := not_le.mp hlt
  have hle := hfits.le.resolve_right (ne_of_gt (hx.min_le.trans_lt hlt))
  have hhigh := h.high
  have hpos := two_zpow_pos x.exponent
  have hscale : (2 : ℚ) * 2 ^ x.exponent ≤ 2 ^ e := by
    rw [← two_zpow_succ]
    exact two_zpow_mono hlt
  have hmantissa : (x.mantissa + 1 : ℚ) ≤ 2 ^ 53 := by
    rw [← cast_mantissaLimit]
    exact_mod_cast hx.lt
  rw [magnitude, halfAbove] at hhigh
  rw [cast_leastNormal] at hle
  nlinarith

/-- A quotient is rounded to the number that attracts it. -/
theorem Attracts.ofRatio?_eq {num den : Nat} (hden : 0 < den) (h : x.Attracts (num / den))
    (hx : x.Canonical) (hpos : 0 < x.mantissa) : ofRatio? x.negative num den = some x := by
  have hnum : num ≠ 0 := by
    rintro rfl
    have hzero := h.pos hpos
    simp at hzero
  have hfits := fits_exponentFor (Nat.pos_of_ne_zero hnum) hden
  obtain ⟨hd, hratio⟩ := ratio_scaled num hden (exponentFor num den)
  rw [ofRatio?, if_neg hnum]
  dsimp only
  generalize exponentFor num den = e at *
  -- Just below a power of two the exponent may be one too small. The mantissa is then rounded
  -- up to its limit, and the number is the power of two all the same.
  rcases lt_or_eq_of_le (h.exponent_le hx hfits) with hlt | rfl
  · obtain ⟨hmantissa, hexponent, hhalf⟩ := h.of_exponent_lt hx hfits hlt
    have hbelow : (num / den / 2 ^ e : ℚ) < mantissaLimit :=
      (div_lt_iff₀ (two_zpow_pos e)).mpr hfits.lt
    have hround : roundHalfEven (scaled num den e).1 (scaled num den e).2 = mantissaLimit :=
      roundHalfEven_of_ratio hd hratio hhalf (by linarith) fun _ => by decide
    rw [hround, if_pos rfl]
    dsimp only
    rw [hexponent, if_neg (not_lt.mpr hx.le_max), ← hmantissa]
  · rw [h.roundHalfEven_eq hd hratio, if_neg hx.lt.ne]
    dsimp only
    rw [if_neg (not_lt.mpr hx.le_max)]

end Binary64

end Courseware.Decimal
