import Courseware.Decimal.Shortest
import Courseware.Proofs.Decimal.Nearest

/-!
# The decimals near a floating-point number

The shortest decimal of a number is attracted by the number. Among the decimals with
seventeen digits there always is one that is: they lie closer together than numbers do.
-/

namespace Courseware.Decimal

open Binary64 (two_zpow_pos Attracts Canonical)

/-! ## Powers as fractions -/

section Powers

def powerParts (base : Nat) (e : Int) : Nat × Nat :=
  if 0 ≤ e then (Nat.pow base e.toNat, 1) else (1, Nat.pow base (-e).toNat)

variable {base : Nat}

theorem powerParts_pos (hbase : 0 < base) (e : Int) :
    0 < (powerParts base e).1 ∧ 0 < (powerParts base e).2 := by
  rw [powerParts]
  split
  · exact ⟨Nat.pow_pos hbase, Nat.one_pos⟩
  · exact ⟨Nat.one_pos, Nat.pow_pos hbase⟩

theorem powerParts_snd (base : Nat) (e : Int) :
    (powerParts base e).2 = base ^ (-e).toNat := by
  rw [powerParts]
  by_cases he : 0 ≤ e
  · have hnone : (-e).toNat = 0 := by omega
    rw [if_pos he, hnone, Nat.pow_zero]
  · rw [if_neg he]
    rfl

theorem powerParts_eq (base : Nat) (e : Int) :
    ((powerParts base e).1 / (powerParts base e).2 : ℚ) = base ^ e := by
  rw [powerParts]
  by_cases he : 0 ≤ e
  · obtain ⟨k, rfl⟩ := Int.eq_ofNat_of_zero_le he
    rw [if_pos he]
    simp
  · obtain ⟨k, rfl⟩ : ∃ k : Nat, e = -k := ⟨(-e).toNat, by omega⟩
    rw [if_neg he]
    simp

end Powers

/-! ## The interval of a number -/

section Interval

variable {x : Binary64}

/-- The distance of the lower end of an interval, in quarters of the gap between numbers. -/
def quartersBelow (x : Binary64) : Nat :=
  if x.mantissa = Binary64.leastNormal ∧ Binary64.minExponent < x.exponent then 1 else 2

theorem Rounding.of_eq (x : Binary64) :
    Rounding.of x =
      let quarter := powerParts 2 (x.exponent - 2)
      ⟨(4 * x.mantissa - quartersBelow x) * quarter.1, 4 * x.mantissa * quarter.1,
        (4 * x.mantissa + 2) * quarter.1, quarter.2, x.mantissa % 2 = 0⟩ :=
  rfl

theorem Rounding.den_pos (x : Binary64) : 0 < (Rounding.of x).den :=
  (powerParts_pos Nat.two_pos _).2

theorem quarter_eq (x : Binary64) :
    ((powerParts 2 (x.exponent - 2)).1 / (powerParts 2 (x.exponent - 2)).2 : ℚ) =
      2 ^ x.exponent / 4 := by
  rw [powerParts_eq, Nat.cast_ofNat, zpow_sub₀ (by norm_num)]
  norm_num

theorem Rounding.mid_eq (x : Binary64) :
    ((Rounding.of x).mid / (Rounding.of x).den : ℚ) = x.magnitude := by
  rw [Rounding.of_eq]
  dsimp only
  rw [Nat.cast_mul, mul_div_assoc, quarter_eq, Binary64.magnitude]
  push_cast
  ring

theorem Rounding.high_eq (x : Binary64) :
    ((Rounding.of x).high / (Rounding.of x).den : ℚ) = x.magnitude + x.halfAbove := by
  rw [Rounding.of_eq]
  dsimp only
  rw [Nat.cast_mul, mul_div_assoc, quarter_eq, Binary64.magnitude, Binary64.halfAbove]
  push_cast
  ring

theorem Rounding.low_eq (hx : 0 < x.mantissa) :
    ((Rounding.of x).low / (Rounding.of x).den : ℚ) = x.magnitude - x.halfBelow := by
  have hbelow : (quartersBelow x : ℚ) * (2 ^ x.exponent / 4) = x.halfBelow := by
    rw [quartersBelow, Binary64.halfBelow]
    split <;> push_cast <;> ring
  have hle : quartersBelow x ≤ 4 * x.mantissa := by
    rw [quartersBelow]
    split <;> omega
  rw [Rounding.of_eq]
  dsimp only
  rw [Nat.cast_mul, mul_div_assoc, quarter_eq, Nat.cast_sub hle, sub_mul, hbelow,
    Binary64.magnitude]
  push_cast
  ring

theorem mul_le_mul_iff_div {k l c d : Nat} (hc : 0 < c) (hd : 0 < d) :
    k * d ≤ l * c ↔ (k / c : ℚ) ≤ l / d := by
  have hc' : (0 : ℚ) < c := by exact_mod_cast hc
  have hd' : (0 : ℚ) < d := by exact_mod_cast hd
  rw [div_le_div_iff₀ hc' hd']
  exact_mod_cast Iff.rfl

/-- The interval of a number has the decimals in it that the number attracts. -/
theorem Rounding.contains_iff (hx : 0 < x.mantissa) {n d : Nat} (hd : 0 < d) :
    (Rounding.of x).contains n d = true ↔ x.Attracts (n / d) := by
  have hden := Rounding.den_pos x
  have hclosed : (Rounding.of x).closed = decide (x.mantissa % 2 = 0) := rfl
  rw [Rounding.contains, hclosed]
  by_cases heven : x.mantissa % 2 = 0
  · simp only [heven, decide_true, if_true, Bool.and_eq_true, decide_eq_true_eq,
      mul_le_mul_iff_div hden hd, mul_le_mul_iff_div hd hden, low_eq hx, high_eq]
    exact ⟨fun ⟨hge, hle⟩ => ⟨hge, hle, fun _ => heven⟩, fun h => ⟨h.low, h.high⟩⟩
  · simp only [heven, decide_false, Bool.false_eq_true, if_false, Bool.and_eq_true,
      decide_eq_true_eq, ← not_le, mul_le_mul_iff_div hden hd, mul_le_mul_iff_div hd hden,
      low_eq hx, high_eq]
    constructor
    · rintro ⟨hge, hle⟩
      refine ⟨le_of_not_ge hge, le_of_not_ge hle, ?_⟩
      rintro (heq | heq)
      · exact absurd heq.le hge
      · exact absurd heq.ge hle
    · intro h
      constructor
      · exact fun hle => heven (h.tie (Or.inl (le_antisymm hle h.low)))
      · exact fun hge => heven (h.tie (Or.inr (le_antisymm h.high hge)))

end Interval

/-! ## The decimal grid -/

section Grid

variable {x : Binary64} {tie : Tie} {point : Int} {count : Nat}

theorem ten_zpow_pos (e : Int) : (0 : ℚ) < 10 ^ e := by positivity

/-- The greatest decimal on a grid that is not beyond a number. -/
def gridBelow (x : Binary64) (e : Int) : Nat :=
  (Rounding.of x).mid * (powerParts 10 e).2 / ((Rounding.of x).den * (powerParts 10 e).1)

theorem gridBelow_between (x : Binary64) (e : Int) :
    gridBelow x e * 10 ^ e ≤ x.magnitude ∧ x.magnitude < (gridBelow x e + 1) * 10 ^ e := by
  obtain ⟨hup, hdown⟩ := powerParts_pos (by decide : 0 < 10) e
  have hden := Rounding.den_pos x
  have hstep := powerParts_eq 10 e
  rw [Nat.cast_ofNat] at hstep
  have hle := Nat.div_mul_le_self ((Rounding.of x).mid * (powerParts 10 e).2)
    ((Rounding.of x).den * (powerParts 10 e).1)
  have hlt := Nat.lt_mul_of_div_lt (Nat.lt_succ_self (gridBelow x e)) (Nat.mul_pos hden hup)
  rw [← gridBelow, Nat.mul_comm (Rounding.of x).den, ← Nat.mul_assoc,
    mul_le_mul_iff_div hdown hden, Rounding.mid_eq, Nat.cast_mul, mul_div_assoc, hstep] at hle
  rw [Nat.mul_comm (Rounding.of x).den, ← Nat.mul_assoc, ← not_le,
    mul_le_mul_iff_div hdown hden, Rounding.mid_eq, Nat.cast_mul, mul_div_assoc, hstep,
    Nat.cast_succ] at hlt
  exact ⟨hle, not_le.mp hlt⟩

/-- A grid is searched at the two decimals between which the number is. -/
theorem onGrid?_eq (tie : Tie) (point : Int) (count : Nat) (hx : 0 < x.mantissa) :
    ∃ first second nearer tied : Bool,
      (first = true ↔ x.Attracts (gridBelow x (point - count) * 10 ^ (point - count))) ∧
      (second = true ↔
        x.Attracts ((gridBelow x (point - count) + 1) * 10 ^ (point - count))) ∧
      (Rounding.of x).onGrid? tie point count =
        if (first && (!second || nearer || tied)) = true then
          some (gridBelow x (point - count), point - count)
        else if second = true then some (gridBelow x (point - count) + 1, point - count)
        else none := by
  obtain ⟨-, hdown⟩ := powerParts_pos (by decide : 0 < 10) (point - count)
  have hstep := powerParts_eq 10 (point - count)
  rw [Nat.cast_ofNat] at hstep
  have hattracts (a : Nat) : (Rounding.of x).contains (a * (powerParts 10 (point - count)).1)
      (powerParts 10 (point - count)).2 = true ↔ x.Attracts (a * 10 ^ (point - count)) := by
    rw [Rounding.contains_iff hx hdown, Nat.cast_mul, mul_div_assoc, hstep]
  have hnext := hattracts (gridBelow x (point - count) + 1)
  rw [Nat.cast_succ] at hnext
  exact ⟨_, _, _, _, hattracts _, hnext, rfl⟩

theorem attracts_of_onGrid? (hx : 0 < x.mantissa) {digits : Nat} {exponent : Int}
    (h : (Rounding.of x).onGrid? tie point count = some (digits, exponent)) :
    x.Attracts (digits * 10 ^ exponent) := by
  obtain ⟨first, second, nearer, tied, hfirst, hsecond, heq⟩ := onGrid?_eq tie point count hx
  rw [heq] at h
  by_cases hbelow : (first && (!second || nearer || tied)) = true
  · rw [if_pos hbelow] at h
    obtain ⟨rfl, rfl⟩ := Prod.mk.inj (Option.some.inj h)
    exact hfirst.mp (Bool.and_eq_true_iff.mp hbelow).1
  · rw [if_neg hbelow] at h
    by_cases habove : second = true
    · rw [if_pos habove] at h
      obtain ⟨rfl, rfl⟩ := Prod.mk.inj (Option.some.inj h)
      rw [Nat.cast_succ]
      exact hsecond.mp habove
    · rw [if_neg habove] at h
      cases h

theorem onGrid?_ne_none (hx : 0 < x.mantissa)
    (h : x.Attracts (gridBelow x (point - count) * 10 ^ (point - count)) ∨
      x.Attracts ((gridBelow x (point - count) + 1) * 10 ^ (point - count))) :
    (Rounding.of x).onGrid? tie point count ≠ none := by
  obtain ⟨first, second, nearer, tied, hfirst, hsecond, heq⟩ := onGrid?_eq tie point count hx
  rw [heq]
  by_cases habove : second = true
  · rw [if_pos habove]
    split <;> exact Option.some_ne_none _
  · rw [← hfirst, ← hsecond] at h
    have hbelow : first = true := h.resolve_right habove
    rw [hbelow, Bool.eq_false_of_not_eq_true habove]
    exact Option.some_ne_none _

theorem magnitude_le_halfBelow (hx : x.Canonical) :
    x.magnitude / 2 ^ 54 ≤ x.halfBelow := by
  have hscale := two_zpow_pos x.exponent
  have hlt : (x.mantissa : ℚ) ≤ 2 ^ 53 := by
    rw [← Binary64.cast_mantissaLimit]
    exact_mod_cast hx.lt.le
  rw [Binary64.magnitude, Binary64.halfBelow]
  split
  · rename_i hleast
    rw [hleast.1, Binary64.cast_leastNormal]
    linarith
  · nlinarith

/-- A decimal that is not farther from a number than half of a small step is attracted. -/
theorem attracts_of_near (hx : x.Canonical) (hpos : 0 < x.mantissa) {q step : ℚ}
    (hstep : step * 10 ^ 16 ≤ x.magnitude) (hlow : x.magnitude - step / 2 ≤ q)
    (hhigh : q ≤ x.magnitude + step / 2) : x.Attracts q := by
  have hscale := two_zpow_pos x.exponent
  have hmagnitude : 0 < x.magnitude := by
    have hcast : (0 : ℚ) < x.mantissa := by exact_mod_cast hpos
    rw [Binary64.magnitude]
    positivity
  have hgap := magnitude_le_halfBelow hx
  have hle := x.halfBelow_le
  -- Half a step is less than half a gap, since `2 ^ 54 < 2 * 10 ^ 16`.
  have hhalf : step / 2 < x.halfBelow := by
    norm_num at hstep hgap
    linarith
  refine ⟨by linarith, by linarith, ?_⟩
  rintro (heq | heq) <;> linarith

/-- Seventeen digits suffice. -/
theorem onGrid?_seventeen (hx : x.Canonical) (hpos : 0 < x.mantissa)
    (hpoint : 10 ^ (point - 1) ≤ x.magnitude) :
    (Rounding.of x).onGrid? tie point 17 ≠ none := by
  apply onGrid?_ne_none hpos
  obtain ⟨hlow, hhigh⟩ := gridBelow_between x (point - (17 : Nat))
  have hstep : (10 : ℚ) ^ (point - (17 : Nat)) * 10 ^ 16 ≤ x.magnitude := by
    rw [← zpow_natCast, ← zpow_add₀ (by norm_num)]
    convert hpoint using 2
    push_cast
    ring
  have hten := ten_zpow_pos (point - (17 : Nat))
  generalize (10 : ℚ) ^ (point - (17 : Nat)) = step at *
  generalize (gridBelow x (point - (17 : Nat)) : ℚ) = a at *
  rw [add_one_mul] at hhigh ⊢
  by_cases hnear : x.magnitude - step / 2 ≤ a * step
  · exact Or.inl (attracts_of_near hx hpos hstep hnear (by linarith))
  · exact Or.inr (attracts_of_near hx hpos hstep (by linarith) (by linarith))

end Grid

/-! ## The position of the point -/

section Point

theorem le_leadingZeros {num den : Nat} (fuel : Nat) (h : den ≤ num * 10 ^ fuel) :
    den ≤ num * 10 ^ leadingZeros num den fuel := by
  induction fuel generalizing num with
  | zero => simpa [leadingZeros] using h
  | succ fuel ih =>
    rw [leadingZeros]
    by_cases hle : den ≤ num
    · rw [if_pos hle]
      simpa using hle
    · rw [if_neg hle, Nat.pow_succ', ← Nat.mul_assoc]
      apply ih
      rw [Nat.mul_assoc, ← Nat.pow_succ']
      exact h

theorem pow_length_le {n : Nat} (hn : 0 < n) : 10 ^ ((Nat.toDigits 10 n).length - 1) ≤ n := by
  have hpos : 0 < (Nat.toDigits 10 n).length := Nat.length_toDigits_pos
  by_cases hone : (Nat.toDigits 10 n).length - 1 = 0
  · rw [hone]
    exact hn
  · by_contra hlt
    have hle := (Nat.length_toDigits_le_iff (by decide) (Nat.pos_of_ne_zero hone)).mpr
      (not_le.mp hlt)
    omega

theorem pointPosition_le {num den : Nat} (hden : 0 < den) (h : den ≤ num * 10 ^ 400) :
    (10 : ℚ) ^ (pointPosition num den - 1) ≤ num / den := by
  have hden' : (0 : ℚ) < den := by exact_mod_cast hden
  rw [pointPosition, le_div_iff₀ hden']
  by_cases hle : den ≤ num
  · have hpos : 0 < (Nat.toDigits 10 (num / den)).length := Nat.length_toDigits_pos
    have hpow := pow_length_le (Nat.div_pos hle hden)
    have hmul := (Nat.le_div_iff_mul_le hden).mp hpow
    have hexponent : ((Nat.toDigits 10 (num / den)).length : Int) - 1 =
        ((Nat.toDigits 10 (num / den)).length - 1 : Nat) := by omega
    rw [if_pos hle, hexponent, zpow_natCast]
    exact_mod_cast hmul
  · have hzeros := le_leadingZeros 400 h
    have hexponent : 1 - (leadingZeros num den 400 : Int) - 1 = -(leadingZeros num den 400) := by
      omega
    rw [if_neg hle, hexponent, zpow_neg, zpow_natCast, inv_mul_le_iff₀ (by positivity),
      mul_comm]
    exact_mod_cast hzeros

theorem two_pow_le_ten_pow {k n : Nat} (h : k ≤ 3 * n) : 2 ^ k ≤ 10 ^ n :=
  calc
    2 ^ k ≤ 2 ^ (3 * n) := Nat.pow_le_pow_right Nat.two_pos h
    _ = (2 ^ 3) ^ n := Nat.pow_mul ..
    _ ≤ 10 ^ n := Nat.pow_le_pow_left (by decide) n

theorem pointPosition_magnitude {x : Binary64} (hx : x.Canonical) (hpos : 0 < x.mantissa) :
    (10 : ℚ) ^ (pointPosition (Rounding.of x).mid (Rounding.of x).den - 1) ≤ x.magnitude := by
  rw [← Rounding.mid_eq]
  apply pointPosition_le (Rounding.den_pos x)
  have hmin := hx.min_le
  have hup := (powerParts_pos Nat.two_pos (x.exponent - 2)).1
  have hden : (Rounding.of x).den ≤ 10 ^ 400 := by
    rw [Rounding.of_eq]
    dsimp only
    rw [powerParts_snd]
    apply two_pow_le_ten_pow
    rw [Binary64.minExponent] at hmin
    omega
  have hmid : 1 ≤ (Rounding.of x).mid := by
    rw [Rounding.of_eq]
    exact Nat.mul_pos (Nat.mul_pos (by decide) hpos) hup
  exact hden.trans (Nat.le_mul_of_pos_left _ hmid)

end Point

/-! ## The shortest decimal -/

section Shortest

variable {x : Binary64}

theorem stripZeros_value (fuel digits : Nat) (exponent : Int) :
    ((stripZeros digits exponent fuel).1 * 10 ^ (stripZeros digits exponent fuel).2 : ℚ) =
      digits * 10 ^ exponent := by
  induction fuel generalizing digits exponent with
  | zero => rfl
  | succ fuel ih =>
    rw [stripZeros]
    by_cases hzero : digits ≠ 0 ∧ digits % 10 = 0
    · have hdigits : (digits : ℚ) = 10 * (digits / 10 : Nat) := by
        exact_mod_cast (Nat.mul_div_cancel' (Nat.dvd_of_mod_eq_zero hzero.2)).symm
      rw [if_pos hzero, ih, zpow_add_one₀ (by norm_num), hdigits]
      ring
    · rw [if_neg hzero]

def Scientific.magnitude (d : Scientific) : ℚ := d.digits * 10 ^ d.exponent

/-- The shortest decimal of a number is attracted by the number. -/
theorem attracts_shortest (tie : Tie) (hx : x.Canonical) (hpos : 0 < x.mantissa) :
    (shortest tie x).negative = x.negative ∧ x.Attracts (shortest tie x).magnitude := by
  -- The last grid of the search has seventeen digits.
  have hsome : (List.range 17).findSome? (fun n => (Rounding.of x).onGrid? tie
      (pointPosition (Rounding.of x).mid (Rounding.of x).den) (n + 1)) ≠ none := by
    intro hnone
    rw [List.findSome?_eq_none_iff] at hnone
    exact onGrid?_seventeen hx hpos (pointPosition_magnitude hx hpos)
      (hnone 16 (List.mem_range.mpr (by decide)))
  obtain ⟨⟨digits, exponent⟩, hfound⟩ := Option.ne_none_iff_exists'.mp hsome
  obtain ⟨n, -, hgrid⟩ := List.exists_of_findSome?_eq_some hfound
  have hattracts := attracts_of_onGrid? hpos hgrid
  rw [← stripZeros_value 20 digits exponent] at hattracts
  rw [shortest, if_neg hpos.ne']
  simp only [hfound]
  exact ⟨trivial, hattracts⟩

/-- Only zero has no digits but zero, and then there is no exponent. -/
theorem exponent_shortest_of_digits_eq_zero (tie : Tie) (x : Binary64)
    (h : (shortest tie x).digits = 0) : (shortest tie x).exponent = 0 := by
  rw [shortest] at h ⊢
  by_cases hzero : x.mantissa = 0
  · rw [if_pos hzero]
  · rw [if_neg hzero] at h ⊢
    dsimp only at h ⊢
    split at h
    · rename_i digits exponent hfound
      obtain ⟨n, -, hgrid⟩ := List.exists_of_findSome?_eq_some hfound
      have hpos := Nat.pos_of_ne_zero hzero
      have hvalue := (attracts_of_onGrid? hpos hgrid).pos hpos
      rw [← stripZeros_value 20 digits exponent] at hvalue
      dsimp only at h
      rw [h, Nat.cast_zero, zero_mul] at hvalue
      exact absurd hvalue (lt_irrefl 0)
    · rfl

end Shortest

end Courseware.Decimal
