import Mathlib.Algebra.Order.Field.Rat
import Mathlib.Tactic.FieldSimp
import Mathlib.Tactic.Ring
import Courseware.Proofs.Time.Duration
import Courseware.Decimal.Shortest

/-!
# The numbers that decimals tell

A decimal without a sign tells a rational number. A percentage is written as a decimal that
tells exactly that percentage, as text and as data, and the floating-point number that it
stands for is the one nearest to it.
-/

namespace Courseware.Decimal

/-! ## Reading -/

/-- The natural number that digits tell; no digits tell zero. -/
def digits? (cs : List Char) : Option Nat :=
  if cs.all Char.isDigit then some (Nat.ofDigitChars 10 cs 0) else none

theorem all_isDigit_of_digits? {cs : List Char} {n : Nat} (h : digits? cs = some n) :
    cs.all Char.isDigit = true := by
  rw [digits?] at h
  split at h
  · assumption
  · cases h

theorem digits?_append {cs ds : List Char} {n : Nat} (h : digits? (cs ++ ds) = some n) :
    ∃ a b, digits? cs = some a ∧ digits? ds = some b ∧ n = 10 ^ ds.length * a + b := by
  rw [digits?] at h
  split at h
  · rename_i hdigits
    obtain ⟨hcs, hds⟩ := Bool.and_eq_true_iff.mp (List.all_append ▸ hdigits)
    refine ⟨_, _, if_pos hcs, if_pos hds, ?_⟩
    rw [← Option.some.inj h, Nat.ofDigitChars_append, Nat.ofDigitChars_eq_ofDigitChars_zero]
  · cases h

theorem digits?_append_eq {cs ds : List Char} {a b : Nat} (hcs : digits? cs = some a)
    (hds : digits? ds = some b) : digits? (cs ++ ds) = some (10 ^ ds.length * a + b) := by
  have hall : (cs ++ ds).all Char.isDigit = true := by
    rw [List.all_append, all_isDigit_of_digits? hcs, all_isDigit_of_digits? hds, Bool.and_true]
  obtain ⟨a', b', hcs', hds', heq⟩ := digits?_append (if_pos hall)
  rw [hcs] at hcs'
  rw [hds] at hds'
  obtain rfl := Option.some.inj hcs'
  obtain rfl := Option.some.inj hds'
  rw [digits?, if_pos hall, heq]

theorem forall_ne_point {cs : List Char} {n : Nat} (h : digits? cs = some n) :
    ∀ c ∈ cs, c ≠ '.' := by
  rintro c hc rfl
  have hdigit := List.all_eq_true.mp (all_isDigit_of_digits? h) '.' hc
  exact absurd hdigit (by decide)

theorem digits?_zeros (k : Nat) : digits? (List.replicate k '0') = some 0 := by
  have hall : (List.replicate k '0').all Char.isDigit = true := by
    rw [List.all_eq_true]
    intro c hc
    rw [List.eq_of_mem_replicate hc]
    rfl
  rw [digits?, if_pos hall, Nat.ofDigitChars_replicate_zero, Nat.mul_zero]

/-- The number that a decimal tells: digits with a point among them, or none. -/
def value? (s : String) : Option ℚ := do
  let (whole, places) := Time.cutAt '.' s.toList
  let n ← digits? whole
  let k ← digits? places
  return n + k / 10 ^ places.length

/-- Digits that tell a number, read as digits of any kind. -/
theorem digits?_of_number? {cs : List Char} {n : Nat} (h : Time.number? cs = some n) :
    digits? cs = some n := by
  rw [Time.number?] at h
  split at h
  · rename_i hdigits
    rw [digits?, if_pos hdigits.2, h]
  · cases h

/-- Digits without a point tell a whole number. -/
theorem value?_of_whole {s : String} {n : Nat} (h : digits? s.toList = some n) :
    value? s = some (n : ℚ) := by
  have hnone : digits? [] = some 0 := digits?_zeros 0
  simp [value?, Time.cutAt_of_forall_ne (forall_ne_point h), h, hnone]

/-- A whole number is a decimal. -/
theorem value?_of_number? {s : String} {n : Nat} (h : Time.number? s.toList = some n) :
    value? s = some (n : ℚ) :=
  value?_of_whole (digits?_of_number? h)

/-- Two places of a decimal are a percentage. -/
theorem hundred_mul_eq {places zeros n m : Nat} (h : 2 = places + zeros) :
    (100 : ℚ) * (n + m / 10 ^ places) =
      ((10 ^ (places + zeros) * n + 10 ^ zeros * m : Nat) : ℚ) := by
  have hscale : (100 : ℚ) = 10 ^ places * 10 ^ zeros := by
    rw [← pow_add, ← h]
    norm_num
  rw [hscale]
  push_cast
  field_simp
  ring

/-- The floating-point number nearest to a rational one. -/
def Binary64.nearest? (q : ℚ) : Option Binary64 :=
  ofRatio? (q < 0) q.num.natAbs q.den

/-! ## Percentages -/

section Percent

variable {percent : Nat}

theorem value?_plainText (h : percent ≤ 100) :
    value? (plainText (.ofPercent percent)) = some (percent / 100 : ℚ) := by
  have hall : ∀ n : Nat, n < 101 → value? (plainText (.ofPercent n)) = some (n / 100 : ℚ) := by
    decide +kernel
  exact hall percent (Nat.lt_succ_of_le h)

theorem value?_dataText (h : percent ≤ 100) :
    value? (dataText (.ofPercent percent)) = some (percent / 100 : ℚ) := by
  have hall : ∀ n : Nat, n < 101 → value? (dataText (.ofPercent n)) = some (n / 100 : ℚ) := by
    decide +kernel
  exact hall percent (Nat.lt_succ_of_le h)

theorem nearest?_percent (h : percent ≤ 100) :
    Binary64.nearest? (percent / 100 : ℚ) = some (.ofPercent percent) := by
  have hall : ∀ n : Nat, n < 101 → Binary64.nearest? (n / 100 : ℚ) = some (.ofPercent n) := by
    decide +kernel
  exact hall percent (Nat.lt_succ_of_le h)

end Percent

end Courseware.Decimal
