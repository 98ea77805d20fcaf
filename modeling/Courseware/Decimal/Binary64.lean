/-!
Binary floating-point numbers of 64 bits, as exact values. A finite number is `± mantissa · 2^exponent`;
operations compute the exact result and round it to the nearest representable number, a tie going
to the even mantissa.
-/

namespace Courseware.Decimal

/-- The nearest integer to `num / den`; a tie goes to the even one. -/
def roundHalfEven (num den : Nat) : Nat :=
  let q := num / den
  let r := num % den
  if 2 * r < den then q
  else if den < 2 * r then q + 1
  else if q % 2 = 0 then q else q + 1

/-- A finite number of 64 bits. A normal number has a mantissa from `2^52` up to `2^53`; below that,
the exponent is `-1074`. -/
structure Binary64 where
  negative : Bool
  mantissa : Nat
  exponent : Int
  deriving DecidableEq, Repr

namespace Binary64

/-- The least exponent. -/
def minExponent : Int := -1074

/-- The greatest exponent. -/
def maxExponent : Int := 971

/-- The least mantissa of a normal number, `2^52`. -/
def leastNormal : Nat := 4503599627370496

/-- What every mantissa is below, `2^53`. -/
def mantissaLimit : Nat := 9007199254740992

def zero (negative : Bool) : Binary64 := ⟨negative, 0, minExponent⟩

/-- Whether the number is zero of either sign. -/
def isZero (x : Binary64) : Bool := x.mantissa == 0

/-- The quotient `num / (den · 2^e)` as a fraction of natural numbers. -/
def scaled (num den : Nat) (e : Int) : Nat × Nat :=
  if 0 ≤ e then (num, den * Nat.pow 2 e.toNat) else (num * Nat.pow 2 (-e).toNat, den)

/-- The exponent with which the mantissa of `num / den` has 53 bits, but not less than the least
exponent. -/
def exponentFor (num den : Nat) : Int :=
  let e : Int := (Nat.log2 num : Int) - Nat.log2 den - 53
  let (n, d) := scaled num den e
  let e := if mantissaLimit ≤ n / d then e + 1 else e
  if e < minExponent then minExponent else e

/-- The number nearest to `± num / den`; `none` when it is beyond the greatest finite number. -/
def ofRatio? (negative : Bool) (num den : Nat) : Option Binary64 :=
  if num = 0 then some (zero negative)
  else
    let e := exponentFor num den
    let (n, d) := scaled num den e
    let m := roundHalfEven n d
    let (m, e) := if m = mantissaLimit then (leastNormal, e + 1) else (m, e)
    if maxExponent < e then none else some ⟨negative, m, e⟩

/-- The magnitude as a fraction of natural numbers. -/
def fraction (x : Binary64) : Nat × Nat :=
  if 0 ≤ x.exponent then (x.mantissa * Nat.pow 2 x.exponent.toNat, 1)
  else (x.mantissa, Nat.pow 2 (-x.exponent).toNat)

/-- The product of the magnitude with a natural number that is rounded first. -/
def mulNat? (x : Binary64) (factor : Nat) : Option Binary64 :=
  match ofRatio? false factor 1 with
  | none => none
  | some y =>
    let (n, d) := x.fraction
    let (k, l) := y.fraction
    ofRatio? x.negative (n * k) (d * l)

/-- The quotient of the magnitude by a natural number that is rounded first. -/
def divNat? (x : Binary64) (divisor : Nat) : Option Binary64 :=
  match ofRatio? false divisor 1 with
  | none => none
  | some y =>
    let (n, d) := x.fraction
    let (k, l) := y.fraction
    ofRatio? x.negative (n * l) (d * k)

/-- A percentage as a number between zero and one. -/
def ofPercent (percent : Nat) : Binary64 :=
  (ofRatio? false percent 100).getD (zero false)

end Binary64

end Courseware.Decimal
