import Courseware.Decimal.Binary64

/-!
The shortest decimal of a floating-point number: the fewest digits that read back as the number, and
of those the nearest to it. For each number of digits the two neighbours of the number on the decimal
grid are tested against the interval of the reals that round to the number. Two neighbours may be equally
near, as `1125899906842624.2` and `1125899906842624.3` are to the number between them.
-/

namespace Courseware.Decimal

/-- A decimal number `± digits · 10^exponent`. -/
structure Scientific where
  negative : Bool
  digits : Nat
  exponent : Int
  deriving DecidableEq, Repr

/-- Which of two decimals that are equally near to a number is taken. -/
inductive Tie
  /-- The one with an even last digit. -/
  | toEven
  /-- The one of greater magnitude. -/
  | away
  deriving DecidableEq, Repr

/-- The reals that round to a number, between `low / den` and `high / den`; the ends belong to it
when `closed`. The number itself is `mid / den`. -/
structure Rounding where
  low : Nat
  mid : Nat
  high : Nat
  den : Nat
  closed : Bool

/-- The interval of a nonzero number. Below a power of two the gap is half as wide. -/
def Rounding.of (x : Binary64) : Rounding :=
  let m := x.mantissa
  let below := if m = Binary64.leastNormal ∧ Binary64.minExponent < x.exponent then 1 else 2
  let e := x.exponent - 2
  let (scale, den) := if 0 ≤ e then (Nat.pow 2 e.toNat, 1) else (1, Nat.pow 2 (-e).toNat)
  ⟨(4 * m - below) * scale, 4 * m * scale, (4 * m + 2) * scale, den, m % 2 = 0⟩

/-- Whether `n / d` lies in the interval. -/
def Rounding.contains (r : Rounding) (n d : Nat) : Bool :=
  let p := n * r.den
  if r.closed then r.low * d ≤ p && p ≤ r.high * d
  else r.low * d < p && p < r.high * d

/-- How many times `num` is multiplied by ten before it reaches `den`, at most `fuel` times. -/
def leadingZeros (num den : Nat) : (fuel : Nat) → Nat
  | 0 => 0
  | fuel + 1 => if den ≤ num then 0 else leadingZeros (num * 10) den fuel + 1

/-- The number of digits before the decimal point of `num / den`; it is zero or negative for a
number below one. -/
def pointPosition (num den : Nat) : Int :=
  if den ≤ num then (Nat.toDigits 10 (num / den)).length
  else 1 - (leadingZeros num den 400 : Nat)

/-- The decimal with `count` significant digits that is nearest to the number and in its interval,
if there is one. -/
def Rounding.onGrid? (r : Rounding) (tie : Tie) (point : Int) (count : Nat) : Option (Nat × Int) :=
  let e : Int := point - count
  let (up, down) := if 0 ≤ e then (Nat.pow 10 e.toNat, 1) else (1, Nat.pow 10 (-e).toNat)
  let a := r.mid * down / (r.den * up)
  let fitsBelow := r.contains (a * up) down
  let fitsAbove := r.contains ((a + 1) * up) down
  let toBelow := r.mid * down - a * up * r.den
  let toAbove := (a + 1) * up * r.den - r.mid * down
  let tieBelow := tie == .toEven && a % 2 == 0
  if fitsBelow && (!fitsAbove || toBelow < toAbove || (toBelow == toAbove && tieBelow)) then
    some (a, e)
  else if fitsAbove then some (a + 1, e)
  else none

/-- Moves the zeros at the end of the digits into the exponent. -/
def stripZeros (digits : Nat) (exponent : Int) : (fuel : Nat) → Nat × Int
  | 0 => (digits, exponent)
  | fuel + 1 =>
    if digits ≠ 0 ∧ digits % 10 = 0 then stripZeros (digits / 10) (exponent + 1) fuel
    else (digits, exponent)

/-- The shortest decimal of a number. Seventeen digits always suffice. -/
def shortest (tie : Tie) (x : Binary64) : Scientific :=
  if x.mantissa = 0 then ⟨x.negative, 0, 0⟩
  else
    let r := Rounding.of x
    let point := pointPosition r.mid r.den
    match (List.range 17).findSome? fun n => r.onGrid? tie point (n + 1) with
    | some (digits, exponent) =>
      let (digits, exponent) := stripZeros digits exponent 20
      ⟨x.negative, digits, exponent⟩
    | none => ⟨x.negative, 0, 0⟩

def Scientific.sign (d : Scientific) : String :=
  if d.negative then "-" else ""

/-- A decimal in positional notation, without an exponent; `whole` follows the digits of a whole
number. -/
def Scientific.positional (d : Scientific) (whole : String) : String :=
  let ds := Nat.toDigits 10 d.digits
  let zeros (n : Nat) : String := String.ofList (List.replicate n '0')
  let point : Int := ds.length + d.exponent
  if 0 ≤ d.exponent then
    d.sign ++ String.ofList ds ++ zeros d.exponent.toNat ++ whole
  else if 0 < point then
    d.sign ++ String.ofList (ds.take point.toNat) ++ "." ++ String.ofList (ds.drop point.toNat)
  else d.sign ++ "0." ++ zeros (-point).toNat ++ String.ofList ds

/-- A decimal with one digit before the point and a signed exponent. -/
def Scientific.exponential (d : Scientific) : String :=
  let ds := Nat.toDigits 10 d.digits
  let e : Int := ds.length + d.exponent - 1
  let tail := if ds.length ≤ 1 then "" else "." ++ String.ofList (ds.drop 1)
  let mark := if e < 0 then "e-" else "e+"
  d.sign ++ String.ofList (ds.take 1) ++ tail ++ mark ++ toString e.natAbs

/-- How numbers are written in text: always positional, a whole number without a point. A tie goes away from
zero. -/
def plainText (x : Binary64) : String :=
  (shortest .away x).positional ""

/-- How numbers are written in data: positional from `10^-5` up to `10^16`, a whole number ending in
`.0`, and with an exponent beyond. A tie goes to the even digit. -/
def dataText (x : Binary64) : String :=
  let d := shortest .toEven x
  let point : Int := (Nat.toDigits 10 d.digits).length + d.exponent
  if d.digits = 0 then d.positional ".0"
  else if -5 < point ∧ point ≤ 16 then d.positional ".0"
  else d.exponential

end Courseware.Decimal
