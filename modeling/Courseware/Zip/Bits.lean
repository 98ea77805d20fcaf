import Courseware.Text.Utf8

/-!
Bytes as bits. A compressed stream is a list of bits that fills each byte from its lowest bit on.
-/

namespace Courseware.Zip

/-- The lowest bits of a number, the lowest first. -/
def bitsOfNat : (width n : Nat) → List Bool
  | 0, _ => []
  | width + 1, n => (n % 2 == 1) :: bitsOfNat width (n / 2)

/-- The number that bits spell, the lowest first. -/
def natOfBits : List Bool → Nat
  | [] => 0
  | b :: bs => b.toNat + 2 * natOfBits bs

def bitsOfBytes (bytes : Bytes) : List Bool :=
  bytes.flatMap fun b => bitsOfNat 8 b.toNat

/-- The bytes that bits fill; the last one is filled up with zeros. -/
def bytesOfBits : List Bool → Bytes
  | [] => []
  | b₀ :: b₁ :: b₂ :: b₃ :: b₄ :: b₅ :: b₆ :: b₇ :: rest =>
    UInt8.ofNat (natOfBits [b₀, b₁, b₂, b₃, b₄, b₅, b₆, b₇]) :: bytesOfBits rest
  | bits => [UInt8.ofNat (natOfBits bits)]

@[simp] theorem length_bitsOfNat (width n : Nat) : (bitsOfNat width n).length = width := by
  induction width generalizing n with
  | zero => rfl
  | succ width ih => simp [bitsOfNat, ih]

theorem natOfBits_bitsOfNat {width n : Nat} (h : n < Nat.pow 2 width) :
    natOfBits (bitsOfNat width n) = n := by
  induction width generalizing n with
  | zero =>
    have hzero : n = 0 := Nat.lt_one_iff.mp h
    subst hzero
    rfl
  | succ width ih =>
    have hdouble : Nat.pow 2 (width + 1) = Nat.pow 2 width * 2 := rfl
    have hhalf : n / 2 < Nat.pow 2 width := by
      rw [hdouble] at h
      omega
    simp only [bitsOfNat, natOfBits, ih hhalf]
    rcases Nat.mod_two_eq_zero_or_one n with h2 | h2 <;> simp [h2] <;> omega

end Courseware.Zip
