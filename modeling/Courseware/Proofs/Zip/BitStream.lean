import Courseware.Zip.Inflate
import Mathlib.Algebra.Group.Nat.Defs

/-!
# Bit streams

Bits that are packed into bytes come back, followed by the zeros that fill
the last byte, and a number is read back from the bits that spell it.
-/

namespace Courseware.Zip

/-! ## Bytes -/

theorem natOfBits_lt (bits : List Bool) :
    natOfBits bits < 2 ^ bits.length := by
  induction bits with
  | nil => simp [natOfBits]
  | cons b bits ih =>
    have hb : b.toNat ≤ 1 := Bool.toNat_le b
    simp only [natOfBits, List.length_cons, Nat.pow_succ]
    omega

/-- A number spelled in more bits than it was made of ends in zeros. -/
theorem bitsOfNat_natOfBits (bits : List Bool) (more : Nat) :
    bitsOfNat (bits.length + more) (natOfBits bits) =
      bits ++ List.replicate more false := by
  induction bits with
  | nil =>
    simp only [List.length_nil, Nat.zero_add, natOfBits, List.nil_append]
    induction more with
    | zero => rfl
    | succ more ih => simp [bitsOfNat, ih, List.replicate_succ]
  | cons b bits ih =>
    have hsum : (b :: bits).length + more = bits.length + more + 1 := by
      simp only [List.length_cons]
      omega
    have hhalf : (b.toNat + 2 * natOfBits bits) / 2 = natOfBits bits := by
      have hb : b.toNat ≤ 1 := Bool.toNat_le b
      omega
    have hlow : ((b.toNat + 2 * natOfBits bits) % 2 == 1) = b := by
      cases b <;> simp
    rw [hsum, bitsOfNat, natOfBits, hhalf, hlow, ih, List.cons_append]

/-- A byte that holds at most eight bits gives them back. -/
theorem bitsOfNat_byte {bits : List Bool} (h : bits.length ≤ 8) :
    bitsOfNat 8 (UInt8.ofNat (natOfBits bits)).toNat =
      bits ++ List.replicate (8 - bits.length) false := by
  have hlt : natOfBits bits < 256 :=
    Nat.lt_of_lt_of_le (natOfBits_lt bits)
      (Nat.pow_le_pow_right (by decide) h : 2 ^ bits.length ≤ 2 ^ 8)
  have hbyte : (UInt8.ofNat (natOfBits bits)).toNat = natOfBits bits := by
    simp only [UInt8.toNat_ofNat']
    omega
  have hspelled := bitsOfNat_natOfBits bits (8 - bits.length)
  rwa [Nat.add_sub_cancel' h, ← hbyte] at hspelled

/-- Bits come back from the bytes that they fill, and zeros may follow. -/
theorem bitsOfBytes_bytesOfBits (bits : List Bool) :
    ∃ padding, bitsOfBytes (bytesOfBits bits) = bits ++ padding := by
  fun_induction bytesOfBits bits with
  | case1 => exact ⟨[], rfl⟩
  | case2 b₀ b₁ b₂ b₃ b₄ b₅ b₆ b₇ rest ih =>
    obtain ⟨padding, h⟩ := ih
    refine ⟨padding, ?_⟩
    have hbyte := bitsOfNat_byte (show [b₀, b₁, b₂, b₃, b₄, b₅, b₆, b₇].length ≤ 8 by simp)
    simp only [bitsOfBytes] at h
    simp only [bitsOfBytes, List.flatMap_cons, h, hbyte]
    simp
  | case3 bits hne hshort =>
    have hlen : bits.length ≤ 8 := by
      match bits, hshort with
      | b₀ :: b₁ :: b₂ :: b₃ :: b₄ :: b₅ :: b₆ :: b₇ :: rest, hshort =>
        exact absurd rfl (hshort b₀ b₁ b₂ b₃ b₄ b₅ b₆ b₇ rest)
      | [], _ | [_], _ | [_, _], _ | [_, _, _], _ | [_, _, _, _], _ => simp
      | [_, _, _, _, _], _ | [_, _, _, _, _, _], _ | [_, _, _, _, _, _, _], _ => simp
    refine ⟨List.replicate (8 - bits.length) false, ?_⟩
    simp only [bitsOfBytes, List.flatMap_cons, List.flatMap_nil, List.append_nil]
    exact bitsOfNat_byte hlen

/-! ## Numbers -/

/-- A number is read back from as many bits as it was spelled in. -/
theorem takeBits_bitsOfNat {width n : Nat} (h : n < 2 ^ width) (rest : List Bool) :
    takeBits width (bitsOfNat width n ++ rest) = some (n, rest) := by
  have hlen := length_bitsOfNat width n
  have htake : (bitsOfNat width n ++ rest).take width = bitsOfNat width n := by
    rw [List.take_append_of_le_length (by omega), List.take_of_length_le (by omega)]
  have hdrop : (bitsOfNat width n ++ rest).drop width = rest := by
    rw [List.drop_append_of_le_length (by omega), List.drop_of_length_le (by omega),
      List.nil_append]
  simp only [takeBits, htake, hdrop, hlen, if_true]
  rw [natOfBits_bitsOfNat h]

end Courseware.Zip
