import Courseware.Text.Utf8

/-!
The fields of archive records: numbers in little-endian bytes and blocks of bytes, written one after the
other and read in the same order.
-/

namespace Courseware.Zip

/-- A number of two bytes; what is beyond `2^16` is lost. -/
def le16 (n : Nat) : Bytes := [UInt8.ofNat n, UInt8.ofNat (n / 256)]

/-- A number of four bytes; what is beyond `2^32` is lost. -/
def le32 (n : Nat) : Bytes := le16 n ++ le16 (n / 65536)

/-- Reads fields from the start of some bytes; there is no result when the bytes end too early. -/
abbrev FieldReader := StateT Bytes Option

def byte : FieldReader Nat := fun
  | a :: rest => some (a.toNat, rest)
  | _ => none

/-- A number of two bytes. -/
def word16 : FieldReader Nat := do
  let a ← byte
  let b ← byte
  return a + 256 * b

/-- A number of four bytes. -/
def word32 : FieldReader Nat := do
  let a ← word16
  let b ← word16
  return a + 65536 * b

/-- A number of eight bytes. -/
def word64 : FieldReader Nat := do
  let a ← word32
  let b ← word32
  return a + 4294967296 * b

def block (length : Nat) : FieldReader Bytes := fun bytes =>
  let taken := bytes.take length
  if taken.length = length then some (taken, bytes.drop length) else none

theorem word16_le16_append {n : Nat} (h : n < 65536) (rest : Bytes) :
    word16 (le16 n ++ rest) = some (n, rest) := by
  have h₁ : (UInt8.ofNat n).toNat = n % 256 := by simp
  have h₂ : (UInt8.ofNat (n / 256)).toNat = n / 256 := by
    simp
    omega
  have h₃ : word16 (le16 n ++ rest) =
      some ((UInt8.ofNat n).toNat + 256 * (UInt8.ofNat (n / 256)).toNat, rest) := rfl
  have hsum : n % 256 + 256 * (n / 256) = n := Nat.mod_add_div n 256
  rw [h₃, h₁, h₂, hsum]

theorem word32_le32_append {n : Nat} (h : n < 4294967296) (rest : Bytes) :
    word32 (le32 n ++ rest) = some (n, rest) := by
  have h₁ : ∀ r : Bytes, word16 (le16 n ++ r) = some (n % 65536, r) := by
    intro r
    have hmod : le16 n = le16 (n % 65536) := by
      simp only [le16, List.cons.injEq, and_true]
      constructor
      · apply UInt8.toNat.inj
        simp
      · apply UInt8.toNat.inj
        simp
        omega
    rw [hmod]
    exact word16_le16_append (by omega) r
  have h₂ : word16 (le16 (n / 65536) ++ rest) = some (n / 65536, rest) :=
    word16_le16_append (by omega) rest
  have hbind : ∀ bytes : Bytes,
      word32 bytes = (word16 bytes).bind fun a => (word16 a.2).bind fun b =>
        some (a.1 + 65536 * b.1, b.2) := fun _ => rfl
  have hsum : n % 65536 + 65536 * (n / 65536) = n := Nat.mod_add_div n 65536
  rw [hbind, le32, List.append_assoc, h₁, Option.bind_some, h₂, Option.bind_some, hsum]

end Courseware.Zip
