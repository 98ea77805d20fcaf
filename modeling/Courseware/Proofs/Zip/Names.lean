import Courseware.Package.Archive
import Courseware.Zip.Entry
import Mathlib.Algebra.Order.Group.Nat
import Mathlib.Algebra.Ring.Nat

/-!
# Names of entries

A name is read back from its bytes, which are UTF-8 if the entry says so and code page 437
otherwise; and names are in the order of their bytes when they are in that of their
characters.
-/

namespace Courseware.Zip

/-! ## Characters in UTF-8 -/

/-- The bytes that follow the first one of a character, with six bits of its number in each. -/
def tailBytes : (count n : Nat) → Bytes
  | 0, _ => []
  | count + 1, n => tailBytes count (n / 64) ++ [UInt8.ofNat (n % 64 + 128)]

/-- How many bytes follow the first one of the character with a number. -/
def tailCount (n : Nat) : Nat :=
  if n < 128 then 0 else if n < 2048 then 1 else if n < 65536 then 2 else 3

/-- What the first byte of a character is marked with, by the number of bytes behind it. -/
def leadMark : Nat → Nat
  | 0 => 0
  | 1 => 192
  | 2 => 224
  | _ => 240

/-- The first byte of the character with a number. -/
def leadByte (n : Nat) : Nat :=
  leadMark (tailCount n) + n / 64 ^ tailCount n

theorem char_toNat_lt (c : Char) : c.toNat < 1114112 := by
  have hvalid := c.valid
  simp only [UInt32.isValidChar, Nat.isValidChar] at hvalid
  change c.val.toNat < 1114112
  omega

/-- A number is in one of four ranges, which say how many bytes follow the first one. -/
theorem tailCount_cases (n : Nat) :
    (tailCount n = 0 ∧ n < 128) ∨ (tailCount n = 1 ∧ 128 ≤ n ∧ n < 2048) ∨
      (tailCount n = 2 ∧ 2048 ≤ n ∧ n < 65536) ∨ (tailCount n = 3 ∧ 65536 ≤ n) := by
  unfold tailCount
  split_ifs <;> omega

theorem utf8EncodeChar_eq (c : Char) : String.utf8EncodeChar c =
    UInt8.ofNat (leadByte c.toNat) :: tailBytes (tailCount c.toNat) c.toNat := by
  have hlt := char_toNat_lt c
  have hval : c.val.toNat = c.toNat := rfl
  rcases tailCount_cases c.toNat with ⟨hcount, h⟩ | ⟨hcount, h, h'⟩ | ⟨hcount, h, h'⟩ |
    ⟨hcount, h⟩
  · simp [leadByte, hcount, String.utf8EncodeChar, hval, show c.toNat ≤ 127 by omega, tailBytes,
      leadMark]
  · have hlead : c.toNat / 64 % 32 + 192 = 192 + c.toNat / 64 := by omega
    simp [leadByte, hcount, String.utf8EncodeChar, hval, show ¬ c.toNat ≤ 127 by omega,
      show c.toNat ≤ 2047 by omega, tailBytes, leadMark, hlead]
  · have hlead : c.toNat / 4096 % 16 + 224 = 224 + c.toNat / 4096 := by omega
    simp [leadByte, hcount, String.utf8EncodeChar, hval, show ¬ c.toNat ≤ 127 by omega,
      show ¬ c.toNat ≤ 2047 by omega, show c.toNat ≤ 65535 by omega, tailBytes, leadMark, hlead]
  · have hlead : c.toNat / 262144 % 8 + 240 = 240 + c.toNat / 262144 := by omega
    have hsecond : c.toNat / 64 / 64 % 64 = c.toNat / 4096 % 64 := by omega
    simp [leadByte, hcount, String.utf8EncodeChar, hval, show ¬ c.toNat ≤ 127 by omega,
      show ¬ c.toNat ≤ 2047 by omega, show ¬ c.toNat ≤ 65535 by omega, tailBytes, leadMark, hlead,
      hsecond]

/-! ## Order -/

theorem leadByte_lt (c : Char) : leadByte c.toNat < 256 := by
  have hlt := char_toNat_lt c
  rcases tailCount_cases c.toNat with ⟨hcount, h⟩ | ⟨hcount, h, h'⟩ | ⟨hcount, h, h'⟩ |
    ⟨hcount, h⟩
  all_goals
    simp only [leadByte, hcount, leadMark]
    omega

theorem cons_ofNat_lt {a b : Nat} (h : a < b) (hb : b < 256) (r s : Bytes) :
    UInt8.ofNat a :: r < UInt8.ofNat b :: s := by
  refine List.cons_lt_cons_iff.mpr (Or.inl ?_)
  rw [UInt8.lt_iff_toNat_lt, UInt8.toNat_ofNat', UInt8.toNat_ofNat']
  omega

theorem append_lt_append {r s : Bytes} (h : r < s) (front : Bytes) : front ++ r < front ++ s := by
  induction front with
  | nil => exact h
  | cons b front ih => exact List.cons_lt_cons_iff.mpr (Or.inr ⟨rfl, ih⟩)

/-- Of two characters with the same first byte the lower one has the lower bytes behind it. -/
theorem tailBytes_lt {count n m : Nat} (h : n < m) (hlead : n / 64 ^ count = m / 64 ^ count)
    (r s : Bytes) : tailBytes count n ++ r < tailBytes count m ++ s := by
  induction count generalizing n m r s with
  | zero =>
    simp only [Nat.pow_zero, Nat.div_one] at hlead
    omega
  | succ count ih =>
    rw [tailBytes, tailBytes, List.append_assoc, List.append_assoc]
    rcases Nat.lt_or_ge (n / 64) (m / 64) with hlt | hge
    · refine ih hlt ?_ _ _
      rwa [Nat.div_div_eq_div_mul, Nat.div_div_eq_div_mul, ← Nat.pow_succ']
    · have heq : n / 64 = m / 64 := by omega
      rw [heq]
      exact append_lt_append (cons_ofNat_lt (by omega) (by omega) r s) _

/-- A lower character has the lower bytes. -/
theorem utf8EncodeChar_lt {c d : Char} (h : c.toNat < d.toNat) (r s : Bytes) :
    String.utf8EncodeChar c ++ r < String.utf8EncodeChar d ++ s := by
  rw [utf8EncodeChar_eq, utf8EncodeChar_eq, List.cons_append, List.cons_append]
  by_cases hcount : tailCount c.toNat = tailCount d.toNat
  · rcases Nat.lt_or_ge (leadByte c.toNat) (leadByte d.toNat) with hlt | hge
    · exact cons_ofNat_lt hlt (leadByte_lt d) _ _
    · have hle := Nat.div_le_div_right (c := 64 ^ tailCount d.toNat) (Nat.le_of_lt h)
      have hlead : c.toNat / 64 ^ tailCount d.toNat = d.toNat / 64 ^ tailCount d.toNat := by
        rw [leadByte, leadByte, hcount] at hge
        omega
      have hsame : leadByte c.toNat = leadByte d.toNat := by
        rw [leadByte, leadByte, hcount, hlead]
      rw [hsame, hcount]
      exact append_lt_append (tailBytes_lt h hlead r s) [_]
  · refine cons_ofNat_lt ?_ (leadByte_lt d) _ _
    rcases tailCount_cases c.toNat with ⟨hc, h₁⟩ | ⟨hc, h₁, h₂⟩ | ⟨hc, h₁, h₂⟩ | ⟨hc, h₁⟩ <;>
      rcases tailCount_cases d.toNat with ⟨hd, h₃⟩ | ⟨hd, h₃, h₄⟩ | ⟨hd, h₃, h₄⟩ | ⟨hd, h₃⟩
    all_goals
      rw [hc, hd] at hcount
      simp only [leadByte, hc, hd, leadMark]
      omega

theorem utf8_eq_flatMap (s : String) :
    Text.utf8 s = s.toList.flatMap String.utf8EncodeChar := by
  have h : s.toByteArray = (s.toList.flatMap String.utf8EncodeChar).toByteArray := by
    rw [← String.utf8Encode_toList]
    rfl
  rw [Text.utf8, String.toUTF8_eq_toByteArray, h]
  simp

theorem flatMap_utf8EncodeChar_lt {cs ds : List Char} (h : cs < ds) :
    cs.flatMap String.utf8EncodeChar < ds.flatMap String.utf8EncodeChar := by
  induction h with
  | nil =>
    rw [List.flatMap_cons, utf8EncodeChar_eq]
    exact List.nil_lt_cons _ _
  | cons _ ih => exact append_lt_append ih _
  | rel h => exact utf8EncodeChar_lt h _ _

/-- Texts in the order of their characters are in that of their bytes. -/
theorem utf8_lt {s t : String} (h : s < t) : Text.utf8 s < Text.utf8 t := by
  rw [utf8_eq_flatMap, utf8_eq_flatMap]
  exact flatMap_utf8EncodeChar_lt (String.lt_iff.mp h)

/-! ## Reading UTF-8 -/

theorem lossyChars_append (more rest : Bytes) :
    lossyChars more.length (more ++ rest) = lossyChars 0 rest := by
  induction more with
  | nil => rfl
  | cons b more ih => rw [List.length_cons, List.cons_append, lossyChars, ih]

@[simp] theorem length_tailBytes (count n : Nat) : (tailBytes count n).length = count := by
  induction count generalizing n with
  | zero => rfl
  | succ count ih => rw [tailBytes, List.length_append, ih, List.length_singleton]

/-- The number of a character is that of its first byte and the bits behind it. -/
theorem foldl_tailBytes (count n : Nat) :
    (tailBytes count n).foldl (fun n c => n * 64 + c.toNat % 64) (n / 64 ^ count) = n := by
  induction count generalizing n with
  | zero => simp [tailBytes]
  | succ count ih =>
    have hlead : n / 64 ^ (count + 1) = n / 64 / 64 ^ count := by
      rw [Nat.div_div_eq_div_mul, ← Nat.pow_succ']
    have hbits : (UInt8.ofNat (n % 64 + 128)).toNat % 64 = n % 64 := by
      rw [UInt8.toNat_ofNat']
      omega
    rw [tailBytes, List.foldl_append, hlead, ih, List.foldl_cons, List.foldl_nil, hbits]
    omega

/-- Whether a byte lies between two numbers. -/
theorem ofNat_between (low high n : Nat) (hlow : low ≤ n) (hhigh : n ≤ high) (h : high < 256) :
    UInt8.ofNat low ≤ UInt8.ofNat n ∧ UInt8.ofNat n ≤ UInt8.ofNat high := by
  rw [UInt8.le_iff_toNat_le, UInt8.le_iff_toNat_le, UInt8.toNat_ofNat', UInt8.toNat_ofNat',
    UInt8.toNat_ofNat']
  omega

theorem isContinuation_of_mem_tailBytes {count n : Nat} {b : UInt8} (h : b ∈ tailBytes count n) :
    0x80 ≤ b ∧ b ≤ 0xBF := by
  induction count generalizing n with
  | zero => cases h
  | succ count ih =>
    rcases List.mem_append.mp h with h | h
    · exact ih h
    · rw [List.mem_singleton.mp h]
      exact ofNat_between 128 191 _ (by omega) (by omega) (by decide)

theorem continuation_append {low high first : UInt8} {more : Bytes} (hlow : low ≤ first)
    (hhigh : first ≤ high) (hmore : ∀ b ∈ more, 0x80 ≤ b ∧ b ≤ 0xBF) (rest : Bytes) :
    continuation low high (more.length + 1) (first :: (more ++ rest)) = first :: more := by
  induction more generalizing low high first with
  | nil => simp [continuation, hlow, hhigh]
  | cons b more ih =>
    obtain ⟨hb, hmore⟩ := List.forall_mem_cons.mp hmore
    rw [List.length_cons, List.cons_append, continuation, ih hb.1 hb.2 hmore]
    simp [hlow, hhigh]

/-- What a first byte tells when no byte follows it. -/
theorem following?_zero : ∀ k < 128, following? (UInt8.ofNat (0 + k)) = some (0, 0, 0) ∧
    leadingBits (UInt8.ofNat (0 + k)) 0 = k := by
  decide

/-- What a first byte tells when one byte follows it. -/
theorem following?_one : ∀ k < 32, 2 ≤ k →
    following? (UInt8.ofNat (192 + k)) = some (1, UInt8.ofNat 128, UInt8.ofNat 191) ∧
      leadingBits (UInt8.ofNat (192 + k)) 1 = k := by
  decide

/-- What a first byte tells when two bytes follow it: the bounds keep out spellings that are
too long, and surrogates. -/
theorem following?_two : ∀ k < 16, following? (UInt8.ofNat (224 + k)) =
    some (2, UInt8.ofNat (if k = 0 then 160 else 128), UInt8.ofNat (if k = 13 then 159 else 191)) ∧
      leadingBits (UInt8.ofNat (224 + k)) 2 = k := by
  decide

/-- What a first byte tells when three bytes follow it: the bounds keep out spellings that
are too long, and numbers behind the last character. -/
theorem following?_three : ∀ k < 5, following? (UInt8.ofNat (240 + k)) =
    some (3, UInt8.ofNat (if k = 0 then 144 else 128), UInt8.ofNat (if k = 4 then 143 else 191)) ∧
      leadingBits (UInt8.ofNat (240 + k)) 3 = k := by
  decide

/-- The bytes behind the first byte of a character are found to belong to it. -/
theorem exists_following? (c : Char) : ∃ low high,
    following? (UInt8.ofNat (leadByte c.toNat)) = some (tailCount c.toNat, low, high) ∧
      leadingBits (UInt8.ofNat (leadByte c.toNat)) (tailCount c.toNat) =
        c.toNat / 64 ^ tailCount c.toNat ∧
      ∀ rest, continuation low high (tailCount c.toNat)
        (tailBytes (tailCount c.toNat) c.toNat ++ rest) =
          tailBytes (tailCount c.toNat) c.toNat := by
  have hvalid := c.valid
  simp only [UInt32.isValidChar, Nat.isValidChar, show c.val.toNat = c.toNat from rfl] at hvalid
  generalize c.toNat = n at hvalid
  have hnone : ∀ b ∈ ([] : Bytes), 0x80 ≤ b ∧ b ≤ 0xBF := fun _ h => nomatch h
  have htail : ∀ count m, ∀ b ∈ tailBytes count m, 0x80 ≤ b ∧ b ≤ 0xBF :=
    fun _ _ _ => isContinuation_of_mem_tailBytes
  -- One case for each length; surrogates and what is too large narrow the second byte.
  rcases tailCount_cases n with ⟨hcount, h⟩ | ⟨hcount, h, h'⟩ | ⟨hcount, h, h'⟩ | ⟨hcount, h⟩
  all_goals simp only [leadByte, hcount, leadMark]
  · obtain ⟨hfollowing, hbits⟩ := following?_zero (n / 64 ^ 0) (by omega)
    exact ⟨_, _, hfollowing, hbits, fun rest => by cases rest <;> rfl⟩
  · obtain ⟨hfollowing, hbits⟩ := following?_one (n / 64 ^ 1) (by omega) (by omega)
    have hfirst := ofNat_between 128 191 (n % 64 + 128) (by omega) (by omega) (by decide)
    exact ⟨_, _, hfollowing, hbits, continuation_append hfirst.1 hfirst.2 hnone⟩
  · obtain ⟨hfollowing, hbits⟩ := following?_two (n / 64 ^ 2) (by omega)
    have hfirst := ofNat_between (if n / 64 ^ 2 = 0 then 160 else 128)
      (if n / 64 ^ 2 = 13 then 159 else 191) (n / 64 % 64 + 128)
      (by split_ifs <;> omega) (by split_ifs <;> omega) (by split_ifs <;> decide)
    exact ⟨_, _, hfollowing, hbits, continuation_append hfirst.1 hfirst.2 (htail 1 n)⟩
  · obtain ⟨hfollowing, hbits⟩ := following?_three (n / 64 ^ 3) (by omega)
    have hfirst := ofNat_between (if n / 64 ^ 3 = 0 then 144 else 128)
      (if n / 64 ^ 3 = 4 then 143 else 191) (n / 64 / 64 % 64 + 128)
      (by split_ifs <;> omega) (by split_ifs <;> omega) (by split_ifs <;> decide)
    exact ⟨_, _, hfollowing, hbits, continuation_append hfirst.1 hfirst.2 (htail 2 n)⟩

theorem lossyChars_utf8EncodeChar (c : Char) (rest : Bytes) :
    lossyChars 0 (String.utf8EncodeChar c ++ rest) = c :: lossyChars 0 rest := by
  obtain ⟨low, high, hfollowing, hbits, hmore⟩ := exists_following? c
  have hskip := lossyChars_append (tailBytes (tailCount c.toNat) c.toNat) rest
  rw [length_tailBytes] at hskip
  rw [utf8EncodeChar_eq, List.cons_append, lossyChars, hfollowing]
  simp only [hmore, length_tailBytes, if_true, hbits, foldl_tailBytes, Char.ofNat_toNat, hskip]

/-- A text is read back from its UTF-8 form. -/
theorem lossyText_utf8 (s : String) : lossyText (Text.utf8 s) = s := by
  have hchars : ∀ cs : List Char, lossyChars 0 (cs.flatMap String.utf8EncodeChar) = cs := by
    intro cs
    induction cs with
    | nil => rfl
    | cons c cs ih => rw [List.flatMap_cons, lossyChars_utf8EncodeChar, ih]
  rw [lossyText, utf8_eq_flatMap, hchars, String.ofList_toList]

/-! ## Code page 437 -/

theorem utf8EncodeChar_of_lt {c : Char} (h : c.toNat < 128) :
    String.utf8EncodeChar c = [UInt8.ofNat c.toNat] := by
  have hle : c.toNat ≤ 127 := by omega
  simp [String.utf8EncodeChar, hle]

theorem flatMap_utf8EncodeChar {cs : List Char} (h : ∀ c ∈ cs, c.toNat < 128) :
    cs.flatMap String.utf8EncodeChar = cs.map fun c => UInt8.ofNat c.toNat := by
  induction cs with
  | nil => rfl
  | cons c cs ih =>
    rw [List.flatMap_cons, utf8EncodeChar_of_lt (h c List.mem_cons_self),
      ih fun d hd => h d (List.mem_cons_of_mem _ hd)]
    rfl

/-- An ASCII text has a byte for each character. -/
theorem utf8_of_ascii {s : String} (h : ∀ c ∈ s.toList, c.toNat < 128) :
    Text.utf8 s = s.toList.map fun c => UInt8.ofNat c.toNat := by
  rw [utf8_eq_flatMap, flatMap_utf8EncodeChar h]

theorem codePageChar_of_lt {c : Char} (h : c.toNat < 128) :
    codePageChar (UInt8.ofNat c.toNat) = c := by
  have hbyte : (UInt8.ofNat c.toNat).toNat = c.toNat := by
    rw [UInt8.toNat_ofNat']
    omega
  rw [codePageChar, hbyte, if_pos h, Char.ofNat_toNat]

theorem codePageText_utf8 {s : String} (h : ∀ c ∈ s.toList, c.toNat < 128) :
    codePageText (Text.utf8 s) = s := by
  have hchars : s.toList.map (codePageChar ∘ fun c => UInt8.ofNat c.toNat) = s.toList := by
    conv => rhs; rw [← List.map_id s.toList]
    exact List.map_congr_left fun c hc => codePageChar_of_lt (h c hc)
  rw [codePageText, utf8_of_ascii h, List.map_map, hchars, String.ofList_toList]

/-! ## Names -/

/-- A name has only flags that say how it is written. -/
theorem nameFlags_cases (path : String) :
    (Package.nameFlags path = 0 ∧ ∀ c ∈ path.toList, c.toNat < 128) ∨
      Package.nameFlags path = unicodeFlag := by
  rw [Package.nameFlags]
  split
  · rename_i hall
    exact Or.inl ⟨rfl, by simpa using hall⟩
  · exact Or.inr rfl

/-- Every name is read as it was written. -/
theorem writtenText_utf8 {h : Header} {path : String} (hflags : h.flags = Package.nameFlags path) :
    writtenText (h.has unicodeFlag) (Text.utf8 path) = path := by
  rw [Header.has, hflags]
  rcases nameFlags_cases path with ⟨hzero, hascii⟩ | hunicode
  · rw [hzero]
    exact codePageText_utf8 hascii
  · rw [hunicode]
    exact lossyText_utf8 path

end Courseware.Zip
