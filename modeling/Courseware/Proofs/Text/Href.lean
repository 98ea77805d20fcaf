import Courseware.Json.Draft
import Courseware.Proofs.Zip.Names
import Courseware.Text.Href

/-!
# Links are read back

A link has a form of its own, and it is read back as the path that it was made of, so different
paths have different links. Slashes stay what they are: the link of a path is made of the links of
its parts, and its segments are those of the path, encoded one by one.
-/

namespace Courseware.Text

/-! ## Reading -/

/-- The bytes that a link spells: `%` and two hexadecimal digits are a byte, and any other
character stands for itself. -/
def hrefBytes? : List Char → Option Bytes
  | [] => some []
  | '%' :: high :: low :: cs => do
    let a ← Json.hexValue? high
    let b ← Json.hexValue? low
    let bytes ← hrefBytes? cs
    return UInt8.ofNat (a * 16 + b) :: bytes
  | c :: cs => if c = '%' then none else (hrefBytes? cs).map (String.utf8EncodeChar c ++ ·)

/-- The path that a link stands for. -/
def decodeHref? (link : String) : Option String :=
  (hrefBytes? link.toList).bind ofUtf8?

/-! ## Bytes and characters -/

theorem hexValue?_upperHexDigit : ∀ n < 16, Json.hexValue? (upperHexDigit n) = some n := by
  decide

theorem hrefBytes?_percentByte (b : UInt8) (rest : List Char) :
    hrefBytes? (percentByte b ++ rest) = (hrefBytes? rest).map (b :: ·) := by
  have hlt := b.toNat_lt
  have hbyte : UInt8.ofNat (b.toNat / 16 * 16 + b.toNat % 16) = b := by
    rw [Nat.div_add_mod', UInt8.ofNat_toNat]
  simp only [percentByte, List.cons_append, List.nil_append, hrefBytes?,
    hexValue?_upperHexDigit (b.toNat / 16) (by omega),
    hexValue?_upperHexDigit (b.toNat % 16) (by omega), Option.bind_eq_bind, Option.bind_some,
    hbyte]
  cases hrefBytes? rest <;> rfl

theorem hrefBytes?_percentBytes (bytes : Bytes) (rest : List Char) :
    hrefBytes? (bytes.flatMap percentByte ++ rest) = (hrefBytes? rest).map (bytes ++ ·) := by
  induction bytes with
  | nil => simp
  | cons b bytes ih =>
    rw [List.flatMap_cons, List.append_assoc, hrefBytes?_percentByte, ih, Option.map_map]
    rfl

/-- A character that stays as it is does not start a byte. -/
theorem ne_percent_of_kept {c : Char} (h : (c == '/' || isUnreserved c) = true) : c ≠ '%' := by
  rintro rfl
  exact absurd h (by decide)

theorem hrefBytes?_percentChar (c : Char) (rest : List Char) :
    hrefBytes? (percentChar c ++ rest) =
      (hrefBytes? rest).map (String.utf8EncodeChar c ++ ·) := by
  rw [percentChar]
  split
  · rename_i hkept
    have hne := ne_percent_of_kept hkept
    rw [List.singleton_append, hrefBytes?, if_neg hne]
    intro high low cs heq
    exact absurd heq hne
  · exact hrefBytes?_percentBytes _ rest

/-! ## Links -/

/-- A link is read back as its path. -/
theorem decodeHref?_encodeHref (path : String) : decodeHref? (encodeHref path) = some path := by
  have hbytes (cs : List Char) :
      hrefBytes? (cs.flatMap percentChar) = some (cs.flatMap String.utf8EncodeChar) := by
    induction cs with
    | nil => rfl
    | cons c cs ih =>
      rw [List.flatMap_cons, hrefBytes?_percentChar, ih, List.flatMap_cons]
      rfl
  rw [decodeHref?, encodeHref, String.toList_ofList, hbytes, Option.bind_some,
    ← Zip.utf8_eq_flatMap, ofUtf8?_utf8]

/-- Different paths have different links. -/
theorem encodeHref_inj {path other : String} :
    encodeHref path = encodeHref other ↔ path = other := by
  constructor
  · intro h
    have hread := decodeHref?_encodeHref path
    rw [h, decodeHref?_encodeHref] at hread
    exact (Option.some.inj hread).symm
  · exact congrArg encodeHref

/-- The link of a path is made of the links of its parts. -/
theorem encodeHref_append (path other : String) :
    encodeHref (path ++ other) = encodeHref path ++ encodeHref other := by
  rw [← String.toList_inj]
  simp [encodeHref]

/-! ## The form of links -/

/-- The digits that links write bytes with. -/
def isUpperHexDigit (c : Char) : Bool := ('0' ≤ c && c ≤ '9') || ('A' ≤ c && c ≤ 'F')

/-- Whether a text is written as links are: unreserved characters, slashes, and bytes as `%` and
two upper-case hexadecimal digits. -/
inductive IsLink : List Char → Prop
  | nil : IsLink []
  | kept {c : Char} {cs : List Char} (hc : (c == '/' || isUnreserved c) = true) (hcs : IsLink cs) :
      IsLink (c :: cs)
  | byte {high low : Char} {cs : List Char} (hhigh : isUpperHexDigit high = true)
      (hlow : isUpperHexDigit low = true) (hcs : IsLink cs) : IsLink ('%' :: high :: low :: cs)

theorem IsLink.append {cs rest : List Char} (h : IsLink cs) (hrest : IsLink rest) :
    IsLink (cs ++ rest) := by
  induction h with
  | nil => exact hrest
  | kept hc _ ih => exact .kept hc ih
  | byte hhigh hlow _ ih => exact .byte hhigh hlow ih

theorem IsLink.flatMap {α : Type} {xs : List α} {f : α → List Char} (h : ∀ x ∈ xs, IsLink (f x)) :
    IsLink (xs.flatMap f) := by
  induction xs with
  | nil => exact .nil
  | cons x xs ih =>
    obtain ⟨hx, hxs⟩ := List.forall_mem_cons.mp h
    rw [List.flatMap_cons]
    exact hx.append (ih hxs)

theorem isUpperHexDigit_upperHexDigit : ∀ n < 16, isUpperHexDigit (upperHexDigit n) = true := by
  decide

theorem isLink_percentByte (b : UInt8) : IsLink (percentByte b) := by
  have hlt := b.toNat_lt
  exact .byte (isUpperHexDigit_upperHexDigit _ (by omega))
    (isUpperHexDigit_upperHexDigit _ (by omega)) .nil

theorem isLink_percentChar (c : Char) : IsLink (percentChar c) := by
  rw [percentChar]
  split
  · rename_i hkept
    exact .kept hkept .nil
  · exact .flatMap fun b _ => isLink_percentByte b

/-! ## Segments -/

/-- A segment of a path with all its characters but the unreserved ones written byte by byte. -/
def encodeSegment (segment : List Char) : List Char :=
  segment.flatMap fun c =>
    if isUnreserved c then [c] else (String.utf8EncodeChar c).flatMap percentByte

theorem percentChar_of_ne_slash {c : Char} (h : c ≠ '/') :
    percentChar c =
      if isUnreserved c then [c] else (String.utf8EncodeChar c).flatMap percentByte := by
  rw [percentChar, beq_eq_false_iff_ne.mpr h, Bool.false_or]

theorem ne_slash_of_isUpperHexDigit {c : Char} (h : isUpperHexDigit c = true) : c ≠ '/' := by
  rintro rfl
  exact absurd h (by decide)

theorem slash_not_mem_percentByte (b : UInt8) : '/' ∉ percentByte b := by
  have hlt := b.toNat_lt
  have hdigit : ∀ n < 16, upperHexDigit n ≠ '/' := fun n hn =>
    ne_slash_of_isUpperHexDigit (isUpperHexDigit_upperHexDigit n hn)
  rw [percentByte, List.mem_cons, List.mem_cons, List.mem_singleton]
  rintro (h | h | h)
  · exact absurd h (by decide)
  · exact hdigit _ (by omega) h.symm
  · exact hdigit _ (by omega) h.symm

theorem slash_not_mem_percentChar {c : Char} (h : c ≠ '/') : '/' ∉ percentChar c := by
  rw [percentChar_of_ne_slash h]
  split
  · exact fun hmem => h (List.mem_singleton.mp hmem).symm
  · rw [List.mem_flatMap]
    rintro ⟨b, -, hb⟩
    exact slash_not_mem_percentByte b hb

/-- What has no separator belongs to the first part of what it stands in front of. -/
theorem splitOn_append_of_not_mem {sep : Char} {cs : List Char} (h : sep ∉ cs)
    (rest : List Char) :
    (cs ++ rest).splitOn sep = (rest.splitOn sep).modifyHead (cs ++ ·) := by
  induction cs with
  | nil =>
    obtain ⟨part, parts, hparts⟩ := List.exists_cons_of_ne_nil (List.splitOn_ne_nil sep rest)
    rw [List.nil_append, hparts]
    rfl
  | cons c cs ih =>
    rw [List.mem_cons, not_or] at h
    obtain ⟨hc, hcs⟩ := h
    obtain ⟨part, parts, hparts⟩ := List.exists_cons_of_ne_nil (List.splitOn_ne_nil sep rest)
    rw [List.cons_append, List.splitOn_cons_eq_if_modifyHead,
      if_neg (by simpa using Ne.symm hc), ih hcs, hparts]
    rfl

/-- The segments of a link are the segments of the path, encoded one by one. -/
theorem splitOn_encodeHref (path : String) :
    (encodeHref path).toList.splitOn '/' = (path.toList.splitOn '/').map encodeSegment := by
  rw [encodeHref, String.toList_ofList]
  induction path.toList with
  | nil => rfl
  | cons c cs ih =>
    rw [List.flatMap_cons]
    by_cases hslash : c = '/'
    · subst hslash
      have hkept : percentChar '/' = ['/'] := by decide
      rw [hkept, List.singleton_append, List.splitOn_cons_eq_if_modifyHead,
        List.splitOn_cons_eq_if_modifyHead, if_pos (by decide), if_pos (by decide), ih]
      rfl
    · obtain ⟨part, parts, hparts⟩ := List.exists_cons_of_ne_nil (List.splitOn_ne_nil '/' cs)
      rw [splitOn_append_of_not_mem (slash_not_mem_percentChar hslash), ih,
        List.splitOn_cons_eq_if_modifyHead, if_neg (by simpa using hslash), hparts,
        percentChar_of_ne_slash hslash]
      rfl

/-! ## Links that are their own paths -/

theorem length_percentBytes (bytes : Bytes) :
    (bytes.flatMap percentByte).length = 3 * bytes.length := by
  induction bytes with
  | nil => rfl
  | cons b bytes ih =>
    rw [List.flatMap_cons, List.length_append, ih, List.length_cons]
    exact Nat.add_comm 3 _

theorem percentChar_of_kept {c : Char} (h : (c == '/' || isUnreserved c) = true) :
    percentChar c = [c] := if_pos h

theorem length_percentChar {c : Char} (h : (c == '/' || isUnreserved c) = false) :
    1 < (percentChar c).length := by
  have hsize : 0 < (String.utf8EncodeChar c).length := by
    rw [String.length_utf8EncodeChar]
    exact c.utf8Size_pos
  rw [percentChar, h, if_neg Bool.false_ne_true, length_percentBytes]
  omega

theorem length_le_flatMap_percentChar (cs : List Char) :
    cs.length ≤ (cs.flatMap percentChar).length := by
  induction cs with
  | nil => exact Nat.le_refl 0
  | cons c cs ih =>
    have hchar : 1 ≤ (percentChar c).length := by
      cases hkept : c == '/' || isUnreserved c with
      | true => rw [percentChar_of_kept hkept]; rfl
      | false => exact (length_percentChar hkept).le
    rw [List.flatMap_cons, List.length_append, List.length_cons]
    omega

theorem encodeHref_eq_self_iff (path : String) :
    encodeHref path = path ↔ ∀ c ∈ path.toList, (c == '/' || isUnreserved c) = true := by
  rw [← String.toList_inj, encodeHref, String.toList_ofList]
  induction path.toList with
  | nil => simp
  | cons c cs ih =>
    rw [List.flatMap_cons, List.forall_mem_cons]
    cases hkept : c == '/' || isUnreserved c with
    | true =>
      rw [percentChar_of_kept hkept, List.singleton_append, List.cons_inj_right, ih]
      exact (and_iff_right rfl).symm
    | false =>
      -- An encoded character takes more room than there is, since no other character takes less.
      refine iff_of_false (fun heq => ?_) fun h => Bool.false_ne_true h.1
      have hlength := congrArg List.length heq
      have hlong := length_percentChar hkept
      have hrest := length_le_flatMap_percentChar cs
      rw [List.length_append, List.length_cons] at hlength
      omega

/-- A link consists of unreserved characters, slashes and bytes as `%` and two upper-case
hexadecimal digits. It is read back as its path, so different paths have different links. Its
segments are those of the path, encoded one by one, and it is the path itself exactly if the path
has only unreserved characters and slashes. -/
theorem encodeHref_canonical (path : String) :
    IsLink (encodeHref path).toList ∧ decodeHref? (encodeHref path) = some path ∧
      (∀ other, encodeHref other = encodeHref path → other = path) ∧
      (encodeHref path).toList.splitOn '/' = (path.toList.splitOn '/').map encodeSegment ∧
      ((encodeHref path).toList.splitOn '/').length = (path.toList.splitOn '/').length ∧
      (encodeHref path = path ↔ ∀ c ∈ path.toList, c = '/' ∨ isUnreserved c = true) := by
  have hlink : IsLink (encodeHref path).toList := by
    rw [encodeHref, String.toList_ofList]
    exact .flatMap fun c _ => isLink_percentChar c
  have hsegments := splitOn_encodeHref path
  refine ⟨hlink, decodeHref?_encodeHref path, fun other h => encodeHref_inj.mp h, hsegments, ?_, ?_⟩
  · rw [hsegments, List.length_map]
  · simp only [encodeHref_eq_self_iff, Bool.or_eq_true, beq_iff_eq]

end Courseware.Text
