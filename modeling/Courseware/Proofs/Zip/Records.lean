import Courseware.Package.Contents
import Courseware.Proofs.Zip.Compression

/-!
# Records of an archive

Headers and end records are read back from their bytes when every number fits
into its field.
-/

namespace Courseware.Zip

/-! ## Fields -/

theorem FieldReader.bind_apply {α β : Type} (x : FieldReader α)
    (f : α → FieldReader β) (bytes : Bytes) :
    (x >>= f) bytes = (x bytes).bind fun p => f p.1 p.2 :=
  rfl

/-- What is read first leaves the rest of the bytes to what is read next. -/
theorem FieldReader.bind_eq {α β : Type} {x : FieldReader α} {bytes : Bytes} {a : α}
    {rest : Bytes} (h : x bytes = some (a, rest)) (f : α → FieldReader β) :
    (x >>= f) bytes = f a rest := by
  rw [bind_apply, h, Option.bind_some]

theorem FieldReader.pure_apply {α : Type} (a : α) (bytes : Bytes) :
    (pure a : FieldReader α) bytes = some (a, bytes) :=
  rfl

@[simp] theorem length_le16 (n : Nat) : (le16 n).length = 2 := rfl

@[simp] theorem length_le32 (n : Nat) : (le32 n).length = 4 := rfl

theorem block_append {length : Nat} {bytes : Bytes} (h : bytes.length = length)
    (rest : Bytes) : block length (bytes ++ rest) = some (bytes, rest) := by
  subst h
  simp [block]

theorem expect_append (signature rest : Bytes) :
    expect signature (signature ++ rest) = some ((), rest) := by
  simp [expect, FieldReader.bind_apply, block_append rfl, FieldReader.pure_apply]

/-! ## Headers -/

/-- Whether all numbers of a header fit into their fields. -/
structure Header.Fits (h : Header) : Prop where
  versionNeeded : h.versionNeeded < 65536
  flags : h.flags < 65536
  method : h.method < 65536
  timeField : h.timeField < 65536
  dateField : h.dateField < 65536
  crc : h.crc < 4294967296
  compressedSize : h.compressedSize < 4294967296
  size : h.size < 4294967296
  nameLength : h.nameLength < 65536
  extraLength : h.extraLength < 65536

@[simp] theorem Header.length_bytes (h : Header) : h.bytes.length = 26 := rfl

theorem Header.reader_bytes {h : Header} (hfits : h.Fits) (rest : Bytes) :
    Header.reader (h.bytes ++ rest) = some (h, rest) := by
  simp only [Header.bytes, List.append_assoc]
  rw [Header.reader, FieldReader.bind_eq (word16_le16_append hfits.versionNeeded _),
    FieldReader.bind_eq (word16_le16_append hfits.flags _),
    FieldReader.bind_eq (word16_le16_append hfits.method _),
    FieldReader.bind_eq (word16_le16_append hfits.timeField _),
    FieldReader.bind_eq (word16_le16_append hfits.dateField _),
    FieldReader.bind_eq (word32_le32_append hfits.crc _),
    FieldReader.bind_eq (word32_le32_append hfits.compressedSize _),
    FieldReader.bind_eq (word32_le32_append hfits.size _),
    FieldReader.bind_eq (word16_le16_append hfits.nameLength _),
    FieldReader.bind_eq (word16_le16_append hfits.extraLength _), FieldReader.pure_apply]

theorem length_localHeader (h : Header) (name : Bytes) :
    (localHeader h name).length = localHeaderLength + name.length := by
  simp [localHeader, localSignature, localHeaderLength]
  omega

theorem localHeaderReader_localHeader {h : Header} (hfits : h.Fits)
    (name rest : Bytes) :
    localHeaderReader (localHeader h name ++ rest) = some (h, name ++ rest) := by
  have hbind : ∀ bytes, localHeaderReader bytes =
      (expect localSignature bytes).bind fun p => Header.reader p.2 := fun _ => rfl
  have hexpect := expect_append localSignature (h.bytes ++ (name ++ rest))
  rw [hbind, localHeader, List.append_assoc, List.append_assoc, hexpect,
    Option.bind_some, Header.reader_bytes hfits (name ++ rest)]

theorem length_centralHeader (h : Header) (name : Bytes) (offset : Nat) :
    (centralHeader h name offset).length = centralHeaderLength + name.length := by
  simp [centralHeader, centralSignature, centralHeaderLength]
  omega

theorem centralHeader_reader {h : Header} {name : Bytes} {offset : Nat}
    (hfits : h.Fits) (hname : h.nameLength = name.length) (hextra : h.extraLength = 0)
    (hoffset : offset < 4294967296) (rest : Bytes) :
    CentralHeader.reader (centralHeader h name offset ++ rest) =
      some ({ header := h, offset, name, extra := [], comment := [] }, rest) := by
  have hnone : ∀ r : Bytes, block 0 r = some ([], r) := fun r =>
    block_append (show ([] : Bytes).length = 0 from rfl) r
  simp only [CentralHeader.reader, centralHeader, FieldReader.bind_apply,
    List.append_assoc, expect_append, Option.bind_some, Header.reader_bytes hfits,
    word16_le16_append (show madeBy < 65536 by decide),
    word16_le16_append (show 0 < 65536 by decide),
    word32_le32_append (show filePermissions < 4294967296 by decide),
    word32_le32_append hoffset, hname, block_append rfl, hextra, hnone,
    FieldReader.pure_apply]

/-! ## End records -/

theorem length_endRecord (count size offset : Nat) :
    (endRecord count size offset).length = endRecordLength := rfl

theorem endRecord_reader {count size offset : Nat} (hcount : count < 65536)
    (hsize : size < 4294967296) (hoffset : offset < 4294967296) :
    EndRecord.reader (endRecord count size offset) =
      some ({ disk := 0, directoryDisk := 0, here := count, count, offset,
              commentLength := 0 }, []) := by
  have hlast : ∀ n < 65536, word16 (le16 n) = some (n, []) := by
    intro n hn
    simpa using word16_le16_append hn []
  simp only [EndRecord.reader, endRecord, FieldReader.bind_apply,
    List.append_assoc, expect_append, Option.bind_some,
    word16_le16_append (show 0 < 65536 by decide), word16_le16_append hcount,
    word32_le32_append hsize, word32_le32_append hoffset,
    hlast 0 (by decide), FieldReader.pure_apply]

/-- What can be read as a locator has a six in the third place. -/
theorem getElem?_of_locator {bytes : Bytes} {found : Locator × Bytes}
    (h : Locator.reader bytes = some found) : bytes[2]? = some 6 := by
  obtain ⟨p, hexpect, -⟩ := Option.bind_eq_some_iff.mp
    (show (expect locatorSignature bytes).bind _ = some found from h)
  obtain ⟨q, hblock, hsame⟩ := Option.bind_eq_some_iff.mp
    (show (block locatorSignature.length bytes).bind _ = some p from hexpect)
  simp only [block] at hblock
  split at hblock
  · simp only [Option.some.injEq] at hblock
    subst hblock
    simp only at hsame
    split at hsame
    · rename_i hfound
      have hthird := congrArg (·[2]?) hfound
      simpa [locatorSignature] using hthird
    · exact absurd (show (none : Option (Unit × Bytes)) = some p from hsame) (by simp)
  · simp at hblock

end Courseware.Zip
