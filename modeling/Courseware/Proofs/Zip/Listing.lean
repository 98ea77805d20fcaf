import Courseware.Package.Archive
import Courseware.Proofs.Zip.Records

/-!
# The directory of a packed archive

The entries of an archive are read back in their order: the end record that was
written last is found, it leads to the directory, and the directory describes
every file where it was put.
-/

namespace Courseware.Zip

/-! ## Places -/

/-- Places are noted from the given one on, in front of those found before. -/
theorem placesOf_eq_append (pattern : Bytes) (place : Nat) (found : List Nat)
    (bytes : Bytes) :
    ∃ later, placesOf pattern place found bytes = later ++ found ∧
      ∀ p ∈ later, place ≤ p := by
  induction bytes generalizing place found with
  | nil => exact ⟨[], rfl, by simp⟩
  | cons b bs ih =>
    rw [placesOf]
    split
    · obtain ⟨later, heq, hlater⟩ := ih (place + 1) (place :: found)
      refine ⟨later ++ [place], by simp [heq], ?_⟩
      intro p hp
      rcases List.mem_append.mp hp with hp | hp
      · exact Nat.le_of_succ_le (hlater p hp)
      · exact Nat.le_of_eq (List.mem_singleton.mp hp).symm
    · obtain ⟨later, heq, hlater⟩ := ih (place + 1) found
      exact ⟨later, heq, fun p hp => Nat.le_of_succ_le (hlater p hp)⟩

theorem placesOf_append (pattern : Bytes) (place : Nat) (found : List Nat)
    (front rest : Bytes) :
    ∃ earlier, placesOf pattern place found (front ++ rest) =
      placesOf pattern (place + front.length) earlier rest := by
  induction front generalizing place found with
  | nil => exact ⟨found, rfl⟩
  | cons b front ih =>
    obtain ⟨earlier, heq⟩ := ih (place + 1)
      (if pattern.isPrefixOf (b :: (front ++ rest)) then place :: found else found)
    refine ⟨earlier, ?_⟩
    rw [List.cons_append, placesOf, heq, List.length_cons]
    congr 1
    omega

/-- A pattern that stands somewhere is found there, and what is found before
stands later. -/
theorem placesOf_of_isPrefixOf {pattern : Bytes} (front : Bytes) {b : UInt8}
    {rest : Bytes} (h : pattern.isPrefixOf (b :: rest) = true) :
    ∃ later earlier, placesOf pattern 0 [] (front ++ b :: rest) =
        later ++ front.length :: earlier ∧ ∀ p ∈ later, front.length < p := by
  obtain ⟨earlier, hfront⟩ := placesOf_append pattern 0 [] front (b :: rest)
  obtain ⟨later, hrest, hlater⟩ :=
    placesOf_eq_append pattern (front.length + 1) (front.length :: earlier) rest
  refine ⟨later, earlier, ?_, hlater⟩
  rw [hfront, placesOf, if_pos h, Nat.zero_add, hrest]

/-- A pattern that stands where the search starts is found first. -/
theorem head?_placesBetween {pattern : Bytes} {start stop : Nat} {bytes rest : Bytes}
    {b : UInt8} (hbytes : (bytes.take stop).drop start = b :: rest)
    (h : pattern.isPrefixOf (b :: rest) = true) :
    (placesBetween pattern start stop bytes).head? = some start := by
  obtain ⟨later, heq, -⟩ := placesOf_eq_append pattern (start + 1) [start] rest
  rw [placesBetween, hbytes, placesOf, if_pos h, heq]
  simp

end Courseware.Zip

namespace Courseware.Package

open Zip

/-! ## The directory -/

/-- Whether the header of a packed file describes it. -/
structure PackedFile.Sound (e : PackedFile) : Prop where
  fits : e.header.Fits
  nameLength : e.header.nameLength = e.name.length
  extraLength : e.header.extraLength = 0
  compressedSize : e.header.compressedSize = e.data.length
  method : e.header.method = storedMethod ∨ e.header.method = deflatedMethod

/-- What a directory says of a file whose local header stands at an offset. -/
def PackedFile.entry (e : PackedFile) (offset : Nat) : Entry :=
  .plain { header := e.header, offset, name := e.name, extra := [], comment := [] }

/-- What a directory says of files, the first of which stands at an offset. -/
def entriesFrom (offset : Nat) : List PackedFile → List Entry
  | [] => []
  | e :: es => e.entry offset :: entriesFrom (offset + e.localRecord.length) es

/-- The local parts of files, one after the other. -/
def localRecords (es : List PackedFile) : Bytes :=
  es.flatMap PackedFile.localRecord

theorem ofHeader?_entry {e : PackedFile} (hsound : e.Sound) {offset : Nat}
    (hoffset : offset < 4294967296) :
    Entry.ofHeader? 0
        { header := e.header, offset, name := e.name, extra := [], comment := [] } =
      some (e.entry offset) := by
  have hmethod : ¬ e.header.method = cipherMethod := by
    rcases hsound.method with h | h <;> rw [h] <;> decide
  have hlimit : ¬ word64Limit ≤ offset := by simp only [word64Limit]; omega
  simp [Entry.ofHeader?, Entry.applyFields, PackedFile.entry, Entry.plain, hmethod,
    hlimit]

theorem readHeaders_directory {es : List PackedFile} (hsound : ∀ e ∈ es, e.Sound)
    {offset : Nat} (hroom : offset + (localRecords es).length < 4294967296)
    (rest : Bytes) :
    readHeaders 0 (directory offset es ++ rest) es.length =
      some (entriesFrom offset es) := by
  induction es generalizing offset with
  | nil => rfl
  | cons e es ih =>
    have he := hsound e List.mem_cons_self
    simp only [localRecords, List.flatMap_cons, List.length_append] at hroom
    rw [directory, List.append_assoc, List.length_cons, readHeaders,
      centralHeader_reader he.fits he.nameLength he.extraLength (by omega)]
    simp only [bind, Option.bind]
    rw [ofHeader?_entry he (by omega)]
    simp only
    rw [ih (fun x hx => hsound x (List.mem_cons_of_mem _ hx))
      (by simp only [localRecords]; omega)]
    rfl

/-- A directory with entries starts with the mark of a header. -/
theorem directory_cons (offset : Nat) (e : PackedFile) (es : List PackedFile) :
    ∃ rest, directory offset (e :: es) = 0x50 :: rest ∧
      centralSignature.isPrefixOf (0x50 :: rest) = true :=
  ⟨_, rfl, rfl⟩

/-! ## The end record -/

/-- The bytes of an archive before its end record. -/
def archiveBody (es : List PackedFile) : Bytes :=
  localRecords es ++ directory 0 es

theorem archiveOf_eq (es : List PackedFile) :
    archiveOf es = archiveBody es ++
      endRecord es.length (directory 0 es).length (localRecords es).length :=
  rfl

theorem length_archiveOf (es : List PackedFile) :
    (archiveOf es).length = (archiveBody es).length + endRecordLength := by
  rw [archiveOf_eq, List.length_append, length_endRecord]

/-- Nothing that stands after the end record can lead to a directory. -/
theorem directoryAt?_of_lt {bytes : Bytes} {place : Nat}
    (h : bytes.length < place + endRecordLength) : directoryAt? bytes place = none := by
  rw [directoryAt?]
  cases EndRecord.reader (bytes.drop place) with
  | none => rfl
  | some found =>
    have hshort : bytes.length < place + endRecordLength + found.1.commentLength := by
      omega
    simp only [bind, Option.bind, if_pos hshort]

/-- Whether no bytes before the end record of an archive can be taken for the
locator of a wide end record. -/
def NoLocator (es : List PackedFile) : Prop :=
  es.length = beyond16 → locatorLength ≤ (archiveBody es).length →
    Locator.reader ((archiveOf es).drop ((archiveBody es).length - locatorLength)) = none

theorem locator?_archiveOf {es : List PackedFile} (hlocator : NoLocator es)
    (hsize : (archiveOf es).length < 4294967296) (e : EndRecord)
    (hcount : e.count = es.length) (hoffset : e.offset = (localRecords es).length) :
    e.locator? (archiveOf es) (archiveBody es).length = none := by
  have hbody : (localRecords es).length ≤ (archiveBody es).length := by
    simp [archiveBody]
  have htotal := length_archiveOf es
  rw [EndRecord.locator?]
  split
  · rename_i hwide
    simp only [EndRecord.mayBeWide, Bool.and_eq_true, Bool.or_eq_true, beq_iff_eq,
      decide_eq_true_eq] at hwide
    obtain ⟨hwide, hroom⟩ := hwide
    rcases hwide with hwide | hwide
    · rw [hlocator (by omega) hroom]
      rfl
    · simp only [beyond32] at hwide
      simp only [endRecordLength] at htotal
      omega
  · rfl

theorem directoryAt?_archiveOf {es : List PackedFile} (hcount : es.length < 65536)
    (hsize : (archiveOf es).length < 4294967296) (hlocator : NoLocator es) :
    directoryAt? (archiveOf es) (archiveBody es).length =
      some { start := (localRecords es).length, count := es.length, shift := 0 } := by
  have htotal := length_archiveOf es
  have hbody : (archiveBody es).length =
      (localRecords es).length + (directory 0 es).length := by
    simp [archiveBody]
  have hread : EndRecord.reader ((archiveOf es).drop (archiveBody es).length) =
      some ({ disk := 0, directoryDisk := 0, here := es.length, count := es.length,
              offset := (localRecords es).length, commentLength := 0 }, []) := by
    rw [archiveOf_eq, List.drop_left]
    exact endRecord_reader hcount (by omega) (by omega)
  have hlong : ¬ (archiveOf es).length <
      (archiveBody es).length + endRecordLength + 0 := by omega
  rw [directoryAt?, hread]
  simp only [bind, Option.bind, if_neg hlong]
  rw [locator?_archiveOf hlocator hsize _ rfl rfl]
  simp only [EndRecord.directory?]
  -- The start of the directory is looked at only when there are entries.
  cases es with
  | nil => rfl
  | cons e es =>
    obtain ⟨rest, hdirectory, hsignature⟩ := directory_cons 0 e es
    have hbetween : ((archiveOf (e :: es)).take (archiveBody (e :: es)).length).drop
        (localRecords (e :: es)).length = 0x50 :: rest := by
      rw [archiveOf_eq, List.take_left, archiveBody, List.drop_left, hdirectory]
    have hafter : ¬ (archiveBody (e :: es)).length ≤ (localRecords (e :: es)).length := by
      rw [hbody, hdirectory]
      simp only [List.length_cons]
      omega
    have hhead := head?_placesBetween hbetween hsignature
    simp [hafter, hhead]

/-- The entries of an archive are those of the files that it was made of. -/
theorem readEntries?_archiveOf {es : List PackedFile} (hsound : ∀ e ∈ es, e.Sound)
    (hcount : es.length < 65536) (hsize : (archiveOf es).length < 4294967296)
    (hlocator : NoLocator es) :
    readEntries? (archiveOf es) = some (entriesFrom 0 es) := by
  have htotal := length_archiveOf es
  have hbody : (localRecords es).length ≤ (archiveBody es).length := by
    simp [archiveBody]
  obtain ⟨later, earlier, hplaces, hlater⟩ : ∃ later earlier,
      placesOf endSignature 0 [] (archiveOf es) =
          later ++ (archiveBody es).length :: earlier ∧
        ∀ p ∈ later, (archiveBody es).length < p :=
    placesOf_of_isPrefixOf (archiveBody es) (show endSignature.isPrefixOf
      (endRecord es.length (directory 0 es).length (localRecords es).length) = true from rfl)
  have hnone : ∀ p ∈ later,
      (directoryAt? (archiveOf es) p).bind (Directory.entries? (archiveOf es)) = none := by
    intro p hp
    have hbeyond := hlater p hp
    rw [directoryAt?_of_lt (by omega)]
    rfl
  have hdrop : (archiveOf es).drop (localRecords es).length =
      directory 0 es ++
        endRecord es.length (directory 0 es).length (localRecords es).length := by
    rw [archiveOf_eq, archiveBody, List.append_assoc, List.drop_left]
  rw [readEntries?, hplaces, List.findSome?_append,
    List.findSome?_eq_none_iff.mpr hnone, Option.none_or, List.findSome?_cons,
    directoryAt?_archiveOf hcount hsize hlocator]
  simp only [Option.bind_some, Directory.entries?, hdrop]
  rw [readHeaders_directory hsound (by omega)]

end Courseware.Package
