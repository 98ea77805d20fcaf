import Courseware.Proofs.Dictionary
import Courseware.Proofs.Zip.Listing
import Courseware.Proofs.Zip.Names
import Mathlib.Data.List.Nodup

/-!
# Archives are read back

What is packed is what an archive is read as: the names, the order, and the contents
under either method.
-/

namespace Courseware.Zip

/-! ## Times -/

open Time

theorem Clock.ofSeconds_lt {seconds : Nat} (h : seconds < 86400) :
    (Clock.ofSeconds seconds).hours < 24 ∧ (Clock.ofSeconds seconds).minutes < 60 ∧
      (Clock.ofSeconds seconds).seconds < 60 := by
  simp only [Clock.ofSeconds]
  omega

theorem daysInMonth_le (year : Int) (month : Nat) : daysInMonth year month ≤ 31 := by
  simp only [daysInMonth]
  repeat' split
  all_goals decide

/-- Both fields of the time of an entry have 16 bits. -/
theorem DosTime.fields_lt (t : Instant) :
    (DosTime.ofInstant t).timeField < 65536 ∧ (DosTime.ofInstant t).dateField < 65536 := by
  have hday : (t.seconds % Instant.secondsPerDay).toNat < 86400 := by
    simp only [Instant.secondsPerDay]
    omega
  obtain ⟨hhours, hminutes, hseconds⟩ := Clock.ofSeconds_lt hday
  rw [DosTime.ofInstant]
  generalize hyear : (if t.date.year < 1980 then (1980 : Int)
    else if 2107 < t.date.year then 2107 else t.date.year) = year
  have hle : year ≤ 2107 := by omega
  by_cases hvalid : ({ year, month := t.date.month, day := t.date.day } : Date).Valid
  · rw [if_pos hvalid]
    obtain ⟨-, hmonth, -, hdate⟩ := hvalid
    have hlast := Nat.le_trans hdate (daysInMonth_le _ _)
    simp only [DosTime.timeField, DosTime.dateField, Instant.clock] at *
    omega
  · rw [if_neg hvalid]
    decide

end Courseware.Zip

namespace Courseware.Package

open Zip

/-- Whether an entry with this name is a file. -/
def IsFilePath (path : String) : Prop :=
  ∀ c, path.toList.getLast? = some c → c ≠ '/' ∧ c ≠ '\\'

/-- Whether a path can be the name of an entry that every reader takes for a file
of that name. -/
structure Portable (path : String) : Prop where
  ascii : ∀ c ∈ path.toList, 32 ≤ c.toNat ∧ c.toNat < 128
  isFile : ∀ c, path.toList.getLast? = some c → c ≠ '/' ∧ c ≠ '\\'

theorem Portable.lt {path : String} (h : Portable path) :
    ∀ c ∈ path.toList, c.toNat < 128 :=
  fun c hc => (h.ascii c hc).2

/-! ## Entries -/

section

variable {packaging : PackagingSettings} {time : DosTime} {path : String} {contents : Bytes}

/-- The header of a packed file describes it, when all its numbers fit. -/
theorem sound_ofFile (made : Time.Instant)
    (hname : (Text.utf8 path).length < 65536) (hcontents : contents.length < 4294967296)
    (hdata : (PackedFile.ofFile packaging (.ofInstant made) path contents).data.length <
      4294967296) :
    (PackedFile.ofFile packaging (.ofInstant made) path contents).Sound where
  fits := by
    have htime := DosTime.fields_lt made
    exact {
      versionNeeded := by
        change (if packaging.stored then 10 else 20) < 65536
        split <;> decide
      flags := by
        change nameFlags path < 65536
        rw [nameFlags]
        split <;> decide
      method := by
        change (if packaging.stored then storedMethod else deflatedMethod) < 65536
        split <;> decide
      timeField := htime.1
      dateField := htime.2
      crc := (crc32 contents).toNat_lt
      compressedSize := hdata
      size := hcontents
      nameLength := hname
      extraLength := Nat.zero_lt_succ 65535 }
  nameLength := rfl
  extraLength := rfl
  compressedSize := rfl
  method := by
    simp only [PackedFile.ofFile]
    split
    · exact Or.inl rfl
    · exact Or.inr rfl

theorem name_entry_ofFile (offset : Nat) :
    ((PackedFile.ofFile packaging time path contents).entry offset).name = path :=
  writtenText_utf8 rfl

theorem isDirectory_entry_ofFile (hpath : IsFilePath path) (offset : Nat) :
    ((PackedFile.ofFile packaging time path contents).entry offset).isDirectory = false := by
  rw [Entry.isDirectory, name_entry_ofFile]
  cases hlast : path.toList.getLast? with
  | none => rfl
  | some c =>
    obtain ⟨hslash, hbackslash⟩ := hpath c hlast
    simp [hslash, hbackslash]

theorem locked_entry_ofFile (offset : Nat) :
    ((PackedFile.ofFile packaging time path contents).entry offset).locked = false := by
  have hflags : (PackedFile.ofFile packaging time path contents).header.flags =
      nameFlags path := rfl
  simp only [Entry.locked, PackedFile.entry, Entry.plain, Header.has, hflags, nameFlags]
  split <;> decide

/-- The stored data of an entry are found behind its local header. -/
theorem entryData_entry {e : PackedFile} (hsound : e.Sound) {bytes rest : Bytes}
    {offset : Nat} (hplace : bytes.drop offset = e.localRecord ++ rest)
    (hlocked : (e.entry offset).locked = false) :
    entryData bytes (e.entry offset) = .ok e.data := by
  have hrecord : bytes.drop offset =
      localHeader e.header e.name ++ (e.data ++ rest) := by
    rw [hplace, PackedFile.localRecord, List.append_assoc]
  have hstart : bytes.drop (offset + localHeaderLength + e.header.nameLength +
      e.header.extraLength) = e.data ++ rest := by
    have hlength : localHeaderLength + e.header.nameLength + e.header.extraLength =
        (localHeader e.header e.name).length := by
      rw [length_localHeader, hsound.nameLength, hsound.extraLength, Nat.add_zero]
    rw [Nat.add_assoc, Nat.add_assoc, ← Nat.add_assoc localHeaderLength, hlength,
      ← List.drop_drop, hrecord, List.drop_left]
  have hmethod : ¬ (e.header.method ≠ storedMethod ∧ e.header.method ≠ deflatedMethod) := by
    rintro ⟨hstored, hdeflated⟩
    exact hsound.method.elim hstored hdeflated
  have hheader : (e.entry offset).header = e.header := rfl
  have hoffset : (e.entry offset).offset = offset := rfl
  rw [entryData, hoffset, hrecord, localHeaderReader_localHeader hsound.fits]
  simp only [hlocked, hheader, hmethod, if_false, hstart, hsound.compressedSize,
    List.take_left]
  simp

/-- The data of a packed file are those of its contents, stored or compressed. -/
theorem entryContents_ofFile (offset : Nat) :
    entryContents ((PackedFile.ofFile packaging time path contents).entry offset)
        (PackedFile.ofFile packaging time path contents).data = .ok contents := by
  simp only [entryContents, PackedFile.ofFile, PackedFile.entry, Entry.plain]
  by_cases hstored : packaging.stored = true
  · simp [hstored]
  · have hmethod : deflatedMethod ≠ storedMethod := by decide
    simp [hstored, hmethod, inflate?_deflate]

theorem readEntry_ofFile (hpath : IsFilePath path)
    (hsound : (PackedFile.ofFile packaging time path contents).Sound) {bytes rest : Bytes}
    {offset : Nat}
    (hplace : bytes.drop offset =
      (PackedFile.ofFile packaging time path contents).localRecord ++ rest)
    (found : Dictionary Bytes) :
    readEntry bytes found ((PackedFile.ofFile packaging time path contents).entry offset) =
      .ok (found.insert path contents) := by
  rw [readEntry, entryData_entry hsound hplace (locked_entry_ofFile offset)]
  simp only [bind, Except.bind, isDirectory_entry_ofFile hpath, entryContents_ofFile,
    name_entry_ofFile]
  rfl

end

/-! ## Directories -/

theorem directory_concat (offset : Nat) (front : List PackedFile) (e : PackedFile) :
    directory offset (front ++ [e]) = directory offset front ++
      centralHeader e.header e.name (offset + (localRecords front).length) := by
  induction front generalizing offset with
  | nil => simp [directory, localRecords]
  | cons first front ih =>
    have hlength : offset + first.localRecord.length + (localRecords front).length =
        offset + (localRecords (first :: front)).length := by
      simp only [localRecords, List.flatMap_cons, List.length_append]
      omega
    rw [List.cons_append, directory, ih, directory, List.append_assoc, hlength]

/-- Whether the last bytes of a header with this name cannot be taken for a
locator: what stands eighteen bytes before its end is a letter of the name or one
of the fields that are the same for all entries. -/
def SafeEnding (path : String) : Prop :=
  (4 ≤ path.length ∧ path.length ≤ 13) ∨ 18 ≤ path.length

theorem getElem?_centralHeader_ne {path : String} (hpath : Portable path)
    (hending : SafeEnding path) (h : Header) (offset : Nat) (rest : Bytes) :
    (centralHeader h (Text.utf8 path) offset ++ rest)[path.length + 28]? ≠ some 6 := by
  have hname : (Text.utf8 path).length = path.length := by
    rw [utf8_of_ascii hpath.lt, List.length_map, String.length_toList]
  obtain ⟨fields, hfields, hlength⟩ : ∃ fields : Bytes,
      centralHeader h (Text.utf8 path) offset = fields ++
        (le16 0 ++ le16 0 ++ le16 0 ++ le32 filePermissions ++ (le32 offset ++ Text.utf8 path)) ∧
      fields.length = 32 :=
    ⟨centralSignature ++ le16 madeBy ++ h.bytes,
      by simp only [centralHeader, List.append_assoc], rfl⟩
  have hbeyond : fields.length ≤ path.length + 28 := by
    rcases hending with ⟨hlow, -⟩ | hlong <;> omega
  rw [hfields, List.append_assoc, List.getElem?_append_right hbeyond, hlength]
  -- The byte is one of the fixed fields or a character of the name.
  rcases hending with ⟨hlow, hhigh⟩ | hlong
  · obtain ⟨k, hk, hindex⟩ : ∃ k < 10, path.length + 28 - 32 = k :=
      ⟨path.length - 4, by omega, by omega⟩
    have hfixed : ∀ k < 10, (le16 0 ++ le16 0 ++ le16 0 ++ le32 filePermissions)[k]? ≠ some 6 := by
      decide
    rw [hindex, List.append_assoc, List.getElem?_append_left (by simpa using hk)]
    exact hfixed k hk
  · intro hsix
    rw [List.append_assoc, List.getElem?_append_right (by simp; omega), List.append_assoc,
      List.getElem?_append_right (by simp; omega),
      List.getElem?_append_left (by simp; omega), utf8_of_ascii hpath.lt] at hsix
    obtain ⟨c, hc, hbyte⟩ := List.mem_map.mp (List.mem_of_getElem? hsix)
    have hsmall := congrArg UInt8.toNat hbyte
    have hrange := hpath.ascii c hc
    rw [UInt8.toNat_ofNat'] at hsmall
    simp only [show (6 : UInt8).toNat = 6 from rfl] at hsmall
    omega

/-- A directory whose last header ends safely does not end in a locator. -/
theorem noLocator_concat {path : String} (hpath : Portable path)
    (hending : SafeEnding path) (front : List PackedFile) {e : PackedFile}
    (hname : e.name = Text.utf8 path) : NoLocator (front ++ [e]) := by
  intro _ hroom
  -- A locator would lie inside the last header, with its third byte at a known place.
  obtain ⟨before, offset, hbody⟩ : ∃ before offset, archiveBody (front ++ [e]) =
      before ++ centralHeader e.header (Text.utf8 path) offset :=
    ⟨localRecords (front ++ [e]) ++ directory 0 front, 0 + (localRecords front).length, by
      rw [archiveBody, directory_concat, hname, List.append_assoc]⟩
  have hlength : (archiveBody (front ++ [e])).length =
      before.length + (path.length + 46) := by
    rw [hbody, List.length_append, length_centralHeader, utf8_of_ascii hpath.lt,
      List.length_map, String.length_toList, centralHeaderLength]
    omega
  rw [Option.eq_none_iff_forall_ne_some]
  intro found hfound
  have hsix := getElem?_of_locator hfound
  rw [List.getElem?_drop, hlength, archiveOf_eq, hbody, List.append_assoc,
    List.getElem?_append_right (by simp only [locatorLength]; omega)] at hsix
  have hindex : before.length + (path.length + 46) - locatorLength + 2 - before.length =
      path.length + 28 := by
    simp only [locatorLength]
    omega
  rw [hindex] at hsix
  exact getElem?_centralHeader_ne hpath hending _ _ _ hsix

/-! ## Archives -/

theorem eraseDups_of_nodup {names : List String} (h : names.Nodup) :
    names.eraseDups = names := by
  induction names with
  | nil => rfl
  | cons name names ih =>
    obtain ⟨hnew, hnames⟩ := List.nodup_cons.mp h
    have hfilter : (names.filter fun other => !other == name) = names := by
      apply List.filter_eq_self.mpr
      intro other hother
      have hne : other ≠ name := fun heq => hnew (heq ▸ hother)
      simpa using hne
    rw [List.eraseDups_cons, hfilter, ih hnames]

/-- Of entries with different names each counts. -/
theorem distinctEntries_of_nodup {entries : List Entry}
    (h : (entries.map (·.name)).Nodup) : distinctEntries entries = entries := by
  have hfind : ∀ e ∈ entries,
      (entries.reverse.find? fun other => other.name == e.name) = some e := by
    intro e he
    cases hfound : entries.reverse.find? fun other => other.name == e.name with
    | none =>
      exact absurd (List.find?_eq_none.mp hfound e (List.mem_reverse.mpr he)) (by simp)
    | some other =>
      have hsame : other.name = e.name := by simpa using List.find?_some hfound
      have hother := List.mem_reverse.mp (List.mem_of_find?_eq_some hfound)
      rw [List.inj_on_of_nodup_map h hother he hsame]
  rw [distinctEntries, eraseDups_of_nodup h, List.filterMap_map]
  calc entries.filterMap _ = entries.filterMap some := List.filterMap_congr hfind
    _ = entries := List.filterMap_some

section

variable {packaging : PackagingSettings} {time : DosTime}

/-- Files as their entries hold them. -/
def packedFiles (packaging : PackagingSettings) (time : DosTime)
    (files : List (String × Bytes)) : List PackedFile :=
  files.map fun f => PackedFile.ofFile packaging time f.1 f.2

theorem names_entriesFrom (files : List (String × Bytes)) (offset : Nat) :
    (entriesFrom offset (packedFiles packaging time files)).map (·.name) =
      files.map Prod.fst := by
  induction files generalizing offset with
  | nil => rfl
  | cons f files ih =>
    rw [packedFiles, List.map_cons, entriesFrom, List.map_cons, List.map_cons,
      name_entry_ofFile]
    exact congrArg _ (ih _)

/-- The entries are read one after the other, each where the one before it ends. -/
theorem foldlM_readEntry {files : List (String × Bytes)}
    (hpaths : ∀ f ∈ files, IsFilePath f.1)
    (hsound : ∀ e ∈ packedFiles packaging time files, e.Sound) {bytes rest : Bytes}
    {offset : Nat}
    (hplace : bytes.drop offset = localRecords (packedFiles packaging time files) ++ rest)
    (found : Dictionary Bytes) :
    (entriesFrom offset (packedFiles packaging time files)).foldlM (readEntry bytes) found =
      .ok (files.foldl (fun d f => d.insert f.1 f.2) found) := by
  induction files generalizing offset found with
  | nil => rfl
  | cons f files ih =>
    have hfirst : bytes.drop offset =
        (PackedFile.ofFile packaging time f.1 f.2).localRecord ++
          (localRecords (packedFiles packaging time files) ++ rest) := by
      rw [hplace, packedFiles, List.map_cons, localRecords, List.flatMap_cons,
        List.append_assoc]
      rfl
    have hnext : bytes.drop
        (offset + (PackedFile.ofFile packaging time f.1 f.2).localRecord.length) =
          localRecords (packedFiles packaging time files) ++ rest := by
      rw [← List.drop_drop, hfirst, List.drop_left]
    rw [packedFiles, List.map_cons, entriesFrom, List.foldlM_cons,
      readEntry_ofFile (hpaths f List.mem_cons_self) (hsound _ List.mem_cons_self) hfirst]
    exact ih (fun g hg => hpaths g (List.mem_cons_of_mem _ hg))
      (fun e he => hsound e (List.mem_cons_of_mem _ he)) hnext _

end

theorem length_data_le {es : List PackedFile} {e : PackedFile} (he : e ∈ es) :
    e.data.length ≤ (archiveOf es).length := by
  have hrecord : e.data.length ≤ e.localRecord.length := by
    simp [PackedFile.localRecord]
  have hrecords : e.localRecord.length ≤ (localRecords es).length := by
    obtain ⟨front, back, rfl⟩ := List.append_of_mem he
    simp only [localRecords, List.flatMap_append, List.flatMap_cons, List.length_append]
    omega
  have hbody : (localRecords es).length ≤ (archiveBody es).length := by
    simp [archiveBody]
  have htotal := length_archiveOf es
  omega

/-- Whether the records of an archive have room for the number of its files and
for all sizes. -/
structure WithinLimits (files : FileTree) (archive : Bytes) : Prop where
  count : files.size ≤ 65535
  sizes : ∀ f ∈ files.toList, f.2.length < 4294967296
  total : archive.length < 4294967296

/-- What `pack` returns is an archive of entries whose names are short enough. -/
theorem pack_eq_ok_iff {files : FileTree} {packaging : PackagingSettings}
    {made : Time.Instant} {archive : Bytes} :
    pack files packaging made = .ok archive ↔
      (∀ f ∈ files.toList, (Text.utf8 f.1).length ≤ longestName) ∧
        archive = archiveOf (packedFiles packaging (.ofInstant made) files.toList) := by
  have hany : ((packedFiles packaging (.ofInstant made) files.toList).any fun e =>
        decide (longestName < e.name.length)) = true ↔
      ¬ ∀ f ∈ files.toList, (Text.utf8 f.1).length ≤ longestName := by
    simp [packedFiles, PackedFile.ofFile]
  change (if (packedFiles packaging (.ofInstant made) files.toList).any _ = true then _
    else _) = _ ↔ _
  split
  · rename_i hlong
    constructor
    · intro heq
      cases heq
    · rintro ⟨hnames, -⟩
      exact absurd hnames (hany.mp hlong)
  · rename_i hshort
    have hnames := Decidable.not_not.mp fun hn => hshort (hany.mpr hn)
    constructor
    · intro heq
      exact ⟨hnames, (Except.ok.inj heq).symm⟩
    · rintro ⟨-, rfl⟩
      rfl

section

variable {files : FileTree} {packaging : PackagingSettings} {made : Time.Instant}
  {archive : Bytes}

theorem sound_of_pack (hpack : pack files packaging made = .ok archive)
    (hlimits : WithinLimits files archive) :
    ∀ e ∈ packedFiles packaging (.ofInstant made) files.toList, e.Sound := by
  obtain ⟨hnames, rfl⟩ := pack_eq_ok_iff.mp hpack
  intro e he
  have hdata := Nat.lt_of_le_of_lt (length_data_le he) hlimits.total
  obtain ⟨f, hf, rfl⟩ := List.mem_map.mp he
  exact sound_ofFile made (Nat.lt_succ_of_le (hnames f hf)) (hlimits.sizes f hf) hdata

/-- The directory of an archive lists the files of a tree in their order. -/
theorem readDirectory_pack (hpack : pack files packaging made = .ok archive)
    (hlimits : WithinLimits files archive)
    (hlocator : NoLocator (packedFiles packaging (.ofInstant made) files.toList)) :
    readDirectory archive =
      .ok (entriesFrom 0 (packedFiles packaging (.ofInstant made) files.toList)) := by
  have hsound := sound_of_pack hpack hlimits
  obtain ⟨-, rfl⟩ := pack_eq_ok_iff.mp hpack
  have hcount : (packedFiles packaging (.ofInstant made) files.toList).length < 65536 := by
    rw [packedFiles, List.length_map]
    exact Nat.lt_succ_of_le hlimits.count
  rw [readDirectory, readEntries?_archiveOf hsound hcount hlimits.total hlocator]

/-- The files of a tree are read back from an archive whose directory is found. -/
theorem ofArchive_pack_of_noLocator (hpack : pack files packaging made = .ok archive)
    (hlimits : WithinLimits files archive) (hpaths : ∀ path ∈ files.paths, IsFilePath path)
    (hlocator : NoLocator (packedFiles packaging (.ofInstant made) files.toList)) :
    PackageContents.ofArchive archive = .ok ⟨files.files⟩ := by
  have hsound := sound_of_pack hpack hlimits
  have hdirectory := readDirectory_pack hpack hlimits hlocator
  obtain ⟨-, rfl⟩ := pack_eq_ok_iff.mp hpack
  have hfiles : ∀ f ∈ files.toList, IsFilePath f.1 := fun f hf =>
    hpaths f.1 (List.mem_map.mpr ⟨f, hf, rfl⟩)
  have hnodup : ((entriesFrom 0 (packedFiles packaging (.ofInstant made)
      files.toList)).map (·.name)).Nodup := by
    rw [names_entriesFrom]
    exact files.files.nodup_keys
  have hplace : (archiveOf (packedFiles packaging (.ofInstant made) files.toList)).drop 0 =
      localRecords (packedFiles packaging (.ofInstant made) files.toList) ++
        (directory 0 (packedFiles packaging (.ofInstant made) files.toList) ++
          endRecord (packedFiles packaging (.ofInstant made) files.toList).length
            (directory 0 (packedFiles packaging (.ofInstant made) files.toList)).length
            (localRecords (packedFiles packaging (.ofInstant made) files.toList)).length) := by
    rw [List.drop_zero, archiveOf_eq, archiveBody, List.append_assoc]
  have hread := foldlM_readEntry hfiles hsound hplace ∅
  simp only [PackageContents.ofArchive, hdirectory, bind, Except.bind,
    distinctEntries_of_nodup hnodup, hread]
  rw [FileTree.toList, Dictionary.foldl_insert_entries]
  rfl

/-- No locator is found before the end record of files the last of which has a safe ending. -/
theorem noLocator_of_last (hpaths : ∀ path ∈ files.paths, Portable path) {last : String}
    (hlast : last ∈ files.paths) (hmax : ∀ path ∈ files.paths, ¬ last < path)
    (hending : SafeEnding last) :
    NoLocator (packedFiles packaging (.ofInstant made) files.toList) := by
  obtain ⟨front, contents, hconcat⟩ := Dictionary.entries_eq_concat hlast hmax
  rw [FileTree.toList, hconcat, packedFiles, List.map_append]
  exact noLocator_concat (hpaths last hlast) hending _ rfl

/-- The files of a tree are read back from the archive that they are packed into. -/
theorem ofArchive_pack (hpack : pack files packaging made = .ok archive)
    (hlimits : WithinLimits files archive)
    (hpaths : ∀ path ∈ files.paths, Portable path)
    {last : String} (hlast : last ∈ files.paths)
    (hmax : ∀ path ∈ files.paths, ¬ last < path)
    (hending : SafeEnding last) :
    PackageContents.ofArchive archive = .ok ⟨files.files⟩ :=
  ofArchive_pack_of_noLocator hpack hlimits (fun path hpath => (hpaths path hpath).isFile)
    (noLocator_of_last hpaths hlast hmax hending)

end

end Courseware.Package
