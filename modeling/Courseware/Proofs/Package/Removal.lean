import Mathlib.Algebra.Order.BigOperators.Group.List
import Courseware.Proofs.Package.Packing

/-!
# Archives from which entries are removed

When entries are removed from the archive of some files, what is left is the archive of
the other files: it is read back as these, whatever the removed entries are.
-/

namespace Courseware

/-! ## The files that are left -/

namespace FileTree

/-- The tree without the files under some paths. -/
def without (t : FileTree) (removed : List String) : FileTree :=
  ⟨⟨t.files.entries.filter fun e => !removed.contains e.1, t.files.ordered.filter _⟩⟩

variable {t : FileTree} {removed : List String}

theorem mem_paths_without {path : String} :
    path ∈ (t.without removed).paths ↔ path ∈ t.paths ∧ path ∉ removed := by
  simp only [paths, Dictionary.keys, without, List.mem_map, List.mem_filter]
  constructor
  · rintro ⟨e, ⟨he, hkept⟩, rfl⟩
    exact ⟨⟨e, he, rfl⟩, by simpa using hkept⟩
  · rintro ⟨⟨e, he, rfl⟩, hkept⟩
    exact ⟨e, ⟨he, by simpa using hkept⟩, rfl⟩

theorem get?_without_of_notMem {path : String} (h : path ∉ removed) :
    (t.without removed).get? path = t.get? path := by
  have hfind (entries : List (String × Bytes)) :
      findEntry path (entries.filter fun e => !removed.contains e.1) = findEntry path entries := by
    induction entries with
    | nil => rfl
    | cons e rest ih =>
      by_cases hkept : e.1 ∈ removed
      · have hne : path ≠ e.1 := fun heq => h (heq ▸ hkept)
        rw [List.filter_cons, if_neg (by simp [hkept]), ih, findEntry, if_neg hne]
      · rw [List.filter_cons, if_pos (by simp [hkept]), findEntry, findEntry, ih]
  exact hfind t.files.entries

theorem get?_without_of_mem {path : String} (h : path ∈ removed) :
    (t.without removed).get? path = none := by
  have hnot : path ∉ (t.without removed).paths := fun hmem => (mem_paths_without.mp hmem).2 h
  exact Option.eq_none_iff_forall_ne_some.mpr fun contents hcontents =>
    hnot (mem_paths_iff.mpr ⟨contents, hcontents⟩)

theorem size_without_le : (t.without removed).size ≤ t.size :=
  List.length_filter_le _ _

/-- When as many files are left, none were removed. -/
theorem without_eq_of_size_eq (h : (t.without removed).size = t.size) :
    t.without removed = t := by
  have hentries : (t.without removed).files.entries = t.files.entries :=
    List.filter_sublist.eq_of_length h
  exact congrArg FileTree.mk (Dictionary.eq_of_entries hentries)

end FileTree

/-! ## The archive that is left -/

namespace Package

open Zip

variable {files : FileTree} {packaging : PackagingSettings} {made : Time.Instant}
  {archive : Bytes}

/-- The entries whose names are not among some paths. -/
def remaining (removed : List String) (entries : List PackedFile) : List PackedFile :=
  entries.filter fun e => !(removed.map Text.utf8).contains e.name

theorem utf8_injective : Function.Injective Text.utf8 := by
  intro s t h
  have hread := congrArg Text.ofUtf8? h
  simpa using hread

theorem remaining_packedFiles (removed : List String) (time : Zip.DosTime) :
    remaining removed (packedFiles packaging time files.toList) =
      packedFiles packaging time (files.without removed).toList := by
  have hname (f : String × Bytes) :
      (removed.map Text.utf8).contains (PackedFile.ofFile packaging time f.1 f.2).name =
        removed.contains f.1 := by
    rw [Bool.eq_iff_iff, List.contains_iff_mem, List.contains_iff_mem, PackedFile.ofFile]
    exact List.mem_map_of_injective utf8_injective
  rw [remaining, packedFiles, List.filter_map]
  simp only [Function.comp_def, hname]
  rfl

theorem names_packedFiles (time : Zip.DosTime) :
    (packedFiles packaging time files.toList).map (·.name) = files.paths.map Text.utf8 := by
  simp only [packedFiles, FileTree.paths, Dictionary.keys, List.map_map]
  rfl

theorem length_directory (offset : Nat) (es : List PackedFile) :
    (directory offset es).length =
      (es.map fun e => centralHeaderLength + e.name.length).sum := by
  induction es generalizing offset with
  | nil => rfl
  | cons e es ih =>
    rw [directory, List.length_append, length_centralHeader, ih, List.map_cons, List.sum_cons]

/-- An archive of fewer entries is not longer. -/
theorem length_archiveOf_le_of_sublist {es es' : List PackedFile} (h : es.Sublist es') :
    (archiveOf es).length ≤ (archiveOf es').length := by
  have hsum (f : PackedFile → Nat) : (es.map f).sum ≤ (es'.map f).sum :=
    (h.map f).sum_le_sum fun _ _ => Nat.zero_le _
  have hrecords := hsum fun e => e.localRecord.length
  have hdirectory := hsum fun e => centralHeaderLength + e.name.length
  simp only [archiveOf, List.length_append, length_endRecord, length_directory,
    List.length_flatMap]
  omega

/-- What is left of an archive within the limits is within them. -/
theorem withinLimits_without (hlimits : WithinLimits files
      (archiveOf (packedFiles packaging (.ofInstant made) files.toList))) (removed : List String) :
    WithinLimits (files.without removed)
      (archiveOf (packedFiles packaging (.ofInstant made) (files.without removed).toList)) where
  count := FileTree.size_without_le.trans hlimits.count
  sizes f hf := hlimits.sizes f (List.mem_filter.mp hf).1
  total := by
    rw [← remaining_packedFiles]
    exact Nat.lt_of_le_of_lt (length_archiveOf_le_of_sublist List.filter_sublist) hlimits.total

theorem noLocator_without
    (h : NoLocator (packedFiles packaging (.ofInstant made) files.toList))
    (hcount : files.size ≤ 65535) (removed : List String) :
    NoLocator (packedFiles packaging (.ofInstant made) (files.without removed).toList) := by
  -- A locator is looked for only when there are as many entries as a record can count.
  by_cases hsize : (files.without removed).size = files.size
  · rwa [FileTree.without_eq_of_size_eq hsize]
  · have hle := @FileTree.size_without_le files removed
    exact noLocator_of_size_lt (by rw [beyond16]; omega)

/-- What is left of an archive from which entries are removed is read back as the files
that are left. -/
theorem ofArchive_remaining (hpack : pack files packaging made = .ok archive)
    (hlimits : WithinLimits files archive) (hpaths : ∀ path ∈ files.paths, IsFilePath path)
    (hlocator : NoLocator (packedFiles packaging (.ofInstant made) files.toList))
    (removed : List String) :
    PackageContents.ofArchive (archiveOf
      (remaining removed (packedFiles packaging (.ofInstant made) files.toList))) =
        .ok ⟨(files.without removed).files⟩ := by
  obtain ⟨hnames, rfl⟩ := pack_eq_ok_iff.mp hpack
  rw [remaining_packedFiles]
  refine ofArchive_pack_of_noLocator (pack_eq_ok_iff.mpr ⟨?_, rfl⟩)
    (withinLimits_without hlimits removed) ?_ (noLocator_without hlocator hlimits.count removed)
  · exact fun f hf => hnames f (List.mem_filter.mp hf).1
  · exact fun path hpath => hpaths path (FileTree.mem_paths_without.mp hpath).1

end Package

end Courseware
