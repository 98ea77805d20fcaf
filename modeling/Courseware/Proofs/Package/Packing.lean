import Courseware.Proofs.Package.Limits

/-!
# Packing

Files that fit into the records of an archive can be packed and are read back, whatever
their names and contents are. The archive lists them in the order of their paths, and it
depends only on what the files are, not on how they came together.
-/

namespace Courseware.Package

open Zip

variable {files : FileTree} {packaging : PackagingSettings} {made : Time.Instant}

/-- Whether plain records can hold files. The number of files that stands for one that does
not fit may be reached, unless the bytes before the end record then look like the locator of
a wide one. -/
structure Packable (files : FileTree) (packaging : PackagingSettings) (made : Time.Instant) :
    Prop where
  names : ∀ path ∈ files.paths, (Text.utf8 path).length ≤ longestName
  limits : WithinLimits files
    (archiveOf (packedFiles packaging (.ofInstant made) files.toList))
  locator : NoLocator (packedFiles packaging (.ofInstant made) files.toList)

theorem Packable.pack_eq (h : Packable files packaging made) : pack files packaging made =
    .ok (archiveOf (packedFiles packaging (.ofInstant made) files.toList)) := by
  refine pack_eq_ok_iff.mpr ⟨?_, rfl⟩
  intro f hf
  exact h.names f.1 (List.mem_map.mpr ⟨f, hf, rfl⟩)

/-- Fewer files than stand for a number that does not fit need no wide end record. -/
theorem noLocator_of_size_lt (h : files.size < beyond16) :
    NoLocator (packedFiles packaging (.ofInstant made) files.toList) := by
  intro hcount
  have hsize : (packedFiles packaging (.ofInstant made) files.toList).length = files.size :=
    List.length_map _
  omega

theorem writtenNames_entriesFrom (time : Zip.DosTime) (fs : List (String × Bytes))
    (offset : Nat) :
    (entriesFrom offset (packedFiles packaging time fs)).map (·.writtenName) =
      fs.map fun f => Text.utf8 f.1 := by
  induction fs generalizing offset with
  | nil => rfl
  | cons f fs ih =>
    rw [packedFiles, List.map_cons, entriesFrom, List.map_cons, List.map_cons]
    exact congrArg _ (ih _)

/-- The files of a tree stand in the order of the bytes of their paths. -/
theorem pairwise_utf8_toList (files : FileTree) :
    (files.toList.map fun f => Text.utf8 f.1).Pairwise (· < ·) :=
  List.pairwise_map.mpr (files.files.ordered.imp utf8_lt)

/-- A tree of a file whose name is not ASCII and whose contents look like an end record, and
of an empty file; the last attempt is rejected. -/
def mixedFiles : FileTree :=
  FileTree.empty.attemptAll
    [("\u00e9.txt", [0x50, 0x4B, 0x05, 0x06]), ("b.txt", []), ("\u00e9.txt", [0x00])]

theorem packable_mixedFiles (made : Time.Instant) : Packable mixedFiles ⟨false, 6⟩ made where
  names := by decide
  limits := withinLimits_of_stored rfl (by decide) (by decide) made
  locator := noLocator_of_size_lt (by decide)

end Courseware.Package
