import Courseware.Proofs.Package.Deletion

/-!
# Files around a document

A document becomes the descriptor of a package when the files that the format needs and those
that it refers to stand around it. Such files exist around every document, and archives of
them can be made within the limits of plain records.
-/

namespace Courseware

namespace FileTree

/-- What is found after attempts to insert files is what was there or one of these. -/
theorem mem_paths_attemptAll {t : FileTree} {files : List (String × Bytes)} {path : String} :
    path ∈ (t.attemptAll files).paths ↔ path ∈ t.paths ∨ path ∈ files.map Prod.fst := by
  have hfound : (∃ contents, findEntry path files = some contents) ↔
      path ∈ files.map Prod.fst := by
    rw [← Option.isSome_iff_exists, Option.isSome_iff_ne_none, ne_eq, findEntry_eq_none_iff]
    simp
  rw [mem_paths_iff, mem_paths_iff, get?_attemptAll, ← hfound]
  cases t.get? path with
  | none => simp
  | some contents => simp

theorem size_attemptAll_le (files : List (String × Bytes)) :
    (FileTree.empty.attemptAll files).size ≤ files.length := by
  have hsubset : (FileTree.empty.attemptAll files).paths ⊆ files.map Prod.fst := fun path hpath =>
    (mem_paths_attemptAll.mp hpath).resolve_left (not_mem_paths_empty path)
  have hnodup := (FileTree.empty.attemptAll files).files.nodup_keys
  have hlength := (List.subperm_of_subset hnodup hsubset).length_le
  rwa [Dictionary.keys, List.length_map, List.length_map] at hlength

/-- Every file after attempts to insert files is one of these. -/
theorem mem_of_mem_attemptAll {files : List (String × Bytes)} {f : String × Bytes}
    (h : f ∈ (FileTree.empty.attemptAll files).toList) : f ∈ files := by
  have hself : (FileTree.empty.attemptAll files).get? f.1 = some f.2 :=
    findEntry_of_mem (FileTree.empty.attemptAll files).files.ordered h
  rw [get?_attemptAll] at hself
  exact mem_of_findEntry hself

end FileTree

namespace Package

/-! ## Files around a document -/

/-- Whether files have a document as the descriptor of a format, the other files that the
format needs, and files under some paths. -/
structure Surrounds (f : Format) (document : String) (listed : List String) (files : FileTree) :
    Prop where
  descriptor : files.get? (descriptorPath f) = some (Text.utf8 document)
  required : ∀ path ∈ requiredPaths f, path ∈ files.paths
  present : ∀ path ∈ listed, path ∈ files.paths

section Surrounds

variable {f : Format} {document : String} {listed paths : List String} {files : FileTree}

theorem Surrounds.text_eq (h : Surrounds f document listed files) :
    (⟨files.files⟩ : PackageContents).text (descriptorPath f) = .ok document := by
  have hget : (⟨files.files⟩ : PackageContents).get? (descriptorPath f) =
      some (Text.utf8 document) := h.descriptor
  rw [PackageContents.text, hget]
  simp

/-- Files around a document that refers to the paths that it lists are a package. -/
theorem Surrounds.isDescribed (h : Surrounds f document listed files)
    (hreferences : ∀ p : PackageContents, references f p document = .ok ([], paths))
    (hsame : ∀ path, path ∈ paths ↔ path ∈ listed) (hne : listed ≠ []) :
    IsDescribed f files paths where
  required := h.required
  descriptor := ⟨document, h.descriptor, hreferences⟩
  ne_nil := by
    obtain ⟨path, hpath⟩ := List.exists_mem_of_ne_nil _ hne
    exact List.ne_nil_of_mem ((hsame path).mpr hpath)
  present path hpath := h.present path ((hsame path).mp hpath)

/-- What is wrong with files around a document that refers to some paths is what is missing of
these. -/
theorem Surrounds.problems_eq (h : Surrounds f document listed files)
    (hreferences : references f ⟨files.files⟩ document = .ok ([], paths)) (hne : paths ≠ []) :
    problems f ⟨files.files⟩ =
      (paths.filter fun path => !isReachable ⟨files.files⟩ path).map
        (.missingContent (descriptorPath f)) := by
  have hrequired : ((requiredPaths f).filter fun path =>
      !(⟨files.files⟩ : PackageContents).contains path) = [] := by
    refine List.filter_eq_nil_iff.mpr fun path hpath => ?_
    simp [contains_iff_mem_paths.mpr (h.required path hpath)]
  rw [problems, descriptorProblems, h.text_eq, hrequired, List.map_nil, List.nil_append]
  simp only [hreferences, List.nil_append, pathProblems]
  rw [if_neg (by simp [hne])]

theorem isFilePath_of_mem_needed (f : Format) :
    ∀ path ∈ descriptorPath f :: requiredPaths f, IsFilePath path := by
  have hportable : ∀ path ∈ (pathScheme f).shared, IsFilePath path := fun path hpath =>
    ((sound_pathScheme f).isPath_shared path hpath).portable.isFile
  have hshared : descriptorPath f :: requiredPaths f ⊆ (pathScheme f).shared := by
    cases f with
    | scorm version => cases version <;> decide
    | xapi => decide
    | cmi5 => decide
    | html5 => decide
  exact fun path hpath => hportable path (hshared hpath)

theorem isFilePath_of_subset (hlisted : ∀ path ∈ listed, IsFilePath path)
    (hpaths : files.paths ⊆ descriptorPath f :: requiredPaths f ++ listed) :
    ∀ path ∈ files.paths, IsFilePath path := by
  intro path hpath
  rcases List.mem_append.mp (hpaths hpath) with hneeded | hmem
  · exact isFilePath_of_mem_needed f path hneeded
  · exact hlisted path hmem

/-- Files that plain records can hold are read back from an archive of them. -/
theorem ofArchive_packedFiles {packaging : PackagingSettings} {made : Time.Instant}
    (hpackable : Packable files packaging made) (hlisted : ∀ path ∈ listed, IsFilePath path)
    (hpaths : files.paths ⊆ descriptorPath f :: requiredPaths f ++ listed) :
    PackageContents.ofArchive
      (archiveOf (packedFiles packaging (.ofInstant made) files.toList)) = .ok ⟨files.files⟩ :=
  ofArchive_pack_of_noLocator hpackable.pack_eq hpackable.limits
    (isFilePath_of_subset hlisted hpaths) hpackable.locator

end Surrounds

/-! ## Documents with empty files around them -/

/-- A document as the descriptor of a format, with empty files around it. -/
def filesAround (f : Format) (document : String) (listed : List String) : FileTree :=
  FileTree.empty.attemptAll ((descriptorPath f, Text.utf8 document) ::
    (requiredPaths f ++ listed).map fun path => (path, []))

section FilesAround

variable (f : Format) (document : String) (listed : List String)

theorem mem_paths_filesAround_iff {path : String} :
    path ∈ (filesAround f document listed).paths ↔
      path ∈ descriptorPath f :: requiredPaths f ++ listed := by
  rw [filesAround, FileTree.mem_paths_attemptAll,
    or_iff_right (FileTree.not_mem_paths_empty path), List.map_cons, List.map_map]
  simp

theorem surrounds_filesAround : Surrounds f document listed (filesAround f document listed) where
  descriptor := by
    rw [filesAround, FileTree.get?_attemptAll, findEntry, if_pos rfl]
    rfl
  required path hpath := (mem_paths_filesAround_iff f document listed).mpr
    (List.mem_append_left _ (List.mem_cons_of_mem _ hpath))
  present path hpath := (mem_paths_filesAround_iff f document listed).mpr
    (List.mem_append_right _ hpath)

/-- A document that is not large fits into an archive with a few files around it. -/
theorem packable_filesAround (hdocument : document.utf8ByteSize ≤ 65535)
    (hcount : listed.length ≤ 900) (hnames : ∀ path ∈ listed, path.utf8ByteSize ≤ 65535)
    (made : Time.Instant) :
    Packable (filesAround f document listed) ⟨false, 6⟩ made := by
  have hneeded : ∀ path ∈ descriptorPath f :: requiredPaths f, path.utf8ByteSize ≤ 65535 := by
    cases f with
    | scorm version => cases version <;> decide +kernel
    | xapi => decide +kernel
    | cmi5 => decide +kernel
    | html5 => decide +kernel
  have hrequired : (requiredPaths f).length ≤ 5 := by
    cases f <;> simp [requiredPaths]
  have hpaths : ∀ path ∈ (filesAround f document listed).paths, path.utf8ByteSize ≤ 65535 := by
    intro path hpath
    rcases List.mem_append.mp ((mem_paths_filesAround_iff f document listed).mp hpath) with
      hmem | hmem
    · exact hneeded path hmem
    · exact hnames path hmem
  have hsize : (filesAround f document listed).size ≤ 1000 := by
    have hle := FileTree.size_attemptAll_le ((descriptorPath f, Text.utf8 document) ::
      (requiredPaths f ++ listed).map fun path => (path, []))
    rw [List.length_cons, List.length_map, List.length_append] at hle
    rw [filesAround]
    omega
  refine ⟨hpaths, withinLimits_of_stored rfl hsize (fun e he => ⟨?_, ?_⟩) made,
    noLocator_of_size_lt (by rw [Zip.beyond16]; omega)⟩
  · exact hpaths e.1 (List.mem_map_of_mem he)
  · rcases List.mem_cons.mp (FileTree.mem_of_mem_attemptAll he) with rfl | hempty
    · exact hdocument
    · obtain ⟨path, -, rfl⟩ := List.mem_map.mp hempty
      exact Nat.zero_le _

end FilesAround

end Package

end Courseware
