import Courseware.Proofs.Package.Paths
import Courseware.Proofs.Package.References
import Courseware.Proofs.Package.Tree

/-!
# When nothing is wrong with a package

A package without problems: what its paths, its descriptor and its files have to be.
-/

namespace Courseware.Package

/-- A path is written as it is. -/
theorem IsPath.isPhrase {path : String} (h : IsPath path) : IsPhrase path := by
  apply isPhrase_of_forall
  · obtain ⟨c, hc, -⟩ := h.2
    rintro hnil
    rw [hnil] at hc
    cases hc
  · intro c hc
    have hchar := h.1 c hc
    rw [isPathChar, Bool.or_eq_true, beq_iff_eq] at hchar
    rcases hchar with hchar | rfl
    · obtain ⟨hlow, hhigh, -, hless, hgreater, -⟩ := Text.isSegmentChar_range hchar
      refine ⟨?_, ?_⟩
      · rintro (rfl | rfl | rfl | rfl | rfl)
        · exact absurd hlow (by decide)
        · exact hless rfl
        · exact hgreater rfl
        · exact absurd hlow (by decide)
        · exact absurd hlow (by decide)
      · simp only [Text.isBlank]
        simp
        omega
    · exact ⟨by rintro (h | h | h | h | h) <;> exact absurd h (by decide), by decide⟩

/-! ## Problems -/

theorem contains_iff_mem_paths {files : FileTree} {path : String} :
    (⟨files.files⟩ : PackageContents).contains path = true ↔ path ∈ files.paths :=
  Dictionary.contains_iff_mem_keys

theorem mem_sorted {texts : List String} {s : String} : s ∈ sorted texts ↔ s ∈ texts := by
  have hfold : ∀ (entries : List (String × Unit)) (d : Dictionary Unit),
      s ∈ (entries.foldl (fun d e => d.insert e.1 e.2) d).keys ↔
        s ∈ d.keys ∨ s ∈ entries.map Prod.fst := by
    intro entries
    induction entries with
    | nil => simp
    | cons e entries ih =>
      intro d
      have hinsert : s ∈ (d.insert e.1 e.2).keys ↔ s ∈ d.keys ∨ s = e.1 := by
        rw [← Dictionary.contains_iff_mem_keys, ← Dictionary.contains_iff_mem_keys,
          Dictionary.contains, Dictionary.contains]
        by_cases heq : s = e.1
        · simp [heq]
        · simp [Dictionary.find?_insert_of_ne _ heq, heq]
      rw [List.foldl_cons, ih, hinsert, List.map_cons, List.mem_cons]
      tauto
  have hnone : s ∉ (∅ : Dictionary Unit).keys := List.not_mem_nil
  have hkeys : (texts.map fun t => (t, ())).map Prod.fst = texts := by
    simp [Function.comp_def]
  rw [sorted, Dictionary.ofList, hfold, hkeys]
  exact or_iff_right hnone

/-- Whether files are a package: the required ones are there, and the descriptor, which
refers to files of the package alone and to some of them. -/
structure IsDescribed (format : Format) (files : FileTree) (paths : List String) : Prop where
  required : ∀ path ∈ requiredPaths format, path ∈ files.paths
  descriptor : ∃ text, files.get? (descriptorPath format) = some (Text.utf8 text) ∧
    ∀ p : PackageContents, references format p text = .ok ([], paths)
  ne_nil : paths ≠ []
  present : ∀ path ∈ paths, path ∈ files.paths

namespace IsDescribed

variable {format : Format} {files : FileTree} {paths : List String} {p : PackageContents}

/-- The problems of a package that still has its descriptor are the files that it does not
have any more. -/
theorem problems_eq (h : IsDescribed format files paths)
    (hsame : p.get? (descriptorPath format) = files.get? (descriptorPath format)) :
    problems format p =
      ((requiredPaths format).filter fun path => !p.contains path).map .missing ++
        (paths.filter fun path => !isReachable p path).map
          (.missingContent (descriptorPath format)) := by
  obtain ⟨text, hget, hreferences⟩ := h.descriptor
  have htext : p.text (descriptorPath format) = .ok text := by
    rw [PackageContents.text, hsame, hget]
    simp
  rw [problems, descriptorProblems, htext]
  simp only [hreferences, List.nil_append, pathProblems]
  rw [if_neg (by simp [h.ne_nil])]

/-- A package that has all its files has no problems. -/
theorem problems_eq_nil (h : IsDescribed format files paths) :
    problems format ⟨files.files⟩ = [] := by
  have hrequired : ((requiredPaths format).filter fun path =>
      !(⟨files.files⟩ : PackageContents).contains path) = [] := by
    apply List.filter_eq_nil_iff.mpr
    intro path hpath
    simp [contains_iff_mem_paths.mpr (h.required path hpath)]
  have hreachable : (paths.filter fun path =>
      !isReachable (⟨files.files⟩ : PackageContents) path) = [] := by
    apply List.filter_eq_nil_iff.mpr
    intro path hpath
    simp [isReachable, contains_iff_mem_paths.mpr (h.present path hpath)]
  have hsame : (⟨files.files⟩ : PackageContents).get? (descriptorPath format) =
      files.get? (descriptorPath format) := rfl
  rw [h.problems_eq hsame, hrequired, hreachable, List.map_nil, List.map_nil, List.nil_append]

end IsDescribed

/-- Whether a tree has the paths of the package of a plan. -/
def PathScheme.Covers (s : PathScheme) (p : Plan) (files : FileTree) : Prop :=
  ∀ path, path ∈ files.paths ↔ path ∈ s.paths p

theorem PathScheme.covers_of_holds {s : PathScheme} {p : Plan} {files : FileTree}
    {texts : List TextFile}
    (hholds : FileTree.empty.Holds files (texts.map fun f => (f.1, Text.utf8 f.2)))
    (hpaths : texts.map Prod.fst = s.paths p) : s.Covers p files := by
  intro path
  rw [hholds.mem_paths_iff, hpaths]

/-- Texts have the paths of a scheme when those of each lesson do. -/
theorem PathScheme.map_fst_texts {s : PathScheme} {p : Plan} {shared : List TextFile}
    {lessonTexts : PlannedLesson → List TextFile} (hshared : shared.map Prod.fst = s.shared)
    (hlessons : ∀ l ∈ p.lessons, (lessonTexts l).map Prod.fst = s.lessonPaths l) :
    (shared ++ p.lessons.flatMap lessonTexts).map Prod.fst = s.paths p := by
  rw [List.map_append, List.map_flatMap, hshared, List.flatMap_congr hlessons, paths]

/-- A plan has its files when these are known to have the paths of a package. -/
theorem PathScheme.Sound.exists_planFiles {s : PathScheme} (hs : s.Sound) {ctx : ExportContext}
    {p : Plan} (hp : Plan.ofCourse ctx.course = .ok p) {e : Exporter} {shared : List TextFile}
    {lessonTexts : PlannedLesson → List TextFile}
    (hshared : e.packageFiles p ctx = .ok shared)
    (hlessons : ∀ l ∈ p.lessons, e.lessonFiles p l ctx = .ok (lessonTexts l))
    (hpaths : (shared ++ p.lessons.flatMap lessonTexts).map Prod.fst = s.paths p) :
    ∃ files, e.planFiles p ctx = .ok files := by
  have hnodup := hs.nodup_paths (Plan.nodup_pathSegments hp)
  rw [← hpaths] at hnodup
  rw [Exporter.planFiles_eq hshared hlessons]
  apply FileTree.exists_insertAll
  · exact fun f _ => FileTree.not_mem_paths_empty f.1
  · rw [List.map_map]
    exact hnodup

/-- An archive of files that are no problem is verified. -/
theorem verify_pack {s : PathScheme} (hs : s.Sound) {format : Format} {p : Plan}
    {files : FileTree} (hcovers : s.Covers p files) {packaging : PackagingSettings}
    {made : Time.Instant} {archive : Bytes}
    (hpack : pack files packaging made = .ok archive) (hlimits : WithinLimits files archive)
    (hproblems : problems format ⟨files.files⟩ = []) :
    verify archive format = .ok [] := by
  have hread := ofArchive_pack hpack hlimits
    (fun path hpath => (hs.isPath path ((hcovers path).mp hpath)).portable)
    ((hcovers s.last).mpr (PathScheme.mem_paths.mpr (Or.inl hs.last_mem)))
    (fun path hpath => hs.not_lt path ((hcovers path).mp hpath)) hs.ending
  rw [verify, hread]
  exact congrArg Except.ok hproblems

end Courseware.Package
