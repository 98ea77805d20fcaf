import Courseware.Package.Export
import Courseware.Proofs.Dictionary

/-!
# The files of a package

A tree into which files were inserted holds each of them, and nothing else; and files
with different paths can be inserted. The files of a plan are those of the package and
those of the lessons.
-/

namespace Courseware

namespace FileTree

theorem insert_eq_ok_iff {t t' : FileTree} {path : String} {contents : Bytes} :
    t.insert path contents = .ok t' ↔
      path ∉ t.paths ∧ t' = ⟨t.files.insert path contents⟩ := by
  rw [insert]
  split
  · rename_i hcontains
    have hmem : path ∈ t.paths := Dictionary.contains_iff_mem_keys.mp hcontains
    simp [hmem]
  · rename_i hcontains
    have hnot : path ∉ t.paths := fun hmem =>
      hcontains (Dictionary.contains_iff_mem_keys.mpr hmem)
    simp [hnot, eq_comm]

theorem mem_paths_iff {t : FileTree} {path : String} :
    path ∈ t.paths ↔ ∃ contents, t.get? path = some contents := by
  rw [paths, ← Dictionary.contains_iff_mem_keys, Dictionary.contains, Option.isSome_iff_exists]
  rfl

theorem get?_insert_of_mem {t : FileTree} {path other : String} {contents : Bytes}
    (h : path ∉ t.paths) (hother : other ∈ t.paths) :
    get? ⟨t.files.insert path contents⟩ other = t.get? other := by
  apply Dictionary.find?_insert_of_ne
  rintro rfl
  exact h hother

theorem mem_paths_insert {t : FileTree} {path other : String} {contents : Bytes} :
    other ∈ paths ⟨t.files.insert path contents⟩ ↔ other = path ∨ other ∈ t.paths := by
  by_cases h : other = path
  · subst h
    simp [mem_paths_iff, get?]
  · have hsame : get? ⟨t.files.insert path contents⟩ other = t.get? other :=
      Dictionary.find?_insert_of_ne _ h _
    simp [mem_paths_iff, hsame, h]

/-- What a tree holds after files were inserted. -/
structure Holds (t t' : FileTree) (files : List (String × Bytes)) : Prop where
  /-- Each file is there. -/
  inserted : ∀ f ∈ files, t'.get? f.1 = some f.2
  /-- What was there before is still there. -/
  kept : ∀ path ∈ t.paths, t'.get? path = t.get? path
  /-- Nothing else is there. -/
  only : ∀ path ∈ t'.paths, path ∈ t.paths ∨ path ∈ files.map Prod.fst

theorem holds_of_insertAll {t t' : FileTree} {files : List (String × Bytes)}
    (h : t.insertAll files = .ok t') : Holds t t' files := by
  induction files generalizing t with
  | nil =>
    cases h
    exact ⟨by simp, fun _ _ => rfl, fun _ hmem => Or.inl hmem⟩
  | cons f files ih =>
    rw [insertAll, List.foldlM_cons] at h
    cases hinsert : t.insert f.1 f.2 with
    | error e =>
      rw [hinsert] at h
      cases h
    | ok next =>
      rw [hinsert] at h
      obtain ⟨hnew, rfl⟩ := insert_eq_ok_iff.mp hinsert
      -- What holds of the rest is seen from the tree with the first file in it.
      have hrest := ih h
      have hself : f.1 ∈ paths ⟨t.files.insert f.1 f.2⟩ := mem_paths_insert.mpr (Or.inl rfl)
      refine ⟨?_, ?_, ?_⟩
      · intro g hg
        rcases List.mem_cons.mp hg with rfl | hg
        · rw [hrest.kept _ hself]
          exact Dictionary.find?_insert_self _ _ _
        · exact hrest.inserted g hg
      · intro path hpath
        rw [hrest.kept _ (mem_paths_insert.mpr (Or.inr hpath)), get?_insert_of_mem hnew hpath]
      · intro path hpath
        rcases hrest.only path hpath with hpath | hpath
        · rcases mem_paths_insert.mp hpath with rfl | hpath
          · exact Or.inr List.mem_cons_self
          · exact Or.inl hpath
        · exact Or.inr (List.mem_cons_of_mem _ hpath)

/-- Files with different paths that are not in use can be inserted. -/
theorem exists_insertAll {t : FileTree} {files : List (String × Bytes)}
    (hfresh : ∀ f ∈ files, f.1 ∉ t.paths) (hnodup : (files.map Prod.fst).Nodup) :
    ∃ t', t.insertAll files = .ok t' := by
  induction files generalizing t with
  | nil => exact ⟨t, rfl⟩
  | cons f files ih =>
    obtain ⟨hnew, hrest⟩ := List.nodup_cons.mp (List.map_cons ▸ hnodup)
    have hinsert : t.insert f.1 f.2 = .ok ⟨t.files.insert f.1 f.2⟩ :=
      insert_eq_ok_iff.mpr ⟨hfresh f List.mem_cons_self, rfl⟩
    have hnext : ∀ g ∈ files, g.1 ∉ paths ⟨t.files.insert f.1 f.2⟩ := by
      intro g hg hmem
      rcases mem_paths_insert.mp hmem with heq | hmem
      · exact hnew (List.mem_map.mpr ⟨g, hg, heq⟩)
      · exact hfresh g (List.mem_cons_of_mem _ hg) hmem
    obtain ⟨t', ht'⟩ := ih hnext hrest
    refine ⟨t', ?_⟩
    rw [insertAll, List.foldlM_cons, hinsert]
    exact ht'

theorem not_mem_paths_empty (path : String) : path ∉ FileTree.empty.paths :=
  List.not_mem_nil

/-! ## Attempts -/

/-- The tree after an attempt to insert a file. An attempt that is rejected leaves the tree. -/
def attempt (t : FileTree) (f : String × Bytes) : FileTree :=
  (t.insert f.1 f.2).toOption.getD t

/-- The tree after attempts to insert files, one after the other. -/
def attemptAll (t : FileTree) (files : List (String × Bytes)) : FileTree :=
  files.foldl attempt t

/-- A path that is in use is rejected. -/
theorem insert_of_mem {t : FileTree} {path : String} (h : path ∈ t.paths) (contents : Bytes) :
    t.insert path contents = .error (.packaging ("duplicate archive path: " ++ path)) := by
  rw [insert, if_pos (Dictionary.contains_iff_mem_keys.mpr h)]

theorem attempt_of_mem {t : FileTree} {f : String × Bytes} (h : f.1 ∈ t.paths) :
    t.attempt f = t := by
  rw [attempt, insert_of_mem h]
  rfl

/-- An attempt changes nothing but the contents under a path that was not in use. -/
theorem get?_attempt (t : FileTree) (f : String × Bytes) (path : String) :
    (t.attempt f).get? path = (t.get? path).or (findEntry path [f]) := by
  by_cases hmem : f.1 ∈ t.paths
  · rw [attempt_of_mem hmem]
    obtain ⟨contents, hcontents⟩ := mem_paths_iff.mp hmem
    by_cases hpath : path = f.1
    · rw [hpath, hcontents, Option.some_or]
    · rw [findEntry, if_neg hpath, findEntry, Option.or_none]
  · have hinsert : t.insert f.1 f.2 = .ok ⟨t.files.insert f.1 f.2⟩ :=
      insert_eq_ok_iff.mpr ⟨hmem, rfl⟩
    rw [attempt, hinsert]
    by_cases hpath : path = f.1
    · have hnone : t.get? path = none :=
        Option.eq_none_iff_forall_ne_some.mpr fun contents hcontents =>
          hmem (mem_paths_iff.mpr ⟨contents, hpath ▸ hcontents⟩)
      rw [hnone, Option.none_or, findEntry, if_pos hpath, hpath]
      exact Dictionary.find?_insert_self _ _ _
    · rw [findEntry, if_neg hpath, findEntry, Option.or_none]
      exact Dictionary.find?_insert_of_ne _ hpath _

/-- Of several files with one path the first is kept. -/
theorem get?_attemptAll (t : FileTree) (files : List (String × Bytes)) (path : String) :
    (t.attemptAll files).get? path = (t.get? path).or (findEntry path files) := by
  induction files generalizing t with
  | nil => exact Option.or_none.symm
  | cons f files ih =>
    have hfirst : findEntry path (f :: files) =
        (findEntry path [f]).or (findEntry path files) := by
      simp only [findEntry]
      split <;> rfl
    rw [attemptAll, List.foldl_cons, ← attemptAll, ih, get?_attempt, hfirst, Option.or_assoc]

/-- A tree is determined by the contents of its files. -/
theorem eq_of_get? {t t' : FileTree} (h : ∀ path, t.get? path = t'.get? path) : t = t' :=
  congrArg FileTree.mk (Dictionary.eq_of_find? h)

end FileTree

namespace Exporter

variable {e : Exporter} {p : Plan} {ctx : ExportContext} {texts : List TextFile}
  {lessonTexts : PlannedLesson → List TextFile}

theorem insertTexts_append (t : FileTree) (texts more : List TextFile) :
    t.insertTexts (texts ++ more) = (t.insertTexts texts).bind (·.insertTexts more) := by
  rw [FileTree.insertTexts, FileTree.insertAll, List.map_append, List.foldlM_append]
  rfl

/-- When the files of every lesson are known, those of a plan are inserted in one go. -/
theorem planFiles_eq (htexts : e.packageFiles p ctx = .ok texts)
    (hlessons : ∀ l ∈ p.lessons, e.lessonFiles p l ctx = .ok (lessonTexts l)) :
    e.planFiles p ctx =
      FileTree.empty.insertTexts (texts ++ p.lessons.flatMap lessonTexts) := by
  have hfold : ∀ (ls : List PlannedLesson) (t : FileTree),
      (∀ l ∈ ls, e.lessonFiles p l ctx = .ok (lessonTexts l)) →
        ls.foldlM (e.addLesson p ctx) t = t.insertTexts (ls.flatMap lessonTexts) := by
    intro ls
    induction ls with
    | nil => exact fun _ _ => rfl
    | cons l ls ih =>
      intro t hls
      have hadd : e.addLesson p ctx t l = t.insertTexts (lessonTexts l) := by
        rw [addLesson, hls l List.mem_cons_self]
        rfl
      rw [List.foldlM_cons, hadd, List.flatMap_cons, insertTexts_append]
      congr 1
      funext next
      exact ih next fun x hx => hls x (List.mem_cons_of_mem _ hx)
  rw [planFiles, htexts, insertTexts_append]
  change (FileTree.empty.insertTexts texts).bind _ = _
  congr 1
  funext t
  exact hfold p.lessons t hlessons

/-- What the files of a plan are. -/
theorem holds_of_planFiles {files : FileTree} (h : e.planFiles p ctx = .ok files)
    (htexts : e.packageFiles p ctx = .ok texts)
    (hlessons : ∀ l ∈ p.lessons, e.lessonFiles p l ctx = .ok (lessonTexts l)) :
    FileTree.empty.Holds files
      ((texts ++ p.lessons.flatMap lessonTexts).map fun f => (f.1, Text.utf8 f.2)) := by
  rw [planFiles_eq htexts hlessons] at h
  exact FileTree.holds_of_insertAll h

end Exporter

namespace FileTree

variable {files : FileTree} {texts : List TextFile}

/-- A tree that holds texts holds each of them. -/
theorem Holds.get?_eq
    (h : FileTree.empty.Holds files (texts.map fun f => (f.1, Text.utf8 f.2)))
    {path text : String} (hmem : (path, text) ∈ texts) :
    files.get? path = some (Text.utf8 text) :=
  h.inserted (path, Text.utf8 text) (List.mem_map.mpr ⟨(path, text), hmem, rfl⟩)

/-- The paths of a tree that holds texts. -/
theorem Holds.mem_paths_iff
    (h : FileTree.empty.Holds files (texts.map fun f => (f.1, Text.utf8 f.2)))
    {path : String} : path ∈ files.paths ↔ path ∈ texts.map Prod.fst := by
  constructor
  · intro hpath
    have hmem := (h.only path hpath).resolve_left (not_mem_paths_empty path)
    simpa [Function.comp_def] using hmem
  · intro hpath
    obtain ⟨f, hf, rfl⟩ := List.mem_map.mp hpath
    exact FileTree.mem_paths_iff.mpr ⟨_, h.get?_eq hf⟩

end FileTree

end Courseware
