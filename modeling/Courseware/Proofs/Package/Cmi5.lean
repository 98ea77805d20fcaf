import Courseware.Proofs.Descriptor.Cmi5
import Courseware.Proofs.Package.Checks
import Courseware.Proofs.Script.Slot

/-!
# Packages of units have no problems

The descriptor of a cmi5 package places each unit at the page of its lesson.
-/

namespace Courseware.Package.Cmi5

open Descriptor.Cmi5 (CourseStructure)

variable {p : Plan} {ctx : ExportContext} {files : FileTree} {script : String}

def lessonTexts (ctx : ExportContext) (l : PlannedLesson) : List TextFile :=
  [(unitPath l, unitPage ctx l)]

def texts (script : String) (p : Plan) (ctx : ExportContext) : List TextFile :=
  [(structurePath, (courseStructure p ctx).document), (scriptPath, script),
    (stylesPath, Page.stylesheet), ("README.txt", readme p ctx .cmi5 steps)] ++
    p.lessons.flatMap (lessonTexts ctx)

def scheme : PathScheme where
  shared := [structurePath, scriptPath, stylesPath, "README.txt"]
  start := "au/"
  stops := ["/index.html"]
  last := scriptPath

theorem sound_scheme : scheme.Sound where
  isPath_shared := by
    simp only [scheme, List.forall_mem_cons, List.not_mem_nil, false_imp_iff, implies_true,
      and_true]
    refine ⟨?_, ?_, ?_, ?_⟩ <;> exact isPath_ofList ⟨by decide, _, rfl, by decide⟩
  isPath_stop := List.forall_mem_singleton.mpr (isPath_ofList ⟨by decide, _, rfl, by decide⟩)
  start_chars := by decide
  nodup_shared := by decide
  nodup_stops := by decide
  last_mem := by decide
  last_max := by decide
  ending := Or.inr (by decide)
  separated := Or.inl ⟨_, rfl⟩
  first := ⟨'a', _, rfl, by decide, 's', _, rfl, by decide⟩

theorem unitPath_eq (hp : Plan.ofCourse ctx.course = .ok p) {l : PlannedLesson}
    (hl : l ∈ p.lessons) : unitPath l = segmentPath "au/" l.lesson.id "/index.html" := by
  rw [unitPath, Plan.segment_eq hp hl, segmentPath]

theorem map_fst_texts (hp : Plan.ofCourse ctx.course = .ok p) :
    (texts script p ctx).map Prod.fst = scheme.paths p := by
  refine PathScheme.map_fst_texts rfl fun l hl => ?_
  simp [lessonTexts, PathScheme.lessonPaths, scheme, unitPath_eq hp hl]

theorem exists_packageFiles {files : List TextFile} (h : packageFiles p ctx = .ok files) :
    ∃ script, files ++ p.lessons.flatMap (lessonTexts ctx) = texts script p ctx := by
  obtain ⟨script, -, hreturn⟩ := bind_eq_ok_iff.mp h
  exact ⟨script, by rw [← Except.ok.inj hreturn]; rfl⟩

theorem exists_holds (h : exporter.planFiles p ctx = .ok files) :
    ∃ script, FileTree.empty.Holds files
      ((texts script p ctx).map fun f => (f.1, Text.utf8 f.2)) := by
  obtain ⟨shared, hshared, -⟩ := bind_eq_ok_iff.mp h
  obtain ⟨script, htexts⟩ := exists_packageFiles hshared
  refine ⟨script, ?_⟩
  rw [← htexts]
  exact Exporter.holds_of_planFiles h hshared fun l _ => rfl

/-- Every plan has its files. -/
theorem exists_planFiles (hp : Plan.ofCourse ctx.course = .ok p) :
    ∃ files, exporter.planFiles p ctx = .ok files := by
  obtain ⟨script, hscript⟩ := Script.exists_cmi5Script ctx.settings.xapi ctx.language
  obtain ⟨shared, hshared⟩ : ∃ shared, exporter.packageFiles p ctx = .ok shared :=
    ⟨_, bind_eq_ok_iff.mpr ⟨_, hscript, rfl⟩⟩
  obtain ⟨script, htexts⟩ := exists_packageFiles hshared
  have hpaths : (texts script p ctx).map Prod.fst = scheme.paths p := map_fst_texts hp
  rw [← htexts] at hpaths
  exact sound_scheme.exists_planFiles hp hshared (fun _ _ => rfl) hpaths

/-- The units of the descriptor are placed at the pages of the lessons. -/
theorem map_url_courseStructure (p : Plan) (ctx : ExportContext) :
    ((courseStructure p ctx).blocks.flatMap fun b => b.units.map (·.url)) =
      p.lessons.map unitPath := by
  have hlessons := congrArg (List.map (·.launch)) (p.lessons_outline unitPath fun _ => [])
  rw [List.map_map, List.map_flatMap] at hlessons
  rw [courseStructure, CourseStructure.ofOutline, List.flatMap_map]
  refine Eq.trans ?_ hlessons
  refine List.flatMap_congr fun m _ => ?_
  simp [Descriptor.Cmi5.UnitBlock.ofModule, Descriptor.Cmi5.AssignableUnit.ofLesson]

theorem sound_unit (hp : Plan.ofCourse ctx.course = .ok p) :
    ∀ b ∈ (courseStructure p ctx).blocks, ∀ u ∈ b.units, u.Sound := by
  intro b hb u hu
  have hurl : u.url ∈ p.lessons.map unitPath := by
    rw [← map_url_courseStructure p ctx]
    exact List.mem_flatMap.mpr ⟨b, hb, List.mem_map.mpr ⟨u, hu, rfl⟩⟩
  obtain ⟨l, hl, heq⟩ := List.mem_map.mp hurl
  obtain ⟨m, -, rfl⟩ := List.mem_map.mp hb
  obtain ⟨q, -, rfl⟩ := List.mem_map.mp hu
  refine ⟨?_, Descriptor.Cmi5.isPlainValue_moveOnFor _⟩
  rw [← heq, unitPath_eq hp hl]
  exact (isPath_segmentPath _ (by decide)
    (isPath_ofList ⟨by decide, _, rfl, by decide⟩)).isPhrase

/-- The descriptor refers to the pages of the lessons. -/
theorem isDescribed (hp : Plan.ofCourse ctx.course = .ok p) (hne : p.lessons ≠ [])
    (hholds : FileTree.empty.Holds files
      ((texts script p ctx).map fun f => (f.1, Text.utf8 f.2))) :
    IsDescribed .cmi5 files (p.lessons.map unitPath) := by
  have hcovers := PathScheme.covers_of_holds hholds (map_fst_texts hp)
  refine ⟨?_, ⟨_, hholds.get?_eq List.mem_cons_self, fun q => ?_⟩,
    by simpa using hne, ?_⟩
  · intro path hpath
    rw [hcovers, PathScheme.mem_paths]
    have hshared : path = scriptPath ∨ path = stylesPath := by simpa [requiredPaths] using hpath
    rcases hshared with rfl | rfl <;> exact Or.inl (by decide)
  · rw [← map_url_courseStructure p ctx]
    exact Descriptor.Cmi5.references_document (sound_unit hp) q
  · intro path hpath
    obtain ⟨l, hl, rfl⟩ := List.mem_map.mp hpath
    rw [hcovers, PathScheme.mem_paths]
    exact Or.inr ⟨l, hl, _, List.mem_singleton.mpr rfl, unitPath_eq hp hl⟩

/-- Packages are verified. -/
theorem verify_of_planFiles (hp : Plan.ofCourse ctx.course = .ok p) (hne : p.lessons ≠ [])
    (hfiles : exporter.planFiles p ctx = .ok files) {archive : Bytes}
    (hpack : pack files ctx.settings.packaging ctx.made = .ok archive)
    (hlimits : WithinLimits files archive) : verify archive .cmi5 = .ok [] := by
  obtain ⟨script, hholds⟩ := exists_holds hfiles
  exact verify_pack sound_scheme (PathScheme.covers_of_holds hholds (map_fst_texts hp)) hpack
    hlimits (isDescribed hp hne hholds).problems_eq_nil

end Courseware.Package.Cmi5
