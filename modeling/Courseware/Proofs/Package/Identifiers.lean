import Courseware.Proofs.Descriptor.ScormIdentifiers
import Courseware.Proofs.Package.Listing

/-!
# Identifiers and references of SCORM packages

A course has a plan only if the path segments of its modules are different, and those of its
lessons. This is enough for the descriptor: all its identifiers are different names, each lesson
refers to one resource, which starts with the lesson's page, and each page is a file of one
resource.
-/

namespace Courseware

open Text (pathSegment)

/-! ## Modules of plans -/

theorem checkModules_segments {seenModules seenLessons : List String} {ms : List Module}
    (h : checkModules seenModules seenLessons ms = .ok ()) :
    (ms.map fun m => pathSegment m.id).Nodup ∧
      ∀ s ∈ ms.map fun m => pathSegment m.id, s ∉ seenModules.map pathSegment := by
  induction ms generalizing seenModules seenLessons with
  | nil => simp
  | cons m ms ih =>
    obtain ⟨_, hunique, h⟩ := bind_eq_ok_iff.mp h
    obtain ⟨all, -, hrest⟩ := bind_eq_ok_iff.mp h
    have hnew := checkUnique_eq_ok_iff.mp hunique
    obtain ⟨hnodup, hfresh⟩ := ih hrest
    refine ⟨List.nodup_cons.mpr ⟨?_, hnodup⟩, ?_⟩
    · exact fun hmem => hfresh _ hmem List.mem_cons_self
    · refine List.forall_mem_cons.mpr ⟨hnew, fun s hs hseen => ?_⟩
      exact hfresh s hs (List.mem_cons_of_mem _ hseen)

/-- The modules of a plan have different path segments. -/
theorem Plan.nodup_moduleSegments {c : Course} {p : Plan} (h : ofCourse c = .ok p) :
    (p.modules.map fun m => pathSegment m.source.id).Nodup := by
  have hmodules := congrArg (List.map fun m : Module × List Lesson => pathSegment m.1.id)
    (map_modules h)
  rw [List.map_map, List.map_map] at hmodules
  have hcheck := (checkModules_segments (ofCourse_eq_ok_iff.mp h).1).1
  rwa [show (p.modules.map fun m => pathSegment m.source.id) =
    c.orderedModules.map fun m => pathSegment m.id from hmodules]

namespace Package

open Descriptor.Scorm (IsIdentifier Manifest attributesNamed)
open Markup (Event)

variable {p : Plan} {ctx : ExportContext} {files : FileTree}

theorem Scorm.nodup_moduleSegments (hp : Plan.ofCourse ctx.course = .ok p) :
    (Descriptor.Scorm.moduleSegments
      (p.outline launcherPath fun l => [contentPath l]).launchable).Nodup := by
  rw [Descriptor.Scorm.moduleSegments, p.launchable_outline, List.map_map]
  exact (Plan.nodup_moduleSegments hp).sublist (List.filter_sublist.map _)

/-- Whether what is named and referred to in a manifest fits together, and with the lessons and
the paths of a package. -/
structure IsCoherent (m : Manifest) (lessons : List PlannedLesson) (paths : List String) :
    Prop where
  /-- No identifier is used twice. -/
  nodup : m.identifiers.Nodup
  names : ∀ s ∈ m.identifiers, IsIdentifier s
  /-- The item of each lesson refers to one resource alone, which starts with the lesson's
  page. -/
  launches : List.Forall₂ (fun i l => m.Launches ("ITEM-" ++ pathSegment l.lesson.id)
    (Scorm.launcherPath l) i) m.lessonItems lessons
  pages : ∀ l ∈ lessons, Scorm.launcherPath l ∈ paths
  dependencies : ∀ r ∈ m.resources, ∀ d ∈ r.dependencies, d ∈ m.resources.map (·.identifier)
  /-- What is below the folder of the pages is listed once, by one resource. -/
  files : ∀ path ∈ paths, "content/".toList <+: path.toList →
    ∃ r, (m.resources.filter fun r => r.files.contains path) = [r] ∧ r.files.count path = 1

section Scorm

variable {version : ScormVersion}

/-- The files that the resources of a manifest list. -/
theorem Scorm.files_manifest (hp : Plan.ofCourse ctx.course = .ok p) :
    (manifest version p ctx).resources.flatMap (·.files) =
      p.lessons.flatMap scheme.lessonPaths ++ [scriptPath, stylesPath] := by
  rw [manifest, Descriptor.Scorm.files_ofOutline, p.lessons_outline, List.flatMap_map]
  congr 1
  refine List.flatMap_congr fun l hl => ?_
  simp [PlannedLesson.outline, PathScheme.lessonPaths, scheme, launcherPath_eq hp hl,
    contentPath_eq hp hl]

theorem Scorm.nodup_files_manifest (hp : Plan.ofCourse ctx.course = .ok p) :
    ((manifest version p ctx).resources.flatMap (·.files)).Nodup := by
  have hpaths := sound_scheme.nodup_paths (Plan.nodup_pathSegments hp)
  rw [PathScheme.paths] at hpaths
  have hshared : [scriptPath, stylesPath].Sublist scheme.shared := by decide
  rw [files_manifest hp, List.perm_append_comm.nodup_iff]
  exact hpaths.sublist (hshared.append_right _)

theorem Scorm.mem_files_manifest (hp : Plan.ofCourse ctx.course = .ok p) {path : String}
    (hpath : path ∈ scheme.paths p) (hfolder : "content/".toList <+: path.toList) :
    path ∈ (manifest version p ctx).resources.flatMap (·.files) := by
  have hshared : ∀ other ∈ scheme.shared, ¬ "content/".toList <+: other.toList := by decide
  rw [files_manifest hp]
  rcases List.mem_append.mp hpath with hmem | hmem
  · exact absurd hfolder (hshared path hmem)
  · exact List.mem_append_left _ hmem

theorem Scorm.forall₂_launches (hp : Plan.ofCourse ctx.course = .ok p) :
    List.Forall₂ (fun i l => (manifest version p ctx).told.Launches
        ("ITEM-" ++ pathSegment l.lesson.id) (launcherPath l) i)
      (manifest version p ctx).told.lessonItems p.lessons := by
  have hlaunches := @Descriptor.Scorm.forall₂_launches_told ctx.metadata _ version
    { masteryScore := some ctx.settings.scorm.masteryPercent
      timeLimitMinutes := ctx.settings.scorm.timeLimit
      sharedFiles := [scriptPath, stylesPath] } (nodup_moduleSegments hp) (nodup_lessonSegments hp)
  rw [p.lessons_outline, List.forall₂_map_right_iff] at hlaunches
  exact hlaunches

/-- What the descriptor of a package is read back as fits together. -/
theorem Scorm.isCoherent_told (hp : Plan.ofCourse ctx.course = .ok p)
    (hcovers : scheme.Covers p files) :
    IsCoherent (manifest version p ctx).told p.lessons files.paths where
  nodup := by
    rw [Manifest.identifiers_told]
    exact Descriptor.Scorm.nodup_identifiers (nodup_moduleSegments hp) (nodup_lessonSegments hp)
  names := by
    rw [Manifest.identifiers_told]
    exact Descriptor.Scorm.isIdentifier_of_mem_identifiers
  launches := forall₂_launches hp
  pages l hl := by
    rw [hcovers, PathScheme.mem_paths]
    exact Or.inr ⟨l, hl, "/index.html", by decide, launcherPath_eq hp hl⟩
  dependencies r hr d hd := by
    have hmem : d ∈ (manifest version p ctx).resources.flatMap (·.dependencies) :=
      List.mem_flatMap.mpr ⟨r, hr, hd⟩
    exact Descriptor.Scorm.mem_identifiers_of_mem_references ctx.metadata _ version _
      (List.mem_append_right _ hmem)
  files path hpath hfolder := by
    have hmem := @mem_files_manifest p ctx version hp path ((hcovers path).mp hpath) hfolder
    have hnodup := @nodup_files_manifest p ctx version hp
    obtain ⟨r, hr, hlisted⟩ := List.mem_flatMap.mp hmem
    refine ⟨r, Descriptor.Scorm.filter_contains_eq_singleton hnodup hr hlisted, ?_⟩
    exact List.count_eq_one_of_mem ((List.nodup_flatMap.mp hnodup).1 r hr) hlisted

/-- In a SCORM package of an accepted course, all attributes that are named so are different
identifiers, the items refer to the resources of their lessons, and each page is listed once. -/
theorem isCoherent_buildFiles (version : ScormVersion)
    (hp : Plan.ofCourse ctx.course = .ok p) :
    ∃ files text events m, (Exporter.ofFormat (.scorm version)).buildFiles ctx = .ok files ∧
      textAt? files "imsmanifest.xml" = some text ∧ Event.ofDocument text = .ok events ∧
      Descriptor.Scorm.ofDocument? text = some m ∧
      attributesNamed "identifier" events = m.identifiers ∧
      IsCoherent m p.lessons files.paths := by
  obtain ⟨files, hfiles⟩ := Exporter.exists_planFiles (.scorm version) hp
  obtain ⟨script, hholds⟩ := Scorm.exists_holds hfiles
  have hcovers := PathScheme.covers_of_holds hholds (Scorm.map_fst_texts hp)
  refine ⟨files, _, _, _, by rw [Exporter.buildFiles_eq hp, hfiles],
    textAt?_eq (hholds.get?_eq List.mem_cons_self), Manifest.events_document _,
    Descriptor.Scorm.ofDocument?_document _, ?_, Scorm.isCoherent_told hp hcovers⟩
  rw [Manifest.attributesNamed_identifier, Manifest.identifiers_told]

/-- The items of three lessons, without a name or with one that leads out of a folder, lead to
their own pages. -/
theorem isCoherent_buildFiles_dotted :
    ∃ files text events m, (Exporter.ofFormat (.scorm .v2004)).buildFiles dottedContext =
        .ok files ∧
      textAt? files "imsmanifest.xml" = some text ∧ Event.ofDocument text = .ok events ∧
      Descriptor.Scorm.ofDocument? text = some m ∧
      attributesNamed "identifier" events = m.identifiers ∧ m.lessonItems.length = 3 ∧
      IsCoherent m dottedPlan.lessons files.paths := by
  have hplan : Plan.ofCourse dottedContext.course = .ok dottedPlan := ofCourse_dottedCourse
  obtain ⟨files, text, events, m, hfiles, htext, hevents, hm, hread, hcoherent⟩ :=
    isCoherent_buildFiles .v2004 hplan
  exact ⟨files, text, events, m, hfiles, htext, hevents, hm, hread, hcoherent.launches.length_eq,
    hcoherent⟩

end Scorm

end Package

end Courseware
