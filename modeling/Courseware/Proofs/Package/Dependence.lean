import Courseware.Proofs.Package.Layout
import Courseware.Proofs.Time.Duration

/-!
# What packages depend on

The files of a package are made of the course, the settings and the time at which the
package is made. The time is told in one line or in one member of one file, and nowhere in
an xAPI package. Of the settings each format reads a few, and none for the open web.
-/

namespace Courseware

/-! ## Two texts -/

namespace Text

def lines (s : String) : List String :=
  (s.toList.splitOn '\n').map String.ofList

/-- A line between two texts is a line of the whole. -/
theorem lines_append_line {line : String} (h : '\n' ∉ line.toList) (before after : String) :
    lines (before ++ "\n" ++ (line ++ "\n") ++ after) = lines before ++ line :: lines after := by
  have hnewline : "\n".toList = ['\n'] := rfl
  have hline : line.toList.splitOn '\n' = [line.toList] := List.splitOn_eq_singleton h
  have hchars : (before ++ "\n" ++ (line ++ "\n") ++ after).toList =
      before.toList ++ '\n' :: (line.toList ++ '\n' :: after.toList) := by
    simp [hnewline]
  simp only [lines, hchars, List.splitOn_append_cons_self, hline, List.map_append,
    List.map_cons, String.ofList_toList, List.singleton_append]

/-- Whether two texts differ in one line alone. -/
def DifferInLine (line line' text text' : String) : Prop :=
  ∃ before after, lines text = before ++ line :: after ∧ lines text' = before ++ line' :: after

end Text

/-- Whether two texts are objects that differ in one member alone. -/
def Json.DifferInMember (name : String) (value value' : Json) (text text' : String) : Prop :=
  ∃ before after : List (String × Json), name ∉ (before ++ after).map Prod.fst ∧
    text = (Json.object (before ++ (name, value) :: after)).pretty ∧
    text' = (Json.object (before ++ (name, value') :: after)).pretty

/-! ## Two trees -/

namespace FileTree

/-- Whether two trees have the same paths, and under each path the same contents or texts
that differ as said. -/
structure SameBut (differ : String → String → String → Prop) (t t' : FileTree) : Prop where
  paths : t'.paths = t.paths
  files : ∀ path, t'.get? path = t.get? path ∨
    ∃ text text', t.get? path = some (Text.utf8 text) ∧ t'.get? path = some (Text.utf8 text') ∧
      differ path text text'

variable {differ : String → String → String → Prop} {t t' : FileTree}

theorem get?_eq_none_iff {path : String} : t.get? path = none ↔ path ∉ t.paths := by
  rw [mem_paths_iff, Option.eq_none_iff_forall_ne_some, not_exists]

/-- Trees with the same paths have them in the same order. -/
theorem paths_eq_of_mem_iff (h : ∀ path, path ∈ t'.paths ↔ path ∈ t.paths) :
    t'.paths = t.paths := by
  have hperm : t'.paths.Perm t.paths :=
    (List.perm_ext_iff_of_nodup t'.files.nodup_keys t.files.nodup_keys).mpr h
  have hordered (s : FileTree) : s.paths.Pairwise (· < ·) :=
    List.pairwise_map.mpr s.files.ordered
  exact hperm.eq_of_pairwise (fun a b _ _ hlt hgt => absurd hgt (String.lt_asymm hlt))
    (hordered t') (hordered t)

/-- Trees that hold the same texts but for those under one path. -/
theorem sameBut_of_holds {before after : List TextFile} {path text text' : String}
    (h : FileTree.empty.Holds t
      ((before ++ (path, text) :: after).map fun f => (f.1, Text.utf8 f.2)))
    (h' : FileTree.empty.Holds t'
      ((before ++ (path, text') :: after).map fun f => (f.1, Text.utf8 f.2)))
    (hdiffer : differ path text text') : SameBut differ t t' := by
  have hmem (other : String) : other ∈ t'.paths ↔ other ∈ t.paths := by
    simp only [h.mem_paths_iff, h'.mem_paths_iff, List.map_append, List.map_cons]
  refine ⟨paths_eq_of_mem_iff hmem, fun other => ?_⟩
  by_cases hother : other ∈ t.paths
  · obtain ⟨f, hf, rfl⟩ := List.mem_map.mp (h.mem_paths_iff.mp hother)
    have hself (text : String) : (path, text) ∈ before ++ (path, text) :: after :=
      List.mem_append_right before List.mem_cons_self
    -- The text that differs stands between those that are held alike.
    rcases List.mem_append.mp hf with hf | hf
    · left
      rw [h.get?_eq (List.mem_append_left _ hf), h'.get?_eq (List.mem_append_left _ hf)]
    · rcases List.mem_cons.mp hf with rfl | hf
      · exact Or.inr ⟨text, text', h.get?_eq (hself text), h'.get?_eq (hself text'), hdiffer⟩
      · have hrest (text : String) : f ∈ before ++ (path, text) :: after :=
          List.mem_append_right before (List.mem_cons_of_mem _ hf)
        left
        rw [h.get?_eq (hrest text), h'.get?_eq (hrest text')]
  · have hother' : other ∉ t'.paths := fun hmem' => hother ((hmem other).mp hmem')
    left
    rw [get?_eq_none_iff.mpr hother, get?_eq_none_iff.mpr hother']

theorem SameBut.refl (t : FileTree) : SameBut differ t t := ⟨rfl, fun _ => Or.inl rfl⟩

end FileTree

/-! ## The time -/

namespace Time

theorem newline_notMem_twoDigits (n : Nat) : '\n' ∉ (twoDigits n).toList :=
  fun hmem => absurd (isDigit_of_mem_twoDigits hmem) (by decide)

theorem newline_notMem_toDigits (n : Nat) : '\n' ∉ Nat.toDigits 10 n :=
  fun hmem => absurd (Nat.isDigit_of_mem_toDigits (by decide) (by decide) hmem) (by decide)

/-- A moment is told in one line. -/
theorem newline_notMem_text (t : Instant) : '\n' ∉ t.text.toList := by
  have hfour (n : Nat) : '\n' ∉ (Date.fourDigits n).toList := by
    simp [Date.fourDigits, newline_notMem_toDigits]
  have hyear (year : Int) : '\n' ∉ (Date.yearText year).toList := by
    rw [Date.yearText]
    split
    · exact hfour _
    · split <;> simp [hfour]
  simp [Instant.text, Date.text, hyear, newline_notMem_twoDigits]

end Time

namespace Package

open Text (DifferInLine)

/-- How a file of a package may differ from that of a package of the same course that is
made at another time. -/
def DifferInTime (f : Format) (made made' : Time.Instant) (path text text' : String) : Prop :=
  match f with
  | .scorm _ | .cmi5 => path = "README.txt" ∧
      DifferInLine ("Generated: " ++ made.text) ("Generated: " ++ made'.text) text text'
  | .html5 => path = "manifest.json" ∧
      Json.DifferInMember "generatedAt" (.string made.text) (.string made'.text) text text'
  | .xapi => False

section Readme

variable (p : Plan) (format : Format) (steps : String)

/-- What the file says before it tells the time. -/
def readmeOpening : String :=
  heading (Text.trim p.course.title) ++ "\n" ++
    textLine ("Version:   " ++ p.course.versionOrDefault) ++
    labelled "Author:    " p.course.metadata.author ++
    labelled "Publisher: " p.course.metadata.organization ++
    ("Format:    " ++ format.displayName)

/-- What the file says after it tells the time. -/
def readmeRest : String :=
  textLine ("Generator: " ++ generator) ++
    (if Text.blank p.course.description then ""
      else "\n" ++ textLine (Text.trim p.course.description)) ++
    "\nContents\n--------\n" ++
    String.join (p.filledModules.mapIdx fun i m => moduleLines (i + 1) m) ++
    "\nInstallation\n------------\n" ++ textLine steps ++
    match p.course.metadata.copyright with
    | some s => "\n" ++ textLine s
    | none => ""

theorem readme_eq (ctx : ExportContext) :
    readme p ctx format steps =
      readmeOpening p format ++ "\n" ++ ("Generated: " ++ ctx.made.text ++ "\n") ++
        readmeRest p steps := by
  -- The rights stand last, in both texts, so each case is a matter of brackets.
  cases hcopyright : p.course.metadata.copyright <;>
    simp only [readme, readmeOpening, readmeRest, textLine, hcopyright, String.append_assoc]

theorem differInLine_readme (ctx ctx' : ExportContext) :
    DifferInLine ("Generated: " ++ ctx.made.text) ("Generated: " ++ ctx'.made.text)
      (readme p ctx format steps) (readme p ctx' format steps) := by
  have hlines (ctx : ExportContext) : Text.lines (readme p ctx format steps) =
      Text.lines (readmeOpening p format) ++ ("Generated: " ++ ctx.made.text) ::
        Text.lines (readmeRest p steps) := by
    have hline : '\n' ∉ ("Generated: " ++ ctx.made.text).toList := by
      have hlabel : '\n' ∉ "Generated: ".toList := by decide
      simp only [String.toList_append, List.mem_append, not_or]
      exact ⟨hlabel, Time.newline_notMem_text ctx.made⟩
    rw [readme_eq, Text.lines_append_line hline]
  exact ⟨_, _, hlines ctx, hlines ctx'⟩

end Readme

section Times

variable (p : Plan) (c : Course) (s : Settings) (made made' : Time.Instant)

/-- The manifest of a SCORM package does not tell the time. -/
theorem Scorm.document_manifest_made (version : ScormVersion) :
    (Scorm.manifest version p ⟨c, s, made'⟩).document =
      (Scorm.manifest version p ⟨c, s, made⟩).document := by
  have hdocument (info : Descriptor.Metadata) (time : String) (o : Descriptor.Outline)
      (options : Descriptor.Scorm.Options) :
      (Descriptor.Scorm.Manifest.ofOutline { info with generatedAt := time } o version
        options).document =
        (Descriptor.Scorm.Manifest.ofOutline info o version options).document := rfl
  exact hdocument (.ofCourse c made) made'.text _ _

theorem Scorm.exists_packageFiles_made (version : ScormVersion) : ∃ before,
    Scorm.packageFiles version p ⟨c, s, made⟩ =
      .ok (before ++ [("README.txt", readme p ⟨c, s, made⟩ (.scorm version) Scorm.steps)]) ∧
    Scorm.packageFiles version p ⟨c, s, made'⟩ =
      .ok (before ++ [("README.txt", readme p ⟨c, s, made'⟩ (.scorm version) Scorm.steps)]) := by
  obtain ⟨script, hscript⟩ := Script.exists_scormScript version
  refine ⟨[(Scorm.manifestPath, (Scorm.manifest version p ⟨c, s, made⟩).document),
    (Scorm.scriptPath, script), (Scorm.stylesPath, Page.stylesheet),
    (Scorm.catalogPath, Descriptor.Scorm.catalog version)], ?_, ?_⟩
  · rw [Scorm.packageFiles, hscript]
    rfl
  · rw [Scorm.packageFiles, hscript, Scorm.document_manifest_made p c s made made']
    rfl

theorem Cmi5.courseStructure_made :
    Cmi5.courseStructure p ⟨c, s, made'⟩ = Cmi5.courseStructure p ⟨c, s, made⟩ := by
  have hstructure (info : Descriptor.Metadata) (time : String) (o : Descriptor.Outline)
      (ids : ActivityIds) (mastery : Option Decimal.Binary64) :
      Descriptor.Cmi5.CourseStructure.ofOutline { info with generatedAt := time } o ids mastery =
        .ofOutline info o ids mastery := rfl
  exact hstructure (.ofCourse c made) made'.text _ _ _

theorem Cmi5.exists_packageFiles_made : ∃ before,
    Cmi5.packageFiles p ⟨c, s, made⟩ =
      .ok (before ++ [("README.txt", readme p ⟨c, s, made⟩ .cmi5 Cmi5.steps)]) ∧
    Cmi5.packageFiles p ⟨c, s, made'⟩ =
      .ok (before ++ [("README.txt", readme p ⟨c, s, made'⟩ .cmi5 Cmi5.steps)]) := by
  obtain ⟨script, hscript⟩ := Script.exists_cmi5Script s.xapi c.languageOrDefault
  refine ⟨[(Cmi5.structurePath, (Cmi5.courseStructure p ⟨c, s, made⟩).document),
    (Cmi5.scriptPath, script), (Cmi5.stylesPath, Page.stylesheet)], ?_, ?_⟩
  · exact bind_eq_ok_iff.mpr ⟨script, hscript, rfl⟩
  · rw [Cmi5.packageFiles, Cmi5.courseStructure_made p c s made made']
    exact bind_eq_ok_iff.mpr ⟨script, hscript, rfl⟩

theorem Bundle.differInMember_document :
    Json.DifferInMember "generatedAt" (.string made.text) (.string made'.text)
      (Descriptor.Web.document (.ofCourse c made) (Bundle.outline p) Bundle.indexPath)
      (Descriptor.Web.document (.ofCourse c made') (Bundle.outline p) Bundle.indexPath) := by
  refine ⟨[("id", .string c.id), ("name", .string c.title),
      ("description", .string c.description), ("version", .string c.versionOrDefault),
      ("language", .string c.languageOrDefault)] ++
      (match c.metadata.author with
        | some author => [("author", .string author)]
        | none => []) ++ [("generator", .string generator)],
    [("startUrl", .string Bundle.indexPath),
      ("modules", .array ((Bundle.outline p).map Descriptor.Web.moduleJson))], ?_, ?_, ?_⟩
  · cases c.metadata.author <;> simp
  · cases h : c.metadata.author <;>
      simp [Descriptor.Web.document, Descriptor.Web.manifest, Descriptor.Metadata.ofCourse, h]
  · cases h : c.metadata.author <;>
      simp [Descriptor.Web.document, Descriptor.Web.manifest, Descriptor.Metadata.ofCourse, h]

theorem Bundle.exists_html5PackageFiles_made : ∃ after,
    Bundle.html5PackageFiles p ⟨c, s, made⟩ = .ok (("manifest.json",
      Descriptor.Web.document (.ofCourse c made) (Bundle.outline p) Bundle.indexPath) ::
        after) ∧
    Bundle.html5PackageFiles p ⟨c, s, made'⟩ = .ok (("manifest.json",
      Descriptor.Web.document (.ofCourse c made') (Bundle.outline p) Bundle.indexPath) ::
        after) := by
  obtain ⟨navigation, hnavigation⟩ := Script.exists_navigationScript c.id p.lessonIds
  refine ⟨[(Bundle.navigationPath, navigation), (Bundle.stylesPath, Page.stylesheet),
    (Bundle.indexPath, Bundle.indexPage p ⟨c, s, made⟩ [Bundle.navigationPath] [])], ?_, ?_⟩
  · exact bind_eq_ok_iff.mpr ⟨navigation, hnavigation, rfl⟩
  · exact bind_eq_ok_iff.mpr ⟨navigation, hnavigation, rfl⟩

theorem Bundle.activityList_made :
    Bundle.activityList p ⟨c, s, made'⟩ = Bundle.activityList p ⟨c, s, made⟩ := by
  have hactivities (info : Descriptor.Metadata) (time : String) (o : Descriptor.Outline)
      (ids : ActivityIds) (launch : String) :
      Descriptor.TinCan.ActivityList.ofOutline { info with generatedAt := time } o ids launch =
        .ofOutline info o ids launch := rfl
  exact hactivities (.ofCourse c made) made'.text _ _ _

theorem Bundle.xapiPackageFiles_made :
    Bundle.xapiPackageFiles p ⟨c, s, made'⟩ = Bundle.xapiPackageFiles p ⟨c, s, made⟩ := by
  rw [Bundle.xapiPackageFiles, Bundle.activityList_made p c s made made']
  rfl

end Times

/-! ## The settings -/

end Package

/-- Whether two settings agree in what the packages of a format are made of. -/
def Settings.AgreeFor (s s' : Settings) : Format → Prop
  | .scorm _ => min s'.scorm.passingScore 100 = min s.scorm.passingScore 100 ∧
      s'.scorm.timeLimit = s.scorm.timeLimit ∧ s'.scorm.allowReview = s.scorm.allowReview ∧
      s'.scorm.credit = s.scorm.credit
  | .xapi => s'.xapi.activityPrefix = s.xapi.activityPrefix ∧
      s'.xapi.verboseTracking = s.xapi.verboseTracking ∧ s'.xapi.endpoint = s.xapi.endpoint
  | .cmi5 => min s'.scorm.passingScore 100 = min s.scorm.passingScore 100 ∧
      s'.xapi.activityPrefix = s.xapi.activityPrefix ∧
      s'.xapi.verboseTracking = s.xapi.verboseTracking
  | .html5 => True

namespace Exporter

/-- Whether an exporter makes the same files of a plan in two contexts. -/
structure SameIn (e : Exporter) (p : Plan) (ctx ctx' : ExportContext) : Prop where
  packageFiles : e.packageFiles p ctx' = e.packageFiles p ctx
  lessonFiles : ∀ l, e.lessonFiles p l ctx' = e.lessonFiles p l ctx

variable {e : Exporter} {p : Plan} {ctx ctx' : ExportContext}

theorem SameIn.planFiles (h : e.SameIn p ctx ctx') : e.planFiles p ctx' = e.planFiles p ctx := by
  have hadd : e.addLesson p ctx' = e.addLesson p ctx := by
    funext files l
    rw [addLesson, addLesson, h.lessonFiles]
  rw [Exporter.planFiles, Exporter.planFiles, h.packageFiles, hadd]

/-- Trees of plans whose lessons have the same files, and of whose other files one differs. -/
theorem sameBut_planFiles {differ : String → String → String → Prop} {files files' : FileTree}
    {p' : Plan} (before : List TextFile) {after : List TextFile} {path text text' : String}
    {lessonTexts : PlannedLesson → List TextFile} (hlessons : p'.lessons = p.lessons)
    (hfiles : e.planFiles p ctx = .ok files) (hfiles' : e.planFiles p' ctx' = .ok files')
    (hpackage : e.packageFiles p ctx = .ok (before ++ (path, text) :: after))
    (hpackage' : e.packageFiles p' ctx' = .ok (before ++ (path, text') :: after))
    (hlesson : ∀ l ∈ p.lessons, e.lessonFiles p l ctx = .ok (lessonTexts l))
    (hlesson' : ∀ l ∈ p.lessons, e.lessonFiles p' l ctx' = .ok (lessonTexts l))
    (hdiffer : differ path text text') : files.SameBut differ files' := by
  have hholds := holds_of_planFiles hfiles hpackage hlesson
  have hholds' := holds_of_planFiles hfiles' hpackage' (hlessons ▸ hlesson')
  rw [hlessons, List.append_assoc, List.cons_append] at hholds'
  rw [List.append_assoc, List.cons_append] at hholds
  exact FileTree.sameBut_of_holds hholds hholds' hdiffer

end Exporter

namespace Package

section Settings

variable (p : Plan) (c : Course) {s s' : Settings} (made : Time.Instant)

theorem activityIds_eq (h : s'.xapi.activityPrefix = s.xapi.activityPrefix) :
    ExportContext.activityIds ⟨c, s', made⟩ = ExportContext.activityIds ⟨c, s, made⟩ := by
  rw [ExportContext.activityIds, ExportContext.activityIds, h]

theorem Scorm.sameIn (version : ScormVersion) (h : s.AgreeFor s' (.scorm version)) :
    (Scorm.exporter version).SameIn p ⟨c, s, made⟩ ⟨c, s', made⟩ := by
  obtain ⟨hscore, hlimit, hreview, hcredit⟩ := h
  have hpercent : s'.scorm.masteryPercent = s.scorm.masteryPercent := hscore
  refine ⟨?_, fun l => ?_⟩
  · have hmanifest : Scorm.manifest version p ⟨c, s', made⟩ =
        Scorm.manifest version p ⟨c, s, made⟩ := by
      rw [Scorm.manifest, Scorm.manifest, hpercent, hlimit]
      rfl
    change Scorm.packageFiles version p _ = Scorm.packageFiles version p _
    rw [Scorm.packageFiles, Scorm.packageFiles, hmanifest, readme_eq, readme_eq]
  · have hrecord : Script.scormLaunch l.lesson.id l.lesson.title "content.html" s'.scorm =
        Script.scormLaunch l.lesson.id l.lesson.title "content.html" s.scorm := by
      rw [Script.scormLaunch, Script.scormLaunch, hpercent, hlimit, hreview, hcredit]
    have hlauncher : Scorm.launcherPage ⟨c, s', made⟩ l = Scorm.launcherPage ⟨c, s, made⟩ l := by
      rw [Scorm.launcherPage, Scorm.launcherPage, hrecord]
      rfl
    change Except.ok [(_, Scorm.launcherPage ⟨c, s', made⟩ l), _] = _
    rw [hlauncher]
    rfl

theorem Cmi5.sameIn (h : s.AgreeFor s' .cmi5) :
    Cmi5.exporter.SameIn p ⟨c, s, made⟩ ⟨c, s', made⟩ := by
  obtain ⟨hscore, hprefix, hverbose⟩ := h
  have hmastery : Cmi5.mastery s' = Cmi5.mastery s := by
    have hpositive : 0 < s'.scorm.passingScore ↔ 0 < s.scorm.passingScore := by omega
    have hpercent : s'.scorm.masteryPercent = s.scorm.masteryPercent := hscore
    simp only [Cmi5.mastery, ScormSettings.mastery, hpositive, hpercent]
  have hids := activityIds_eq c made hprefix
  refine ⟨?_, fun l => ?_⟩
  · have hstructure : Cmi5.courseStructure p ⟨c, s', made⟩ =
        Cmi5.courseStructure p ⟨c, s, made⟩ := by
      rw [Cmi5.courseStructure, Cmi5.courseStructure, hmastery, hids]
      rfl
    have hscript : Script.cmi5Script s'.xapi c.languageOrDefault =
        Script.cmi5Script s.xapi c.languageOrDefault := by
      rw [Script.cmi5Script, Script.cmi5Script, hverbose]
    change Cmi5.packageFiles p _ = Cmi5.packageFiles p _
    rw [Cmi5.packageFiles, Cmi5.packageFiles, hstructure, readme_eq, readme_eq]
    change (Script.cmi5Script s'.xapi c.languageOrDefault >>= _) = _
    rw [hscript]
    rfl
  · have hpage : Cmi5.unitPage ⟨c, s', made⟩ l = Cmi5.unitPage ⟨c, s, made⟩ l := by
      rw [Cmi5.unitPage, Cmi5.unitPage, hmastery, hids]
      rfl
    change Except.ok [(_, Cmi5.unitPage ⟨c, s', made⟩ l)] = _
    rw [hpage]
    rfl

theorem Bundle.sameIn_xapi (h : s.AgreeFor s' .xapi) :
    Bundle.xapi.SameIn p ⟨c, s, made⟩ ⟨c, s', made⟩ := by
  obtain ⟨hstart, hverbose, hendpoint⟩ := h
  have hids := activityIds_eq c made hstart
  refine ⟨?_, fun l => rfl⟩
  have hactivities : Bundle.activityList p ⟨c, s', made⟩ = Bundle.activityList p ⟨c, s, made⟩ := by
    rw [Bundle.activityList, Bundle.activityList, hids]
    rfl
  have hwrapper (ids : ActivityIds) : Script.xapiScript s'.xapi ids c.languageOrDefault =
      Script.xapiScript s.xapi ids c.languageOrDefault := by
    rw [Script.xapiScript, Script.xapiScript, hverbose, hendpoint]
  change Bundle.xapiPackageFiles p _ = Bundle.xapiPackageFiles p _
  rw [Bundle.xapiPackageFiles, Bundle.xapiPackageFiles, hactivities, hids]
  change (Script.xapiScript s'.xapi _ c.languageOrDefault >>= _) = _
  rw [hwrapper]
  rfl

theorem Bundle.sameIn_html5 : Bundle.html5.SameIn p ⟨c, s, made⟩ ⟨c, s', made⟩ :=
  ⟨rfl, fun _ => rfl⟩

theorem sameIn_ofFormat (f : Format) (h : s.AgreeFor s' f) :
    (Exporter.ofFormat f).SameIn p ⟨c, s, made⟩ ⟨c, s', made⟩ := by
  cases f with
  | scorm version => exact Scorm.sameIn p c made version h
  | xapi => exact Bundle.sameIn_xapi p c made h
  | cmi5 => exact Cmi5.sameIn p c made h
  | html5 => exact Bundle.sameIn_html5 p c made

end Settings

/-! ## Packages -/

variable {c : Course} {s : Settings} {p : Plan} {made made' : Time.Instant}
  {files files' : FileTree}

/-- An xAPI package does not tell the time. -/
theorem planFiles_xapi_made (p : Plan) (c : Course) (s : Settings) (made made' : Time.Instant) :
    Bundle.xapi.planFiles p ⟨c, s, made'⟩ = Bundle.xapi.planFiles p ⟨c, s, made⟩ :=
  Exporter.SameIn.planFiles ⟨Bundle.xapiPackageFiles_made p c s made made', fun _ => rfl⟩

theorem sameBut_made (f : Format)
    (hfiles : (Exporter.ofFormat f).planFiles p ⟨c, s, made⟩ = .ok files)
    (hfiles' : (Exporter.ofFormat f).planFiles p ⟨c, s, made'⟩ = .ok files') :
    files.SameBut (DifferInTime f made made') files' := by
  cases f with
  | scorm version =>
    obtain ⟨before, hpackage, hpackage'⟩ :=
      Scorm.exists_packageFiles_made p c s made made' version
    exact Exporter.sameBut_planFiles before rfl hfiles hfiles' hpackage hpackage' (fun _ _ => rfl)
      (fun _ _ => rfl) ⟨rfl, differInLine_readme p _ _ ⟨c, s, made⟩ ⟨c, s, made'⟩⟩
  | xapi =>
    have hsame : files' = files := Except.ok.inj <| by
      rw [← hfiles, ← hfiles']
      exact planFiles_xapi_made p c s made made'
    rw [hsame]
    exact FileTree.SameBut.refl files
  | cmi5 =>
    obtain ⟨before, hpackage, hpackage'⟩ := Cmi5.exists_packageFiles_made p c s made made'
    exact Exporter.sameBut_planFiles before rfl hfiles hfiles' hpackage hpackage' (fun _ _ => rfl)
      (fun _ _ => rfl) ⟨rfl, differInLine_readme p _ _ ⟨c, s, made⟩ ⟨c, s, made'⟩⟩
  | html5 =>
    obtain ⟨after, hpackage, hpackage'⟩ := Bundle.exists_html5PackageFiles_made p c s made made'
    exact Exporter.sameBut_planFiles [] rfl hfiles hfiles' hpackage hpackage'
      (fun _ _ => rfl) (fun _ _ => rfl) ⟨rfl, Bundle.differInMember_document p c made made'⟩

/-- What the package of a course with a plan depends on besides the course. At another time
it has the same paths and the same files, but for the line or the member that tells the
time; an xAPI package is the same at any time. With other settings that agree in what the
format reads of them, it is the same as well. -/
theorem buildFiles_depends_on (f : Format) (hp : Plan.ofCourse c = .ok p) (s : Settings)
    (made : Time.Instant) :
    ∃ files, (Exporter.ofFormat f).buildFiles ⟨c, s, made⟩ = .ok files ∧
      (∀ made', ∃ files', (Exporter.ofFormat f).buildFiles ⟨c, s, made'⟩ = .ok files' ∧
        files.SameBut (DifferInTime f made made') files' ∧ (f = .xapi → files' = files)) ∧
      ∀ s', s.AgreeFor s' f → (Exporter.ofFormat f).buildFiles ⟨c, s', made⟩ = .ok files := by
  have hbuild (s' : Settings) (made' : Time.Instant) :
      (Exporter.ofFormat f).buildFiles ⟨c, s', made'⟩ =
        (Exporter.ofFormat f).planFiles p ⟨c, s', made'⟩ := Exporter.buildFiles_eq hp
  obtain ⟨files, hfiles⟩ := @Exporter.exists_planFiles ⟨c, s, made⟩ f p hp
  refine ⟨files, by rw [hbuild, hfiles], fun made' => ?_, fun s' hagree => ?_⟩
  · obtain ⟨files', hfiles'⟩ := @Exporter.exists_planFiles ⟨c, s, made'⟩ f p hp
    refine ⟨files', by rw [hbuild, hfiles'], sameBut_made f hfiles hfiles', ?_⟩
    rintro rfl
    exact Except.ok.inj <| by
      rw [← hfiles, ← hfiles']
      exact planFiles_xapi_made p c s made made'
  · rw [hbuild, (sameIn_ofFormat p c made f hagree).planFiles, hfiles]

/-- The next day a package tells another time in its file `README.txt` alone, and settings
that it does not read leave it as it is. -/
theorem buildFiles_depends_on_dotted :
    Plan.ofCourse dottedCourse = .ok dottedPlan ∧
      ∃ files later, (Exporter.ofFormat (.scorm .v12)).buildFiles dottedContext = .ok files ∧
        (Exporter.ofFormat (.scorm .v12)).buildFiles ⟨dottedCourse, {}, ⟨86400, false⟩⟩ =
          .ok later ∧
        files.SameBut (DifferInTime (.scorm .v12) ⟨0, false⟩ ⟨86400, false⟩) later ∧
        (Exporter.ofFormat (.scorm .v12)).buildFiles
          ⟨dottedCourse, Settings.withActivityPrefix {} "https://acts.test", ⟨0, false⟩⟩ =
            .ok files := by
  obtain ⟨files, hfiles, htimes, hsettings⟩ :=
    buildFiles_depends_on (.scorm .v12) ofCourse_dottedCourse {} ⟨0, false⟩
  obtain ⟨later, hlater, hsame, -⟩ := htimes ⟨86400, false⟩
  exact ⟨ofCourse_dottedCourse, files, later, hfiles, hlater, hsame,
    hsettings _ ⟨rfl, rfl, rfl, rfl⟩⟩

end Package

end Courseware
