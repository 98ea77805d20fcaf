import Courseware.Package.Archive
import Courseware.Package.Bundle
import Courseware.Package.Cmi5
import Courseware.Package.Scorm

/-!
Exporting a course: it is checked, planned, turned into files and packed. An export always has a result,
which tells either the package or why there is none.
-/

namespace Courseware

/-- What is wrong with a course in every format. -/
def Course.problems (c : Course) : List String :=
  (if Text.blank c.title then ["Course title is required"] else []) ++
    if c.modules.isEmpty then ["Course must have at least one module"]
    else if c.lessonCount = 0 then ["Course must have at least one lesson"]
    else []

/-- The code of an export whose course has problems. -/
def validationError : String := "VALIDATION_ERROR"

/-- What an export counts. -/
structure ExportStats where
  /-- The number of files. -/
  totalItems : Nat := 0
  /-- The size of the archive in bytes. -/
  totalSize : Nat := 0
  /-- The number of warnings. -/
  warningCount : Nat := 0
  warnings : List String := []
  deriving Repr

/-- A finished package. -/
structure ExportedPackage where
  archive : Bytes
  filename : String
  mimeType : String
  stats : ExportStats

/-- The result of an export. -/
inductive ExportResult
  | success (package : ExportedPackage)
  | failure (cause : Failure) (code : String) (stats : ExportStats)

namespace ExportResult

def stats : ExportResult → ExportStats
  | success p => p.stats
  | failure _ _ s => s

def code? : ExportResult → Option String
  | success _ => none
  | failure _ code _ => some code

end ExportResult

def Exporter.ofFormat : Format → Exporter
  | .scorm version => Package.Scorm.exporter version
  | .xapi => Package.Bundle.xapi
  | .cmi5 => Package.Cmi5.exporter
  | .html5 => Package.Bundle.html5

def Exporter.ofName? (name : String) : Option Exporter :=
  (Format.ofName? name).map ofFormat

namespace Exporter

/-- What is wrong with a course in the exporter's format. -/
def courseProblems (e : Exporter) (c : Course) : List String :=
  c.problems ++ e.problems c

def addLesson (e : Exporter) (p : Plan) (ctx : ExportContext) (files : FileTree)
    (l : PlannedLesson) : Except Failure FileTree := do
  let texts ← e.lessonFiles p l ctx
  files.insertTexts texts

def planFiles (e : Exporter) (p : Plan) (ctx : ExportContext) : Except Failure FileTree := do
  let texts ← e.packageFiles p ctx
  let files ← FileTree.empty.insertTexts texts
  p.lessons.foldlM (e.addLesson p ctx) files

/-- The files of a package, whatever is wrong with the course otherwise. -/
def buildFiles (e : Exporter) (ctx : ExportContext) : Except Failure FileTree := do
  let p ← Plan.ofCourse ctx.course
  e.planFiles p ctx

/-- The warnings on a package and the remarks on its settings. -/
def warnings (e : Exporter) (p : Plan) (s : Settings) : List String :=
  p.warnings.map Warning.message ++ e.notes s

/-- Makes the package of a course without problems. -/
def makePackage (e : Exporter) (ctx : ExportContext) : Except Failure ExportedPackage := do
  let p ← Plan.ofCourse ctx.course
  let files ← e.planFiles p ctx
  let archive ← Package.pack files ctx.settings.packaging ctx.made
  return {
    archive
    filename := Time.fileName ctx.course.title (some e.format.id) e.format.extension ctx.made.date
    mimeType := e.format.mimeType
    stats :=
      { totalItems := files.size
        totalSize := archive.length
        warningCount := (e.warnings p ctx.settings).length
        warnings := e.warnings p ctx.settings } }

def exportCourse (e : Exporter) (ctx : ExportContext) : ExportResult :=
  let problems := e.courseProblems ctx.course
  if problems.isEmpty then
    match e.makePackage ctx with
    | .ok package => .success package
    | .error cause => .failure cause e.format.errorCode {}
  else .failure (.invalid problems) validationError {}

end Exporter

end Courseware
