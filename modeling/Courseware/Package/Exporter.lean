import Courseware.Package.FileTree
import Courseware.Plan
import Courseware.Settings

/-!
Exporters: what makes the files of a package in one format. All else of an export is the same for every
format.
-/

namespace Courseware

/-- What an export reads. -/
structure ExportContext where
  course : Course
  settings : Settings
  /-- When the package is made; descriptors and archive entries tell. -/
  made : Time.Instant

/-- A file of a package that is text: its path and its contents. -/
abbrev TextFile := String × String

/-- What makes the files of a package. -/
structure Exporter where
  format : Format
  /-- What the format requires of a course beyond what every format does. -/
  problems : Course → List String
  /-- Remarks on how settings apply to the format. -/
  notes : Settings → List String
  /-- The files that there are once in a package. -/
  packageFiles : Plan → ExportContext → Except Failure (List TextFile)
  /-- The files of a lesson. -/
  lessonFiles : Plan → PlannedLesson → ExportContext → Except Failure (List TextFile)

namespace ExportContext

def language (ctx : ExportContext) : String := ctx.course.languageOrDefault

def activityIds (ctx : ExportContext) : ActivityIds :=
  .ofCourse ctx.settings.xapi.activityPrefix ctx.course.id

def metadata (ctx : ExportContext) : Descriptor.Metadata :=
  .ofCourse ctx.course ctx.made

end ExportContext

/-- Adds text files one after the other. -/
def FileTree.insertTexts (t : FileTree) (files : List TextFile) : Except Failure FileTree :=
  t.insertAll (files.map fun f => (f.1, Text.utf8 f.2))

end Courseware
