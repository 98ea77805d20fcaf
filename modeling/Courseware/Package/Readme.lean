import Courseware.Format
import Courseware.Package.Exporter

/-!
The file `README.txt` of packages that are put into a host: what the package is, what it holds, and what to
do with it.
-/

namespace Courseware.Package

def textLine (s : String) : String := s ++ "\n"

def heading (s : String) : String :=
  textLine s ++ textLine (String.ofList (List.replicate (max s.length 1) '='))

/-- A line that is there only when it has a value. -/
def labelled (label : String) (value : Option String) : String :=
  match value with
  | some s => textLine (label ++ s)
  | none => ""

/-- A lesson in the table of contents, with the numbers of its module and its own. -/
def lessonLine (moduleNumber number : Nat) (l : Lesson) : String :=
  textLine ("   " ++ toString moduleNumber ++ "." ++ toString number ++ " " ++ l.title ++
    if 0 < l.duration then " (" ++ toString l.duration ++ " min)" else "")

/-- A module and its lessons in the table of contents. -/
def moduleLines (number : Nat) (m : PlannedModule) : String :=
  textLine (toString number ++ ". " ++ m.source.title) ++
    String.join (m.lessons.mapIdx fun i l => lessonLine number (i + 1) l.lesson)

/-- The text of the file; `steps` says what to do with the package. -/
def readme (p : Plan) (ctx : ExportContext) (format : Format) (steps : String) : String :=
  let course := p.course
  heading (Text.trim course.title) ++ "\n" ++
    textLine ("Version:   " ++ course.versionOrDefault) ++
    labelled "Author:    " course.metadata.author ++
    labelled "Publisher: " course.metadata.organization ++
    textLine ("Format:    " ++ format.displayName) ++
    textLine ("Generated: " ++ ctx.made.text) ++
    textLine ("Generator: " ++ generator) ++
    (if Text.blank course.description then ""
      else "\n" ++ textLine (Text.trim course.description)) ++
    "\nContents\n--------\n" ++
    String.join (p.filledModules.mapIdx fun i m => moduleLines (i + 1) m) ++
    "\nInstallation\n------------\n" ++ textLine steps ++
    match course.metadata.copyright with
    | some s => "\n" ++ textLine s
    | none => ""

end Courseware.Package
