import Courseware.Descriptor.Cmi5
import Courseware.Package.Readme
import Courseware.Page.Lesson
import Courseware.Page.Shell
import Courseware.Page.Stylesheet
import Courseware.Script.Config

/-!
The cmi5 packages. Each lesson is a unit with a page of its own, which carries its launch record and its
content.
-/

namespace Courseware.Package.Cmi5

open Markup Markup.Html

def structurePath : String := "cmi5.xml"

def scriptPath : String := "shared/js/cmi5-au.js"

def stylesPath : String := "shared/css/styles.css"

/-- How the page of a unit leads back to the root of the package. -/
def root : String := "../../"

def unitPath (l : PlannedLesson) : String := "au/" ++ l.segment ++ "/index.html"

/-- The score to pass with; none when any score passes. -/
def mastery (s : Settings) : Option Decimal.Binary64 :=
  if 0 < s.scorm.passingScore then some s.scorm.mastery else none

def courseStructure (p : Plan) (ctx : ExportContext) : Descriptor.Cmi5.CourseStructure :=
  .ofOutline ctx.metadata (p.outline unitPath fun _ => []) ctx.activityIds (mastery ctx.settings)

/-- What to do with the package. -/
def steps : String :=
  "Import this zip file into a cmi5-conformant LMS. The LMS reads cmi5.xml\n" ++
    "from the root of the archive and launches each assignable unit with its\n" ++
    "endpoint, fetch URL, actor and registration."

/-- The files that there are once. -/
def packageFiles (p : Plan) (ctx : ExportContext) : Except Failure (List TextFile) := do
  let script ← Script.cmi5Script ctx.settings.xapi ctx.language
  return [
    (structurePath, (courseStructure p ctx).document),
    (scriptPath, script),
    (stylesPath, Page.stylesheet),
    ("README.txt", readme p ctx .cmi5 steps)]

def exitButton : List Token :=
  line (element "p" [fixed "class" "lesson-exit"]
    (element "button"
      [fixed "type" "button", fixed "class" "button", fixed "onclick" "cmi5Exit()"]
      [text "Exit lesson"]))

def unitPage (ctx : ExportContext) (l : PlannedLesson) : String :=
  let record :=
    Script.cmi5Launch (ctx.activityIds.forLesson l.lesson.id) l.lesson.id (mastery ctx.settings)
  { title := l.lesson.title
    language := ctx.language
    stylesheet := some (root ++ stylesPath)
    inlineScripts := [Script.launchCode record]
    scripts := [root ++ scriptPath]
    bodyAttributes := [("data-lesson-id", l.lesson.id)] : Page.Shell }.document
    (Page.lessonBody .cmi5 l ++ exitButton)

def exporter : Exporter where
  format := .cmi5
  problems _ := []
  notes _ := []
  packageFiles := packageFiles
  lessonFiles _ l ctx := .ok [(unitPath l, unitPage ctx l)]

end Courseware.Package.Cmi5
